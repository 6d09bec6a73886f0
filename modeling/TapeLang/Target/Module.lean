import TapeLang.Program
import TapeLang.Wasm.Binary
import TapeLang.Wasm.Instr

/-!
# Programs as WebAssembly modules

A module imports `print` and `read` from one module and exports `main` and `memory`. Calling `main`
runs the program on the memory, whose first page is the tape, and gives back the pointer.

* `Program.instrs`: the instructions of a program. The pointer is a local of 32 bits. An offset
  immediate is unsigned, so a negative address is added to the pointer instead.
* `Program.mainBody`: the function that runs a program.
* `Program.assemble`: the whole module.
-/

namespace TapeLang

/-- The local that holds the pointer. -/
def pointerLocal : UInt32 := 0

def printIndex : UInt32 := 0

def readIndex : UInt32 := 1

def mainIndex : UInt32 := 2

open Wasm in
/-- Pushes what to add the offset of `addressOffset` to. -/
def addressOps (addr : Int64) : List Op :=
  if 0 ≤ addr then [.localGet pointerLocal] else [.localGet pointerLocal, .const addr.toInt32, .add]

/-- The offset immediate for a cell. -/
def addressOffset (addr : Int64) : UInt32 :=
  if 0 ≤ addr then addr.toUInt64.toUInt32 else 0

open Wasm in
/-- The instructions of an operation on the cell at `addr`, which open no block. A kind without meaning
has none. -/
def CellOp.ops (addr : Int64) : CellOp → List Op
  | .add v =>
    addressOps addr ++ addressOps addr ++
      [.load8u (addressOffset addr), .const v.toInt32, .add, .store8 (addressOffset addr)]
  | .set v => addressOps addr ++ [.const v.toInt32, .store8 (addressOffset addr)]
  | .print _ => addressOps addr ++ [.load8u (addressOffset addr), .call printIndex]
  | .read _ => addressOps addr ++ [.call readIndex, .store8 (addressOffset addr)]
  | .unknown _ _ => []

namespace Program

open Wasm in
/-- The instructions of a program, in front of `rest`. A loop looks at its cell before the first round
and after each. -/
def instrsOnto (rest : List Instr) : Program → List Instr
  | done => rest
  | move d p =>
    .op (.localGet pointerLocal) :: .op (.const d.toInt32) :: .op .add ::
      .op (.localSet pointerLocal) :: p.instrsOnto rest
  | cell a op p => (op.ops a).map .op ++ p.instrsOnto rest
  | loop b p =>
    .block :: .op (.localGet pointerLocal) :: .op (.load8u 0) :: .op .eqz :: .op (.brIf 0) ::
      .loop :: b.instrsOnto
        (.op (.localGet pointerLocal) :: .op (.load8u 0) :: .op (.brIf 0) :: .close ::
          .close :: p.instrsOnto rest)

open Wasm in
/-- The instructions of `main`: the program, and the return of the pointer. -/
def mainInstrs (p : Program) : List Instr :=
  p.instrsOnto [.op (.localGet pointerLocal), .op .ret, .close]

/-- The function `main`. -/
def mainBody (p : Program) : Wasm.FuncBody :=
  { locals := [Wasm.ValueType.i32], body := Wasm.Instr.encodeAll p.mainInstrs }

end Program

/-- What a module is made with besides the program. -/
structure ModuleSettings where
  /-- The bytes of a name. -/
  importModule : List UInt8 := []
  memoryPages : UInt32 := 0
  deriving DecidableEq, Repr

/-- The module that functions are imported from unless another is given. -/
def defaultImportModule : List UInt8 := "bfc".toUTF8.toList

/-- The size of the memory unless another is given, which is that of the tape. -/
def defaultMemoryPages : UInt32 := 1

namespace ModuleSettings

/-- The settings with the defaults in place of what is empty or zero. -/
def resolve (s : ModuleSettings) : ModuleSettings where
  importModule := if s.importModule = [] then defaultImportModule else s.importModule
  memoryPages := if s.memoryPages = 0 then defaultMemoryPages else s.memoryPages

end ModuleSettings

namespace Program

/-- The functions that a module imports. -/
def imports (importModule : List UInt8) : List Wasm.FuncImport :=
  [⟨importModule, "print".toUTF8.toList, 0⟩, ⟨importModule, "read".toUTF8.toList, 1⟩]

open Wasm in
/-- The sections of the module of a program. -/
def sections (p : Program) (settings : ModuleSettings) : List Section :=
  let s := settings.resolve
  [⟨SectionId.type, typePayload [⟨[ValueType.i32], []⟩, ⟨[], [ValueType.i32]⟩, ⟨[], [ValueType.i32]⟩]⟩,
    ⟨SectionId.imports, importPayload (imports s.importModule)⟩,
    ⟨SectionId.function, functionPayload [2]⟩,
    ⟨SectionId.memory, memoryPayload [{ min := s.memoryPages }]⟩,
    ⟨SectionId.exports, exportPayload
      [⟨"main".toUTF8.toList, ItemKind.func, mainIndex⟩, ⟨"memory".toUTF8.toList, ItemKind.memory, 0⟩]⟩,
    ⟨SectionId.code, codePayload [p.mainBody]⟩]

/-- The module of a program. -/
def assemble (p : Program) (settings : ModuleSettings) : List UInt8 :=
  Wasm.encodeModule (p.sections settings)

end Program

end TapeLang
