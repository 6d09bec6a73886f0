import TapeLang.Leb128

/-!
# Instructions

The WebAssembly instructions that programs are compiled to.

* `Instr.encode`: an opcode and its immediates. Indices, depths and offsets are unsigned, constants are
  signed, and blocks have the type of neither taking nor giving values.
* `Instr.read?`: the instruction at the start of some bytes.
* `Code`: instructions with their blocks nested, and `Code.ofInstrs?`, which nests the instructions of
  a function body.
-/

namespace TapeLang.Wasm

/-- An instruction that opens or closes no block. -/
inductive Op where
  | localGet (index : UInt32)
  | localSet (index : UInt32)
  | const (value : Int32)
  /-- Pops an address and pushes the byte at `address + offset`, sign-extended. -/
  | load8s (offset : UInt32)
  /-- Pops an address and pushes the byte at `address + offset`, zero-extended. -/
  | load8u (offset : UInt32)
  /-- Pops a value and an address and stores the low byte of the value at `address + offset`. -/
  | store8 (offset : UInt32)
  | add
  /-- Pops a value and pushes whether it is zero. -/
  | eqz
  | call (index : UInt32)
  /-- Pops a value and branches out of `depth` blocks if it is not zero. -/
  | brIf (depth : UInt32)
  | drop
  | ret
  deriving DecidableEq, Repr

/-- An instruction of a function body. -/
inductive Instr where
  | op (op : Op)
  /-- Opens a block; a branch to it goes to its end. -/
  | block
  /-- Opens a block; a branch to it goes back to its start. -/
  | loop
  /-- Closes the innermost block, or the body. -/
  | close
  deriving DecidableEq, Repr

/-! ## Opcodes -/

/-- The opcode of an instruction. -/
def Op.opcode : Op → UInt8
  | localGet _ => 0x20
  | localSet _ => 0x21
  | const _ => 0x41
  | load8s _ => 0x2c
  | load8u _ => 0x2d
  | store8 _ => 0x3a
  | add => 0x6a
  | eqz => 0x45
  | call _ => 0x10
  | brIf _ => 0x0d
  | drop => 0x1a
  | ret => 0x0f

namespace Instr

def opcode : Instr → UInt8
  | op o => o.opcode
  | block => 0x02
  | loop => 0x03
  | close => 0x0b

/-- The name of an opcode, empty for those that no instruction has. -/
def nameOfOpcode : UInt8 → String
  | 0x02 => "block"
  | 0x03 => "loop"
  | 0x0b => "end"
  | 0x0d => "br_if"
  | 0x0f => "return"
  | 0x10 => "call"
  | 0x1a => "drop"
  | 0x20 => "local.get"
  | 0x21 => "local.set"
  | 0x2c => "i32.load8_s"
  | 0x2d => "i32.load8_u"
  | 0x3a => "i32.store8"
  | 0x41 => "i32.const"
  | 0x45 => "i32.eqz"
  | 0x6a => "i32.add"
  | _ => ""

/-- The instruction with a name, given the operand to use if it takes one. -/
def ofName? (name : String) (operand : Int) : Option Instr :=
  let index := UInt32.ofInt operand
  match name with
  | "block" => some block
  | "loop" => some loop
  | "end" => some close
  | "br_if" => some (op (.brIf index))
  | "return" => some (op .ret)
  | "call" => some (op (.call index))
  | "drop" => some (op .drop)
  | "local.get" => some (op (.localGet index))
  | "local.set" => some (op (.localSet index))
  | "i32.load8_s" => some (op (.load8s index))
  | "i32.load8_u" => some (op (.load8u index))
  | "i32.store8" => some (op (.store8 index))
  | "i32.const" => some (op (.const (Int32.ofInt operand)))
  | "i32.eqz" => some (op .eqz)
  | "i32.add" => some (op .add)
  | _ => none

end Instr

/-! ## Bytes -/

/-- The type of a block that neither takes nor gives values. -/
def emptyBlockType : UInt8 := 0x40

/-- The immediates of an instruction. A byte needs no alignment, so the alignment is always zero. -/
def Op.immediates : Op → List UInt8
  | localGet i | localSet i | call i | brIf i => Leb128.ofUInt32 i
  | const v => Leb128.ofInt32 v
  | load8s o | load8u o | store8 o => 0 :: Leb128.ofUInt32 o
  | add | eqz | drop | ret => []

namespace Instr

def encode : Instr → List UInt8
  | op o => o.opcode :: o.immediates
  | block => [0x02, emptyBlockType]
  | loop => [0x03, emptyBlockType]
  | close => [0x0b]

/-- The bytes of instructions in a row. -/
def encodeAll (is : List Instr) : List UInt8 :=
  is.flatMap encode

/-- Reads an unsigned immediate and makes an instruction of it. -/
def readIndex? (make : UInt32 → Op) (bytes : List UInt8) : Option (Instr × List UInt8) :=
  let r := Leb128.readUInt32 bytes
  match r.result with
  | .ok (i, _) => some (op (make i), r.rest)
  | .error _ => none

/-- Reads a signed immediate and makes an instruction of it. -/
def readConst? (bytes : List UInt8) : Option (Instr × List UInt8) :=
  let r := Leb128.readInt32 bytes
  match r.result with
  | .ok (v, _) => some (op (.const v), r.rest)
  | .error _ => none

/-- Reads an alignment and an offset and makes an instruction of the offset. -/
def readOffset? (make : UInt32 → Op) (bytes : List UInt8) : Option (Instr × List UInt8) :=
  let align := Leb128.readUInt32 bytes
  match align.result with
  | .ok (0, _) => readIndex? make align.rest
  | _ => none

/-- Reads the type of a block. -/
def readBlock? (i : Instr) : List UInt8 → Option (Instr × List UInt8)
  | b :: bytes => if b = emptyBlockType then some (i, bytes) else none
  | [] => none

/-- The instruction at the start of some bytes, and the bytes after it. -/
def read? : List UInt8 → Option (Instr × List UInt8)
  | [] => none
  | b :: bytes =>
    match b with
    | 0x02 => readBlock? block bytes
    | 0x03 => readBlock? loop bytes
    | 0x0b => some (close, bytes)
    | 0x0d => readIndex? .brIf bytes
    | 0x0f => some (op .ret, bytes)
    | 0x10 => readIndex? .call bytes
    | 0x1a => some (op .drop, bytes)
    | 0x20 => readIndex? .localGet bytes
    | 0x21 => readIndex? .localSet bytes
    | 0x2c => readOffset? .load8s bytes
    | 0x2d => readOffset? .load8u bytes
    | 0x3a => readOffset? .store8 bytes
    | 0x41 => readConst? bytes
    | 0x45 => some (op .eqz, bytes)
    | 0x6a => some (op .add, bytes)
    | _ => none

/-- Splits bytes into at most `most` instructions, with none left over, after those of `before`, last
one first. -/
def readOnto (before : List Instr) : (most : Nat) → List UInt8 → Option (List Instr)
  | _, [] => some before.reverse
  | 0, _ :: _ => none
  | most + 1, b :: bytes =>
    match read? (b :: bytes) with
    | none => none
    | some (i, rest) => readOnto (i :: before) most rest

/-- The instructions that some bytes split into, with none left over. An instruction has at least one
byte, so there are at most as many as bytes. -/
def readAll? (bytes : List UInt8) : Option (List Instr) :=
  readOnto [] bytes.length bytes

end Instr

/-! ## Nested blocks -/

/-- Instructions with their blocks nested. Every constructor but `done` holds what comes after it. -/
inductive Code where
  | done
  | op (op : Op) (next : Code)
  | block (body next : Code)
  | loop (body next : Code)
  deriving DecidableEq, Repr

namespace Code

/-- The instructions of the first code in reverse order, then the second. -/
def reverseOnto : Code → Code → Code
  | done, q => q
  | op o p, q => p.reverseOnto (op o q)
  | block b p, q => p.reverseOnto (block b q)
  | loop b p, q => p.reverseOnto (loop b q)

/-- Nests instructions inside the blocks `opened`, the innermost first: whether each is a loop, and what
stands in front of it, last instruction first. `body` is what has been read of the innermost one. -/
def nest (opened : List (Bool × Code)) (body : Code) : List Instr → Option Code
  | [] => none
  | .op o :: is => nest opened (op o body) is
  | .block :: is => nest ((false, body) :: opened) done is
  | .loop :: is => nest ((true, body) :: opened) done is
  | .close :: is =>
    match opened with
    | [] => if is = [] then some (body.reverseOnto done) else none
    | (isLoop, before) :: opened =>
      let inner := body.reverseOnto done
      nest opened (if isLoop then loop inner before else block inner before) is

/-- The code of a function body, which the last instruction closes. -/
def ofInstrs? (is : List Instr) : Option Code :=
  nest [] done is

end Code

end TapeLang.Wasm
