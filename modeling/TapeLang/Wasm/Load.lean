import TapeLang.Wasm.Binary
import TapeLang.Wasm.Exec

/-!
# Reading a module

The contents of the sections that describe types, imports, functions, memories, exports and code.

* `readVector?`: a list, item by item.
* `typesOf?`, `importsOf?`, ... : what a section holds, of which no byte may be left over.
* `Module.load`: a module from its bytes. That names are texts, and the size of a memory, is checked
  here.
-/

namespace TapeLang.Wasm

/-! ## Parts of a section -/

/-- Reads something at the start of some bytes, and gives the bytes after it. -/
abbrev Reader (α : Type) := List UInt8 → Option (α × List UInt8)

def readByte? : Reader UInt8
  | [] => none
  | b :: bytes => some (b, bytes)

def readUInt32? : Reader UInt32 := fun bytes =>
  let r := Leb128.readUInt32 bytes
  match r.result with
  | .ok (n, _) => some (n, r.rest)
  | .error _ => none

/-- Reads `n` items in a row, after those of `before`, last one first. -/
def readItems? {α : Type} (item : Reader α) (before : List α) : Nat → Reader (List α)
  | 0, bytes => some (before.reverse, bytes)
  | n + 1, bytes =>
    match item bytes with
    | none => none
    | some (x, rest) => readItems? item (x :: before) n rest

/-- Reads a list: its length, and then its items. -/
def readVector? {α : Type} (item : Reader α) : Reader (List α) := fun bytes =>
  match readUInt32? bytes with
  | none => none
  | some (n, rest) => readItems? item [] n.toNat rest

/-- Reads bytes that have their number in front. -/
def readSized? : Reader (List UInt8) := fun bytes =>
  match readUInt32? bytes with
  | none => none
  | some (n, rest) =>
    if n.toNat ≤ rest.length then some (rest.take n.toNat, rest.drop n.toNat) else none

/-- What a reader makes of all of some bytes. -/
def readWhole? {α : Type} (read : Reader α) (bytes : List UInt8) : Option α :=
  match read bytes with
  | some (x, []) => some x
  | _ => none

def readFuncType? : Reader FuncType := fun bytes => do
  let (form, bytes) ← readByte? bytes
  guard (form = 0x60)
  let (params, bytes) ← readSized? bytes
  let (results, bytes) ← readSized? bytes
  return (⟨params, results⟩, bytes)

def readFuncImport? : Reader FuncImport := fun bytes => do
  let (module, bytes) ← readSized? bytes
  let (name, bytes) ← readSized? bytes
  let (kind, bytes) ← readByte? bytes
  guard (kind = ItemKind.func)
  let (index, bytes) ← readUInt32? bytes
  return (⟨module, name, index⟩, bytes)

def readLimits? : Reader Limits := fun bytes => do
  let (form, bytes) ← readByte? bytes
  let (min, bytes) ← readUInt32? bytes
  if form = 0x00 then return ({ min }, bytes)
  guard (form = 0x01)
  let (max, bytes) ← readUInt32? bytes
  return ({ min, max := some max }, bytes)

def readExport? : Reader Export := fun bytes => do
  let (name, bytes) ← readSized? bytes
  let (kind, bytes) ← readByte? bytes
  let (index, bytes) ← readUInt32? bytes
  return (⟨name, kind, index⟩, bytes)

/-- Reads a run of locals of one type. -/
def readLocalRun? : Reader (Nat × ValueType) := fun bytes => do
  let (n, bytes) ← readUInt32? bytes
  let (t, bytes) ← readByte? bytes
  return ((n.toNat, t), bytes)

/-- The locals that some runs stand for. -/
def expandRuns (runs : List (Nat × ValueType)) : List ValueType :=
  runs.flatMap fun (n, t) => List.replicate n t

def readFuncBody? : Reader FuncBody := fun bytes => do
  let (function, bytes) ← readSized? bytes
  let (runs, body) ← readVector? readLocalRun? function
  return (⟨expandRuns runs, body⟩, bytes)

/-! ## Payloads -/

def typesOf? : List UInt8 → Option (List FuncType) :=
  readWhole? (readVector? readFuncType?)

def importsOf? : List UInt8 → Option (List FuncImport) :=
  readWhole? (readVector? readFuncImport?)

def functionsOf? : List UInt8 → Option (List UInt32) :=
  readWhole? (readVector? readUInt32?)

def memoriesOf? : List UInt8 → Option (List Limits) :=
  readWhole? (readVector? readLimits?)

def exportsOf? : List UInt8 → Option (List Export) :=
  readWhole? (readVector? readExport?)

def bodiesOf? : List UInt8 → Option (List FuncBody) :=
  readWhole? (readVector? readFuncBody?)

/-! ## Modules -/

/-- What a module describes. -/
structure Module where
  types : List FuncType := []
  imports : List FuncImport := []
  functions : List UInt32 := []
  memories : List Limits := []
  exports : List Export := []
  bodies : List FuncBody := []
  deriving DecidableEq, Repr

/-- The most pages that a memory can have. -/
def maxPages : UInt32 := 65536

/-- The size of some pages in a unit that keeps the number small. -/
def pagesText (pages : UInt32) : String :=
  let k := (pages * 64).toNat
  if k < 1024 then toString k ++ " Ki"
  else if k / 1024 < 1024 then toString (k / 1024) ++ " Mi"
  else if k / 1024 / 1024 < 1024 then toString (k / 1024 / 1024) ++ " Gi"
  else toString (k / 1024 / 1024 / 1024) ++ " Ti"

/-- Why the size of a memory is refused. -/
inductive LimitsError where
  | maxTooLarge (max : UInt32)
  | minTooLarge (min : UInt32)
  | minOverMax (min max : UInt32)
  deriving DecidableEq, Repr

namespace LimitsError

/-- A number of pages, and their size. -/
def sizeText (pages : UInt32) : String :=
  toString pages.toNat ++ " pages (" ++ pagesText pages ++ ")"

def message : LimitsError → String
  | maxTooLarge max => "max " ++ sizeText max ++ " over limit of " ++ sizeText maxPages
  | minTooLarge min => "min " ++ sizeText min ++ " over limit of " ++ sizeText maxPages
  | minOverMax min max => "min " ++ sizeText min ++ " > max " ++ sizeText max

end LimitsError

/-- Checks the size of a memory. -/
def Limits.check (l : Limits) : Except LimitsError Unit :=
  let max := l.max.getD maxPages
  if maxPages < max then .error (.maxTooLarge max)
  else if maxPages < l.min then .error (.minTooLarge l.min)
  else if max < l.min then .error (.minOverMax l.min max)
  else .ok ()

/-- Whether some bytes are a text. -/
def isText (bytes : List UInt8) : Bool :=
  (String.fromUTF8? ⟨bytes.toArray⟩).isSome

/-- A name that is no text. -/
inductive NameError where
  | importModule (index : Nat)
  | importName (index : Nat)
  | exportName
  deriving DecidableEq, Repr

def NameError.message : NameError → String
  | importModule index =>
    "import[" ++ toString index ++ "] error decoding module: import module is not valid UTF-8"
  | importName index =>
    "import[" ++ toString index ++ "] error decoding name: import name is not valid UTF-8"
  | exportName => "read export: export name is not valid UTF-8"

/-- Checks the names of imports, the first of which has the number `index`. -/
def checkImports (index : Nat) : List FuncImport → Except NameError Unit
  | [] => .ok ()
  | i :: imports =>
    if !isText i.module then .error (.importModule index)
    else if !isText i.name then .error (.importName index)
    else checkImports (index + 1) imports

/-- Checks the names of exports. -/
def checkExports (exports : List Export) : Except NameError Unit :=
  if exports.all fun e => isText e.name then .ok () else .error .exportName

/-- Why bytes are no module that can be run. -/
inductive LoadError where
  | split (error : SplitError)
  | malformed (id : SectionId)
  | name (id : SectionId) (error : NameError)
  | limits (error : LimitsError)
  | inconsistent (functions bodies : Nat)
  deriving DecidableEq, Repr

def LoadError.message : LoadError → String
  | split e => e.message
  | malformed id => "section " ++ SectionId.name id ++ ": malformed"
  | name id e => "section " ++ SectionId.name id ++ ": " ++ e.message
  | limits e => "section " ++ SectionId.name SectionId.memory ++ ": " ++ e.message
  | inconsistent functions bodies =>
    "function and code section have inconsistent lengths: " ++ toString functions ++ " != " ++
      toString bodies

namespace Module

/-- What a section adds to a module. A section of any other kind adds nothing. -/
def addSection (m : Module) (s : Section) : Except LoadError Module :=
  let malformed := Except.error (LoadError.malformed s.id)
  if s.id = SectionId.type then
    (typesOf? s.payload).elim malformed fun types => .ok { m with types }
  else if s.id = SectionId.imports then
    (importsOf? s.payload).elim malformed fun imports =>
      match checkImports 0 imports with
      | .ok _ => .ok { m with imports }
      | .error e => .error (.name s.id e)
  else if s.id = SectionId.function then
    (functionsOf? s.payload).elim malformed fun functions => .ok { m with functions }
  else if s.id = SectionId.memory then
    (memoriesOf? s.payload).elim malformed fun memories =>
      match memories.forM (fun l : Limits => l.check) with
      | .ok _ => .ok { m with memories }
      | .error e => .error (.limits e)
  else if s.id = SectionId.exports then
    (exportsOf? s.payload).elim malformed fun exports =>
      match checkExports exports with
      | .ok _ => .ok { m with exports }
      | .error e => .error (.name s.id e)
  else if s.id = SectionId.code then
    (bodiesOf? s.payload).elim malformed fun bodies => .ok { m with bodies }
  else .ok m

/-- The module that some bytes are. -/
def load (bytes : List UInt8) : Except LoadError Module :=
  match splitSections bytes with
  | .error e => .error (.split e)
  | .ok sections => do
    let m ← sections.foldlM addSection ({} : Module)
    if m.functions.length = m.bodies.length then return m
    else throw (.inconsistent m.functions.length m.bodies.length)

/-- The functions of a module, with their types and their instructions. -/
def funcs? (m : Module) : Option (List Func) :=
  (m.functions.zip m.bodies).mapM fun (index, body) => do
    let type ← m.types[index.toNat]?
    let instrs ← Instr.readAll? body.body
    let code ← Code.ofInstrs? instrs
    return { type, locals := body.locals, code }

end Module

end TapeLang.Wasm
