import TapeLang.Machine
import TapeLang.Text.Quoted
import TapeLang.Wasm.Load

/-!
# Running a module

A module is linked with the builtin functions, which another module offers under some name, and its
`main` is called. The first page of its memory is the tape.

* `Host.run`: the whole of it. What was printed, and the log of the calls, are there also after an
  error.
* `Host.traceText`: the log of the calls, one line for the start of each and one for its end.
-/

namespace TapeLang.Wasm.Host

/-- Why a module gives no result. -/
inductive Error where
  | load (error : LoadError)
  | noModule (name : String)
  | notExported (name module : String)
  | wrongType (module name : String) (expected actual : FuncType)
  | nameTaken (name : String)
  | malformedCode
  | noExport (name : String)
  | trap (t : Trap)
  | noResult
  | smallMemory
  deriving DecidableEq, Repr

/-- The types of some values in a row, and a letter for none. -/
def typesText (types : List ValueType) : String :=
  if types = [] then "v" else String.join (types.map ValueType.name)

/-- A function signature in short. -/
def funcTypeText (t : FuncType) : String :=
  typesText t.params ++ "_" ++ typesText t.results

def trapText : Trap → String
  | .outOfBounds => "wasm error: out of bounds memory access"
  | .console e => e.message ++ " (recovered by wazero)"
  | .exhausted => "context canceled"
  | .stuck => "wasm error: invalid code"

def Error.message : Error → String
  | load e => "compile module: " ++ e.message
  | noModule name => "instantiate module: module[" ++ name ++ "] not instantiated"
  | notExported name module =>
    "instantiate module: " ++ Text.quoted name ++ " is not exported in module " ++ Text.quoted module
  | wrongType module name expected actual =>
    "instantiate module: import func[" ++ module ++ "." ++ name ++ "]: signature mismatch: " ++
      funcTypeText expected ++ " != " ++ funcTypeText actual
  | nameTaken name => "instantiate module: module[" ++ name ++ "] has already been instantiated"
  | malformedCode => "compile module: invalid function"
  | noExport name => "module has no " ++ Text.quoted name ++ " export"
  | trap t => "call main: " ++ trapText t
  | noResult => "call main: no result"
  | smallMemory => "memory is smaller than " ++ toString tapeSize ++ " bytes"

/-- What a run leaves: the pointer that `main` returned, and the tape. -/
structure Result where
  pointer : Int32
  tape : Array UInt8
  deriving DecidableEq, Repr

/-- What a run of a module gives. -/
structure Run where
  console : Console
  /-- The index of `main`, once it has been called. -/
  mainIndex : Option Nat := none
  calls : Array CallEvent := #[]
  result : Except Error Result

/-- The name that modules are linked under. -/
def moduleName : String := "main"

/-- The text that some bytes are, and the empty one if they are none. -/
def textOf (bytes : List UInt8) : String :=
  (String.fromUTF8? ⟨bytes.toArray⟩).getD ""

/-- The builtin function that an import stands for, if `host` is the module that offers them. -/
def link (m : Module) (host : List UInt8) (i : FuncImport) : Except Error Builtin :=
  let module := textOf i.module
  let name := textOf i.name
  if i.module ≠ host then .error (.noModule module)
  else
    match Builtin.ofName? name, m.types[i.typeIndex.toNat]? with
    | none, _ => .error (.notExported name module)
    | some _, none => .error .malformedCode
    | some f, some type =>
      if type = f.type then .ok f else .error (.wrongType module name type f.type)

/-- The index that a module exports under a name. -/
def exported? (m : Module) (kind : ItemKind) (name : String) : Option Nat :=
  (m.exports.find? fun e => e.name = name.toUTF8.toList ∧ e.kind = kind).map (·.index.toNat)

/-- The memory of a module as it is at first. -/
def freshMemory (m : Module) : Memory :=
  match m.memories with
  | l :: _ => { size := l.min.toNat * pageSize }
  | [] => { size := 0 }

/-- A module that is ready to be run, and its functions. -/
def prepare (bytes host : List UInt8) : Except Error (Module × Instance) := do
  let m ← match Module.load bytes with
    | .ok m => pure m
    | .error e => throw (.load e)
  let funcs ← match m.funcs? with
    | some funcs => pure funcs
    | none => throw .malformedCode
  let builtins ← m.imports.mapM (link m host)
  if host = moduleName.toUTF8.toList then throw (.nameTaken moduleName)
  return (m, ⟨builtins, funcs⟩)

/-- The function that a module exports as `main`, and its index. -/
def mainOf (m : Module) (inst : Instance) : Except Error (Nat × Func) :=
  match exported? m ItemKind.func "main" with
  | none => .error (.noExport "main")
  | some index =>
    match inst.funcs[index - inst.builtins.length]? with
    | some f => if index < inst.builtins.length then .error .malformedCode else .ok (index, f)
    | none => .error .malformedCode

/-- What is left when `main` has returned. -/
def finish (m : Module) (memory : Memory) : List UInt32 → Except Error Result
  | [] => .error .noResult
  | pointer :: _ =>
    match exported? m ItemKind.memory "memory" with
    | none => .error (.noExport "memory")
    | some _ =>
      if memory.size < tapeSize then .error .smallMemory
      else .ok ⟨pointer.toInt32, memory.bytes tapeSize⟩

/-- Links the module `bytes` with the builtin functions, which the module `host` offers, and calls its
`main` with `steps` steps. -/
def run (bytes host : List UInt8) (steps : Nat) (console : Console) : Run :=
  match prepare bytes host with
  | .error e => { console, result := .error e }
  | .ok (m, inst) =>
    match mainOf m inst with
    | .error e => { console, result := .error e }
    | .ok (index, f) =>
      match inst.invoke f steps { memory := freshMemory m, console } with
      | (s, .error t) =>
        { console := s.console, mainIndex := some index, calls := s.calls, result := .error (.trap t) }
      | (s, .ok results) =>
        { console := s.console, mainIndex := some index,
          calls := s.calls.push (.leave results), result := finish m s.memory results }

/-! ## The log -/

/-- A word as a signed number. -/
def wordText (v : UInt32) : String :=
  toString v.toInt32.toInt

/-- The end of a line that tells results. -/
def resultsText : List UInt32 → String
  | [] => "\n"
  | results => " " ++ ",".intercalate (results.map wordText) ++ "\n"

/-- The line for the start of a call. -/
def enterLine (host : String) (f : Builtin) (args : List UInt32) : String :=
  let shown := ",".intercalate (args.map fun v => "value=" ++ wordText v)
  "\t==> " ++ host ++ "." ++ f.name ++ "(" ++ shown ++ ")\n"

/-- The lines for some events. An end that belongs to no start is that of `main`. -/
def eventLines (host : String) : List CallEvent → List String
  | [] => []
  | .enter f args :: .leave results :: rest =>
    enterLine host f args :: ("\t<==" ++ resultsText results) :: eventLines host rest
  | .enter f args :: rest => enterLine host f args :: eventLines host rest
  | .leave results :: rest => ("<--" ++ resultsText results) :: eventLines host rest

/-- The log of a run. -/
def traceText (host : List UInt8) (r : Run) : String :=
  match r.mainIndex with
  | none => ""
  | some index =>
    "--> .$" ++ toString index ++ "()\n" ++ String.join (eventLines (textOf host) r.calls.toList)

end TapeLang.Wasm.Host
