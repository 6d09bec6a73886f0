import TapeLang.Target.CSource
import TapeLang.Target.Module
import TapeLang.Text.Quoted

/-!
# Targets

The formats that a program can be compiled to: a WebAssembly module or C source.
-/

namespace TapeLang

/-- A format that a program can be compiled to. -/
inductive Target where
  | wasm
  | c
  deriving DecidableEq, Repr

/-- A name that no target has. -/
structure UnknownTarget where
  name : String
  deriving DecidableEq, Repr

def UnknownTarget.message (e : UnknownTarget) : String :=
  "unknown target: " ++ Text.quoted e.name

namespace Target

def all : List Target := [wasm, c]

def name : Target → String
  | wasm => "wasm"
  | c => "c"

/-- The ending of the names of files in the format. -/
def extension : Target → String
  | wasm => ".wasm"
  | c => ".c"

/-- The target with a name. -/
def ofName (name : String) : Except UnknownTarget Target :=
  if name = "wasm" then .ok wasm else if name = "c" then .ok c else .error ⟨name⟩

/-- A program in the format. -/
def emit (t : Target) (p : Program) (settings : ModuleSettings) : List UInt8 :=
  match t with
  | wasm => p.assemble settings
  | c => p.cSource.toUTF8.toList

end Target

end TapeLang
