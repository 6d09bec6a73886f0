import TapeLang.Optimize
import TapeLang.Target

/-!
# Settings of a compilation

A config names the target, says whether to optimize and in how many rounds at most, and holds the
settings of a module. A setting that makes no sense stands for the default.
-/

namespace TapeLang

/-- The settings of a compilation. -/
structure Config where
  target : String := "wasm"
  optimize : Bool := true
  memoryPages : UInt32 := defaultMemoryPages
  importModule : List UInt8 := defaultImportModule
  maxRounds : Nat := defaultMaxRounds
  deriving DecidableEq, Repr

namespace Config

def withTarget (c : Config) (target : String) : Config :=
  { c with target }

def withOptimize (c : Config) (optimize : Bool) : Config :=
  { c with optimize }

/-- No pages stand for the default. -/
def withMemoryPages (c : Config) (pages : UInt32) : Config :=
  { c with memoryPages := if pages = 0 then defaultMemoryPages else pages }

/-- The empty name stands for the default. -/
def withImportModule (c : Config) (name : List UInt8) : Config :=
  { c with importModule := if name = [] then defaultImportModule else name }

/-- A number that is not positive stands for the default. -/
def withMaxRounds (c : Config) (n : Int) : Config :=
  { c with maxRounds := roundLimit n }

def extension (c : Config) : Except UnknownTarget String :=
  (Target.ofName c.target).map Target.extension

def moduleSettings (c : Config) : ModuleSettings where
  importModule := c.importModule
  memoryPages := c.memoryPages

end Config

end TapeLang
