import TapeLang.Config
import TapeLang.Machine
import TapeLang.Program.Parse
import TapeLang.Wasm.Host

/-!
# Compiling and running a source

* `buildSource`: the program of a source, optimized unless the config says not to.
* `compile`: the output for the target of a config. The target is looked at first.
* `interpret`: runs a source on a fresh machine.
* `runModule`: compiles a source to a module and runs that.
-/

namespace TapeLang

/-- What optimizing did to a program. -/
structure Stats where
  instructions : Nat
  optimizedInstructions : Nat
  /-- Zero if the program was not optimized. -/
  rounds : Nat
  deriving DecidableEq, Repr

/-- Why a source gives no program. -/
inductive BuildError where
  | parse (error : ParseError)
  | noFixedPoint (error : NoFixedPoint)
  deriving DecidableEq, Repr

def BuildError.message : BuildError → String
  | parse e => e.message
  | noFixedPoint e => e.message

/-- Why a source gives no output. -/
inductive CompileError where
  | unknownTarget (error : UnknownTarget)
  | build (error : BuildError)
  | write (target : Target) (error : ConsoleError)
  deriving DecidableEq, Repr

def CompileError.message : CompileError → String
  | unknownTarget e => e.message
  | build e => e.message
  | write t e => "write " ++ t.name ++ ": " ++ e.message

/-- The program of a source under a config. -/
def buildSource (source : List UInt8) (cfg : Config) : Except BuildError (Program × Stats) :=
  match Program.parse source with
  | .error e => .error (.parse e)
  | .ok p =>
    let n := p.size
    if cfg.optimize then
      match p.optimize cfg.maxRounds with
      | .error e => .error (.noFixedPoint e)
      | .ok r => .ok (r.program, ⟨n, r.program.size, r.rounds⟩)
    else .ok (p, ⟨n, n, 0⟩)

/-- Whether some bytes can be written where there is room for so many. -/
def checkRoom (room : Option Nat) (bytes : List UInt8) : Except ConsoleError Unit :=
  match room with
  | some n => if bytes.length ≤ n then .ok () else .error .writeFailed
  | none => .ok ()

/-- The output of a source under a config, to be written where there is room for `room` bytes. -/
def compile (source : List UInt8) (cfg : Config) (room : Option Nat := none) :
    Except CompileError (List UInt8 × Stats) :=
  match Target.ofName cfg.target with
  | .error e => .error (.unknownTarget e)
  | .ok t =>
    match buildSource source cfg with
    | .error e => .error (.build e)
    | .ok (p, stats) =>
      let bytes := t.emit p cfg.moduleSettings
      match checkRoom room bytes with
      | .error e => .error (.write t e)
      | .ok _ => .ok (bytes, stats)

/-- The module of a source, whatever the target of the config. -/
def compileModule (source : List UInt8) (cfg : Config) : Except BuildError (List UInt8 × Stats) :=
  match buildSource source cfg with
  | .error e => .error e
  | .ok (p, stats) => .ok (p.assemble cfg.moduleSettings, stats)

/-- Runs a source on a fresh machine with the given console, with so many checks. -/
def interpret (source : List UInt8) (cfg : Config) (console : Console) (checks : Nat) :
    Except BuildError Outcome :=
  match buildSource source cfg with
  | .error e => .error e
  | .ok (p, _) => .ok (Machine.run p checks { console })

/-- Compiles a source to a module and runs that with so many steps. -/
def runModule (source : List UInt8) (cfg : Config) (console : Console) (steps : Nat) :
    Except BuildError Wasm.Host.Run :=
  match compileModule source cfg with
  | .error e => .error e
  | .ok (bytes, _) => .ok (Wasm.Host.run bytes cfg.importModule steps console)

end TapeLang
