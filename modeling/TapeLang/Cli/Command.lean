import TapeLang.Cli.Flag
import TapeLang.Compile
import TapeLang.Config.File
import TapeLang.Files

/-!
# Commands

* `Config.load`: the settings in a file.
* `compileCommand`, `runCommand`, `inspectCommand`: the commands, each given the arguments after its
  name.
* `runArguments`: the whole command line.
-/

namespace TapeLang

/-! ## Settings -/

/-- Why there are no settings to be had from a file. -/
inductive LoadError where
  | file (error : FileError)
  | config (path : String) (error : ConfigError)
  deriving DecidableEq, Repr

def LoadError.message : LoadError → String
  | file e => e.message
  | config path e => path ++ ": " ++ e.message

/-- The settings in the file that a path leads to. -/
def Config.load {m : Type → Type} [Monad m] (sh : Shell m) (path : String) :
    m (Except LoadError Config) := do
  match ← sh.read path with
  | .error e => return .error (.file e)
  | .ok bytes =>
    match Config.ofYaml bytes with
    | .error e => return .error (.config path e)
    | .ok c => return .ok c

namespace Cli

/-- What a command ends with. -/
structure Answer where
  exit : Nat := 0
  stdout : List UInt8 := []
  stderr : String := ""
  deriving DecidableEq, Repr

/-- The end of a command that has failed, with a line that says why. -/
def failure (line : String) : Answer :=
  { exit := 1, stderr := line ++ "\n" }

/-- A command with flags. -/
structure Command where
  name : String
  /-- What stands after the name of the program. -/
  form : String
  /-- What is missing if there is no argument. -/
  operand : String
  /-- The flags in order of their names. -/
  flags : List Flag

namespace Command

def usage (c : Command) : String :=
  "bfc CLI\n\nUsage:\n  bfc " ++ c.form ++ "\n\nOptions:\n" ++ flagHelp c.flags

end Command

/-- The end of a command whose flags do not let it go on. -/
def stopped (name : String) (flags : List Flag) : FlagStop → Answer
  | .help => { stderr := "Usage of " ++ name ++ ":\n" ++ flagHelp flags }
  | .error e =>
    { exit := 2, stderr := e.message ++ "\nUsage of " ++ name ++ ":\n" ++ flagHelp flags }

/-- Reads the flags of a command and goes on with them and the first argument after them. -/
def withFlags {m : Type → Type} [Monad m] (c : Command) (args : List String)
    (go : Flags → String → m Answer) : m Answer :=
  match parseFlags c.flags args with
  | .error stop => return stopped c.name c.flags stop
  | .ok flags =>
    if flags.bool? "h" = some true then return { stderr := c.usage }
    else
      match flags.operands with
      | [] => return { exit := 1, stderr := "missing path to " ++ c.operand ++ "\n" ++ c.usage }
      | path :: _ => go flags path

def helpFlag : Flag :=
  ⟨"h", .bool false, "print usage"⟩

def configFlag : Flag :=
  ⟨"config", .string "", "YAML file with compile settings. Flags override its values."⟩

def optimizeFlag : Flag :=
  ⟨"O", .bool true, "optimize the program"⟩

/-- The settings of a file, if one is given, with those of the flags over them. -/
def loadConfig {m : Type → Type} [Monad m] (sh : Shell m) (flags : Flags) :
    m (Except LoadError Config) := do
  let path := (flags.string? "config").getD ""
  match ← if path = "" then pure (.ok {}) else Config.load sh path with
  | .error e => return .error e
  | .ok c =>
    return .ok (match flags.bool? "O" with
      | some b => c.withOptimize b
      | none => c)

/-- Reads a source and the settings and goes on with them. -/
def withSource {m : Type → Type} [Monad m] (sh : Shell m) (flags : Flags) (path : String)
    (go : List UInt8 → Config → m Answer) : m Answer := do
  match ← sh.read path with
  | .error e => return failure ("error reading source: " ++ e.message)
  | .ok source =>
    match ← loadConfig sh flags with
    | .error e => return failure ("error loading config: " ++ e.message)
    | .ok cfg => go source cfg

/-! ## Compiling -/

def compileForm : Command where
  name := "compile"
  form := "compile <options> <path to source file>"
  operand := "source file"
  flags := [
    optimizeFlag,
    configFlag,
    helpFlag,
    ⟨"module", .string "bfc", "module name the wasm module imports print and read from"⟩,
    ⟨"o", .string "", "output file, or a directory to write <source name><target extension> into. " ++
      "Defaults to stdout, which must not be a terminal for wasm."⟩,
    ⟨"pages", .uint 1, "minimum memory pages of the wasm module"⟩,
    ⟨"target", .string "wasm", "output format: wasm or c"⟩,
    ⟨"v", .bool false, "report optimizer statistics to stderr"⟩]

/-- The settings with those of the flags that only compiling has. -/
def compileConfig (flags : Flags) (c : Config) : Config :=
  let c := match flags.string? "target" with
    | some t => c.withTarget t
    | none => c
  let c := match flags.uint? "pages" with
    | some n => c.withMemoryPages n.toUInt32
    | none => c
  match flags.string? "module" with
  | some name => c.withImportModule name.toUTF8.toList
  | none => c

/-- Why there is no place for the output. -/
inductive OutputError where
  | unknownTarget (error : UnknownTarget)
  | terminal
  deriving DecidableEq, Repr

def OutputError.message : OutputError → String
  | unknownTarget e => "error compiling: " ++ e.message
  | terminal => "refusing to write a binary module to a terminal: use -o"

/-- The file to write to, `none` for the standard output. In a directory it is named for the source. A
module is not written to a terminal. -/
def outputPath {m : Type → Type} [Monad m] (sh : Shell m) (flags : Flags) (cfg : Config)
    (source : String) : m (Except OutputError (Option String)) := do
  let out := (flags.string? "o").getD ""
  if out = "" then
    let refused ← if cfg.target = Target.wasm.name then sh.isTerminal else pure false
    return if refused then .error .terminal else .ok none
  else if ← sh.isDirectory out then
    match cfg.extension with
    | .error e => return .error (.unknownTarget e)
    | .ok ending => return .ok (some (Path.join out (Path.stem (Path.base source) ++ ending)))
  else return .ok (some out)

/-- The line about what optimizing did. -/
def statsLine (s : Stats) : String :=
  "optimized " ++ toString s.instructions ++ " instructions to " ++ toString s.optimizedInstructions ++
    " in " ++ toString s.rounds ++ " rounds\n"

def compileCommand {m : Type → Type} [Monad m] (sh : Shell m) (args : List String) : m Answer :=
  withFlags compileForm args fun flags path =>
    withSource sh flags path fun source cfg => do
      let cfg := compileConfig flags cfg
      match ← outputPath sh flags cfg path with
      | .error e => return failure e.message
      | .ok out =>
        match compile source cfg with
        | .error e => return failure ("error compiling: " ++ e.message)
        | .ok (bytes, stats) =>
          let report := if flags.bool? "v" = some true then statsLine stats else ""
          match out with
          | none => return { stdout := bytes, stderr := report }
          | some out =>
            match ← sh.write out bytes with
            | .error e => return failure ("error writing output: " ++ e.message)
            | .ok _ => return { stderr := report }

/-! ## Running -/

/-- More checks and steps than any run gets to make. -/
def manySteps : Nat := 1 <<< 62

def runForm : Command where
  name := "run"
  form := "run <options> <path to source file>"
  operand := "source file"
  flags := [
    optimizeFlag,
    configFlag,
    ⟨"engine", .string "interp",
      "how to run: interp walks the program, wasm compiles and runs it in wazero"⟩,
    helpFlag,
    ⟨"interp", .bool false, "force the wazero interpreter. Only applies to -engine=wasm."⟩,
    ⟨"trace", .bool false, "log function calls to stderr. Only applies to -engine=wasm."⟩]

/-- The end of a run: what was printed, and the log and the error, if there are any. -/
def runAnswer (output : Array UInt8) (log : String) (error : Option String) : Answer :=
  match error with
  | none => { stdout := output.toList, stderr := log }
  | some e => { exit := 1, stdout := output.toList, stderr := log ++ "error running: " ++ e ++ "\n" }

/-- Runs a source on the tape machine. -/
def runOnTape (source : List UInt8) (cfg : Config) (input : List UInt8) : Answer :=
  match interpret source cfg { input } manySteps with
  | .error e => runAnswer #[] "" (some e.message)
  | .ok o => runAnswer o.machine.console.output "" (o.fault.map Fault.message)

/-- Runs a source as a module. -/
def runAsModule (source : List UInt8) (cfg : Config) (input : List UInt8) (trace : Bool) : Answer :=
  match runModule source cfg { input } manySteps with
  | .error e => runAnswer #[] "" (some e.message)
  | .ok r =>
    let log := if trace then Wasm.Host.traceText cfg.importModule r else ""
    let error := match r.result with
      | .ok _ => none
      | .error e => some e.message
    runAnswer r.console.output log error

def runCommand {m : Type → Type} [Monad m] (sh : Shell m) (args : List String) : m Answer :=
  withFlags runForm args fun flags path =>
    withSource sh flags path fun source cfg => do
      match (flags.string? "engine").getD "interp" with
      | "interp" => return runOnTape source cfg (← sh.input)
      | "wasm" => return runAsModule source cfg (← sh.input) (flags.bool? "trace" = some true)
      | engine => return failure ("invalid engine: " ++ engine)

/-! ## Inspecting -/

def inspectForm : Command where
  name := "inspect"
  form := "inspect <path to wasm file>"
  operand := "wasm file"
  flags := [helpFlag]

/-- A text with blanks in front, or after it, up to a width. -/
def padLeft (width : Nat) (s : String) : String :=
  String.ofList (List.replicate (width - s.length) ' ') ++ s

def padRight (width : Nat) (s : String) : String :=
  s ++ String.ofList (List.replicate (width - s.length) ' ')

/-- The line about a section: its number, its name, and its size. -/
def sectionLine (s : Wasm.Section) : String :=
  padLeft 2 (toString s.id.toNat) ++ " " ++ padRight 8 (Wasm.SectionId.name s.id) ++ " " ++
    toString s.payload.length ++ " bytes\n"

def inspectCommand {m : Type → Type} [Monad m] (sh : Shell m) (args : List String) : m Answer :=
  withFlags inspectForm args fun _ path => do
    match ← sh.read path with
    | .error e => return failure ("error reading wasm binary: " ++ e.message)
    | .ok bytes =>
      match Wasm.splitSections bytes with
      | .error e => return failure ("error decoding wasm binary: " ++ e.message)
      | .ok sections =>
        return { stdout := (String.join (sections.map sectionLine)).toUTF8.toList }

/-! ## The command line -/

/-- The version of the program. -/
def version : String := "dev"

/-- The version of the engine that modules run in. -/
def engineVersion : String := "v1.8.2"

def versionLine : String :=
  "bfc " ++ version ++ " (wazero " ++ engineVersion ++ ")\n"

def usage : String :=
  "bfc CLI\n\nUsage:\n  bfc <command>\n\nCommands:\n" ++
    "  compile\tCompiles a program to WebAssembly or C\n" ++
    "  run\t\tRuns a program\n" ++
    "  inspect\tLists the sections of a WebAssembly binary\n" ++
    "  version\tDisplays the version of bfc CLI\n"

/-- Runs the command that some arguments name. -/
def runArguments {m : Type → Type} [Monad m] (sh : Shell m) (args : List String) : m Answer :=
  match parseFlags [helpFlag] args with
  | .error stop => return stopped "bfc" [helpFlag] stop
  | .ok flags =>
    if flags.bool? "h" = some true then return { stderr := usage }
    else
      match flags.operands with
      | [] => return { stderr := usage }
      | "compile" :: args => compileCommand sh args
      | "run" :: args => runCommand sh args
      | "inspect" :: args => inspectCommand sh args
      | "version" :: _ => return { stdout := versionLine.toUTF8.toList }
      | _ :: _ => return { exit := 1, stderr := "invalid command\n" ++ usage }

end Cli

end TapeLang
