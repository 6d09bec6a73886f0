import TapeLang.Cli.Command
import TapeLang.Proofs.Files
import TapeLang.Proofs.Flags
import TapeLang.Proofs.Names

/-!
# The compile command

What the command prints, and what it does to a tree of files.

* `Overrides`, `Compiled`, `Delivered`: the settings in force, the output of a source under them,
  and where it goes. `Refused`: where it does not go. They are said in terms of the flags that are
  given (`FlagsGiven`), and of no command.
* `runOn_withFlags`, `runOn_withSource`: what the parts of a command come to. A part that does not
  let the command go on leaves the tree as it was.
* `runOn_compileCommand`: what is left to do where the source compiles.
  `compileEnds_compileCommand`: all that the command can come to.
* `compileCommand_all_or_nothing`: it writes the whole output to one place, or nothing.
-/

namespace TapeLang.Cli

/-! ## What is asked for -/

/-- The settings before the flags: those of the file that is named, the defaults if none is. -/
def SettingsFrom (t : FileTree) (given : Flags) (base : Config) : Prop :=
  let path := (given.string? "config").getD ""
  if path = "" then base = {} else ∃ bytes, t.read path = .ok bytes ∧ Config.ofYaml bytes = .ok base

/-- Settings with those of the flags over them. Flags that are not given change nothing. Nothing is
said of a number of pages that does not fit in a word. -/
structure Overrides (given : Flags) (base cfg : Config) : Prop where
  target : cfg.target = (given.string? "target").getD base.target
  optimize : cfg.optimize = (given.bool? "O").getD base.optimize
  importModule : cfg.importModule = ((given.string? "module").map fun name =>
    (if name = "" then "bfc" else name).toUTF8.toList).getD base.importModule
  maxRounds : cfg.maxRounds = base.maxRounds
  keepsPages : given.uint? "pages" = none → cfg.memoryPages = base.memoryPages
  pages : ∀ n < UInt32.size, given.uint? "pages" = some n → cfg.memoryPages.toNat = max n 1

/-- What a run that compiles has to go by, and what it makes of the source. -/
structure Compiled (t : FileTree) (given : Flags) (path : String) (base cfg : Config)
    (target : Target) (bytes : List UInt8) : Prop where
  noHelp : given.bool? "h" ≠ some true
  operand : given.operands.head? = some path
  settings : SettingsFrom t given base
  target : cfg.target = target.name
  output : ∃ source stats, t.read path = .ok source ∧ compile source cfg = .ok (bytes, stats)

/-- A tree that differs from another in one place. There it holds a file, where there was one
or nothing. -/
structure Replaced (t : FileTree) (place : List String) (bytes : List UInt8) (after : FileTree) :
    Prop where
  current : after.current = t.current
  free : t.get? place ≠ some .directory
  get? : ∀ other, after.get? other = if other = place then some (.file bytes) else t.get? other

/-- Where the output of a source goes: what is printed, and the tree afterwards. In a directory the
file is named for the source. -/
inductive Delivered (t : FileTree) (given : Flags) (path ending : String) (bytes : List UInt8) :
    List UInt8 → FileTree → Prop
  | printed (h : (given.string? "o").getD "" = "") : Delivered t given path ending bytes bytes t
  | written {out : String} {place : List String} {after : FileTree}
      (h : given.string? "o" = some out) (ne : out ≠ "")
      (noDirectory : ∀ dir, t.find out = .ok dir → t.get? dir ≠ some .directory)
      (found : after.find out = .ok place) (replaced : Replaced t place bytes after) :
      Delivered t given path ending bytes [] after
  | writtenInside {out : String} {dir : List String} {after : FileTree}
      (h : given.string? "o" = some out) (found : t.find out = .ok dir)
      (directory : t.get? dir = some .directory)
      (replaced : Replaced t (dir ++ [Path.stem (Path.base path) ++ ending]) bytes after) :
      Delivered t given path ending bytes [] after

/-! ## Running on a tree -/

/-- What a command that works on a tree comes to, and the tree afterwards. -/
def runOn {α : Type} (t : FileTree) (command : StateM FileTree α) : α × FileTree :=
  command.run t

section RunOn

variable {α β : Type} (t : FileTree) (input : List UInt8) (terminal : Bool) (path : String)

@[simp]
theorem runOn_pure (a : α) : runOn t (pure a) = (a, t) := rfl

@[simp]
theorem runOn_bind (x : StateM FileTree α) (f : α → StateM FileTree β) :
    runOn t (x >>= f) = runOn (runOn t x).2 (f (runOn t x).1) := rfl

@[simp]
theorem runOn_map (f : α → β) (x : StateM FileTree α) :
    runOn t (f <$> x) = (f (runOn t x).1, (runOn t x).2) := rfl

@[simp]
theorem runOn_read : runOn t ((FileTree.shell input terminal).read path) = (t.read path, t) := rfl

@[simp]
theorem runOn_isDirectory :
    runOn t ((FileTree.shell input terminal).isDirectory path) = (t.isDirectory path, t) := rfl

@[simp]
theorem runOn_isTerminal : runOn t (FileTree.shell input terminal).isTerminal = (terminal, t) := rfl

theorem runOn_write (bytes : List UInt8) :
    runOn t ((FileTree.shell input terminal).write path bytes) =
    match t.write path bytes with
    | .ok after => (.ok (), after)
    | .error e => (.error e, t) := by
  unfold runOn FileTree.shell
  cases written : t.write path bytes with
  | ok after =>
    simp only [StateT.run_bind, StateT.run_get, pure_bind, written]
    rfl
  | error e =>
    simp only [StateT.run_bind, StateT.run_get, pure_bind, written]
    rfl

end RunOn

/-- The end of a command that has done nothing. -/
structure Fails (t : FileTree) (ran : Answer × FileTree) : Prop where
  exit : ran.1.exit ≠ 0
  stdout : ran.1.stdout = []
  tree : ran.2 = t

/-- The end of a command that was asked for help. -/
structure Helps (flags : List Flag) (args : List String) (t : FileTree) (ran : Answer × FileTree) :
    Prop where
  asked : AsksForHelp flags args ∨
    ∃ given, FlagsGiven flags args given ∧ given.bool? "h" = some true
  exit : ran.1.exit = 0
  stdout : ran.1.stdout = []
  tree : ran.2 = t

theorem fails_failure (t : FileTree) (line : String) : Fails t (failure line, t) :=
  ⟨by simp [failure], rfl, rfl⟩

variable (input : List UInt8) (terminal : Bool) (t : FileTree) (given : Flags) (path : String)

/-- Settings with the switch for optimizing over them. -/
def optimizeConfig (given : Flags) (base : Config) : Config :=
  { base with optimize := (given.bool? "O").getD base.optimize }

theorem runOn_load : ∃ r, runOn t (Config.load (FileTree.shell input terminal) path) = (r, t) ∧
    ∀ cfg, r = .ok cfg ↔ ∃ bytes, t.read path = .ok bytes ∧ Config.ofYaml bytes = .ok cfg := by
  unfold Config.load
  cases read : t.read path with
  | error e => exact ⟨.error (.file e), by simp [read], by simp⟩
  | ok bytes =>
    cases parsed : Config.ofYaml bytes with
    | error e => exact ⟨.error (.config path e), by simp [read, parsed], by simp [parsed]⟩
    | ok c => exact ⟨.ok c, by simp [read, parsed], by simp [parsed]⟩

theorem runOn_loadConfig : ∃ r : Except LoadError Config,
    runOn t (loadConfig (FileTree.shell input terminal) given) = (r.map (optimizeConfig given), t) ∧
      ∀ base, r = .ok base ↔ SettingsFrom t given base := by
  unfold loadConfig SettingsFrom
  by_cases named : (given.string? "config").getD "" = ""
  · refine ⟨.ok {}, ?_, by simp [named, eq_comm]⟩
    cases switch : given.bool? "O" <;>
      simp [named, switch, optimizeConfig, Config.withOptimize, Except.map]
  · obtain ⟨r, run, ok⟩ := runOn_load input terminal t ((given.string? "config").getD "")
    refine ⟨r, ?_, by simpa [named] using ok⟩
    cases r with
    | error e => simp [named, run, Except.map]
    | ok base =>
      cases switch : given.bool? "O" <;>
        simp [named, run, switch, optimizeConfig, Config.withOptimize, Except.map]

theorem runOn_withSource (go : List UInt8 → Config → StateM FileTree Answer) :
    Fails t (runOn t (withSource (FileTree.shell input terminal) given path go)) ∨
      ∃ source base, t.read path = .ok source ∧ SettingsFrom t given base ∧
        runOn t (withSource (FileTree.shell input terminal) given path go) =
          runOn t (go source (optimizeConfig given base)) := by
  unfold withSource
  cases read : t.read path with
  | error e =>
    left
    simpa [read] using fails_failure t _
  | ok source =>
    obtain ⟨r, run, ok⟩ := runOn_loadConfig input terminal t given
    cases r with
    | error e =>
      left
      simpa [read, run, Except.map] using fails_failure t _
    | ok base => exact .inr ⟨source, base, rfl, (ok base).1 rfl, by simp [read, run, Except.map]⟩

theorem runOn_withFlags (c : Command) (args : List String)
    (go : Flags → String → StateM FileTree Answer) :
    Fails t (runOn t (withFlags c args go)) ∨ Helps c.flags args t (runOn t (withFlags c args go)) ∨
      ∃ given path, FlagsGiven c.flags args given ∧ given.bool? "h" ≠ some true ∧
        given.operands.head? = some path ∧
          runOn t (withFlags c args go) = runOn t (go given path) := by
  unfold withFlags
  cases read : parseFlags c.flags args with
  | error stop =>
    cases stop with
    | help => exact .inr (.inl ⟨.inl (asksForHelp_of_parseFlags read), rfl, rfl, rfl⟩)
    | error e => exact .inl ⟨by simp [stopped], rfl, rfl⟩
  | ok given =>
    have all := flagsGiven_of_parseFlags read
    by_cases help : given.bool? "h" = some true
    · simp only [if_pos help]
      exact .inr (.inl ⟨.inr ⟨given, all, help⟩, rfl, rfl, rfl⟩)
    · simp only [if_neg help]
      cases operands : given.operands with
      | nil => exact .inl ⟨by simp, rfl, rfl⟩
      | cons path rest => exact .inr (.inr ⟨given, path, all, help, by simp [operands], rfl⟩)

/-- The path of the file to write, if there is one. -/
def destination? (t : FileTree) (given : Flags) (path ending : String) : Option String :=
  let out := (given.string? "o").getD ""
  if out = "" then none
  else if t.isDirectory out then some (Path.join out (Path.stem (Path.base path) ++ ending))
  else some out

/-- A module would be printed on a terminal. -/
structure Refused (terminal : Bool) (given : Flags) (target : Target) : Prop where
  terminal : terminal = true
  wasm : target = .wasm
  printed : (given.string? "o").getD "" = ""

instance (terminal : Bool) (given : Flags) (target : Target) :
    Decidable (Refused terminal given target) :=
  decidable_of_iff (terminal = true ∧ target = .wasm ∧ (given.string? "o").getD "" = "")
    ⟨fun ⟨h, h', h''⟩ => ⟨h, h', h''⟩, fun ⟨h, h', h''⟩ => ⟨h, h', h''⟩⟩

theorem runOn_outputPath {cfg : Config} {target : Target} (name : cfg.target = target.name) :
    runOn t (outputPath (FileTree.shell input terminal) given cfg path) =
      (if Refused terminal given target then .error .terminal
        else .ok (destination? t given path target.extension), t) := by
  have named : Target.ofName cfg.target = .ok target := by
    rw [name]
    cases target <;> rfl
  unfold outputPath destination?
  by_cases printed : (given.string? "o").getD "" = ""
  · have refused : Refused terminal given target ↔ terminal = true ∧ target = .wasm :=
      ⟨fun h => ⟨h.terminal, h.wasm⟩, fun h => ⟨h.1, h.2, printed⟩⟩
    cases target <;> cases terminal <;> simp [printed, name, refused, Target.name]
  · have shown : ¬ Refused terminal given target := fun h => printed h.printed
    cases dir : t.isDirectory ((given.string? "o").getD "") with
    | true => simp [printed, dir, Config.extension, named, Except.map, shown]
    | false => simp [printed, dir, shown]

/-- Looking for the place of the output changes nothing. -/
theorem runOn_outputPath_snd (cfg : Config) :
    (runOn t (outputPath (FileTree.shell input terminal) given cfg path)).2 = t := by
  unfold outputPath
  by_cases named : (given.string? "o").getD "" = ""
  · by_cases wasm : cfg.target = Target.wasm.name <;> simp [named, wasm]
  · cases dir : t.isDirectory ((given.string? "o").getD "") with
    | true => cases cfg.extension <;> simp [named, dir]
    | false => simp [named, dir]

/-! ## Where the output goes -/

variable {input terminal t given path} {args : List String}

theorem replaced_of_findNew {out : String} {place : List String} (h : t.findNew out = .ok place)
    (bytes : List UInt8) :
    Replaced t place bytes (t.set place (.file bytes)) := by
  obtain ⟨above, n, leads, rfl⟩ := FileTree.leadsToFile_of_findNew h
  have root : above ++ [n] ≠ [] := List.append_ne_nil_of_right_ne_nil _ (List.cons_ne_nil _ _)
  exact ⟨rfl, leads.free, fun other => FileTree.get?_set root _⟩

/-- A name with the ending of a target is that of a file. -/
theorem isOrdinary_append_extension (name : String) (target : Target) :
    Path.IsOrdinary (name ++ target.extension) := by
  have last : ∃ c, c ≠ '.' ∧ (name ++ target.extension).toList.getLast? = some c := by
    cases target
    · exact ⟨'m', by decide, by simp [Target.extension]⟩
    · exact ⟨'c', by decide, by simp [Target.extension]⟩
  obtain ⟨c, noDot, last⟩ := last
  refine ⟨?_, ?_, ?_⟩ <;> intro eq <;> rw [eq] at last
  · cases last
  · exact noDot (Option.some.inj last).symm
  · exact noDot (Option.some.inj last).symm

theorem noSlash_append_extension {name : String} (h : '/' ∉ name.toList) (target : Target) :
    '/' ∉ (name ++ target.extension).toList := by
  rw [String.toList_append, List.mem_append, not_or]
  exact ⟨h, by cases target <;> decide⟩

theorem eq_empty_of_destination? {ending : String} (h : destination? t given path ending = none) :
    (given.string? "o").getD "" = "" := by
  unfold destination? at h
  simp only at h
  split at h
  · assumption
  · split at h <;> cases h

theorem delivered_of_write {after : FileTree} {out : String} {source bytes : List UInt8}
    {target : Target} (read : t.read path = .ok source)
    (destination : destination? t given path target.extension = some out)
    (h : t.write out bytes = .ok after) :
    Delivered t given path target.extension bytes [] after := by
  unfold FileTree.write at h
  split at h
  · cases h
  rename_i place found
  obtain rfl := Except.ok.inj h
  have replaced := replaced_of_findNew found bytes
  unfold destination? at destination
  cases asked : given.string? "o" with
  | none => simp [asked] at destination
  | some dir =>
    simp only [asked, Option.getD_some] at destination
    split at destination
    · cases destination
    rename_i nonempty
    split at destination
    · rename_i isDirectory
      obtain ⟨above, found', directory⟩ := FileTree.isDirectory_iff.1 isDirectory
      obtain rfl := Option.some.inj destination
      have noSlash :=
        noSlash_append_extension (Path.noSlash_stem (FileTree.noSlash_base_of_read read)) target
      have ordinary := isOrdinary_append_extension (Path.stem (Path.base path)) target
      rw [FileTree.findNew_join found' ordinary noSlash found] at replaced ⊢
      exact .writtenInside asked found' directory replaced
    · rename_i noDirectory
      obtain rfl := Option.some.inj destination
      refine .written asked nonempty ?_ (FileTree.find_set found bytes) replaced
      exact fun above found' directory =>
        noDirectory (FileTree.isDirectory_iff.2 ⟨above, found', directory⟩)

/-! ## The settings in force -/

/-- The settings of a file with those of all flags over them. -/
def configOf (given : Flags) (base : Config) : Config :=
  compileConfig given (optimizeConfig given base)

theorem compileConfig_optimizeConfig (given : Flags) (base : Config) :
    compileConfig given (optimizeConfig given base) = configOf given base := rfl

theorem ite_toUTF8_eq_nil (name : String) :
    (if name.toUTF8.toList = [] then defaultImportModule else name.toUTF8.toList) =
      (if name = "" then "bfc" else name).toUTF8.toList := by
  have none : "".toUTF8.toList = [] := by decide +kernel
  have empty : name.toUTF8.toList = [] ↔ name = "" := by rw [← none, Wasm.toUTF8_toList_inj]
  by_cases h : name = ""
  · rw [if_pos (empty.mpr h), if_pos h]
    rfl
  · rw [if_neg (mt empty.mp h), if_neg h]

theorem configOf_eq (given : Flags) (base : Config) : configOf given base =
    { target := (given.string? "target").getD base.target
      optimize := (given.bool? "O").getD base.optimize
      memoryPages := ((given.uint? "pages").map fun n =>
        if n.toUInt32 = 0 then defaultMemoryPages else n.toUInt32).getD base.memoryPages
      importModule := ((given.string? "module").map fun name =>
        (if name = "" then "bfc" else name).toUTF8.toList).getD base.importModule
      maxRounds := base.maxRounds } := by
  simp only [← ite_toUTF8_eq_nil]
  unfold configOf compileConfig optimizeConfig
  cases given.string? "target" <;> cases given.uint? "pages" <;> cases given.string? "module" <;>
    rfl

/-- The pages that a flag asks for are counted in a word, and there is at least one. -/
theorem memoryPages_configOf {n : Nat} (h : given.uint? "pages" = some n) (base : Config) :
    (configOf given base).memoryPages.toNat = max (n % UInt32.size) 1 := by
  have word : n.toUInt32.toNat = n % UInt32.size := UInt32.toNat_ofNat
  rw [configOf_eq, h, ← word]
  simp only [Option.map_some, Option.getD_some]
  split
  · rename_i zero
    rw [zero]
    rfl
  · rename_i nonzero
    have ne : n.toUInt32.toNat ≠ 0 := fun e => nonzero (UInt32.toNat_inj.1 e)
    omega

theorem overrides_configOf (given : Flags) (base : Config) :
    Overrides given base (configOf given base) where
  target := by rw [configOf_eq]
  optimize := by rw [configOf_eq]
  importModule := by rw [configOf_eq]
  maxRounds := by rw [configOf_eq]
  keepsPages h := by rw [configOf_eq, h]; rfl
  pages n small h := by rw [memoryPages_configOf h, Nat.mod_eq_of_lt small]

/-- Flags decide the settings, unless they ask for more pages than a word counts. -/
theorem Overrides.eq_configOf {base cfg : Config} (h : Overrides given base cfg)
    (small : ∀ n, given.uint? "pages" = some n → n < UInt32.size) : cfg = configOf given base := by
  have same := overrides_configOf given base
  have pages : cfg.memoryPages = (configOf given base).memoryPages := by
    cases asked : given.uint? "pages" with
    | none => rw [h.keepsPages asked, same.keepsPages asked]
    | some n =>
      have fits := small n asked
      exact UInt32.toNat_inj.1 ((h.pages n fits asked).trans (same.pages n fits asked).symm)
  cases cfg
  cases inForce : configOf given base
  rw [inForce] at same pages
  obtain ⟨target, optimize, importModule, maxRounds, -, -⟩ := h
  obtain ⟨target', optimize', importModule', maxRounds', -, -⟩ := same
  simp_all

theorem exists_target_of_compile {source bytes : List UInt8} {cfg : Config} {stats : Stats}
    (h : compile source cfg = .ok (bytes, stats)) :
    ∃ target : Target, cfg.target = target.name := by
  unfold compile at h
  split at h
  · cases h
  rename_i target named
  refine ⟨target, ?_⟩
  unfold Target.ofName at named
  split at named
  · cases named
    assumption
  · split at named
    · cases named
      assumption
    · cases named

/-! ## The whole command -/

theorem wellNamed_compileForm : WellNamed compileForm.flags where
  names := by decide
  distinct := by decide

/-- The end of a command that has its output, and knows where that goes. -/
def deliver (t : FileTree) (place : Except OutputError (Option String)) (bytes : List UInt8)
    (report : String) : Answer × FileTree :=
  match place with
  | .error e => (failure e.message, t)
  | .ok none => ({ stdout := bytes, stderr := report }, t)
  | .ok (some out) =>
    match t.write out bytes with
    | .ok after => ({ stderr := report }, after)
    | .error e => (failure ("error writing output: " ++ e.message), t)

/-- Where the source compiles, only the place of the output is left to decide. -/
theorem runOn_compileCommand (input : List UInt8) (terminal : Bool) {base : Config}
    {target : Target} {bytes : List UInt8} (all : FlagsGiven compileForm.flags args given)
    (compiled : Compiled t given path base (configOf given base) target bytes) :
    ∃ report, runOn t (compileCommand (FileTree.shell input terminal) args) =
      deliver t (if Refused terminal given target then .error .terminal
        else .ok (destination? t given path target.extension)) bytes report := by
  obtain ⟨noHelp, operand, settings, name, source, stats, read, ok⟩ := compiled
  have flags := (parseFlags_eq_ok_iff wellNamed_compileForm).2 all
  obtain ⟨rest, operands⟩ := List.head?_eq_some_iff.1 operand
  obtain ⟨r, loaded, isOk⟩ := runOn_loadConfig input terminal t given
  obtain rfl := (isOk base).2 settings
  refine ⟨if given.bool? "v" = some true then statsLine stats else "", ?_⟩
  unfold compileCommand withFlags withSource deliver
  simp only [flags, if_neg noHelp, operands, runOn_bind, runOn_read, read, loaded, Except.map,
    compileConfig_optimizeConfig, runOn_outputPath input terminal t given path name, ok]
  by_cases refused : Refused terminal given target
  · simp only [if_pos refused]
    rfl
  · simp only [if_neg refused]
    cases destination? t given path target.extension with
    | none => rfl
    | some out =>
      simp only [runOn_bind, runOn_write]
      cases t.write out bytes <;> rfl

/-- All that the command can come to. -/
inductive CompileEnds (terminal : Bool) (args : List String) (t : FileTree)
    (ran : Answer × FileTree) : Prop
  | fails (h : Fails t ran)
  | helps (h : Helps compileForm.flags args t ran)
  | delivers {given : Flags} {path : String} {base : Config} {target : Target} {bytes : List UInt8}
      (all : FlagsGiven compileForm.flags args given)
      (compiled : Compiled t given path base (configOf given base) target bytes)
      (shown : ¬ Refused terminal given target) (exit : ran.1.exit = 0)
      (delivered : Delivered t given path target.extension bytes ran.1.stdout ran.2)

theorem compileEnds_compileCommand (input : List UInt8) (terminal : Bool) (args : List String)
    (t : FileTree) :
    CompileEnds terminal args t
      (runOn t (compileCommand (FileTree.shell input terminal) args)) := by
  obtain fails | helps | ⟨given, path, all, noHelp, operand, flagged⟩ :=
    runOn_withFlags t compileForm args _
  · exact .fails fails
  · exact .helps helps
  obtain fails | ⟨source, base, read, settings, sourced⟩ :=
    runOn_withSource input terminal t given path _
  · rw [compileCommand, flagged]
    exact .fails fails
  cases compiled : compile source (configOf given base) with
  | error e =>
    rw [compileCommand, flagged, sourced]
    simp only [compileConfig_optimizeConfig, runOn_bind, runOn_outputPath_snd, compiled]
    split
    · exact .fails (fails_failure t _)
    · exact .fails (fails_failure t _)
  | ok result =>
    obtain ⟨bytes, stats⟩ := result
    obtain ⟨target, name⟩ := exists_target_of_compile compiled
    have done : Compiled t given path base (configOf given base) target bytes :=
      ⟨noHelp, operand, settings, name, source, stats, read, compiled⟩
    obtain ⟨report, delivered⟩ := runOn_compileCommand input terminal all done
    rw [delivered]
    by_cases refused : Refused terminal given target
    · rw [if_pos refused]
      exact .fails (fails_failure t _)
    · rw [if_neg refused]
      cases destination : destination? t given path target.extension with
      | none =>
        exact .delivers all done refused rfl (.printed (eq_empty_of_destination? destination))
      | some out =>
        cases written : t.write out bytes with
        | error e =>
          simp only [deliver, written]
          exact .fails (fails_failure t _)
        | ok after =>
          simp only [deliver, written]
          exact .delivers all done refused rfl (delivered_of_write read destination written)

/-- Compiling is all or nothing. A command that fails has written nothing; one that does not has
been asked for help and has written nothing, or has written the output of the source under the
settings in force, and nothing else. If there is such an output, only writing it can fail, and a
module is refused that would be printed on a terminal. -/
theorem compileCommand_all_or_nothing (input : List UInt8) (terminal : Bool) (args : List String)
    (t : FileTree) :
    let ran := runOn t (compileCommand (FileTree.shell input terminal) args)
    (ran.1.exit ≠ 0 → ran.1.stdout = [] ∧ ran.2 = t) ∧
    (ran.1.exit = 0 → Helps compileForm.flags args t ran ∨
      ∃ given path base cfg target bytes,
        FlagsGiven compileForm.flags args given ∧ Overrides given base cfg ∧
        Compiled t given path base cfg target bytes ∧
          Delivered t given path target.extension bytes ran.1.stdout ran.2 ∧
            ¬ Refused terminal given target) ∧
    (∀ given path base cfg target bytes,
      FlagsGiven compileForm.flags args given → Overrides given base cfg →
      (∀ n, given.uint? "pages" = some n → n < UInt32.size) →
      Compiled t given path base cfg target bytes → ran.1.exit ≠ 0 → Refused terminal given target ∨
        ∃ out e, destination? t given path target.extension = some out ∧
          t.write out bytes = .error e) := by
  intro ran
  refine ⟨fun failed => ?_, fun succeeded => ?_, ?_⟩
  · cases compileEnds_compileCommand input terminal args t with
    | fails h => exact ⟨h.stdout, h.tree⟩
    | helps h => exact absurd h.exit failed
    | delivers all compiled shown exit delivered => exact absurd exit failed
  · cases compileEnds_compileCommand input terminal args t with
    | fails h => exact absurd succeeded h.exit
    | helps h => exact .inl h
    | delivers all compiled shown exit delivered =>
      exact .inr ⟨_, _, _, _, _, _, all, overrides_configOf _ _, compiled, delivered, shown⟩
  · intro given path base cfg target bytes all overrides small compiled failed
    obtain rfl := overrides.eq_configOf small
    by_cases refused : Refused terminal given target
    · exact .inl refused
    right
    obtain ⟨report, delivered⟩ := runOn_compileCommand input terminal all compiled
    have delivered : ran = _ := delivered
    rw [delivered, if_neg refused] at failed
    cases destination : destination? t given path target.extension with
    | none =>
      rw [destination] at failed
      exact absurd rfl failed
    | some out =>
      cases written : t.write out bytes with
      | error e => exact ⟨out, e, rfl, written⟩
      | ok after =>
        simp only [destination, deliver, written] at failed
        exact absurd rfl failed

/-- Help is also given under a name that no flag has, and then nothing is written. -/
theorem compileCommand_long_help :
    let t := FileTree.empty.addFile "x.bf" [43]
    let args := ["-o", "out.wasm", "-help", "x.bf"]
    let ran := runOn t (compileCommand (FileTree.shell [] false) args)
    (∀ arg ∈ args, arg ≠ "-h" ∧ arg ≠ "--h") ∧ ran.1.exit = 0 ∧ ran.1.stdout = [] ∧
      ran.2.find "out.wasm" = .error .notFound := by
  decide +kernel

end TapeLang.Cli
