import TapeLang.Proofs.Command
import TapeLang.Proofs.Sections
import TapeLang.Proofs.Validity

/-!
# The memory of compiled modules

How the number of pages that is asked for gets into a module.

* `DeclaresPages`: a module with one memory of so many pages.
* `declaresPages_assemble`: the module of a program has the pages of its settings.
* `compileCommand_pages`: a module has the pages that the command was asked for, counted in a word.
-/

namespace TapeLang.Cli

open Wasm

/-- A module with one memory, which has so many pages at least and no bound above. Its bytes are
split into the sections as long as their sizes have 32 bits. -/
def DeclaresPages (bytes : List UInt8) (pages : Nat) : Prop :=
  ∃ sections payload limits, bytes = encodeModule sections ∧
    ((∀ s ∈ sections, s.payload.length < UInt32.size) → splitSections bytes = .ok sections) ∧
      payloads SectionId.memory sections = [payload] ∧ memoriesOf? payload = some [limits] ∧
        limits.min.toNat = pages ∧ limits.max = none

theorem declaresPages_assemble (p : Program) (settings : ModuleSettings) :
    DeclaresPages (p.assemble settings) settings.resolve.memoryPages.toNat := by
  refine ⟨p.sections settings, memoryPayload [{ min := settings.resolve.memoryPages }], _, rfl,
    fun small => ?_, rfl, memoriesOf?_memoryPayload (Program.length_memoryPayload_lt _), rfl, rfl⟩
  apply Program.splitSections_assemble
  exact ⟨small ⟨SectionId.code, codePayload [p.mainBody]⟩ (by simp [Program.sections]),
    small ⟨SectionId.imports, importPayload (Program.imports settings.resolve.importModule)⟩
      (by simp [Program.sections])⟩

theorem compile_eq_ok_iff_assemble {source bytes : List UInt8} {cfg : Config} {stats : Stats}
    (wasm : cfg.target = Target.wasm.name) : compile source cfg = .ok (bytes, stats) ↔
      ∃ p, buildSource source cfg = .ok (p, stats) ∧ bytes = p.assemble cfg.moduleSettings := by
  have named : Target.ofName cfg.target = .ok .wasm := by
    rw [wasm]
    rfl
  unfold compile
  rw [named]
  cases buildSource source cfg with
  | error e => simp
  | ok built => simp [checkRoom, Target.emit, Prod.ext_iff, and_comm, eq_comm]

/-- A word counts all pages that were asked for, and at least one, exactly if their number fits
in it. -/
theorem max_mod_eq_iff (n : Nat) : max (n % UInt32.size) 1 = max n 1 ↔ n < UInt32.size := by
  have size : 1 < UInt32.size := by decide
  constructor
  · intro same
    by_contra large
    have := Nat.mod_lt n (Nat.zero_lt_of_lt size)
    omega
  · intro small
    rw [Nat.mod_eq_of_lt small]

/-- The module has the pages that were asked for, and at least one, as far as a word counts them. So
it has what was asked for exactly if that fits in a word. -/
theorem compileCommand_pages {args : List String} {given : Flags} {n : Nat} (input : List UInt8)
    (terminal : Bool) (t : FileTree)
    (all : FlagsGiven compileForm.flags args given) (asked : given.uint? "pages" = some n) :
    let ran := runOn t (compileCommand (FileTree.shell input terminal) args)
    ran.1.exit ≠ 0 ∨ given.bool? "h" = some true ∨
      ∃ path base cfg target bytes, Compiled t given path base cfg target bytes ∧
        Delivered t given path target.extension bytes ran.1.stdout ran.2 ∧
          cfg.target = (given.string? "target").getD base.target ∧
            (target = .wasm → ∃ pages, DeclaresPages bytes pages ∧ pages = max (n % UInt32.size) 1 ∧
              (pages = max n 1 ↔ n < UInt32.size)) := by
  intro ran
  have read := (parseFlags_eq_ok_iff wellNamed_compileForm).2 all
  have same {given' : Flags} (all' : FlagsGiven compileForm.flags args given') : given' = given :=
    Except.ok.inj (((parseFlags_eq_ok_iff wellNamed_compileForm).2 all').symm.trans read)
  cases compileEnds_compileCommand input terminal args t with
  | fails h => exact .inl h.exit
  | helps h =>
    rcases h.asked with long | ⟨given', all', help⟩
    · rw [(parseFlags_eq_help_iff wellNamed_compileForm).2 long] at read
      cases read
    · exact .inr (.inl (same all' ▸ help))
  | delivers all' compiled shown exit delivered =>
    rename_i given' path base target bytes
    obtain rfl := same all'
    refine .inr (.inr ⟨path, base, _, target, bytes, compiled, delivered,
      (overrides_configOf _ base).target, ?_⟩)
    rintro rfl
    obtain ⟨source, stats, -, ok⟩ := compiled.output
    obtain ⟨p, -, rfl⟩ := (compile_eq_ok_iff_assemble compiled.target).1 ok
    have pages := memoryPages_configOf asked base
    have resolved :
        (configOf given' base).moduleSettings.resolve.memoryPages.toNat =
          max (n % UInt32.size) 1 := by
      have nonzero : (configOf given' base).memoryPages ≠ 0 := by
        intro zero
        rw [zero] at pages
        have := Nat.le_max_right (n % UInt32.size) 1
        rw [← pages] at this
        exact absurd this (by decide)
      rw [← pages]
      exact congrArg UInt32.toNat (if_neg nonzero)
    exact ⟨_, declaresPages_assemble p _, resolved, by rw [resolved, max_mod_eq_iff]⟩

/-! ## More pages than a word counts -/

/-- A source in a directory of its own, and a directory to write into. -/
def projectTree : FileTree :=
  (FileTree.empty.addFile "src/x.bf" [43]).addDirectory "out"

/-- The flags of a run that asks for two pages more than a word counts. -/
def tooManyPages : Flags where
  values := [("o", .string "out"), ("pages", .uint 4294967298)]
  operands := ["src/x.bf"]

theorem compileCommand_pages_tooMany :
    let args := ["-pages=0x100000002", "-o", "out", "src/x.bf"]
    let ran := runOn projectTree (compileCommand (FileTree.shell [] false) args)
    FlagsGiven compileForm.flags args tooManyPages ∧ tooManyPages.uint? "pages" = some 4294967298 ∧
      ran.1.exit = 0 ∧
      ∃ path base cfg target bytes, Compiled projectTree tooManyPages path base cfg target bytes ∧
        Delivered projectTree tooManyPages path target.extension bytes ran.1.stdout ran.2 ∧
          cfg.target = base.target ∧
            (target = .wasm → ∃ pages, DeclaresPages bytes pages ∧ pages = 2 ∧
              (pages = 4294967298 ↔ 4294967298 < UInt32.size)) := by
  intro args ran
  have all : FlagsGiven compileForm.flags args tooManyPages :=
    flagsGiven_of_parseFlags (by decide +kernel)
  have exit : ran.1.exit = 0 := by decide +kernel
  have noHelp : tooManyPages.bool? "h" ≠ some true := by decide
  refine ⟨all, rfl, exit, ?_⟩
  exact ((compileCommand_pages [] false projectTree all rfl).resolve_left
    (not_not_intro exit)).resolve_left noHelp

/-- So the module can have two pages where there is no error and more than four thousand million
were asked for. -/
theorem compileCommand_pages_wrap :
    let t := FileTree.empty.addFile "x.bf" [43]
    let ran := runOn t (compileCommand (FileTree.shell [] false) ["-pages", "4294967298", "x.bf"])
    ran.1.exit = 0 ∧ ∃ sections, splitSections ran.1.stdout = .ok sections ∧
      (payloads SectionId.memory sections).map memoriesOf? = [some [{ min := 2 }]] := by
  intro t ran
  let given : Flags := ⟨[("pages", .uint 4294967298)], ["x.bf"]⟩
  let p : Program := .cell 0 (.add 1) .done
  let settings := (configOf given {}).moduleSettings
  have all : FlagsGiven compileForm.flags ["-pages", "4294967298", "x.bf"] given :=
    flagsGiven_of_parseFlags (by decide +kernel)
  have built : buildSource [43] (configOf given {}) = .ok (p, ⟨1, 1, 1⟩) := by decide +kernel
  have compiled : Compiled t given "x.bf" {} (configOf given {}) .wasm (p.assemble settings) :=
    ⟨by decide, rfl, rfl, rfl, [43], _, by decide +kernel,
      (compile_eq_ok_iff_assemble rfl).2 ⟨p, built, rfl⟩⟩
  obtain ⟨report, run⟩ := runOn_compileCommand [] false all compiled
  have run : ran = deliver t (.ok none) (p.assemble settings) report := run
  have fits : p.SizesFit settings := ⟨by decide +kernel, by decide +kernel⟩
  rw [run]
  exact ⟨rfl, p.sections settings, Program.splitSections_assemble fits, by decide +kernel⟩

end TapeLang.Cli
