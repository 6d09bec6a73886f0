import TapeLang.Compile
import TapeLang.Proofs.Accept
import TapeLang.Proofs.Assemble
import TapeLang.Proofs.Mirror
import TapeLang.Proofs.Refine
import TapeLang.Proofs.Settle

/-!
# Interpreting a source and running its module

Both start from the same program. It keeps close to the tape, so the pointer of 32 bits that a
module has is enough.

* `keepsClose_of_buildSource`: what is built from a source never gets far from the tape.
* `all_runs_agree`: if interpreting comes to its end without optimizing, so does every other way to
  run a source, with the same result.
* `runs_fail_together`: in a memory of one page, interpreting and running the module fail together.

The bytes of a module are read back only if the size of its code section fits 32 bits. A source
below 2^25 bytes makes sure of that (`length_codePayload_lt`); one of more than 330 million need
not (`runModule_countingSource`).
-/

namespace TapeLang

open Wasm

/-! ## Programs of sources -/

section Build

variable {source : List UInt8} {cfg : Config} {p : Program} {stats : Stats}

/-- What is built from a source is rewritten from what is parsed, and looks to the right only from
the tape. -/
theorem parsed_of_buildSource (h : buildSource source cfg = .ok (p, stats)) :
    ∃ q, Program.parse source = .ok q ∧ q.RewritesTo p ∧ p.Anchored true := by
  unfold buildSource at h
  rcases hq : Program.parse source with e | q
  · simp [hq] at h
  · simp only [hq] at h
    refine ⟨q, rfl, ?_⟩
    split at h
    · rcases hr : q.optimize cfg.maxRounds with e | r
      · simp [hr] at h
      · simp only [hr, Except.ok.injEq, Prod.mk.injEq] at h
        rw [← h.1]
        exact ⟨Program.optimize_rewrites hr, Program.anchored_optimize hr⟩
    · simp only [Except.ok.injEq, Prod.mk.injEq] at h
      rw [← h.1]
      exact ⟨.refl q, (Program.spells_of_parse hq).anchored true⟩

theorem size_of_buildSource (h : buildSource source cfg = .ok (p, stats)) :
    p.size ≤ source.length := by
  obtain ⟨q, hq, hp, -⟩ := parsed_of_buildSource h
  calc p.size ≤ q.size := hp.size_le
    _ ≤ (Symbol.lex source).length := (Program.spells_of_parse hq).size_le
    _ ≤ source.length := List.length_filterMap_le _ _

/-- A program that keeps close to the tape wherever it goes. -/
def Program.KeepsClose (p : Program) : Prop :=
  ∃ lo hi, hi - lo < 2 ^ 30 ∧ p.StaysWithin lo hi 0 ∧ p.Anchored true

theorem keepsClose_of_buildSource (hlen : source.length < 2 ^ 30)
    (h : buildSource source cfg = .ok (p, stats)) : p.KeepsClose := by
  obtain ⟨q, hq, hp, ha⟩ := parsed_of_buildSource h
  have hmoves := Symbol.count_moves_le (Symbol.lex source)
  have hlex : (Symbol.lex source).length ≤ source.length := List.length_filterMap_le _ _
  have h0 : (0 : Int64).toInt = 0 := rfl
  refine ⟨-((Symbol.lex source).count .left), (Symbol.lex source).count .right, by omega, ?_, ha⟩
  exact hp.staysWithin ((Program.spells_of_parse hq).staysWithin (by omega) (by omega) (by omega)
    (by omega) (by omega) (by omega))

theorem interpret_eq (h : buildSource source cfg = .ok (p, stats)) (console : Console)
    (checks : Nat) :
    interpret source cfg console checks = .ok (Machine.run p checks { console }) := by
  simp only [interpret, h]

theorem of_interpret {console : Console} {checks : Nat} {o : Outcome}
    (h : interpret source cfg console checks = .ok o) :
    ∃ p stats, buildSource source cfg = .ok (p, stats) ∧ Machine.run p checks { console } = o := by
  unfold interpret at h
  rcases hb : buildSource source cfg with e | ⟨p, stats⟩
  · simp [hb] at h
  · simp only [hb, Except.ok.injEq] at h
    exact ⟨p, stats, rfl, h⟩

/-- What is built with optimizing may run in place of what is built without. -/
theorem refined_of_buildSource {q : Program} {stats' : Stats}
    (h : buildSource source (cfg.withOptimize false) = .ok (p, stats))
    (h' : buildSource source (cfg.withOptimize true) = .ok (q, stats')) : p.RefinedBy q := by
  have hp : Program.parse source = .ok p := by
    unfold buildSource at h
    rcases hq : Program.parse source with e | q
    · simp [hq] at h
    · simp only [hq, Config.withOptimize, Bool.false_eq_true, if_false, Except.ok.injEq,
        Prod.mk.injEq] at h
      rw [h.1]
  obtain ⟨q', hq, hr, -⟩ := parsed_of_buildSource h'
  rw [hp, Except.ok.injEq] at hq
  subst hq
  exact hr.refinedBy

/-- Some number of rounds is enough to optimize a source. -/
theorem exists_buildSource (h : Program.parse source = .ok p) :
    ∃ rounds built, buildSource source { maxRounds := rounds } = .ok built := by
  obtain ⟨r, q, settles, -⟩ := p.exists_settles
  have hr : (1 : Int) ≤ r := by
    have := settles.pos
    omega
  have hopt := (settles.optimize_eq_ok_iff hr _).mpr ⟨Int.le_refl r, rfl⟩
  refine ⟨r, (q, ⟨p.size, q.size, r⟩), ?_⟩
  simp only [buildSource, h, hopt, if_true]

end Build

/-! ## Fresh machines -/

theorem fresh_mirrored {pages : UInt32} (hp : 1 ≤ pages.toNat) (console : Console) :
    Machine.MirroredBy (pages.toNat * pageSize) { console } (.fresh pages console) where
  near := show Inside (-2 ^ 31) (2 ^ 31 - 1) 0 from ⟨by decide, by decide⟩
  pointer := rfl
  console := rfl
  tape := Array.size_replicate
  memory := rfl
  tape_le := by
    show 65536 ≤ pages.toNat * 65536
    omega
  cells i hi := by
    rw [WordMachine.fresh, Memory.get_empty]
    simp [Machine.cellAt, Array.getD_eq_getD_getElem?, hi]

/-- A program that keeps close to the tape does the same with a pointer of 32 bits. -/
theorem Program.KeepsClose.mirrored {p : Program} (h : p.KeepsClose) {pages : UInt32}
    (hp : 1 ≤ pages.toNat) (console : Console) {c s : Nat} (hc : c ≤ s) :
    (Machine.run p c { console }).MirroredBy (pages.toNat * pageSize)
      (WordMachine.run p s (.fresh pages console)) := by
  obtain ⟨lo, hi, hw, hstays, ha⟩ := h
  have htape : Inside 0 65535 0 := ⟨by decide, by decide⟩
  exact Machine.run_mirrored hw hstays ha (fun _ => htape) (.of_tape hstays.inside htape)
    (fresh_mirrored hp console) hc

namespace Machine.MirroredBy

variable {size : Nat} {m : Machine} {w : WordMachine}

theorem pointer_eq (h : m.MirroredBy size w) : w.pointer.toInt32.toInt = m.pointer.toInt := by
  have hp := h.pointer
  obtain ⟨hlo, hhi⟩ := h.near
  have e : w.pointer.toInt32.toInt = (w.pointer.toNat : Int).bmod (2 ^ 32) :=
    BitVec.toInt_eq_toNat_bmod _
  rw [e, Int.bmod_eq_emod]
  split <;> omega

theorem bytes_eq (h : m.MirroredBy size w) : w.memory.bytes tapeSize = m.tape := by
  have ht := h.tape
  apply Array.ext
  · simp [Memory.bytes, ht]
  · intro i hi hi'
    simp only [Memory.bytes, Array.getElem_ofFn]
    rw [h.cells i (by omega), cellAt, Array.getD_eq_getD_getElem?, Array.getElem?_eq_getElem hi']
    rfl

end Machine.MirroredBy

/-! ## Modules -/

section Module

variable {source : List UInt8} {cfg : Config} {p : Program} {stats : Stats}

/-- The code of a source that is not too long has a size of 32 bits. -/
theorem length_codePayload_lt (hb : buildSource source cfg = .ok (p, stats))
    (hlen : source.length < 2 ^ 25) : (codePayload [p.mainBody]).length < 2 ^ 32 := by
  have hl := p.length_codePayload_le
  have hs := size_of_buildSource hb
  omega

theorem length_defaultImports_lt :
    (importPayload (Program.imports defaultImportModule)).length < 2 ^ 32 := by
  decide +kernel

theorem resolve_moduleSettings (hm : cfg.importModule = defaultImportModule)
    (h1 : 1 ≤ cfg.memoryPages) : cfg.moduleSettings.resolve = cfg.moduleSettings := by
  have hname : defaultImportModule ≠ [] := by decide +kernel
  have h0 : cfg.memoryPages ≠ 0 := by
    rintro h0
    rw [h0] at h1
    exact absurd h1 (by decide)
  simp [ModuleSettings.resolve, Config.moduleSettings, hm, h0, hname]

/-- A module with the usual imports can be loaded if the bytes of its code are not too many. -/
theorem fits_of_config (hm : cfg.importModule = defaultImportModule) (h1 : 1 ≤ cfg.memoryPages)
    (hp : cfg.memoryPages ≤ maxPages) (hc : (codePayload [p.mainBody]).length < 2 ^ 32) :
    p.Fits cfg.moduleSettings where
  code := hc
  imports := by
    rw [resolve_moduleSettings hm h1, Config.moduleSettings, hm]
    exact length_defaultImports_lt
  name := by
    rw [resolve_moduleSettings hm h1]
    exact ⟨"bfc", hm⟩
  pages := by
    rw [resolve_moduleSettings hm h1]
    exact hp

/-- Running the module of a source is running its program. -/
theorem runModule_eq (hb : buildSource source cfg = .ok (p, stats))
    (hm : cfg.importModule = defaultImportModule) (h1 : 1 ≤ cfg.memoryPages)
    (hp : cfg.memoryPages ≤ maxPages) (hc : (codePayload [p.mainBody]).length < 2 ^ 32)
    (console : Console) (steps : Nat) :
    let o := WordMachine.run p steps (.fresh cfg.memoryPages console)
    ∃ r, runModule source cfg console steps = .ok r ∧ r.console = o.machine.console ∧
      r.result = o.result := by
  have hr := resolve_moduleSettings hm h1
  have hn : cfg.importModule ≠ Host.moduleName.toUTF8.toList := by
    rw [hm]
    decide +kernel
  have hrun :=
    Program.run_assemble (fits_of_config hm h1 hp hc) (by rw [hr]; exact hn) console steps
  rw [hr] at hrun
  refine ⟨_, ?_, hrun⟩
  simp only [runModule, compileModule, hb]
  rfl

/-- A source whose program comes to its end has the same result as a module. -/
theorem module_of_finish (hlen : source.length < 2 ^ 30)
    (hb : buildSource source cfg = .ok (p, stats)) (hm : cfg.importModule = defaultImportModule)
    (h1 : 1 ≤ cfg.memoryPages) (hp : cfg.memoryPages ≤ maxPages)
    (hc : (codePayload [p.mainBody]).length < 2 ^ 32) {console : Console} {checks steps : Nat}
    (hs : checks ≤ steps) {m : Machine} (hf : (Machine.run p checks { console }).fault = none)
    (he : (Machine.run p checks { console }).machine = m) :
    ∃ r result, runModule source cfg console steps = .ok r ∧ r.console = m.console ∧
      r.result = .ok result ∧ result.pointer.toInt = m.pointer.toInt ∧ result.tape = m.tape := by
  have hpos : 1 ≤ cfg.memoryPages.toNat := h1
  obtain ⟨ht, hmir, -⟩ := ((keepsClose_of_buildSource hlen hb).mirrored hpos console hs).finish hf
  rw [he] at hmir
  obtain ⟨r, hrun, hcon, hres⟩ := runModule_eq hb hm h1 hp hc console steps
  rw [WordOutcome.result, ht] at hres
  refine ⟨r, _, hrun, hcon.trans hmir.console, hres, ?_, ?_⟩
  · exact hmir.pointer_eq
  · simpa only using hmir.bytes_eq

end Module

/-! ## A source whose module cannot be loaded -/

/-- `+` and then `>`, so many of each. -/
def countingSource (n k : Nat) : List UInt8 :=
  List.replicate n 0x2b ++ List.replicate k 0x3e

section Counting

open Program (counting)

variable {n k : Nat}

theorem Program.spells_moves (k : Nat) : (moves k).Spells (List.replicate k .right) := by
  induction k with
  | zero => exact .done
  | succ k ih => exact .step (s := .right) (t := .move 1) rfl ih

theorem Program.Spells.adds {p : Program} {a : List Symbol} (h : p.Spells a) (n : Nat) :
    (p.adds n).Spells (List.replicate n .increment ++ a) := by
  induction n with
  | zero => exact h
  | succ n ih => exact .step (s := .increment) (t := .cell 0 (.add 1)) rfl ih

theorem length_countingSource : (countingSource n k).length = n + k := by
  simp [countingSource]

theorem lex_countingSource : Symbol.lex (countingSource n k) =
    List.replicate n .increment ++ List.replicate k .right := by
  have hbytes : countingSource n k =
      (List.replicate n Symbol.increment ++ List.replicate k Symbol.right).map Symbol.byte := by
    rw [List.map_append, List.map_replicate, List.map_replicate]
    rfl
  rw [hbytes, Symbol.lex_map_byte]

theorem parse_countingSource : Program.parse (countingSource n k) = .ok (counting n k) := by
  rw [Program.parse, lex_countingSource]
  exact Program.build_of_spells ((Program.spells_moves k).adds n)

theorem balanced_countingSource : Symbol.Balanced (Symbol.lex (countingSource n k)) :=
  Symbol.balanced_iff_depthAfter.mpr
    ((Program.spells_of_parse parse_countingSource).depthAfter_eq 0)

theorem buildSource_countingSource (rounds : Nat) :
    buildSource (countingSource n k) { optimize := false, maxRounds := rounds } =
      .ok (counting n k, ⟨(counting n k).size, (counting n k).size, 0⟩) := by
  simp [buildSource, parse_countingSource]

theorem Machine.run_moves (k c : Nat) (m : Machine) : (run (.moves k) c m).fault = none := by
  induction k generalizing m with
  | zero => rw [Program.moves, run_done]
  | succ k ih => rw [Program.moves, run_move]; exact ih _

/-- Counting never leaves its cell before all is counted, so it goes well if that cell exists. -/
theorem Machine.run_adds {p : Program} {c : Nat} (hp : ∀ m, (run p c m).fault = none) (n : Nat)
    {m : Machine} {i : Nat} (h : m.index? 0 = some i) : (run (p.adds n) c m).fault = none := by
  induction n generalizing m with
  | zero => exact hp m
  | succ n ih =>
    have hstep : m.stepOutcome 0 (.add 1) c = ⟨m.setCell i (m.cellAt i + 1), c, none⟩ := by
      rw [stepOutcome, step_inside h]
      rfl
    rw [Program.adds, run_cell, hstep, RunEnd.andThen_of_none rfl]
    refine ih ?_
    rw [← h]
    exact index?_congr rfl (by simp [setCell])

theorem Machine.index?_fresh (console : Console) : index? { console } 0 = some 0 := by
  have hsize : (Array.replicate tapeSize (0 : UInt8)).size = 65536 := Array.size_replicate
  simp only [index?_eq, target, hsize]
  rfl

/-- Interpreting counts, with whatever console and however few checks. -/
theorem interpret_countingSource (rounds : Nat) (console : Console) (checks : Nat) :
    ∃ o, interpret (countingSource n k) { optimize := false, maxRounds := rounds } console checks =
      .ok o ∧ o.fault = none :=
  ⟨_, interpret_eq (buildSource_countingSource rounds) console checks,
    Machine.run_adds (Machine.run_moves k checks) n (Machine.index?_fresh console)⟩

/-- But the code may be too long for a module that can be loaded. -/
theorem runModule_countingSource (h : (codePayload [(counting n k).mainBody]).length = 2 ^ 32)
    (rounds : Nat) (console : Console) (steps : Nat) :
    runModule (countingSource n k) { optimize := false, maxRounds := rounds } console steps =
      .ok { console, result := .error (.load (.malformed SectionId.code)) } := by
  let cfg : Config := { optimize := false, maxRounds := rounds }
  have hr : cfg.moduleSettings.resolve = cfg.moduleSettings :=
    resolve_moduleSettings rfl (show (1 : UInt32) ≤ 1 by decide)
  have hload : Module.load ((counting n k).assemble cfg.moduleSettings) =
      .error (.malformed SectionId.code) := by
    apply Program.load_overflow h <;> rw [hr]
    · exact length_defaultImports_lt
    · exact ⟨"bfc", rfl⟩
    · show (1 : UInt32) ≤ maxPages
      decide
  simp only [runModule, compileModule, buildSource_countingSource]
  exact congrArg Except.ok (Program.run_of_load_error hload steps console)

end Counting

/-! ## Agreement -/

/-- If interpreting a source without optimizing it comes to its end, so do all other ways to run it,
and all leave the same pointer and tape and have printed the same: interpreting it optimized, and
running its module, optimized or not, if the size of the code section fits 32 bits. -/
theorem all_runs_agree (source : List UInt8) (hlen : source.length < 2 ^ 30) (cfg : Config)
    (hmodule : cfg.importModule = defaultImportModule) (hpages : 1 ≤ cfg.memoryPages)
    (hmax : cfg.memoryPages ≤ maxPages)
    (hbuild : ∃ built, buildSource source (cfg.withOptimize true) = .ok built)
    (console : Console) (checks : Nat) (o : Outcome)
    (hrun : interpret source (cfg.withOptimize false) console checks = .ok o)
    (hend : o.fault = none) :
    (∃ o', interpret source (cfg.withOptimize true) console checks = .ok o' ∧ o'.fault = none ∧
      o'.machine = o.machine) ∧
    ∀ optimize : Bool, ∃ p stats, buildSource source (cfg.withOptimize optimize) = .ok (p, stats) ∧
      ((codePayload [p.mainBody]).length < 2 ^ 32 → ∀ steps : Nat, checks ≤ steps →
        ∃ r result, runModule source (cfg.withOptimize optimize) console steps = .ok r ∧
          r.console = o.machine.console ∧ r.result = .ok result ∧
          result.pointer.toInt = o.machine.pointer.toInt ∧ result.tape = o.machine.tape) := by
  obtain ⟨p, stats, hplain, rfl⟩ := of_interpret hrun
  obtain ⟨⟨q, stats'⟩, hopt⟩ := hbuild
  obtain ⟨hend', hsame, -⟩ := (refined_of_buildSource hplain hopt checks checks { console }
    (Nat.le_refl checks)).finish hend
  refine ⟨⟨_, interpret_eq hopt console checks, hend', hsame⟩, fun optimize => ?_⟩
  cases optimize with
  | false =>
    refine ⟨p, stats, hplain, fun hcode steps hs => ?_⟩
    exact module_of_finish hlen hplain hmodule hpages hmax hcode hs hend rfl
  | true =>
    refine ⟨q, stats', hopt, fun hcode steps hs => ?_⟩
    exact module_of_finish hlen hopt hmodule hpages hmax hcode hs hend' hsame

/-- `>,[.,]` prints what it reads, one cell to the right of where it starts. -/
def echoSource : List UInt8 := [0x3e, 0x2c, 0x5b, 0x2e, 0x2c, 0x5d]

/-- With a tape of any contents, so that it need not be unfolded. -/
theorem run_echo {tape : Array UInt8} (ht : tape.size = tapeSize) :
    (Machine.run (.move 1 (.cell 0 (.read 0) (.loop (.cell 0 (.print 0) (.cell 0 (.read 0) .done))
      .done))) 2 ⟨tape, 0, { input := [65] }⟩).fault = none := by
  simp [Machine.run, Machine.step, Machine.perform, Machine.index?, Machine.target, Machine.cellAt,
    Machine.setCell, Machine.moved, Console.read, Console.write, ht, tapeSize]

theorem all_runs_agree_echo :
    ∃ o, interpret echoSource { optimize := false } { input := [65] } 2 = .ok o ∧ o.fault = none ∧
      ∃ r result, runModule echoSource {} { input := [65] } 2 = .ok r ∧
        r.console = o.machine.console ∧ r.result = .ok result ∧
        result.pointer.toInt = o.machine.pointer.toInt ∧ result.tape = o.machine.tape := by
  have hb : ∃ stats, buildSource echoSource { optimize := false } = .ok (.move 1 (.cell 0 (.read 0)
      (.loop (.cell 0 (.print 0) (.cell 0 (.read 0) .done)) .done)), stats) := ⟨_, rfl⟩
  obtain ⟨stats, hb⟩ := hb
  have hi := interpret_eq hb { input := [65] } 2
  have hf := run_echo (Array.size_replicate (v := 0))
  obtain ⟨-, hmodule⟩ :=
    all_runs_agree echoSource (by decide) {} rfl (by decide) (by decide) ⟨_, rfl⟩
    { input := [65] } 2 _ hi hf
  obtain ⟨p, stats, hopt, hrun⟩ := hmodule true
  exact ⟨_, hi, hf, hrun (length_codePayload_lt hopt (by decide)) 2 (Nat.le_refl 2)⟩

/-- The size of the code section has to fit. This source is below 2^30 bytes, its brackets match,
and there is a limit on the rounds that is enough to optimize it. Interpreting it as it stands comes
to its end, and its module is not even loaded. -/
theorem countingSource_runs_apart :
    let source := countingSource 330382096 5
    source.length < 2 ^ 30 ∧ Symbol.Balanced (Symbol.lex source) ∧
    ∃ rounds built, buildSource source { maxRounds := rounds } = .ok built ∧
      ∃ o, interpret source { optimize := false, maxRounds := rounds } {} 0 = .ok o ∧
        o.fault = none ∧
        ∀ steps : Nat, ∃ r e,
          runModule source { optimize := false, maxRounds := rounds } {} steps = .ok r ∧
            r.result = .error e := by
  obtain ⟨rounds, built, hbuild⟩ :=
    exists_buildSource (parse_countingSource (n := 330382096) (k := 5))
  obtain ⟨o, hrun, hend⟩ := interpret_countingSource (n := 330382096) (k := 5) rounds {} 0
  refine ⟨?_, balanced_countingSource, rounds, built, hbuild, o, hrun, hend, fun steps => ?_⟩
  · rw [length_countingSource]
    omega
  · exact ⟨_, _, runModule_countingSource Program.length_codePayload_overflow rounds {} steps, rfl⟩

/-- In a memory of the size of the tape, a run that is not canceled fails in both or in none, and
has printed the same. -/
theorem Outcome.MirroredBy.fails_iff {o : Outcome} {o' : WordOutcome} (h : o.MirroredBy tapeSize o')
    (hc : o.fault ≠ some .canceled) :
    ((∃ t, o'.fault = some t) ↔ o.fault ≠ none) ∧ o'.fault ≠ some .exhausted ∧
      o'.machine.console.output = o.machine.console.output := by
  rcases hf : o.fault with _ | f
  · obtain ⟨ht, hm, -⟩ := h.finish hf
    exact ⟨by simp [ht], by simp [ht], by rw [hm.console]⟩
  · obtain ⟨t, ht, hne, ho⟩ := h.stop f hf (fun he => hc (by rw [hf, he])) rfl
    exact ⟨by simp [ht], by simpa [ht] using hne, ho⟩

/-- Interpreting a source and running its module in a memory of one page fail together, and have
printed the same, also if they fail, as long as the size of the code section fits 32 bits. The run
of the module has at least as many steps as interpreting has checks, which are enough. -/
theorem runs_fail_together (source : List UInt8) (hlen : source.length < 2 ^ 30) (cfg : Config)
    (hmodule : cfg.importModule = defaultImportModule) (hpages : cfg.memoryPages = 1)
    (console : Console) (checks steps : Nat) (hsteps : checks ≤ steps) :
    (∃ e, interpret source cfg console checks = .error e ∧
      runModule source cfg console steps = .error e) ∨
    ∃ p stats o, buildSource source cfg = .ok (p, stats) ∧
      interpret source cfg console checks = .ok o ∧
      (o.fault ≠ some .canceled → (codePayload [p.mainBody]).length < 2 ^ 32 →
        ∃ r, runModule source cfg console steps = .ok r ∧
          ((∃ e, r.result = .error e) ↔ o.fault ≠ none) ∧ r.result ≠ .error (.trap .exhausted) ∧
          r.console.output = o.machine.console.output) := by
  rcases hb : buildSource source cfg with e | ⟨p, stats⟩
  · left
    exact ⟨e, by simp only [interpret, hb], by simp only [runModule, compileModule, hb]⟩
  · right
    refine ⟨p, stats, _, rfl, interpret_eq hb console checks, fun hc hcode => ?_⟩
    have hp : 1 ≤ cfg.memoryPages.toNat := by rw [hpages]; decide
    have hmir := (keepsClose_of_buildSource hlen hb).mirrored hp console hsteps
    rw [hpages] at hmir
    obtain ⟨hiff, hne, hout⟩ := Outcome.MirroredBy.fails_iff hmir hc
    obtain ⟨r, hrun, hcon, hres⟩ := runModule_eq hb hmodule (by rw [hpages]; decide)
      (by rw [hpages]; decide) hcode console steps
    rw [hpages] at hcon hres
    refine ⟨r, hrun, ?_, ?_, by rw [hcon]; exact hout⟩
    · rw [hres, ← hiff]
      refine ⟨fun ⟨e, he⟩ => ?_, fun ⟨t, ht⟩ => ⟨.trap t, ?_⟩⟩
      · obtain ⟨t, ht, -⟩ := (WordOutcome.result_eq_error_iff _ e).mp he
        exact ⟨t, ht⟩
      · exact (WordOutcome.result_eq_error_iff _ _).mpr ⟨t, ht, rfl⟩
    · rw [hres]
      simpa [WordOutcome.result_eq_error_iff] using hne

/-- `+.<,` prints a byte, and then reads into a cell outside the tape. -/
def leftSource : List UInt8 := [0x2b, 0x2e, 0x3c, 0x2c]

/-- With a tape of any contents, so that it need not be unfolded. -/
theorem run_left {tape : Array UInt8} (ht : tape.size = tapeSize) (checks : Nat) :
    (Machine.run
      (.cell 0 (.add 1) (.cell 0 (.print 0) (.move (-1) (.cell 0 (.read 0) .done)))) checks
      ⟨tape, 0, {}⟩).fault = some (.pointerOutOfRange (-1)) := by
  simp [Machine.run, Machine.step, Machine.perform, Machine.index?, Machine.target, Machine.cellAt,
    Machine.setCell, Machine.moved, Console.write, ht, tapeSize]

theorem runs_fail_together_left :
    ∃ o, interpret leftSource { optimize := false } {} 0 = .ok o ∧
      o.fault = some (.pointerOutOfRange (-1)) ∧
      ∃ r e, runModule leftSource { optimize := false } {} 0 = .ok r ∧ r.result = .error e ∧
        r.console.output = o.machine.console.output := by
  have hb : ∃ stats, buildSource leftSource { optimize := false } = .ok (.cell 0 (.add 1)
      (.cell 0 (.print 0) (.move (-1) (.cell 0 (.read 0) .done))), stats) := ⟨_, rfl⟩
  obtain ⟨stats, hb⟩ := hb
  have hf := run_left (Array.size_replicate (v := 0)) 0
  obtain ⟨e, he, -⟩ | ⟨p, _, o, hb', hi, hagree⟩ := runs_fail_together leftSource (by decide)
    { optimize := false } rfl rfl {} 0 0 (Nat.le_refl 0)
  · rw [interpret_eq hb] at he
    simp at he
  · rw [interpret_eq hb, Except.ok.injEq] at hi
    subst hi
    obtain ⟨r, hrun, hiff, -, hout⟩ :=
      hagree (by rw [hf]; simp) (length_codePayload_lt hb' (by decide))
    obtain ⟨e, hres⟩ := hiff.mpr (by rw [hf]; simp)
    exact ⟨_, interpret_eq hb _ _, hf, r, e, hrun, hres, hout⟩

/-- Where the size of the code section does not fit, running the module fails by itself, with any
console and however many steps: there is nothing wrong with the program, but with its module. -/
theorem countingSource_fails_alone :
    let source := countingSource 330382096 5
    source.length < 2 ^ 30 ∧ ∀ (console : Console) (checks steps : Nat),
      ∃ o r, interpret source { optimize := false } console checks = .ok o ∧ o.fault = none ∧
        runModule source { optimize := false } console steps = .ok r ∧
        r.result = .error (.load (.malformed SectionId.code)) := by
  refine ⟨?_, fun console checks steps => ?_⟩
  · rw [length_countingSource]
    omega
  · obtain ⟨o, hrun, hend⟩ := interpret_countingSource defaultMaxRounds console checks
    exact ⟨o, _, hrun, hend, runModule_countingSource Program.length_codePayload_overflow
      defaultMaxRounds console steps, rfl⟩

end TapeLang
