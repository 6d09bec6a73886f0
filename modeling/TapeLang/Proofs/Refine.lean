import TapeLang.Proofs.Rewrite
import TapeLang.Proofs.Run

/-!
# One program in place of another

`p.RefinedBy q` says that `q` may run in place of `p`. From every machine, and with at least as
many checks:

* if `p` comes to its end, so does `q`, with the same machine and at least as many checks left;
* if the console or an operation without meaning stops `p`, it stops `q` in the same way, with the
  same tape and console;
* `q` prints at least what `p` prints, also where `p` looks outside the tape or is canceled.

The relation is a preorder (`RefinedBy.refl`, `RefinedBy.trans`) and may be used inside programs
(`RefinedBy.append`, `RefinedBy.loop`), and each rule of rewriting keeps to it. So does rewriting,
then (`RewritesTo.refinedBy`), and optimizing (`optimize_keeps_runs`).
-/

namespace TapeLang

/-- The faults that a program in place of another has to show too. -/
def Fault.IsVisible : Fault → Prop
  | .invalidOp _ | .console _ => True
  | .pointerOutOfRange _ | .canceled => False

/-- The outcome `o'` may stand for `o`. -/
structure Outcome.RefinedBy (o o' : Outcome) : Prop where
  finish : o.fault = none → o'.fault = none ∧ o'.machine = o.machine ∧ o.checks ≤ o'.checks
  stop : ∀ f, f.IsVisible → o.fault = some f →
    o'.fault = some f ∧ o'.machine.tape = o.machine.tape ∧ o'.machine.console = o.machine.console
  print : o.machine.printed <+: o'.machine.printed

namespace Outcome.RefinedBy

variable {o o' o'' : Outcome}

theorem refl (o : Outcome) : o.RefinedBy o :=
  ⟨fun h => ⟨h, rfl, Nat.le_refl _⟩, fun _ _ h => ⟨h, rfl, rfl⟩, List.prefix_rfl⟩

theorem trans (h : o.RefinedBy o') (h' : o'.RefinedBy o'') : o.RefinedBy o'' where
  finish hf := by
    obtain ⟨hf', hm, hc⟩ := h.finish hf
    obtain ⟨hf'', hm', hc'⟩ := h'.finish hf'
    exact ⟨hf'', hm'.trans hm, Nat.le_trans hc hc'⟩
  stop f hv hf := by
    obtain ⟨hf', ht, hc⟩ := h.stop f hv hf
    obtain ⟨hf'', ht', hc'⟩ := h'.stop f hv hf'
    exact ⟨hf'', ht'.trans ht, hc'.trans hc⟩
  print := h.print.trans h'.print

/-- Any outcome that has printed enough may stand for one that left the tape or was canceled. -/
theorem of_hidden {f : Fault} (hf : o.fault = some f) (hv : ¬ f.IsVisible)
    (hp : o.machine.printed <+: o'.machine.printed) : o.RefinedBy o' where
  finish h := by simp [hf] at h
  stop g hg h := by
    rw [hf, Option.some.injEq] at h
    exact absurd (h ▸ hg) hv
  print := hp

theorem andThen {f : Nat → Machine → Outcome} {q : Program} (h : o.RefinedBy o')
    (next : o.fault = none → (f o.checks o.machine).RefinedBy (Machine.run q o'.checks o.machine)) :
    Outcome.RefinedBy (o.andThen f) (o'.andThen (Machine.run q)) := by
  obtain ⟨hf, e⟩ | ⟨⟨g, hf⟩, e⟩ := o.andThen_cases f
  · obtain ⟨hf', hm, -⟩ := h.finish hf
    rw [e, RunEnd.andThen_of_none hf', hm]
    exact next hf
  · rw [e]
    by_cases hv : g.IsVisible
    · rw [RunEnd.andThen_of_some (h.stop g hv hf).1]; exact h
    · exact of_hidden hf hv (h.print.trans (Machine.output_andThen_run o' q))

end Outcome.RefinedBy

namespace Program

open Machine

/-- The program `q` may run in place of `p`. -/
def RefinedBy (p q : Program) : Prop :=
  ∀ (c c' : Nat) (m : Machine), c ≤ c' → (run p c m).RefinedBy (run q c' m)

namespace RefinedBy

variable {p p' q q' r b b' : Program}

theorem refl (p : Program) : p.RefinedBy p := by
  intro c c' m hc
  obtain ⟨k, rfl⟩ := Nat.exists_eq_add_of_le hc
  by_cases h : (run p c m).fault = some .canceled
  · exact .of_hidden h (by simp [Fault.IsVisible]) (output_run_mono p hc m)
  · rw [run_add_checks p c k m h]
    exact ⟨fun hf => ⟨hf, rfl, Nat.le_add_right _ _⟩, fun _ _ hf => ⟨hf, rfl, rfl⟩, List.prefix_rfl⟩

theorem trans (h : p.RefinedBy q) (h' : q.RefinedBy r) : p.RefinedBy r :=
  fun c c' m hc => (h c c' m hc).trans (h' c' c' m (Nat.le_refl _))

/-- It is enough to compare runs with as many checks. -/
theorem of_run (h : ∀ c m, (run p c m).RefinedBy (run q c m)) : p.RefinedBy q :=
  fun c c' m hc => (h c m).trans (refl q c c' m hc)

theorem append (h : p.RefinedBy p') (h' : q.RefinedBy q') : (p ++ q).RefinedBy (p' ++ q') := by
  intro c c' m hc
  rw [run_append, run_append]
  have hp := h c c' m hc
  exact hp.andThen fun hf => h' _ _ _ (hp.finish hf).2.2

theorem loop (hb : b.RefinedBy b') : (Program.loop b .done).RefinedBy (.loop b' .done) := by
  intro c
  induction c using Nat.strongRecOn with
  | _ c less =>
    intro c' m hc
    rcases c with _ | c
    · rw [run_loop_zero]
      exact .of_hidden rfl (by simp [Fault.IsVisible]) (output_run _ c' m)
    obtain ⟨c', rfl⟩ : ∃ k, c' = k + 1 := ⟨c' - 1, by omega⟩
    have hle : c ≤ c' := Nat.le_of_succ_le_succ hc
    rcases ht : m.test with _ | _ | _
    · rw [run_loop_outside _ _ _ ht, run_loop_outside _ _ _ ht]
      exact .of_hidden rfl (by simp [Fault.IsVisible]) List.prefix_rfl
    · rw [run_loop_exit _ _ _ ht, run_loop_exit _ _ _ ht]
      exact refl .done c c' m hle
    · rw [run_loop_again _ _ _ ht, run_loop_again _ _ _ ht]
      have h := hb c c' m hle
      refine h.andThen fun hf => less _ ?_ _ _ (h.finish hf).2.2
      exact Nat.lt_succ_of_le (run_checks_le b c m)

end RefinedBy

/-! ## Rewrites of neighbours -/

section Rewrites

theorem move_move_refined (d e : Int64) :
    (move d (move e .done)).RefinedBy (move (d + e) .done) :=
  .of_run fun c m => by
    rw [run_move, run_move, run_move, moved_moved]
    exact .refl _

theorem move_zero_refined : (move 0 .done).RefinedBy .done :=
  .of_run fun c m => by
    rw [run_move, moved_zero]
    exact .refl _

/-- A fused operation does what its two parts do. -/
theorem step_fuse {m : Machine} {i : Nat} (hi : i < m.tape.size) {x y both : CellOp}
    (h : x.fuse? y = some both) :
    (m.perform i x).2 = none ∧ (m.perform i x).1.index? = m.index? ∧
      (m.perform i x).1.perform i y = m.perform i both := by
  cases x <;> cases y <;> simp only [CellOp.fuse?, Option.some.injEq, reduceCtorEq] at h <;>
    subst h <;> refine ⟨rfl, funext fun a => index?_setCell m i _ a, ?_⟩ <;>
    simp [perform, cellAt_setCell hi, UInt8.add_assoc]

/-- Two operations on one cell run as the fused one does. -/
theorem run_cell_cell {x y both : CellOp} (a : Int64) (h : x.fuse? y = some both) (c : Nat)
    (m : Machine) :
    run (cell a x (cell a y .done)) c m = run (cell a both .done) c m := by
  rw [run_cell, run_cell, stepOutcome, stepOutcome]
  rcases hi : m.index? a with _ | i
  · rw [step_outside hi, step_outside hi]
    rfl
  · obtain ⟨hf, hx, hs⟩ := step_fuse (index?_lt hi) h
    rw [step_inside hi, step_inside hi, RunEnd.andThen_of_none (by exact hf), run_cell, stepOutcome,
      step_inside (by rw [hx]; exact hi), hs]

theorem cell_cell_refined {x y both : CellOp} (a : Int64) (h : x.fuse? y = some both) :
    (cell a x (cell a y .done)).RefinedBy (cell a both .done) :=
  .of_run fun c m => by
    rw [run_cell_cell a h]
    exact .refl _

theorem step_add_zero {m : Machine} {a : Int64} {i : Nat} (hi : m.index? a = some i) :
    m.step a (.add 0) = (m, none) := by
  have h0 : m.cellAt i + (0 : Int8).toUInt8 = m.cellAt i := UInt8.add_zero _
  rw [step_inside hi, perform, h0, setCell_cellAt]

theorem add_zero_refined (a : Int64) : (cell a (.add 0) .done).RefinedBy .done :=
  .of_run fun c m => by
    rw [run_cell, stepOutcome, run_done]
    rcases hi : m.index? a with _ | i
    · rw [step_outside hi]
      exact .of_hidden rfl (by simp [Fault.IsVisible]) List.prefix_rfl
    · rw [step_add_zero hi]
      simp only [RunEnd.andThen, run_done]
      exact .refl _

/-- An operation does not mind the move in front of it. Where it stops the run, the move is missing:
the pointers differ there. -/
theorem move_cell_refined (d a : Int64) (op : CellOp) :
    (move d (cell a op .done)).RefinedBy (cell (d + a) op (move d .done)) :=
  .of_run fun c m => by
    rw [run_move, run_cell, run_cell, stepOutcome, stepOutcome, step_moved]
    rcases hf : (m.step (d + a) op).2 with _ | f
    · simp only [RunEnd.andThen, run_move]
      exact .refl _
    · simp only [RunEnd.andThen]
      exact ⟨fun hn => by simp at hn, fun g _ hg => ⟨hg, rfl, rfl⟩, List.prefix_rfl⟩

/-- A loop that only changes its own cell leaves zero there, or is canceled. -/
theorem run_clear_loop {m : Machine} {i : Nat} (hi : m.index? 0 = some i) (v : Int8) (c : Nat) :
    (∃ left, left ≤ c ∧
      run (loop (cell 0 (.add v) .done) .done) c m = ⟨m.setCell i 0, left, none⟩) ∨
    (run (loop (cell 0 (.add v) .done) .done) c m).fault = some .canceled ∧
      (run (loop (cell 0 (.add v) .done) .done) c m).machine.printed = m.printed := by
  induction c generalizing m with
  | zero => right; simp
  | succ c ih =>
    by_cases h0 : m.cellAt i = 0
    · left
      refine ⟨c, Nat.le_succ c, ?_⟩
      rw [run_loop_exit _ _ _ (by simp [test, hi, h0]), run_done, ← h0, setCell_cellAt]
    · have hs : run (cell 0 (.add v) .done) c m =
          ⟨m.setCell i (m.cellAt i + v.toUInt8), c, none⟩ := by
        rw [run_cell, stepOutcome, step_inside hi]
        simp only [perform, RunEnd.andThen, run_done]
      rw [run_loop_again _ _ _ (by simp [test, hi, h0]), hs, RunEnd.andThen_of_none rfl]
      obtain ⟨left, hl, e⟩ | ⟨hf, hp⟩ :=
        ih (m := m.setCell i (m.cellAt i + v.toUInt8)) (by simpa using hi)
      · exact .inl ⟨left, Nat.le_succ_of_le hl, by rw [e, setCell_setCell]⟩
      · exact .inr ⟨hf, hp⟩

theorem clear_loop_refined (v : Int8) :
    (loop (cell 0 (.add v) .done) .done).RefinedBy (cell 0 (.set 0) .done) :=
  .of_run fun c m => by
    rcases hi : m.index? 0 with _ | i
    · have ht : m.test = .outside := by simp [test, hi]
      rcases c with _ | c
      · rw [run_loop_zero]
        exact .of_hidden rfl (by simp [Fault.IsVisible]) (output_run _ 0 m)
      · rw [run_loop_outside _ _ _ ht]
        exact .of_hidden rfl (by simp [Fault.IsVisible]) (output_run _ _ m)
    · have hs : run (cell 0 (.set 0) .done) c m = ⟨m.setCell i 0, c, none⟩ := by
        rw [run_cell, stepOutcome, step_inside hi]
        simp only [perform, RunEnd.andThen, run_done]
        rfl
      obtain ⟨left, hl, e⟩ | ⟨hf, hp⟩ := run_clear_loop hi v c
      · rw [e, hs]
        exact ⟨fun _ => ⟨rfl, rfl, hl⟩, fun _ _ h => by simp at h, List.prefix_rfl⟩
      · refine .of_hidden hf (by simp [Fault.IsVisible]) ?_
        rw [hp]
        exact output_run _ c m

/-- What a program is rewritten to may run in place of it. -/
theorem RewritesTo.refinedBy {p q : Program} (h : p.RewritesTo q) : p.RefinedBy q := by
  induction h with
  | refl p => exact .refl p
  | trans _ _ ih ih' => exact ih.trans ih'
  | append _ _ ih ih' => exact ih.append ih'
  | loop _ ih => exact ih.loop
  | moveMove d e => exact move_move_refined d e
  | moveZero => exact move_zero_refined
  | cellCell a h => exact cell_cell_refined a h
  | addZero a => exact add_zero_refined a
  | moveCell d a op => exact move_cell_refined d a op
  | clearLoop v => exact clear_loop_refined v

end Rewrites

/-! ## Optimizing -/

/-- Optimizing keeps what a program does, from every machine and with any number of checks. If the
program comes to its end, the optimized one leaves the same machine. If the console or an operation
without meaning stops it, it stops the optimized one too, with the same tape and console. And
whatever happens, the optimized one prints at least as much. -/
theorem optimize_keeps_runs (p : Program) (maxRounds : Int) (r : Optimized)
    (h : p.optimize maxRounds = .ok r) (m : Machine) (checks : Nat) :
    let o := Machine.run p checks m
    let o' := Machine.run r.program checks m
    (o.fault = none → o'.fault = none ∧ o'.machine = o.machine) ∧
      (∀ f, (∃ e, f = .console e) ∨ (∃ op, f = .invalidOp op) → o.fault = some f →
        o'.fault = some f ∧ o'.machine.tape = o.machine.tape ∧
          o'.machine.console = o.machine.console) ∧
      o.machine.console.output.toList <+: o'.machine.console.output.toList := by
  intro o o'
  have ho : o.RefinedBy o' := (optimize_rewrites h).refinedBy checks checks m (Nat.le_refl checks)
  refine ⟨fun hf => ?_, fun f hv hf => ho.stop f ?_ hf, ho.print⟩
  · obtain ⟨hf', hm, -⟩ := ho.finish hf
    exact ⟨hf', hm⟩
  · rcases hv with ⟨e, rfl⟩ | ⟨op, rfl⟩ <;> trivial

/-- Prints a byte from within a loop, and clears the cell to the right with another one. -/
def countdown : Program :=
  .move 1 (.cell 0 (.add 2) (.move (-1) (.cell 0 (.add 1) (.loop
    (.move 1 (.cell 0 (.print 0) (.move (-1) (.cell 0 (.add (-1)) .done))))
    (.move 1 (.loop (.cell 0 (.add (-1)) .done) .done))))))

theorem optimize_keeps_runs_countdown :
    ∃ r, countdown.optimize 2 = .ok r ∧ r.program.size < countdown.size ∧
      ∀ (m : Machine) (checks : Nat), (Machine.run countdown checks m).fault = none →
        (Machine.run r.program checks m).machine = (Machine.run countdown checks m).machine := by
  have h : countdown.optimize 2 = .ok ⟨.cell 1 (.add 2) (.cell 0 (.add 1) (.loop
      (.cell 1 (.print 0) (.cell 0 (.add (-1)) .done)) (.cell 1 (.set 0) (.move 1 .done)))),
        2⟩ := by rfl
  refine ⟨_, h, by decide, fun m checks hf => ?_⟩
  exact ((optimize_keeps_runs countdown 2 _ h m checks).1 hf).2

end Program

end TapeLang
