import Mathlib.Logic.Relation
import TapeLang.Proofs.Run

/-!
# The points of a run

A run taken step by step. A point of it holds what is left of the program. Where a loop is entered
once more, its body is left, and then the loop again.

* `Point.Step` and `Point.Ends`: from each point a run goes on to one other point, or ends with one
  outcome (`step_or_ends`, `Step.unique`, `Ends.not_step`).
* `Point.Reaches`: any number of steps. `Reaches.run_eq`: a run is the run from each of its points.
  `exists_ends`: it reaches a last point, and ends there with its outcome.
* `Point.StopsAtTest`: the last point is the test of a loop.
-/

namespace TapeLang

/-- A point of a run: what is left of the program, the checks left, and the machine. -/
structure Point where
  rest : Program
  checks : Nat
  machine : Machine

namespace Point

/-- The run from a point on. -/
def run (x : Point) : Outcome :=
  Machine.run x.rest x.checks x.machine

/-- A run goes on from one point to the next. -/
inductive Step : Point → Point → Prop where
  | move (d : Int64) (p : Program) (c : Nat) (m : Machine) :
    Step ⟨.move d p, c, m⟩ ⟨p, c, m.moved d⟩
  | cell {a : Int64} {op : CellOp} {m : Machine} (h : (m.step a op).2 = none) (p : Program)
    (c : Nat) :
    Step ⟨.cell a op p, c, m⟩ ⟨p, c, (m.step a op).1⟩
  /-- The cell is zero: the loop is over. -/
  | exit {m : Machine} (h : m.test = .zero) (b p : Program) (c : Nat) :
    Step ⟨.loop b p, c + 1, m⟩ ⟨p, c, m⟩
  /-- The cell is not zero: the body is next, and then the loop again. -/
  | again {m : Machine} (h : m.test = .nonzero) (b p : Program) (c : Nat) :
    Step ⟨.loop b p, c + 1, m⟩ ⟨b ++ .loop b p, c, m⟩

/-- A run ends at a point. -/
inductive Ends : Point → Outcome → Prop where
  | done (c : Nat) (m : Machine) : Ends ⟨.done, c, m⟩ ⟨m, c, none⟩
  | cell {a : Int64} {op : CellOp} {m : Machine} {f : Fault} (h : (m.step a op).2 = some f)
    (p : Program) (c : Nat) : Ends ⟨.cell a op p, c, m⟩ ⟨(m.step a op).1, c, some f⟩
  | canceled (b p : Program) (m : Machine) : Ends ⟨.loop b p, 0, m⟩ ⟨m, 0, some .canceled⟩
  | outside {m : Machine} (h : m.test = .outside) (b p : Program) (c : Nat) :
    Ends ⟨.loop b p, c + 1, m⟩ ⟨m, c, some (.pointerOutOfRange m.pointer)⟩

/-- Some steps lead from one point to the other. -/
def Reaches : Point → Point → Prop :=
  Relation.ReflTransGen Step

/-- The run from the point on is stopped where it tests the cell of a loop: it is canceled there, or
the pointer is outside the tape. -/
def StopsAtTest (x : Point) : Prop :=
  ∃ b p c m o, x.Reaches ⟨.loop b p, c, m⟩ ∧ Ends ⟨.loop b p, c, m⟩ o

variable {x y z : Point} {o : Outcome}

/-! ## One step -/

theorem step_or_ends (x : Point) : (∃ y, Step x y) ∨ ∃ o, Ends x o := by
  obtain ⟨p, c, m⟩ := x
  cases p with
  | done => exact .inr ⟨_, .done c m⟩
  | move d p => exact .inl ⟨_, .move d p c m⟩
  | cell a op p =>
    rcases h : (m.step a op).2 with _ | f
    · exact .inl ⟨_, .cell h p c⟩
    · exact .inr ⟨_, .cell h p c⟩
  | loop b p =>
    rcases c with _ | c
    · exact .inr ⟨_, .canceled b p m⟩
    rcases h : m.test with _ | _ | _
    · exact .inr ⟨_, .outside h b p c⟩
    · exact .inl ⟨_, .exit h b p c⟩
    · exact .inl ⟨_, .again h b p c⟩

theorem Step.unique (h : Step x y) (h' : Step x z) : y = z := by
  cases h with
  | move => cases h'; rfl
  | cell => cases h'; rfl
  | exit zero =>
    cases h' with
    | exit => rfl
    | again nonzero => simp [zero] at nonzero
  | again nonzero =>
    cases h' with
    | exit zero => simp [nonzero] at zero
    | again => rfl

theorem Ends.not_step (h : Ends x o) : ¬ Step x y := by
  intro h'
  cases h <;> cases h' <;> simp_all

theorem Step.run_eq (h : Step x y) : x.run = y.run := by
  cases h with
  | move d p c m => exact Machine.run_move d p c m
  | cell h p c => exact (Machine.run_cell _ _ p c _).trans (RunEnd.andThen_of_none h _)
  | exit h b p c => exact Machine.run_loop_exit b p c h
  | again h b p c =>
    exact (Machine.run_loop_again b p c h).trans (Machine.run_append b (.loop b p) c _).symm

theorem Ends.run_eq (h : Ends x o) : x.run = o := by
  cases h with
  | done c m => exact Machine.run_done c m
  | @cell a op m f h p c =>
    rw [run, Machine.run_cell, RunEnd.andThen_of_some h, Machine.stepOutcome, h]
  | canceled b p m => exact Machine.run_loop_zero b p m
  | @outside m h b p c =>
    rw [run, Machine.run_loop_outside b p c h, Machine.target, Int64.add_zero]

/-- A run comes to its end only where the program does. -/
theorem Ends.done_of_none (h : Ends x o) (hf : o.fault = none) : x.rest = .done := by
  cases h with
  | done c m => rfl
  | cell h p c => cases hf
  | canceled b p m => cases hf
  | outside h b p c => cases hf

/-- Only the test of a loop is canceled. -/
theorem Ends.loop_of_canceled (h : Ends x o) (hf : o.fault = some .canceled) :
    ∃ b p, x.rest = .loop b p := by
  cases h with
  | done c m => cases hf
  | @cell a op m f h p c => exact absurd (h.trans hf) (Machine.fault_step_ne m a op)
  | canceled b p m => exact ⟨b, p, rfl⟩
  | outside h b p c => exact ⟨b, p, rfl⟩

/-- Every step spends a check, or leaves less of the program. -/
theorem Step.lt (h : Step x y) :
    Prod.Lex (· < ·) (· < ·) (y.checks, y.rest.size) (x.checks, x.rest.size) := by
  cases h with
  | move d p c m => exact .right _ (Nat.lt_succ_self _)
  | cell h p c => exact .right _ (Nat.lt_succ_self _)
  | exit h b p c => exact .left _ _ (Nat.lt_succ_self c)
  | again h b p c => exact .left _ _ (Nat.lt_succ_self c)

/-! ## All steps -/

theorem Reaches.run_eq (h : x.Reaches y) : x.run = y.run := by
  induction h with
  | refl => rfl
  | tail _ hs ih => exact ih.trans hs.run_eq

/-- A run reaches its last point, and ends there with its outcome. -/
theorem exists_ends (x : Point) : ∃ y, x.Reaches y ∧ Ends y x.run := by
  have wf := InvImage.wf (fun x : Point => (x.checks, x.rest.size))
    (Prod.lex Nat.lt_wfRel Nat.lt_wfRel).wf
  induction x using wf.induction with
  | _ x ih =>
    obtain ⟨y, hs⟩ | ⟨o, ho⟩ := step_or_ends x
    · obtain ⟨z, hz, ho⟩ := ih y hs.lt
      rw [hs.run_eq]
      exact ⟨z, .head hs hz, ho⟩
    · rw [ho.run_eq]
      exact ⟨x, .refl, ho⟩

/-- A run has one last point only. -/
theorem Reaches.last_unique {o' : Outcome} (hy : x.Reaches y) (hz : x.Reaches z) (ho : Ends y o)
    (ho' : Ends z o') : y = z := by
  have stays {u v : Point} {e : Outcome} (he : Ends u e) (h : u.Reaches v) : u = v := by
    rcases Relation.ReflTransGen.cases_head h with same | ⟨w, hs, -⟩
    · exact same
    · exact absurd hs he.not_step
  have unique : Relator.RightUnique Step := fun _ _ _ => Step.unique
  rcases Relation.ReflTransGen.total_of_right_unique unique hy hz with h | h
  · exact stays ho h
  · exact (stays ho' h).symm

/-- Where a run stops is known from its last point. -/
theorem stopsAtTest_iff (h : x.Reaches y) (ho : Ends y o) :
    x.StopsAtTest ↔ ∃ b p, y.rest = .loop b p := by
  constructor
  · rintro ⟨b, p, c, m, o', h', ho'⟩
    obtain rfl := h.last_unique h' ho ho'
    exact ⟨b, p, rfl⟩
  · rintro ⟨b, p, hy⟩
    obtain ⟨rest, c, m⟩ := y
    obtain rfl : rest = .loop b p := hy
    exact ⟨b, p, c, m, o, h, ho⟩

end Point

end TapeLang
