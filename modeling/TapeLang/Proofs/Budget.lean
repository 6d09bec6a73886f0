import TapeLang.Proofs.Points

/-!
# Runs with more checks

The number of checks only decides where a run stops. With more checks it goes through the same
points, each with so many more checks left, and where the first run was canceled the other goes on.

* `Point.Reaches.allow`: what a run reaches, it reaches with more checks too.
* `Point.Ends.canceled_eq`: a run is canceled with no check left, and the machine is that of its
  last point.
* `reaches_of_canceled`: a run with more checks goes through the machine of a run that was canceled.
* `checks_decide_where_runs_stop`: every run ends, and what more checks change about it.
-/

namespace TapeLang

namespace Point

variable {x y : Point} {o : Outcome}

/-- The point with `k` more checks left. -/
def allow (x : Point) (k : Nat) : Point :=
  { x with checks := x.checks + k }

theorem Step.allow (h : Step x y) (k : Nat) : Step (x.allow k) (y.allow k) := by
  cases h with
  | move d p c m => exact .move d p (c + k) m
  | cell h p c => exact .cell h p (c + k)
  | exit h b p c =>
    simp only [Point.allow, Nat.succ_add]
    exact .exit h b p (c + k)
  | again h b p c =>
    simp only [Point.allow, Nat.succ_add]
    exact .again h b p (c + k)

theorem Reaches.allow (h : x.Reaches y) (k : Nat) : (x.allow k).Reaches (y.allow k) := by
  induction h with
  | refl => exact .refl
  | tail _ hs ih => exact ih.tail (hs.allow k)

/-- A run is canceled at a test with no check left, and changes nothing there. -/
theorem Ends.canceled_eq (h : Ends y o) (hf : o.fault = some .canceled) :
    ∃ b p, y = ⟨.loop b p, 0, o.machine⟩ := by
  cases h with
  | done c m => cases hf
  | @cell a op m f h p c => exact absurd (h.trans hf) (Machine.fault_step_ne m a op)
  | canceled b p m => exact ⟨b, p, rfl⟩
  | outside h b p c => cases hf

end Point

namespace Machine

/-- Where a run is canceled, a run with more checks stands in front of the same test with
those left. -/
theorem reaches_of_canceled {p : Program} {c : Nat} {m : Machine}
    (h : (run p c m).fault = some .canceled) (k : Nat) :
    ∃ b q, Point.Reaches ⟨p, c + k, m⟩ ⟨.loop b q, k, (run p c m).machine⟩ := by
  obtain ⟨y, hy, ends⟩ := Point.exists_ends ⟨p, c, m⟩
  obtain ⟨b, q, rfl⟩ := ends.canceled_eq h
  have more := hy.allow k
  simp only [Point.allow, Nat.zero_add] at more
  exact ⟨b, q, more⟩

/-- Every run ends. One that is not canceled ends in the same way with more checks. One that is
canceled stops at a point that a run with more checks goes through, and so has printed the start of
what that run prints. -/
theorem checks_decide_where_runs_stop (p : Program) (c : Nat) (m : Machine) :
    (∃ last, Point.Reaches ⟨p, c, m⟩ last ∧ Point.Ends last (run p c m)) ∧
      ∀ c', c ≤ c' →
        ((run p c m).fault ≠ some .canceled →
          (run p c' m).fault = (run p c m).fault ∧ (run p c' m).machine = (run p c m).machine) ∧
        ((run p c m).fault = some .canceled →
          (∃ b q, Point.Reaches ⟨p, c', m⟩ ⟨.loop b q, c' - c, (run p c m).machine⟩) ∧
            (run p c m).machine.printed <+: (run p c' m).machine.printed) := by
  refine ⟨Point.exists_ends ⟨p, c, m⟩, fun c' hc => ?_⟩
  obtain ⟨k, rfl⟩ := Nat.exists_eq_add_of_le hc
  refine ⟨fun goes => ?_, fun stops => ?_⟩
  · rw [run_add_checks p c k m goes]
    exact ⟨rfl, rfl⟩
  · obtain ⟨b, q, through⟩ := reaches_of_canceled stops k
    refine ⟨⟨b, q, by rwa [Nat.add_sub_cancel_left]⟩, ?_⟩
    have same : run p (c + k) m = run (.loop b q) k (run p c m).machine := through.run_eq
    rw [same]
    exact output_run _ k _

end Machine

end TapeLang
