import Mathlib.Logic.Function.Iterate
import TapeLang.Proofs.Rewrite

/-!
# Rounds until nothing changes

A round merges and then postpones. Postponing keeps the number of elements where it moves them
about, so the size alone does not show that rounds come to an end. But only the first round
postpones anything that merging has not touched.

* `postponeFrom_postponeFrom`: two postponing passes are one. So `postpone_postpone`.
* `IsPostponed.round_eq_or_size_lt`: after the first round, a round that changes a program makes
  it shorter.
* `Settles p r q`: the rounds of `p` come to rest at `q`, and round number `r` is the first to
  change nothing. `Settles.settle_eq`: this is what optimizing finds if it is given `r` rounds.
* `exists_settles`: the rounds of every program come to rest, after at most two rounds more than the
  elements it loses. `round_eq_of_iterate_eq`: no program comes back that a round changes.
-/

namespace TapeLang.Program

/-! ## Postponing -/

theorem postponeFrom_moveBy (d e : Int64) (p : Program) :
    (moveBy d p).postponeFrom e = p.postponeFrom (d + e) := by
  by_cases h : d = 0
  · rw [moveBy, if_pos h, h, Int64.zero_add]
  · rw [moveBy, if_neg h, postponeFrom, Int64.add_comm]

/-- Two passes with moves in front are one with the sum of the moves in front. -/
theorem postponeFrom_postponeFrom (p : Program) (d e : Int64) :
    (p.postponeFrom d).postponeFrom e = p.postponeFrom (d + e) := by
  induction p generalizing d e with
  | done => exact postponeFrom_moveBy d e done
  | move a p ih =>
    rw [postponeFrom, postponeFrom, ih, Int64.add_assoc, Int64.add_comm a e, ← Int64.add_assoc]
  | cell a op p ih => rw [postponeFrom, postponeFrom, postponeFrom, ih, Int64.add_assoc]
  | loop b p ihb ih =>
    rw [postponeFrom, postponeFrom_moveBy, postponeFrom, postponeFrom, ihb, ih, Int64.zero_add]

/-- Postponing leaves the program as it is. -/
def IsPostponed (p : Program) : Prop :=
  p.postpone = p

theorem postpone_postpone (p : Program) : p.postpone.IsPostponed := by
  rw [IsPostponed, postpone, postpone, postponeFrom_postponeFrom, Int64.zero_add]

/-! ## One round -/

theorem round_isPostponed (p : Program) : p.round.IsPostponed :=
  postpone_postpone p.merge

theorem size_round_le (p : Program) : p.round.size ≤ p.size :=
  (round_rewrites p).size_le

/-- A round that changes a postponed program makes it shorter. -/
theorem IsPostponed.round_eq_or_size_lt {p : Program} (h : p.IsPostponed) :
    p.round = p ∨ p.round.size < p.size := by
  rcases (merge_merges p).eq_or_size_lt with same | shorter
  · left
    rw [round, same]
    exact h
  · right
    exact Nat.lt_of_le_of_lt (postpone_rewrites p.merge).size_le shorter

theorem size_iterate_round_le (p : Program) (k : Nat) : (round^[k] p).size ≤ p.size := by
  induction k generalizing p with
  | zero => exact Nat.le_refl _
  | succ k ih => exact Nat.le_trans (ih p.round) (size_round_le p)

/-- A program that comes back after some rounds is one that a round does not change. -/
theorem round_eq_of_iterate_eq {p : Program} {k : Nat} (h : round^[k + 1] p = p) : p.round = p := by
  have postponed : p.IsPostponed := by
    rw [Function.iterate_succ_apply'] at h
    rw [← h]
    exact round_isPostponed _
  rcases postponed.round_eq_or_size_lt with same | shorter
  · exact same
  · -- The rounds after a shortening one do not make up for it.
    have le := size_iterate_round_le p.round k
    rw [← Function.iterate_succ_apply, h] at le
    omega

/-! ## All rounds -/

/-- Rounds change `p` until it is `q`, and round number `r` is the first to change nothing. -/
inductive Settles : Program → Nat → Program → Prop where
  | rest {p : Program} : p.round = p → Settles p 1 p
  | again {p q : Program} {r : Nat} : p.round ≠ p → Settles p.round r q → Settles p (r + 1) q

namespace Settles

variable {p q : Program} {r : Nat}

theorem pos (h : p.Settles r q) : 1 ≤ r := by
  cases h with
  | rest _ => exact Nat.le_refl 1
  | again _ _ => exact Nat.le_add_left 1 _

theorem size_le (h : p.Settles r q) : q.size ≤ p.size := by
  induction h with
  | rest _ => exact Nat.le_refl _
  | again _ _ ih => exact Nat.le_trans ih (size_round_le _)

/-- There is one place to rest only. -/
theorem eq_of_round_eq (h : p.Settles r q) {i : Nat}
    (hi : (round^[i] p).round = round^[i] p) : round^[i] p = q := by
  induction h generalizing i with
  | rest fixed => exact Function.iterate_fixed fixed i
  | again changes _ ih =>
    cases i with
    | zero => exact absurd hi changes
    | succ i => exact ih hi

/-- Optimizing in `left` rounds, after `made` rounds, finds where the rounds rest if `left`
is enough. -/
theorem settle_eq (h : p.Settles r q) (made left : Nat) :
    settle made p left = if r ≤ left then .ok ⟨q, made + r⟩ else .error ⟨made + left⟩ := by
  induction h generalizing made left with
  | rest fixed =>
    cases left with
    | zero => rfl
    | succ left => rw [settle, if_pos ((equal_iff _ _).mpr fixed.symm), fixed, if_pos (by omega)]
  | @again p q r changes _ ih =>
    cases left with
    | zero => rfl
    | succ left =>
      have differs : ¬ p.equal p.round = true := fun same => changes ((equal_iff _ _).mp same).symm
      rw [settle, if_neg differs, ih, Nat.add_assoc, Nat.add_assoc, Nat.add_comm 1 r,
        Nat.add_comm 1 left]
      simp only [Nat.add_le_add_iff_right]

theorem optimize_eq_ok_iff (h : p.Settles r q) {n : Int} (hn : 1 ≤ n) (o : Optimized) :
    p.optimize n = .ok o ↔ r ≤ n ∧ o = ⟨q, r⟩ := by
  rw [optimize, roundLimit, if_neg (by omega), h.settle_eq, Nat.zero_add]
  by_cases enough : r ≤ n.toNat
  · rw [if_pos enough, Except.ok.injEq]
    constructor
    · intro e
      exact ⟨by omega, e.symm⟩
    · rintro ⟨-, e⟩
      exact e.symm
  · rw [if_neg enough]
    constructor
    · intro e
      cases e
    · rintro ⟨le, -⟩
      omega

end Settles

/-- The rounds of a postponed program come to rest, and all but the last shorten it. -/
theorem IsPostponed.exists_settles {p : Program} (h : p.IsPostponed) :
    ∃ r q, p.Settles r q ∧ r + q.size ≤ p.size + 1 := by
  induction hs : p.size using Nat.strongRecOn generalizing p with
  | _ size ih =>
    subst hs
    by_cases fixed : p.round = p
    · exact ⟨1, p, .rest fixed, by omega⟩
    · have shorter := h.round_eq_or_size_lt.resolve_left fixed
      obtain ⟨r, q, settles, bound⟩ := ih p.round.size shorter (round_isPostponed p) rfl
      exact ⟨r + 1, q, .again fixed settles, by omega⟩

/-- The rounds of every program come to rest. The first may change it without shortening it. -/
theorem exists_settles (p : Program) : ∃ r q, p.Settles r q ∧ r + q.size ≤ p.size + 2 := by
  by_cases fixed : p.round = p
  · exact ⟨1, p, .rest fixed, by omega⟩
  · obtain ⟨r, q, settles, bound⟩ := (round_isPostponed p).exists_settles
    have le := size_round_le p
    exact ⟨r + 1, q, .again fixed settles, by omega⟩

/-- Optimizing converges. For every program there are a number of rounds and a result, which is no
longer than the program, such that optimizing succeeds with exactly the round limits that are not
below that number, and then always gives that result and that number. It takes at most two rounds
more than the elements that the program loses. So a limit of two more than its size is enough, and
no program shows up twice before the result. -/
theorem optimize_converges (p : Program) :
    ∃ (r : Nat) (q : Program),
      (1 ≤ r ∧ r ≤ p.size - q.size + 2 ∧ q.size ≤ p.size) ∧
      (∀ n : Int, 1 ≤ n → ∀ o : Optimized, p.optimize n = .ok o ↔ r ≤ n ∧ o = ⟨q, r⟩) ∧
      p.optimize (p.size + 2) = .ok ⟨q, r⟩ ∧
      ∀ i j : Nat, i < j → round^[i] p = round^[j] p → round^[i] p = q := by
  obtain ⟨r, q, settles, bound⟩ := exists_settles p
  have le := settles.size_le
  refine ⟨r, q, ⟨settles.pos, by omega, le⟩, fun n hn o => settles.optimize_eq_ok_iff hn o, ?_, ?_⟩
  · exact (settles.optimize_eq_ok_iff (by omega) _).mpr ⟨by omega, rfl⟩
  · intro i j hij same
    obtain ⟨k, rfl⟩ : ∃ k, j = k + 1 + i := ⟨j - i - 1, by omega⟩
    rw [Function.iterate_add_apply] at same
    exact settles.eq_of_round_eq (round_eq_of_iterate_eq same.symm)

end TapeLang.Program
