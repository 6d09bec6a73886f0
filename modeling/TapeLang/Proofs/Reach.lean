import Mathlib.Algebra.Group.Int.Defs
import Mathlib.Algebra.Group.Nat.Defs
import TapeLang.Proofs.Parse
import TapeLang.Proofs.Rewrite

/-!
# How far a program gets

* `StaysWithin`: seen from where a program starts, its pointer and the cells that it looks at lie
  between two bounds. A loop body starts anew, and a loop counts as no move.
* `Spells.staysWithin`: a parsed program stays within as many cells as its source has moves.
  `RewritesTo.staysWithin`: an optimized one stays within the same cells.
* `Anchored`: a cell to the right of the pointer is only looked at where the pointer is known to be
  on the tape. `Spells.anchored`, `anchored_postpone`: parsed and postponed programs are like that.
-/

namespace TapeLang

/-- The number lies between two bounds. -/
def Inside (lo hi : Int) (x : Int64) : Prop :=
  lo ≤ x.toInt ∧ x.toInt ≤ hi

namespace Program

/-- From `pos` on, the program and the cells that it looks at stay between `lo` and `hi`, and all of
its operations have a meaning. -/
def StaysWithin (lo hi : Int) (pos : Int64) : Program → Prop
  | done => Inside lo hi pos
  | move d p => Inside lo hi pos ∧ p.StaysWithin lo hi (pos + d)
  | cell a op p =>
    Inside lo hi pos ∧ (Inside lo hi (pos + a) ∧ op.IsKnown) ∧ p.StaysWithin lo hi pos
  | loop b p => Inside lo hi pos ∧ b.StaysWithin lo hi 0 ∧ p.StaysWithin lo hi pos

/-- The sum of the moves of a program, those of its loops apart. -/
def shift : Program → Int64
  | done => 0
  | move d p => d + p.shift
  | cell _ _ p => p.shift
  | loop _ p => p.shift

theorem shift_append (p q : Program) : (p ++ q).shift = p.shift + q.shift := by
  induction p with
  | done => exact (Int64.zero_add _).symm
  | move d p ih => rw [move_append, shift, shift, ih, Int64.add_assoc]
  | cell a op p ih => exact ih
  | loop b p _ ih => exact ih

variable {lo hi : Int} {pos : Int64} {p q : Program}

theorem StaysWithin.inside (h : p.StaysWithin lo hi pos) : Inside lo hi pos := by
  cases p with
  | done => exact h
  | move d p => exact h.1
  | cell a op p => exact h.1
  | loop b p => exact h.1

theorem staysWithin_append :
    (p ++ q).StaysWithin lo hi pos ↔
      p.StaysWithin lo hi pos ∧ q.StaysWithin lo hi (pos + p.shift) := by
  induction p generalizing pos with
  | done =>
    rw [done_append, shift, Int64.add_zero]
    exact ⟨fun h => ⟨h.inside, h⟩, And.right⟩
  | move d p ih => rw [move_append, shift, StaysWithin, StaysWithin, ih, and_assoc, Int64.add_assoc]
  | cell a op p ih => rw [cell_append, shift, StaysWithin, StaysWithin, ih]; simp only [and_assoc]
  | loop b p _ ih => rw [loop_append, shift, StaysWithin, StaysWithin, ih]; simp only [and_assoc]

/-! ## Rewriting -/

theorem isKnown_of_fuse? {x y both : CellOp} (h : x.fuse? y = some both) : both.IsKnown := by
  cases x <;> cases y <;> simp only [CellOp.fuse?, Option.some.injEq, reduceCtorEq] at h <;>
    subst h <;> trivial

theorem RewritesTo.shift_eq (h : p.RewritesTo q) : q.shift = p.shift := by
  induction h with
  | trans _ _ ih ih' => exact ih'.trans ih
  | append _ _ ih ih' => rw [shift_append, shift_append, ih, ih']
  | refl | loop | moveMove | moveZero | cellCell | addZero | moveCell | clearLoop => simp [shift]

/-- Rewriting leads no further away. -/
theorem RewritesTo.staysWithin (h : p.RewritesTo q) (hp : p.StaysWithin lo hi pos) :
    q.StaysWithin lo hi pos := by
  induction h generalizing pos with
  | refl p => exact hp
  | trans _ _ ih ih' => exact ih' (ih hp)
  | append h _ ih ih' =>
    rw [staysWithin_append] at hp ⊢
    rw [h.shift_eq]
    exact ⟨ih hp.1, ih' hp.2⟩
  | loop _ ih => exact ⟨hp.1, ih hp.2.1, hp.2.2⟩
  | moveMove d e =>
    obtain ⟨h, -, h'⟩ := hp
    rw [Int64.add_assoc] at h'
    exact ⟨h, h'⟩
  | moveZero => exact hp.1
  | cellCell a hf => exact ⟨hp.1, ⟨hp.2.1.1, isKnown_of_fuse? hf⟩, hp.2.2.2.2⟩
  | addZero a => exact hp.1
  | moveCell d a op =>
    obtain ⟨h, h', ⟨ha, hk⟩, -⟩ := hp
    rw [Int64.add_assoc] at ha
    exact ⟨h, ⟨ha, hk⟩, h, h'⟩
  | clearLoop v =>
    refine ⟨hp.1, ⟨?_, trivial⟩, hp.1⟩
    rw [Int64.add_zero]
    exact hp.1

/-! ## Parsing -/

theorem toInt_add_eq {x y : Int64} (h : -2 ^ 63 ≤ x.toInt + y.toInt)
    (h' : x.toInt + y.toInt < 2 ^ 63) :
    (x + y).toInt = x.toInt + y.toInt := by
  rw [Int64.toInt_add, Int.bmod_eq_of_le (by omega) (by omega)]

/-- A program goes no further to a side than it has moves to that side. -/
theorem Spells.staysWithin {a : List Symbol} (h : p.Spells a) (hlo : -2 ^ 63 ≤ lo)
    (hhi : hi < 2 ^ 63) (hl : lo + a.count .left ≤ 0) (hr : (a.count .right : Int) ≤ hi)
    (hpl : lo + a.count .left ≤ pos.toInt) (hpr : pos.toInt + a.count .right ≤ hi) :
    p.StaysWithin lo hi pos := by
  have hin : Inside lo hi pos := ⟨by omega, by omega⟩
  induction h generalizing pos with
  | done => exact hin
  | @step s t p a ht _ ih =>
    have hcell : Inside lo hi (pos + 0) := by rwa [Int64.add_zero]
    cases s <;> simp only [Symbol.token?, Option.some.injEq, reduceCtorEq] at ht <;> subst ht <;>
      simp only [List.count_cons_self, List.count_cons_of_ne, Int.natCast_add, Int.cast_ofNat_Int,
        ne_eq, reduceCtorEq, not_false_eq_true] at hl hr hpl hpr
    case right =>
      have h1 : (pos + 1).toInt = pos.toInt + 1 := toInt_add_eq (by simp; omega) (by simp; omega)
      exact ⟨hin, ih (by omega) (by omega) (by omega) (by omega) ⟨by omega, by omega⟩⟩
    case left =>
      have h1 : (pos + (-1)).toInt = pos.toInt + -1 :=
        toInt_add_eq (by simp; omega) (by simp; omega)
      exact ⟨hin, ih (by omega) (by omega) (by omega) (by omega) ⟨by omega, by omega⟩⟩
    all_goals exact ⟨hin, ⟨hcell, trivial⟩, ih hl hr hpl hpr hin⟩
  | @loop b p a c hb _ ihb ih =>
    simp only [List.count_cons_of_ne, List.count_append, Int.natCast_add, ne_eq, reduceCtorEq,
      not_false_eq_true] at hl hr hpl hpr
    have h0 : (0 : Int64).toInt = 0 := rfl
    exact ⟨hin, ihb (by omega) (by omega) (by omega) (by omega) ⟨by omega, by omega⟩,
      ih (by omega) (by omega) (by omega) (by omega) hin⟩

/-! ## Cells to the right -/

/-- Where the pointer may have left the tape (`known` is false), no cell to the right of it is
looked at. A loop makes sure that it is on the tape, a move does not. -/
def Anchored (known : Bool) : Program → Prop
  | done => True
  | move _ p => p.Anchored false
  | cell a _ p => (known ∨ a.toInt ≤ 0) ∧ p.Anchored known
  | loop b p => b.Anchored true ∧ p.Anchored true

/-- Single steps only look at the cell at the pointer. -/
theorem Spells.anchored {a : List Symbol} (h : p.Spells a) (known : Bool) : p.Anchored known := by
  induction h generalizing known with
  | done => trivial
  | @step s t p a ht _ ih =>
    cases s <;> simp only [Symbol.token?, Option.some.injEq, reduceCtorEq] at ht <;> subst ht
    case right | left => exact ih false
    all_goals exact ⟨.inr (Int.le_refl 0), ih known⟩
  | loop _ _ ihb ih => exact ⟨ihb true, ih true⟩

/-- A postponed move stands in front of a loop or at the end. -/
theorem anchored_postponeFrom (p : Program) (d : Int64) : (p.postponeFrom d).Anchored true := by
  induction p generalizing d with
  | done =>
    rw [postponeFrom, moveBy]
    split <;> trivial
  | move e p ih => exact ih (d + e)
  | cell a op p ih => exact ⟨.inl rfl, ih d⟩
  | loop b p ihb ih =>
    rw [postponeFrom, moveBy]
    split
    · exact ⟨ihb 0, ih 0⟩
    · exact ⟨ihb 0, ih 0⟩

theorem anchored_optimize {n : Int} {r : Optimized} (h : p.optimize n = .ok r) :
    r.program.Anchored true := by
  obtain ⟨q, -, hr⟩ := settle_eq_round h
  rw [hr]
  exact anchored_postponeFrom q.merge 0

end Program

end TapeLang
