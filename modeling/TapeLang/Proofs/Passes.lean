import TapeLang.Proofs.Normal

/-!
# What one pass leaves

Merging and postponing, each by itself and in one pass.

* `Token.reduced`: what merging makes of an element before it holds it back (`mergeAfter_cons`).
  Only a loop changes.
* `merge_shrinks`: merging makes shorter what it changes, a program as well as a single element.
* `outline`: the operations and loops of a program, without the moves and addresses.
  `outline_postponeFrom`: postponing keeps it.
* `postpone_normalizes_moves`: one postponing pass brings all moves to the end or in front of a
  loop, and leaves just the programs as they are where they are there already.
-/

namespace TapeLang

/-! ## Merging -/

namespace Token

/-- The number of elements that an element is, at every depth. -/
def size : Token → Nat
  | move _ | cell _ _ => 1
  | loop b => b.size + 1

/-- The element as merging holds it back: a loop with its body merged, or the assignment that this
amounts to. -/
def reduced : Token → Token
  | move d => move d
  | cell a op => cell a op
  | loop b => Merge.loopToken b.merge

end Token

namespace Program

theorem size_cons (t : Token) (p : Program) : (cons t p).size = t.size + p.size := by
  cases t with
  | move d => exact Nat.add_comm p.size 1
  | cell a op => exact Nat.add_comm p.size 1
  | loop b =>
    show p.size + 1 + b.size = b.size + 1 + p.size
    omega

/-- Merging reduces each element, and then holds it back after what is held. -/
theorem mergeAfter_cons (t : Token) (p : Program) (held : Merge.Held) :
    (cons t p).mergeAfter held = letGo (held.put t.reduced) fun h => p.mergeAfter h := by
  cases t <;> rfl

/-- Merging a single element reduces it. -/
theorem merge_cons_done (t : Token) : (cons t .done).merge = cons t.reduced .done :=
  mergeAfter_cons t .done .nothing

/-- A program that merging does not shorten is not changed by it. -/
theorem merge_eq_of_size_eq {p : Program} (h : p.merge.size = p.size) : p.merge = p := by
  rcases (merge_merges p).eq_or_size_lt with same | shorter
  · exact same
  · omega

theorem size_merge_le (p : Program) : p.merge.size ≤ p.size :=
  (merge_rewrites p).size_le

-- What is known of a single element is what is known of the program of it alone.
theorem size_reduced_le (t : Token) : t.reduced.size ≤ t.size := by
  have le := size_merge_le (cons t .done)
  rwa [merge_cons_done, size_cons, size_cons, Nat.add_le_add_iff_right] at le

theorem reduced_eq_of_size_eq {t : Token} (h : t.reduced.size = t.size) : t.reduced = t := by
  have same : (cons t .done).merge = cons t .done := by
    apply merge_eq_of_size_eq
    rw [merge_cons_done, size_cons, size_cons, h]
  have tokens := congrArg tokens same
  rw [merge_cons_done, tokens_cons, tokens_cons] at tokens
  exact (List.cons.inj tokens).1

/-- Merging makes shorter whatever it changes. No program has more elements afterwards, and one that
has as many is the program that it was. The same is true of each element that merging reduces, which
is what it makes of a program of this element alone. -/
theorem merge_shrinks :
    (∀ p : Program, p.merge.size ≤ p.size ∧ (p.merge.size = p.size ↔ p.merge.equal p = true)) ∧
    ∀ t : Token, (cons t .done).merge = cons t.reduced .done ∧
      t.reduced.size ≤ t.size ∧ (t.reduced.size = t.size ↔ t.reduced = t) := by
  constructor
  · intro p
    refine ⟨size_merge_le p, ?_⟩
    rw [equal_iff]
    exact ⟨merge_eq_of_size_eq, congrArg size⟩
  · intro t
    exact ⟨merge_cons_done t, size_reduced_le t, reduced_eq_of_size_eq, congrArg Token.size⟩

-- The last move is looked at ahead of its turn, and the loop is gone before its neighbour is fused
-- with it.
example :
    (move 1 (cell 0 (.add 1)
      (move (-1) (loop (cell 0 (.add 3) .done) (cell 0 (.add 2) .done))))).merge =
    cell 1 (.add 1) (cell 0 (.set 2) .done) := by decide

/-! ## Postponing -/

/-- The operations and loops of a program, without its moves and with no addresses. -/
def outline : Program → Program
  | done => done
  | move _ p => p.outline
  | cell _ op p => cell 0 op p.outline
  | loop b p => loop b.outline p.outline

theorem outline_moveBy (d : Int64) (p : Program) : (moveBy d p).outline = p.outline := by
  unfold moveBy
  split <;> rfl

/-- Postponing takes no operation and no loop from its place among the others. -/
theorem outline_postponeFrom (p : Program) (d : Int64) :
    (p.postponeFrom d).outline = p.outline := by
  induction p generalizing d with
  | done => exact outline_moveBy d .done
  | move e p ih => exact ih (d + e)
  | cell a op p ih => exact congrArg (cell 0 op) (ih d)
  | loop b p ihb ih =>
    rw [postponeFrom, outline_moveBy, outline, outline, ihb 0, ih 0]

/-- The programs with late moves are those that postponing does not change. -/
theorem postpone_eq_self_iff (p : Program) : p.postpone = p ↔ p.Throughout MovesLate := by
  constructor
  · intro h
    rw [← h]
    exact movesLate_postponeFrom p 0
  · exact postpone_of_movesLate

/-- One postponing pass brings the moves of a program to where they have to be. In each sequence of
the result, its own and that of every loop body, a move goes somewhere, and is the last element or
has a loop right after it. These programs are the ones that postponing does not change, so a second
pass does nothing. No program has more elements afterwards, and the operations and loops stay in
their order and inside one another as they were. -/
theorem postpone_normalizes_moves (p : Program) :
    p.postpone.Throughout MovesLate ∧
    p.postpone.postpone = p.postpone ∧
    (p.postpone = p ↔ p.Throughout MovesLate) ∧
    p.postpone.size ≤ p.size ∧
    p.postpone.outline = p.outline := by
  refine ⟨movesLate_postponeFrom p 0, postpone_postpone p, postpone_eq_self_iff p, ?_,
    outline_postponeFrom p 0⟩
  exact (postpone_rewrites p).size_le

-- Moves whose sum wraps around to zero are not made at all.
example : (move 0x7fffffffffffffff (move 1 (cell 5 (.add 1) (move (-0x8000000000000000)
    (loop (move 3 .done) .done))))).postpone =
      cell (-0x7ffffffffffffffb) (.add 1) (loop (move 3 .done) .done) := by
  decide

end Program

end TapeLang
