import TapeLang.Symbol

/-!
# Matching brackets

* `Balanced`: no part from the start closes more loops than it opens, and in all there are as many
  ends as starts.
* `depthAfter depth syms`: the number of loops that are open after `syms`, with `depth` of them open
  before. It is `none` where a loop is closed and none is open. `balanced_iff_depthAfter`: balanced
  symbols are those that lead from no open loop to no open loop.
* `closing? syms i`: the end of the loop that starts at `i`, and `opening? syms j`: the start of the
  loop that ends at `j`. They are found by walking along the symbols, without regard to a program.
  `closing?_eq` and `opening?_eq`: around balanced symbols they find each other.
-/

namespace TapeLang.Symbol

/-- Every bracket has its partner. -/
def Balanced (syms : List Symbol) : Prop :=
  (∀ k, (syms.take k).count .loopEnd ≤ (syms.take k).count .loopStart) ∧
    syms.count .loopEnd = syms.count .loopStart

/-- The number of open loops after a symbol, `none` if it closes a loop and none is open. -/
def nest : Nat → Symbol → Option Nat
  | depth, loopStart => some (depth + 1)
  | 0, loopEnd => none
  | depth + 1, loopEnd => some depth
  | depth, _ => some depth

/-- The number of open loops after some symbols, `none` if one of them closes a loop and none
is open. -/
def depthAfter : Nat → List Symbol → Option Nat
  | depth, [] => some depth
  | depth, s :: syms => (nest depth s).bind fun d => depthAfter d syms

/-- Where a loop is closed and none is open, with `depth` of them open before the first symbol. -/
def firstExcess : Nat → List Symbol → Option Nat
  | _, [] => none
  | depth, s :: syms =>
    match nest depth s with
    | none => some 0
    | some d => (firstExcess d syms).map (1 + ·)

/-- The end of the loop that starts at `i`. -/
def closing? (syms : List Symbol) (i : Nat) : Option Nat :=
  if syms[i]? = some .loopStart then (firstExcess 0 (syms.drop (i + 1))).map (i + 1 + ·) else none

/-- The start of the loop that ends at `j`. -/
def opening? (syms : List Symbol) (j : Nat) : Option Nat :=
  (List.range j).find? fun i => closing? syms i = some j

/-! ## Depth -/

theorem depthAfter_append (d : Nat) (a b : List Symbol) :
    depthAfter d (a ++ b) = (depthAfter d a).bind fun e => depthAfter e b := by
  induction a generalizing d with
  | nil => rfl
  | cons s a ih =>
    rw [List.cons_append, depthAfter, depthAfter, Option.bind_assoc]
    congr 1
    funext e
    exact ih e

theorem nest_add {d e : Nat} {s : Symbol} (h : nest d s = some e) (k : Nat) :
    nest (d + k) s = some (e + k) := by
  cases s with
  | loopEnd =>
    cases d with
    | zero => simp [nest] at h
    | succ d =>
      simp only [nest, Option.some.injEq] at h
      rw [Nat.add_right_comm, nest, h]
  | loopStart =>
    simp only [nest, Option.some.injEq] at h ⊢
    omega
  | right | left | increment | decrement | print | read =>
    simp only [nest, Option.some.injEq] at h ⊢
    rw [h]

/-- Loops that are open all along do not matter. -/
theorem depthAfter_add {d e : Nat} {syms : List Symbol} (h : depthAfter d syms = some e) (k : Nat) :
    depthAfter (d + k) syms = some (e + k) := by
  induction syms generalizing d with
  | nil =>
    simp only [depthAfter, Option.some.injEq] at h ⊢
    rw [h]
  | cons s syms ih =>
    obtain ⟨d', hs, hrest⟩ := Option.bind_eq_some_iff.mp h
    rw [depthAfter, nest_add hs, Option.bind_some]
    exact ih hrest

theorem depthAfter_of_zero {e : Nat} {syms : List Symbol} (h : depthAfter 0 syms = some e)
    (d : Nat) :
    depthAfter d syms = some (e + d) := by
  rw [← depthAfter_add h d, Nat.zero_add]

/-- The depth, told by counting brackets. -/
theorem depthAfter_eq_some_iff {d e : Nat} {syms : List Symbol} :
    depthAfter d syms = some e ↔
      (∀ k, (syms.take k).count .loopEnd ≤ d + (syms.take k).count .loopStart) ∧
        e + syms.count .loopEnd = d + syms.count .loopStart := by
  induction syms generalizing d with
  | nil => simp [depthAfter, eq_comm]
  | cons s syms ih =>
    -- Of the parts from the start, the empty one says nothing and the others have `s` in front.
    have split (P : Nat → Prop) (h0 : P 0) : (∀ k, P k) ↔ ∀ k, P (k + 1) :=
      ⟨fun h k => h (k + 1), fun h k => by cases k with | zero => exact h0 | succ k => exact h k⟩
    rw [split _ (by simp)]
    simp only [List.take_succ_cons, List.count_cons, depthAfter]
    cases s with
    | loopStart =>
      simp only [nest, Option.bind_some, ih, beq_self_eq_true, if_true, reduceCtorEq, beq_iff_eq,
        if_false]
      simp only [Nat.add_zero, Nat.add_assoc, Nat.add_comm 1]
    | loopEnd =>
      cases d with
      | zero =>
        simp only [nest, Option.bind_none, reduceCtorEq, false_iff, not_and]
        intro h
        simpa using h 0
      | succ d =>
        simp only [nest, Option.bind_some, ih, beq_self_eq_true, if_true, reduceCtorEq, beq_iff_eq,
          if_false]
        constructor
        · rintro ⟨h, h'⟩
          exact ⟨fun k => by have := h k; omega, by omega⟩
        · rintro ⟨h, h'⟩
          exact ⟨fun k => by have := h k; omega, by omega⟩
    | right | left | increment | decrement | print | read =>
      simp only [nest, Option.bind_some, ih, reduceCtorEq, beq_iff_eq, if_false, Nat.add_zero]

theorem balanced_iff_depthAfter {syms : List Symbol} :
    Balanced syms ↔ depthAfter 0 syms = some 0 := by
  simp only [Balanced, depthAfter_eq_some_iff, Nat.zero_add]

/-! ## Partners -/

theorem firstExcess_append {d e : Nat} {a : List Symbol} (h : depthAfter d a = some e)
    (b : List Symbol) :
    firstExcess d (a ++ b) = (firstExcess e b).map (a.length + ·) := by
  induction a generalizing d with
  | nil =>
    simp only [depthAfter, Option.some.injEq] at h
    simp [h]
  | cons s a ih =>
    obtain ⟨d', hs, hrest⟩ := Option.bind_eq_some_iff.mp h
    rw [List.cons_append, firstExcess, hs]
    simp only [ih hrest, Option.map_map, List.length_cons]
    congr 1
    funext k
    simp only [Function.comp_apply]
    omega

theorem firstExcess_eq_none {d e : Nat} {a : List Symbol} (h : depthAfter d a = some e) :
    firstExcess d a = none := by
  have hnil := firstExcess_append h []
  rw [List.append_nil] at hnil
  rw [hnil]
  rfl

/-- Where the depth is lost, it is lost whatever comes after. -/
theorem firstExcess_of_none {d : Nat} {a : List Symbol} (h : depthAfter d a = none)
    (b : List Symbol) :
    ∃ k, k < a.length ∧ firstExcess d (a ++ b) = some k := by
  induction a generalizing d with
  | nil => simp [depthAfter] at h
  | cons s a ih =>
    rw [List.cons_append, firstExcess]
    rcases hs : nest d s with _ | d'
    · exact ⟨0, Nat.zero_lt_succ _, rfl⟩
    · rw [depthAfter, hs, Option.bind_some] at h
      obtain ⟨k, hk, e⟩ := ih h
      exact ⟨1 + k, by rw [List.length_cons]; omega, by simp [e]⟩

/-- The symbols around the one at an index. -/
theorem exists_around {syms : List Symbol} {i : Nat} {s : Symbol} (h : syms[i]? = some s) :
    ∃ a b, syms = a ++ s :: b ∧ a.length = i := by
  obtain ⟨hi, rfl⟩ := List.getElem?_eq_some_iff.mp h
  obtain ⟨a, b, split, length, -⟩ := @List.exists_of_set _ i syms[i] syms hi
  exact ⟨a, b, split, length⟩

theorem closing?_append_start (a b : List Symbol) :
    closing? (a ++ .loopStart :: b) a.length = (firstExcess 0 b).map (a.length + 1 + ·) := by
  have hdrop : (a ++ .loopStart :: b).drop (a.length + 1) = b := by
    rw [← List.drop_drop, List.drop_left]
    rfl
  rw [closing?, if_pos (by simp), hdrop]

/-- What stands behind a start and some symbols. -/
theorem getElem?_behind (a c : List Symbol) (s t : Symbol) (rest : List Symbol) :
    (a ++ s :: (c ++ t :: rest))[a.length + 1 + c.length]? = some t := by
  have hsplit : a ++ s :: (c ++ t :: rest) = (a ++ s :: c) ++ t :: rest := by simp
  have hlength : a.length + 1 + c.length = (a ++ s :: c).length := by
    rw [List.length_append, List.length_cons]
    omega
  rw [hsplit, hlength, List.getElem?_append_right (Nat.le_refl _), Nat.sub_self,
    List.getElem?_cons_zero]

section Around

variable {c : List Symbol} (hc : depthAfter 0 c = some 0) (a rest : List Symbol)

include hc

/-- A loop ends behind balanced symbols. -/
theorem closing?_eq :
    closing? (a ++ .loopStart :: (c ++ .loopEnd :: rest)) a.length =
      some (a.length + 1 + c.length) := by
  rw [closing?_append_start, firstExcess_append hc, firstExcess]
  rfl

/-- A loop with its brackets keeps the depth. -/
theorem depthAfter_around (d : Nat) : depthAfter d (.loopStart :: (c ++ [.loopEnd])) = some d := by
  rw [depthAfter, nest, Option.bind_some, depthAfter_append, depthAfter_of_zero hc, Nat.zero_add]
  rfl

/-- No loop that starts before this one ends where it does. -/
theorem closing?_ne {i : Nat} (hi : i < a.length) :
    closing? (a ++ .loopStart :: (c ++ .loopEnd :: rest)) i ≠ some (a.length + 1 + c.length) := by
  intro h
  by_cases hs : a[i]? = some .loopStart
  · obtain ⟨before, between, rfl, rfl⟩ := exists_around hs
    rw [List.append_assoc, List.cons_append, closing?_append_start] at h
    obtain ⟨k, hk, hend⟩ := Option.map_eq_some_iff.mp h
    simp only [List.length_append, List.length_cons] at hend
    rcases hd : depthAfter 0 between with _ | d
    · -- It ends before this one starts.
      obtain ⟨k', hlt, hk'⟩ := firstExcess_of_none hd (.loopStart :: (c ++ .loopEnd :: rest))
      rw [hk', Option.some.injEq] at hk
      omega
    · -- It is still open after this one.
      have hover := firstExcess_append (depthAfter_around hc d) rest
      simp only [List.cons_append, List.append_assoc, List.nil_append] at hover
      rw [firstExcess_append hd, hover, Option.map_map] at hk
      obtain ⟨k', -, rfl⟩ := Option.map_eq_some_iff.mp hk
      simp only [Function.comp_apply, List.length_cons, List.length_append, List.length_nil] at hend
      omega
  · rw [closing?, List.getElem?_append_left hi, if_neg hs] at h
    cases h

/-- A loop starts in front of balanced symbols. -/
theorem opening?_eq :
    opening? (a ++ .loopStart :: (c ++ .loopEnd :: rest)) (a.length + 1 + c.length) =
      some a.length := by
  rw [opening?, List.find?_range_eq_some]
  refine ⟨by simpa using closing?_eq hc a rest, by rw [List.mem_range]; omega, fun i hi => ?_⟩
  simpa using closing?_ne hc a rest hi

end Around

/-- Where symbols are balanced, every loop that starts among them ends. -/
theorem closing?_ne_none {syms : List Symbol} (h0 : depthAfter 0 syms = some 0)
    (before : List Symbol) {j : Nat} (hj : syms[j]? = some .loopStart) :
    closing? (before ++ syms) (before.length + j) ≠ none := by
  obtain ⟨a, b, rfl, rfl⟩ := exists_around hj
  rw [← List.append_assoc, ← List.length_append, closing?_append_start]
  intro h
  rw [Option.map_eq_none_iff] at h
  rcases hb : depthAfter 0 b with _ | e
  · obtain ⟨k, -, hk⟩ := firstExcess_of_none hb []
    rw [List.append_nil, h] at hk
    cases hk
  · -- A loop that `b` leaves open is open in the end.
    rw [depthAfter_append] at h0
    obtain ⟨d, -, hd⟩ := Option.bind_eq_some_iff.mp h0
    rw [depthAfter, nest, Option.bind_some, depthAfter_of_zero hb, Option.some.injEq] at hd
    omega

end TapeLang.Symbol
