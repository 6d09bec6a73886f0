import TapeLang.Proofs.Normal
import TapeLang.Proofs.Points

/-!
# Running postponed programs

A postponed program makes its moves late. Until then its pointer lags behind, and it looks at the
same cells from there.

* `Lags x y`: a run is at `x`, and the postponed one is at `y`, with a move still to be made.
  `Lags.step` and `Lags.reaches`: it stays like that, step by step. `Lags.reaches_pause`: the move
  is made where the program comes to a loop or to its end. `Lags.ends`: both runs end alike.
* `postpone_runs_alike`: so a postponed program does what the program does, also where it fails.
* `Steady`: the moves that are left are late, and the pointer is on the tape unless a loop or the
  end is next. `Reaches.steady`: a run stays steady, since only a loop comes after a move, and tests
  its cell.
* `pointer_onTape_of_postpone`: so a postponed program looks at cells only with its pointer on
  the tape.
-/

namespace TapeLang

namespace Program

/-- Nothing is next but a loop. -/
def Pauses (p : Program) : Prop :=
  p = .done ∨ ∃ b q, p = .loop b q

theorem moveBy_append (d : Int64) (p q : Program) : moveBy d p ++ q = moveBy d (p ++ q) := by
  unfold moveBy
  split <;> rfl

/-- Postponing starts anew after a loop, so it goes over what stands in front of one by itself. -/
theorem postponeFrom_append_loop (p b q : Program) (d : Int64) :
    (p ++ loop b q).postponeFrom d = p.postponeFrom d ++ loop b.postpone q.postpone := by
  induction p generalizing d with
  | done => rw [done_append, postponeFrom, postponeFrom, moveBy_append]; rfl
  | move e p ih => exact ih (d + e)
  | cell a op p ih => rw [cell_append, postponeFrom, postponeFrom, cell_append, ih]
  | loop c p _ ih => rw [loop_append, postponeFrom, postponeFrom, moveBy_append, loop_append, ih]

/-- The move is made in front of a loop and at the end. -/
theorem Pauses.postponeFrom_eq {p : Program} (h : p.Pauses) (d : Int64) :
    p.postponeFrom d = moveBy d p.postpone := by
  rcases h with rfl | ⟨b, q, rfl⟩ <;> rfl

end Program

open Program

namespace Point

variable {x y x' : Point} {o : Outcome}

/-! ## Lagging behind -/

/-- The run is at the first point, and the postponed one at the second, with a move by `d` still to
be made. -/
inductive Lags : Point → Point → Prop where
  | behind (d : Int64) (p : Program) (c : Nat) (m : Machine) :
    Lags ⟨p, c, m.moved d⟩ ⟨p.postponeFrom d, c, m⟩

theorem Lags.level (p : Program) (c : Nat) (m : Machine) : Lags ⟨p, c, m⟩ ⟨p.postpone, c, m⟩ := by
  have h := Lags.behind 0 p c m
  rwa [Machine.moved_zero] at h

theorem reaches_moveBy (d : Int64) (p : Program) (c : Nat) (m : Machine) :
    Reaches ⟨moveBy d p, c, m⟩ ⟨p, c, m.moved d⟩ := by
  unfold moveBy
  split
  · rename_i h
    rw [h, Machine.moved_zero]
    exact .refl
  · exact .single (.move d p c m)

/-- Where the program comes to a loop or to its end, the move is made. -/
theorem Lags.reaches_pause (h : Lags x y) (hp : x.rest.Pauses) :
    y.Reaches ⟨x.rest.postpone, x.checks, x.machine⟩ := by
  cases h with
  | behind d p c m =>
    rw [hp.postponeFrom_eq]
    exact reaches_moveBy d p.postpone c m

/-- A step of the run is none, one or two steps of the postponed one. -/
theorem Lags.step (h : Lags x y) (hs : Step x x') : ∃ y', y.Reaches y' ∧ Lags x' y' := by
  have pause := h.reaches_pause
  cases h with
  | behind d p c m =>
    cases p with
    | done => cases hs
    | move e p =>
      cases hs
      rw [Machine.moved_moved]
      exact ⟨_, .refl, .behind (d + e) p c m⟩
    | cell a op p =>
      cases hs with
      | cell hf =>
        rw [Machine.step_moved, Int64.add_comm] at hf ⊢
        exact ⟨_, .single (.cell hf _ c), .behind d p c _⟩
    | loop b p =>
      have pause := pause (.inr ⟨b, p, rfl⟩)
      cases hs with
      | exit ht b p c => exact ⟨_, pause.tail (.exit ht _ _ c), .level p c _⟩
      | again ht b p c =>
        have level := Lags.level (b ++ .loop b p) c (m.moved d)
        rw [postpone, postponeFrom_append_loop] at level
        exact ⟨_, pause.tail (.again ht _ _ c), level⟩

theorem Lags.reaches (h : Lags x y) (hr : x.Reaches x') : ∃ y', y.Reaches y' ∧ Lags x' y' := by
  induction hr with
  | refl => exact ⟨y, .refl, h⟩
  | tail _ hs ih =>
    obtain ⟨y', hy, h'⟩ := ih
    obtain ⟨y'', hy', h''⟩ := h'.step hs
    exact ⟨y'', hy.trans hy', h''⟩

/-- The outcomes at two last points differ in the pointer at most, and there only in front of
an operation. -/
structure EndAlike (x : Point) (o : Outcome) (y : Point) (o' : Outcome) : Prop where
  fault : o'.fault = o.fault
  tape : o'.machine.tape = o.machine.tape
  console : o'.machine.console = o.machine.console
  checks : o'.checks = o.checks
  atLoop : (∃ b p, y.rest = .loop b p) ↔ ∃ b p, x.rest = .loop b p
  pointer : x.rest.Pauses → o'.machine.pointer = o.machine.pointer

/-- Where the run ends, the postponed one ends alike. -/
theorem Lags.ends (h : Lags x y) (ho : Ends x o) :
    ∃ y' o', y.Reaches y' ∧ Ends y' o' ∧ EndAlike x o y' o' := by
  have pause := h.reaches_pause
  cases h with
  | behind d p c m =>
    cases p with
    | done =>
      cases ho
      exact ⟨_, _, pause (.inl rfl), .done c _, rfl, rfl, rfl, rfl, Iff.rfl, fun _ => rfl⟩
    | move e p => cases ho
    | cell a op p =>
      -- The postponed run is in front of the same operation, and has not made the move.
      cases ho with
      | cell hf =>
        rw [Machine.step_moved, Int64.add_comm] at hf ⊢
        refine ⟨_, _, .refl, .cell hf _ c, rfl, rfl, rfl, rfl, by simp [postponeFrom], ?_⟩
        rintro (h | ⟨b, q, h⟩) <;> cases h
    | loop b p =>
      have pause := pause (.inr ⟨b, p, rfl⟩)
      have atLoop :
          (∃ b' p', (loop b p).postpone = .loop b' p') ↔ ∃ b' p', loop b p = .loop b' p' :=
        ⟨fun _ => ⟨b, p, rfl⟩, fun _ => ⟨_, _, rfl⟩⟩
      cases ho with
      | canceled => exact ⟨_, _, pause, .canceled _ _ _, rfl, rfl, rfl, rfl, atLoop, fun _ => rfl⟩
      | outside ht =>
        exact ⟨_, _, pause, .outside ht _ _ _, rfl, rfl, rfl, rfl, atLoop, fun _ => rfl⟩

end Point

open Point

/-- Postponing changes nothing that can be seen. From every machine and with any number of checks,
the program and the postponed one end with the same fault or both without one, with the same tape,
console and number of checks left. One stops at the test of a loop if the other does. And where
they come to their end or stop at a test, also because they are canceled there, their pointers are
the same. -/
theorem postpone_runs_alike (p : Program) (checks : Nat) (m : Machine) :
    let o := Machine.run p checks m
    let o' := Machine.run p.postpone checks m
    (o'.fault = o.fault ∧ o'.machine.tape = o.machine.tape ∧
      o'.machine.console = o.machine.console ∧ o'.checks = o.checks) ∧
    (StopsAtTest ⟨p.postpone, checks, m⟩ ↔ StopsAtTest ⟨p, checks, m⟩) ∧
    (o.fault = none ∨ o.fault = some .canceled ∨ StopsAtTest ⟨p, checks, m⟩ →
      o'.machine.pointer = o.machine.pointer) := by
  intro o o'
  obtain ⟨x, hx, ho⟩ := exists_ends ⟨p, checks, m⟩
  obtain ⟨y, hy, lags⟩ := (Lags.level p checks m).reaches hx
  obtain ⟨y', e, hy', he, alike⟩ := lags.ends ho
  have hy : Reaches ⟨p.postpone, checks, m⟩ y' := hy.trans hy'
  obtain rfl : o' = e := hy.run_eq.trans he.run_eq
  refine ⟨⟨alike.fault, alike.tape, alike.console, alike.checks⟩, ?_, fun h => alike.pointer ?_⟩
  · rw [stopsAtTest_iff hy he, stopsAtTest_iff hx ho]
    exact alike.atLoop
  · rcases h with finished | canceled | stopped
    · exact .inl (ho.done_of_none finished)
    · exact .inr (ho.loop_of_canceled canceled)
    · exact .inr ((stopsAtTest_iff hx ho).mp stopped)

/-- Two programs that leave a tape of two cells by a move. The first looks at a cell there, and only
the postponed one stops with its pointer on the tape. The second tests a cell, and both stop with
the same pointer. -/
theorem postpone_runs_alike_offTape :
    let m : Machine := { tape := #[0, 0] }
    let looks : Program := .move 5 (.cell 0 (.print 0) .done)
    let tests : Program := .move 5 (.loop .done .done)
    (Machine.run looks 1 m = ⟨m.moved 5, 1, some (.pointerOutOfRange 5)⟩ ∧
      Machine.run looks.postpone 1 m = ⟨m, 1, some (.pointerOutOfRange 5)⟩) ∧
    Machine.run tests 1 m = ⟨m.moved 5, 0, some (.pointerOutOfRange 5)⟩ ∧
      StopsAtTest ⟨tests, 1, m⟩ ∧
      (Machine.run tests.postpone 1 m).machine.pointer =
        (Machine.run tests 1 m).machine.pointer := by
  intro m looks tests
  have looksEnds :
      Ends ⟨.cell 0 (.print 0) .done, 1, m.moved 5⟩ ⟨m.moved 5, 1, some (.pointerOutOfRange 5)⟩ :=
    .cell rfl .done 1
  have looksLateEnds : Ends ⟨looks.postpone, 1, m⟩ ⟨m, 1, some (.pointerOutOfRange 5)⟩ :=
    .cell rfl (.move 5 .done) 1
  have testsEnds :
      Ends ⟨.loop .done .done, 1, m.moved 5⟩ ⟨m.moved 5, 0, some (.pointerOutOfRange 5)⟩ :=
    .outside rfl .done .done 0
  have stops : StopsAtTest ⟨tests, 1, m⟩ := ⟨_, _, _, _, _, .single (.move 5 _ 1 m), testsEnds⟩
  refine ⟨⟨?_, looksLateEnds.run_eq⟩, ?_, stops, ?_⟩
  · exact (Step.move 5 _ 1 m).run_eq.trans looksEnds.run_eq
  · exact (Step.move 5 _ 1 m).run_eq.trans testsEnds.run_eq
  · exact (postpone_runs_alike tests 1 m).2.2 (.inr (.inr stops))

/-! ## Pointers on the tape -/

/-- The pointer is on the tape. -/
def Machine.OnTape (m : Machine) : Prop :=
  0 ≤ m.pointer.toInt ∧ m.pointer.toInt < m.tape.size

instance (m : Machine) : Decidable m.OnTape :=
  inferInstanceAs (Decidable (_ ∧ _))

theorem Machine.onTape_of_test {m : Machine} (h : m.test ≠ .outside) : m.OnTape := by
  unfold test at h
  rcases hi : m.index? 0 with _ | i
  · simp [hi] at h
  · rw [index?_eq, target_zero] at hi
    split at hi
    · rename_i inside
      exact inside
    · cases hi

theorem Machine.onTape_step {m : Machine} (h : m.OnTape) (a : Int64) (op : CellOp) :
    (m.step a op).1.OnTape := by
  unfold OnTape
  rw [pointer_step, size_tape_step]
  exact h

namespace Program

theorem bodies_append (p q : Program) : (p ++ q).bodies = p.bodies ++ q.bodies := by
  induction p <;> simp_all [bodies]

/-- A loop may come after a move. -/
theorem movesLate_append_loop {p b q : Program} (hp : p.Throughout MovesLate)
    (hl : (loop b q).Throughout MovesLate) : (p ++ loop b q).Throughout MovesLate := by
  constructor
  · rw [tokens_append]
    refine ⟨?_, List.isChain_append.mpr ⟨hp.1.2, hl.1.2, fun t _ u hu _ => ?_⟩⟩
    · rw [List.mem_append, not_or]
      exact ⟨hp.1.1, hl.1.1⟩
    · obtain rfl : Token.loop b = u := Option.some.inj hu
      rfl
  · rw [bodies_append]
    intro c hc
    rcases List.mem_append.mp hc with hc | hc
    · exact hp.2 c hc
    · exact hl.2 c hc

/-- What comes after a late move is a loop or the end. -/
theorem pauses_of_movesLate {d : Int64} {p : Program} (h : MovesLate (.move d :: p.tokens)) :
    p.Pauses := by
  obtain ⟨-, hnext, -⟩ := (movesLate_cons _ _).mp h
  cases p with
  | done => exact .inl rfl
  | move e q => cases hnext _ rfl rfl
  | cell a op q => cases hnext _ rfl rfl
  | loop b q => exact .inr ⟨b, q, rfl⟩

end Program

namespace Point

/-- All moves that are left are late, and the pointer is on the tape unless a loop or the end
is next. -/
structure Steady (x : Point) : Prop where
  late : x.rest.Throughout MovesLate
  onTape : x.machine.OnTape ∨ x.rest.Pauses

theorem Step.steady {x y : Point} (h : Step x y) (hx : x.Steady) : y.Steady := by
  obtain ⟨late, onTape⟩ := hx
  cases h with
  | move d p c m =>
    obtain ⟨-, -, hp⟩ := (movesLate_cons _ _).mp late.1
    exact ⟨⟨hp, late.2⟩, .inr (pauses_of_movesLate late.1)⟩
  | @cell a op m hf p c =>
    obtain ⟨-, -, hp⟩ := (movesLate_cons _ _).mp late.1
    rcases onTape with onTape | hd | ⟨b, q, hl⟩
    · exact ⟨⟨hp, late.2⟩, .inl (Machine.onTape_step onTape a op)⟩
    · cases hd
    · cases hl
  | exit ht b p c =>
    obtain ⟨hts, -, hbs⟩ := (throughout_loop b p).mp late
    obtain ⟨-, -, hp⟩ := (movesLate_cons _ _).mp hts
    exact ⟨⟨hp, hbs⟩, .inl (Machine.onTape_of_test (by simp [ht]))⟩
  | again ht b p c =>
    obtain ⟨-, hb, -⟩ := (throughout_loop b p).mp late
    exact ⟨movesLate_append_loop hb late, .inl (Machine.onTape_of_test (by simp [ht]))⟩

theorem Reaches.steady {x y : Point} (h : x.Reaches y) (hx : x.Steady) : y.Steady := by
  induction h with
  | refl => exact hx
  | tail _ hs ih => exact hs.steady ih

end Point

/-- A postponed program looks at cells only with its pointer on the tape. Let it start there: then
the pointer is on the tape wherever an operation on a cell is next, at whatever depth and however
the run ends. Only in front of the test of a loop and at the end it may be elsewhere. -/
theorem pointer_onTape_of_postpone (p : Program) (checks : Nat) (m : Machine) (h : m.OnTape)
    (x : Point) (hx : Reaches ⟨p.postpone, checks, m⟩ x) :
    (∀ a op q, x.rest = .cell a op q → x.machine.OnTape) ∧
      (¬ x.machine.OnTape → x.rest = .done ∨ ∃ b q, x.rest = .loop b q) := by
  have steady := hx.steady ⟨movesLate_postponeFrom p 0, .inl h⟩
  constructor
  · intro a op q hq
    rcases steady.onTape with onTape | hd | ⟨b, r, hl⟩
    · exact onTape
    · simp [hq] at hd
    · simp [hq] at hl
  · intro off
    exact steady.onTape.resolve_left off

/-- A postponed program on a tape of two cells: its operation is next with the pointer on the tape,
and the test and the end are next with the pointer outside. -/
theorem pointer_onTape_of_postpone_leaving :
    let m : Machine := { tape := #[0, 0] }
    let tests : Program := .move 1 (.cell 0 (.add 1) (.move 3 (.loop .done .done)))
    let leaves : Program := .move 3 .done
    m.OnTape ∧
      (∃ x, Reaches ⟨tests.postpone, 1, m⟩ x ∧ (∃ a op q, x.rest = .cell a op q) ∧
        x.machine.OnTape) ∧
      (∃ x, Reaches ⟨tests.postpone, 1, m⟩ x ∧ (∃ b q, x.rest = .loop b q) ∧ ¬ x.machine.OnTape) ∧
      ∃ x, Reaches ⟨leaves.postpone, 1, m⟩ x ∧ x.rest = .done ∧ ¬ x.machine.OnTape := by
  intro m tests leaves
  have onTape : m.OnTape := by decide
  have atTest :
      Reaches ⟨tests.postpone, 1, m⟩ ⟨.loop .done .done, 1, (m.step 1 (.add 1)).1.moved 4⟩ :=
    .tail (.single (.cell rfl _ 1)) (.move 4 _ 1 _)
  have atEnd : Reaches ⟨leaves.postpone, 1, m⟩ ⟨.done, 1, m.moved 3⟩ := .single (.move 3 .done 1 m)
  refine ⟨onTape, ⟨_, .refl, ⟨_, _, _, rfl⟩, ?_⟩, ⟨_, atTest, ⟨_, _, rfl⟩, by decide⟩,
    ⟨_, atEnd, rfl, by decide⟩⟩
  exact (pointer_onTape_of_postpone tests 1 m onTape _ .refl).1 _ _ _ rfl

end TapeLang
