import TapeLang.Machine

/-!
# Runs of the tape machine

What every run has in common, whatever the program.

* `RunEnd.andThen`: goes on with the machine at the end of a run unless something stopped it. A run
  of two programs in a row is the run of the first and then the run of the second (`run_append`),
  and a loop is its body and then the loop again (`run_loop_again`).
* `run_checks_le`: a run never ends with more checks than it had.
* `output_run`: a run only adds to the output.
* `run_add_checks`: a run that is not canceled ends in the same way with more checks, and has those
  left over. `output_run_mono`: a run with more checks prints at least as much.
-/

namespace TapeLang

/-- Induction over programs and what they may spend: a loop may use what is known of its
parts, and of itself with less to spend. -/
@[elab_as_elim]
theorem Program.inductionWithin {motive : Program → Nat → Prop}
    (done : ∀ c, motive .done c)
    (move : ∀ d p c, motive p c → motive (.move d p) c)
    (cell : ∀ a op p c, motive p c → motive (.cell a op p) c)
    (loop : ∀ b p c, (∀ c', c' < c → motive (.loop b p) c') → (∀ c', motive b c') →
      (∀ c', motive p c') → motive (.loop b p) c)
    (p : Program) (c : Nat) : motive p c := by
  induction p generalizing c with
  | done => exact done c
  | move d p ih => exact move d p c (ih c)
  | cell a op p ih => exact cell a op p c (ih c)
  | loop b p ihb ihp =>
    induction c using Nat.strongRecOn with
    | _ c again => exact loop b p c again ihb ihp

/-- What a loop makes of its cell: the run is over, or the loop is, or its body is next. -/
inductive Test where
  | outside
  | zero
  | nonzero
  deriving DecidableEq

/-- Goes on with `next` unless something stopped the run. -/
def RunEnd.andThen {μ φ : Type} (o : RunEnd μ φ) (next : Nat → μ → RunEnd μ φ) : RunEnd μ φ :=
  match o.fault with
  | none => next o.checks o.machine
  | some _ => o

namespace RunEnd

variable {μ φ : Type} {o : RunEnd μ φ}

theorem andThen_of_none (h : o.fault = none) (next : Nat → μ → RunEnd μ φ) :
    o.andThen next = next o.checks o.machine := by
  simp [andThen, h]

theorem andThen_of_some {f : φ} (h : o.fault = some f) (next : Nat → μ → RunEnd μ φ) :
    o.andThen next = o := by
  simp [andThen, h]

/-- Either the run goes on, or something has stopped it. -/
theorem andThen_cases (o : RunEnd μ φ) (next : Nat → μ → RunEnd μ φ) :
    o.fault = none ∧ o.andThen next = next o.checks o.machine ∨
      (∃ f, o.fault = some f) ∧ o.andThen next = o := by
  rcases h : o.fault with _ | f
  · exact .inl ⟨rfl, andThen_of_none h next⟩
  · exact .inr ⟨⟨f, rfl⟩, andThen_of_some h next⟩

/-- Only what comes next from the machine and the checks of an outcome counts. -/
theorem andThen_congr (o : RunEnd μ φ) {f g : Nat → μ → RunEnd μ φ}
    (h : o.fault = none → f o.checks o.machine = g o.checks o.machine) :
    o.andThen f = o.andThen g := by
  rcases hf : o.fault with _ | e
  · rw [andThen_of_none hf, andThen_of_none hf, h hf]
  · rw [andThen_of_some hf, andThen_of_some hf]

theorem andThen_assoc (o : RunEnd μ φ) (f g : Nat → μ → RunEnd μ φ) :
    (o.andThen f).andThen g = o.andThen fun c m => (f c m).andThen g := by
  rcases h : o.fault with _ | e
  · rw [andThen_of_none h, andThen_of_none h]
  · rw [andThen_of_some h, andThen_of_some h, andThen_of_some h]

end RunEnd

namespace Machine

/-- The bytes that the machine has printed. -/
def printed (m : Machine) : List UInt8 :=
  m.console.output.toList

/-- The machine with its pointer moved by `d`. -/
def moved (m : Machine) (d : Int64) : Machine :=
  { m with pointer := m.pointer + d }

/-- What performing one operation leaves of a run with `checks` checks left. -/
def stepOutcome (m : Machine) (addr : Int64) (op : CellOp) (checks : Nat) : Outcome :=
  ⟨(m.step addr op).1, checks, (m.step addr op).2⟩

/-- Looks at the cell at the pointer. -/
def test (m : Machine) : Test :=
  match m.index? 0 with
  | none => .outside
  | some i => if m.cellAt i = 0 then .zero else .nonzero

/-! ## Cells -/

theorem target_zero (m : Machine) : m.target 0 = m.pointer := Int64.add_zero _

theorem index?_eq (m : Machine) (a : Int64) :
    m.index? a = if 0 ≤ (m.target a).toInt ∧ (m.target a).toInt < m.tape.size then
      some (m.target a).toInt.toNat else none := by
  have h : (0 ≤ m.target a ∧ (m.target a).toInt.toNat < m.tape.size) ↔
      0 ≤ (m.target a).toInt ∧ (m.target a).toInt < m.tape.size := by
    rw [Int64.le_iff_toInt_le, Int64.toInt_zero]
    omega
  exact ite_congr (propext h) (fun _ => rfl) fun _ => rfl

/-- The position of a cell depends on its number and the size of the tape only. -/
theorem index?_congr {m m' : Machine} {a a' : Int64} (ht : m'.target a' = m.target a)
    (hs : m'.tape.size = m.tape.size) : m'.index? a' = m.index? a := by
  unfold index?
  rw [ht, hs]

theorem index?_lt {m : Machine} {a : Int64} {i : Nat} (h : m.index? a = some i) :
    i < m.tape.size := by
  simp only [index?] at h
  split at h
  · rename_i hr
    simp only [Option.some.injEq] at h
    exact h ▸ hr.2
  · simp at h

@[simp]
theorem index?_setCell (m : Machine) (i : Nat) (b : UInt8) (a : Int64) :
    (m.setCell i b).index? a = m.index? a :=
  index?_congr rfl (by simp [setCell])

@[simp]
theorem index?_moved (m : Machine) (d a : Int64) : (m.moved d).index? a = m.index? (d + a) :=
  index?_congr (Int64.add_assoc _ _ _) rfl

@[simp]
theorem setCell_setCell (m : Machine) (i : Nat) (b b' : UInt8) :
    (m.setCell i b).setCell i b' = m.setCell i b' := by
  simp [setCell]

theorem cellAt_setCell {m : Machine} {i : Nat} (h : i < m.tape.size) (b : UInt8) (j : Nat) :
    (m.setCell i b).cellAt j = if i = j then b else m.cellAt j := by
  simp only [setCell, cellAt, Array.getD_eq_getD_getElem?]
  rw [Array.getElem?_setIfInBounds]
  split
  · simp
  · rfl

@[simp]
theorem setCell_cellAt (m : Machine) (i : Nat) : m.setCell i (m.cellAt i) = m := by
  have h : m.tape.setIfInBounds i (m.tape.getD i 0) = m.tape := by
    apply Array.ext (by simp)
    intro j _ hj
    rw [Array.getElem_setIfInBounds hj]
    split
    · rename_i hij; subst hij; simp [Array.getD, hj]
    · rfl
  simp only [setCell, cellAt, h]

theorem moved_moved (m : Machine) (d e : Int64) : (m.moved d).moved e = m.moved (d + e) := by
  simp [moved, Int64.add_assoc]

@[simp]
theorem moved_zero (m : Machine) : m.moved 0 = m := by
  simp [moved]

theorem step_outside {m : Machine} {a : Int64} (h : m.index? a = none) (op : CellOp) :
    m.step a op = (m, some (.pointerOutOfRange (m.target a))) := by
  simp only [step, h]

theorem step_inside {m : Machine} {a : Int64} {i : Nat} (h : m.index? a = some i) (op : CellOp) :
    m.step a op = m.perform i op := by
  simp only [step, h]

theorem pointer_perform (m : Machine) (i : Nat) (op : CellOp) :
    (m.perform i op).1.pointer = m.pointer := by
  cases op with
  | add v => rfl
  | set v => rfl
  | print u =>
    simp only [perform]
    rcases m.console.write (m.cellAt i) with e | c <;> rfl
  | read u =>
    simp only [perform]
    rcases m.console.read with e | ⟨b, c⟩ <;> rfl
  | unknown n v => rfl

/-- No operation moves the pointer. -/
theorem pointer_step (m : Machine) (a : Int64) (op : CellOp) :
    (m.step a op).1.pointer = m.pointer := by
  rcases h : m.index? a with _ | i
  · rw [step_outside h]
  · rw [step_inside h]
    exact pointer_perform m i op

/-- No operation is canceled. -/
theorem fault_step_ne (m : Machine) (a : Int64) (op : CellOp) :
    (m.step a op).2 ≠ some .canceled := by
  rcases h : m.index? a with _ | i
  · simp [step_outside h]
  rw [step_inside h]
  cases op with
  | add v | set v | unknown n v => simp [perform]
  | print u =>
    simp only [perform]
    rcases m.console.write (m.cellAt i) with e | c <;> simp
  | read u =>
    simp only [perform]
    rcases m.console.read with e | ⟨b, c⟩ <;> simp

/-- No operation changes the size of the tape. -/
theorem size_tape_step (m : Machine) (a : Int64) (op : CellOp) :
    (m.step a op).1.tape.size = m.tape.size := by
  rcases h : m.index? a with _ | i
  · rw [step_outside h]
  rw [step_inside h]
  cases op with
  | add v | set v => simp [perform, setCell]
  | print u =>
    simp only [perform]
    rcases m.console.write (m.cellAt i) with e | c <;> rfl
  | read u =>
    simp only [perform]
    rcases m.console.read with e | ⟨b, c⟩
    · rfl
    · simp [setCell]
  | unknown n v => rfl

theorem perform_moved (m : Machine) (d : Int64) (i : Nat) (op : CellOp) :
    (m.moved d).perform i op = ((m.perform i op).1.moved d, (m.perform i op).2) := by
  cases op with
  | add v => rfl
  | set v => rfl
  | print u =>
    have same : (m.moved d).console.write ((m.moved d).cellAt i) = m.console.write (m.cellAt i) :=
      rfl
    simp only [perform, same]
    rcases m.console.write (m.cellAt i) with e | c <;> rfl
  | read u =>
    have same : (m.moved d).console.read = m.console.read := rfl
    simp only [perform, same]
    rcases m.console.read with e | ⟨b, c⟩ <;> rfl
  | unknown n v => rfl

/-- An operation after a move is the operation at the moved address. -/
theorem step_moved (m : Machine) (d a : Int64) (op : CellOp) :
    (m.moved d).step a op = ((m.step (d + a) op).1.moved d, (m.step (d + a) op).2) := by
  rcases h : m.index? (d + a) with _ | i
  · rw [step_outside ((index?_moved m d a).trans h), step_outside h]
    simp [target, moved, Int64.add_assoc]
  · rw [step_inside ((index?_moved m d a).trans h), step_inside h, perform_moved]

/-! ## Equations -/

@[simp]
theorem run_done (c : Nat) (m : Machine) : run .done c m = ⟨m, c, none⟩ := by
  rw [run]

@[simp]
theorem run_move (d : Int64) (p : Program) (c : Nat) (m : Machine) :
    run (.move d p) c m = run p c (m.moved d) := by
  rw [run]; rfl

theorem run_cell (a : Int64) (op : CellOp) (p : Program) (c : Nat) (m : Machine) :
    run (.cell a op p) c m = (m.stepOutcome a op c).andThen (run p) := by
  rw [run, stepOutcome]
  rcases h : m.step a op with ⟨m', _ | f⟩ <;> rfl

@[simp]
theorem run_loop_zero (b p : Program) (m : Machine) :
    run (.loop b p) 0 m = ⟨m, 0, some .canceled⟩ := by
  rw [run]

/-- A loop with a check left, before it is known that a body does not gain checks. -/
private theorem run_loop_min (b p : Program) (c : Nat) (m : Machine) :
    run (.loop b p) (c + 1) m =
      match m.test with
      | .outside => ⟨m, c, some (.pointerOutOfRange (m.target 0))⟩
      | .zero => run p c m
      | .nonzero => (run b c m).andThen fun left m => run (.loop b p) (min left c) m := by
  rw [run, test]
  rcases m.index? 0 with _ | i
  · rfl
  · by_cases h : m.cellAt i = 0
    · simp [h]
    · simp only [h, if_false]
      rcases run b c m with ⟨m', left, _ | f⟩ <;> rfl

/-- A run never ends with more checks than it had. -/
theorem run_checks_le (p : Program) (c : Nat) (m : Machine) : (run p c m).checks ≤ c := by
  induction p, c using Program.inductionWithin generalizing m with
  | done c => simp
  | move d p c ih => rw [run_move]; exact ih _
  | cell a op p c ih =>
    rw [run_cell]
    obtain ⟨-, e⟩ | ⟨-, e⟩ := (m.stepOutcome a op c).andThen_cases (run p)
    · rw [e]; exact ih _
    · rw [e]; exact Nat.le_refl c
  | loop b p c again ihb ihp =>
    rcases c with _ | c
    · simp
    rw [run_loop_min]
    rcases m.test with _ | _ | _
    · exact Nat.le_succ c
    · exact Nat.le_succ_of_le (ihp c m)
    · have hb := ihb c m
      obtain ⟨-, e⟩ | ⟨-, e⟩ :=
        (run b c m).andThen_cases fun left m => run (.loop b p) (min left c) m
      · have := again (min (run b c m).checks c) (by omega) (run b c m).machine
        simp only [e]; omega
      · simp only [e]; exact Nat.le_succ_of_le hb

section Loop

variable {m : Machine} (b p : Program) (c : Nat)

theorem run_loop_outside (h : m.test = .outside) :
    run (.loop b p) (c + 1) m = ⟨m, c, some (.pointerOutOfRange (m.target 0))⟩ := by
  rw [run_loop_min, h]

theorem run_loop_exit (h : m.test = .zero) : run (.loop b p) (c + 1) m = run p c m := by
  rw [run_loop_min, h]

/-- A loop whose cell is not zero is its body and then the loop again. -/
theorem run_loop_again (h : m.test = .nonzero) :
    run (.loop b p) (c + 1) m = (run b c m).andThen (run (.loop b p)) := by
  rw [run_loop_min, h]
  exact RunEnd.andThen_congr _ fun _ => by rw [Nat.min_eq_left (run_checks_le b c m)]

end Loop

/-- Two programs in a row run one after the other. -/
theorem run_append (p q : Program) (c : Nat) (m : Machine) :
    run (p ++ q) c m = (run p c m).andThen (run q) := by
  induction p, c using Program.inductionWithin generalizing m with
  | done c => rw [run_done]; rfl
  | move d p c ih => rw [Program.move_append, run_move, run_move, ih]
  | cell a op p c ih =>
    rw [Program.cell_append, run_cell, run_cell, RunEnd.andThen_assoc]
    exact RunEnd.andThen_congr _ fun _ => ih _
  | loop b p c again ihb ihp =>
    rcases c with _ | c
    · rw [Program.loop_append, run_loop_zero, run_loop_zero]; rfl
    rw [Program.loop_append]
    rcases ht : m.test with _ | _ | _
    · rw [run_loop_outside _ _ _ ht, run_loop_outside _ _ _ ht]; rfl
    · rw [run_loop_exit _ _ _ ht, run_loop_exit _ _ _ ht]; exact ihp c m
    · have hb := run_checks_le b c m
      rw [run_loop_again _ _ _ ht, run_loop_again _ _ _ ht, RunEnd.andThen_assoc]
      exact RunEnd.andThen_congr _ fun _ => again _ (by omega) _

/-! ## More checks -/

/-- One operation only adds to the output. -/
theorem output_step (m : Machine) (a : Int64) (op : CellOp) :
    m.printed <+: (m.step a op).1.printed := by
  rcases h : m.index? a with _ | i
  · simp only [step_outside h, List.prefix_rfl]
  rw [step_inside h]
  cases op with
  | add v => exact List.prefix_rfl
  | set v => exact List.prefix_rfl
  | print _ =>
    simp only [perform, Console.write]
    rcases m.console.room with _ | _ | n <;> simp [printed]
  | read _ =>
    simp only [perform, Console.read]
    rcases m.console.readable with _ | _ | n <;> rcases m.console.input with _ | ⟨b, rest⟩ <;>
      simp [printed, setCell]
  | unknown _ _ => exact List.prefix_rfl

/-- A run only adds to the output. -/
theorem output_run (p : Program) (c : Nat) (m : Machine) :
    m.printed <+: (run p c m).machine.printed := by
  induction p, c using Program.inductionWithin generalizing m with
  | done c => simp
  | move d p c ih => rw [run_move]; exact ih (m.moved d)
  | cell a op p c ih =>
    rw [run_cell]
    obtain ⟨-, e⟩ | ⟨-, e⟩ := (m.stepOutcome a op c).andThen_cases (run p)
    · rw [e]; exact (output_step m a op).trans (ih _)
    · rw [e]; exact output_step m a op
  | loop b p c again ihb ihp =>
    rcases c with _ | c
    · simp
    rcases ht : m.test with _ | _ | _
    · simp only [run_loop_outside _ _ _ ht, List.prefix_rfl]
    · rw [run_loop_exit _ _ _ ht]; exact ihp c m
    · have hb := run_checks_le b c m
      rw [run_loop_again _ _ _ ht]
      obtain ⟨-, e⟩ | ⟨-, e⟩ := (run b c m).andThen_cases (run (.loop b p))
      · rw [e]; exact (ihb c m).trans (again _ (by omega) _)
      · rw [e]; exact ihb c m

/-- What comes after an outcome only adds to its output. -/
theorem output_andThen_run (o : Outcome) (p : Program) :
    o.machine.printed <+: (o.andThen (run p)).machine.printed := by
  obtain ⟨-, e⟩ | ⟨-, e⟩ := o.andThen_cases (run p)
  · rw [e]; exact output_run p _ _
  · simp only [e, List.prefix_rfl]

/-- A run that is not canceled ends in the same way with more checks, and has those left over. -/
theorem run_add_checks (p : Program) (c k : Nat) (m : Machine)
    (h : (run p c m).fault ≠ some .canceled) :
    run p (c + k) m = { run p c m with checks := (run p c m).checks + k } := by
  induction p, c using Program.inductionWithin generalizing m with
  | done c => simp
  | move d p c ih => rw [run_move] at h; rw [run_move, run_move, ih _ h]
  | cell a op p c ih =>
    rw [run_cell] at h
    rw [run_cell, run_cell]
    rcases hf : (m.step a op).2 with _ | f
    · simp only [stepOutcome, hf, RunEnd.andThen] at h ⊢
      exact ih _ h
    · simp only [stepOutcome, hf, RunEnd.andThen]
  | loop b p c again ihb ihp =>
    rcases c with _ | c
    · simp at h
    rw [Nat.succ_add]
    rcases ht : m.test with _ | _ | _
    · rw [run_loop_outside _ _ _ ht, run_loop_outside _ _ _ ht]
    · rw [run_loop_exit _ _ _ ht] at h
      rw [run_loop_exit _ _ _ ht, run_loop_exit _ _ _ ht]
      exact ihp c m h
    · rw [run_loop_again _ _ _ ht] at h
      rw [run_loop_again _ _ _ ht, run_loop_again _ _ _ ht]
      have hb := run_checks_le b c m
      obtain ⟨hf, e⟩ | ⟨⟨f, hf⟩, e⟩ := (run b c m).andThen_cases (run (.loop b p))
      · rw [e] at h ⊢
        rw [ihb c m (by simp [hf]), RunEnd.andThen_of_none (by exact hf)]
        exact again _ (by omega) _ h
      · rw [e] at h ⊢
        rw [ihb c m h, RunEnd.andThen_of_some (by exact hf)]

/-- A run with more checks prints at least as much. -/
theorem output_run_mono (p : Program) {c c' : Nat} (hc : c ≤ c') (m : Machine) :
    (run p c m).machine.printed <+: (run p c' m).machine.printed := by
  induction p, c using Program.inductionWithin generalizing m c' with
  | done c => simp
  | move d p c ih => rw [run_move, run_move]; exact ih hc _
  | cell a op p c ih =>
    rw [run_cell, run_cell]
    rcases hf : (m.step a op).2 with _ | f
    · simp only [stepOutcome, hf, RunEnd.andThen]; exact ih hc _
    · simp only [stepOutcome, hf, RunEnd.andThen, List.prefix_rfl]
  | loop b p c again ihb ihp =>
    rcases c with _ | c
    · rw [run_loop_zero]; exact output_run _ _ _
    obtain ⟨c', rfl⟩ : ∃ k, c' = k + 1 := ⟨c' - 1, by omega⟩
    have hle : c ≤ c' := Nat.le_of_succ_le_succ hc
    rcases ht : m.test with _ | _ | _
    · simp only [run_loop_outside _ _ _ ht, List.prefix_rfl]
    · rw [run_loop_exit _ _ _ ht, run_loop_exit _ _ _ ht]; exact ihp c hle m
    · rw [run_loop_again _ _ _ ht, run_loop_again _ _ _ ht]
      have hb := run_checks_le b c m
      obtain ⟨hf, e⟩ | ⟨-, e⟩ := (run b c m).andThen_cases (run (.loop b p))
      · obtain ⟨k, rfl⟩ := Nat.exists_eq_add_of_le hle
        rw [e, run_add_checks b c k m (by simp [hf]), RunEnd.andThen_of_none (by exact hf)]
        exact again _ (by omega) (Nat.le_add_right _ k) _
      · rw [e]; exact (ihb c hle m).trans (output_andThen_run _ _)

end Machine

end TapeLang
