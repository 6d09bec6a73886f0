import Mathlib.Algebra.Ring.Int.Parity
import Mathlib.Data.Int.GCD
import Mathlib.Data.Nat.Prime.Basic
import TapeLang.Proofs.Refine

/-!
# Ending like the merged program

Merging keeps what a program does, but it may make a program end that ran forever: a loop that
changes its cell by an even number need not come to zero. It is the only way.

* `EndsIn p m e`: with enough checks, `p` comes to its end, or leaves the tape. How a program ends
  is told from its parts (`endsIn_append`, `endsIn_cell`), and by induction over the rounds of a
  loop (`EndsIn.loop_induction`).
* `KeepsUpWith p q`: however `q` ends, so does `p`, unless it leaves the tape. The relation is a
  preorder and may be used inside programs (`KeepsUpWith.append`, `KeepsUpWith.loop`).
* `MergesTo.keepsUpWith`: merging keeps to it, if the loops that it replaces change their cells by
  odd numbers, which come to zero (`exists_steps_to_zero`).
-/

namespace TapeLang

/-- How a run may end for good: at the end of the program, or outside the tape. -/
inductive Ending where
  | finished (m : Machine)
  | offTape

/-- The outcome is this ending. -/
def Outcome.Shows (o : Outcome) : Ending → Prop
  | .finished m => o.fault = none ∧ o.machine = m
  | .offTape => ∃ a, o.fault = some (.pointerOutOfRange a)

theorem Outcome.Shows.fault_ne_canceled {o : Outcome} {e : Ending} (h : o.Shows e) :
    o.fault ≠ some .canceled := by
  intro hc
  cases e with
  | finished m =>
    rw [h.1] at hc
    cases hc
  | offTape =>
    obtain ⟨a, ha⟩ := h
    rw [ha] at hc
    cases hc

namespace Program

open Machine

variable {p q r b b' : Program} {m m' : Machine} {e e' : Ending}

/-- With enough checks, the run of `p` from `m` is this ending. -/
def EndsIn (p : Program) (m : Machine) (e : Ending) : Prop :=
  ∃ c, (run p c m).Shows e

/-! ## Endings -/

/-- An ending stays with more checks. -/
theorem shows_of_le {c c' : Nat} (h : (run p c m).Shows e) (hc : c ≤ c') :
    (run p c' m).Shows e := by
  obtain ⟨k, rfl⟩ := Nat.exists_eq_add_of_le hc
  rw [run_add_checks p c k m h.fault_ne_canceled]
  cases e with
  | finished m' => exact h
  | offTape => exact h

/-- A program ends in one way only. -/
theorem EndsIn.unique (h : p.EndsIn m e) (h' : p.EndsIn m e') : e = e' := by
  obtain ⟨c, hc⟩ := h
  obtain ⟨c', hc'⟩ := h'
  have here := shows_of_le hc (Nat.le_max_left c c')
  have there := shows_of_le hc' (Nat.le_max_right c c')
  cases e with
  | finished n =>
    cases e' with
    | finished n' => rw [← here.2, there.2]
    | offTape =>
      obtain ⟨a, ha⟩ := there
      rw [here.1] at ha
      cases ha
  | offTape =>
    obtain ⟨a, ha⟩ := here
    cases e' with
    | finished n' =>
      rw [there.1] at ha
      cases ha
    | offTape => rfl

theorem endsIn_done : EndsIn done m e ↔ e = .finished m := by
  constructor
  · rintro ⟨c, h⟩
    rw [run_done] at h
    cases e with
    | finished n => rw [← h.2]
    | offTape =>
      obtain ⟨a, ha⟩ := h
      cases ha
  · rintro rfl
    exact ⟨0, by rw [run_done]; exact ⟨rfl, rfl⟩⟩

theorem endsIn_move (d : Int64) : (move d p).EndsIn m e ↔ p.EndsIn (m.moved d) e := by
  unfold EndsIn
  simp only [run_move]

/-- Two programs in a row end where the second ends, unless the first leaves the tape. -/
theorem endsIn_append :
    (p ++ q).EndsIn m e ↔
      (∃ m', p.EndsIn m (.finished m') ∧ q.EndsIn m' e) ∨ e = .offTape ∧ p.EndsIn m .offTape := by
  constructor
  · rintro ⟨c, h⟩
    rw [run_append] at h
    obtain ⟨hf, he⟩ | ⟨⟨f, hf⟩, he⟩ := (run p c m).andThen_cases (run q)
    · rw [he] at h
      exact .inl ⟨_, ⟨c, hf, rfl⟩, _, h⟩
    · rw [he] at h
      cases e with
      | finished n =>
        rw [h.1] at hf
        cases hf
      | offTape => exact .inr ⟨rfl, c, h⟩
  · rintro (⟨m', ⟨c, hf, rfl⟩, c', h'⟩ | ⟨rfl, c, a, ha⟩)
    · -- The checks of the second program are left over by the first.
      have more := run_add_checks p c c' m (by simp [hf])
      refine ⟨c + c', ?_⟩
      rw [run_append, more, RunEnd.andThen_of_none (by exact hf)]
      exact shows_of_le h' (Nat.le_add_left _ _)
    · refine ⟨c, a, ?_⟩
      rw [run_append, RunEnd.andThen_of_some ha, ha]

/-- Only a cell outside the tape is out of range. -/
theorem step_offTape_iff (a : Int64) (op : CellOp) :
    (∃ t, (m.step a op).2 = some (.pointerOutOfRange t)) ↔ m.index? a = none := by
  rcases h : m.index? a with _ | i
  · simp [step_outside h]
  · rw [step_inside h]
    cases op with
    | add v | set v | unknown n v => simp [perform]
    | print u =>
      simp only [perform]
      rcases m.console.write (m.cellAt i) with e | c <;> simp
    | read u =>
      simp only [perform]
      rcases m.console.read with e | ⟨b, c⟩ <;> simp

/-- An operation goes on, or its cell is outside the tape. -/
theorem endsIn_cell (a : Int64) (op : CellOp) :
    (cell a op p).EndsIn m e ↔
      (m.step a op).2 = none ∧ p.EndsIn (m.step a op).1 e ∨ e = .offTape ∧ m.index? a = none := by
  unfold EndsIn
  simp only [run_cell, stepOutcome]
  rcases hf : (m.step a op).2 with _ | f
  · have inside : m.index? a ≠ none := by
      intro hi
      rw [step_outside hi] at hf
      cases hf
    simp [RunEnd.andThen, inside]
  · rw [← step_offTape_iff a op]
    simp only [RunEnd.andThen, hf]
    cases e with
    | finished n => simp [Outcome.Shows]
    | offTape => simp [Outcome.Shows]

/-! ## Loops -/

theorem endsIn_loop_outside (h : m.test = .outside) : (loop b p).EndsIn m .offTape :=
  ⟨1, _, by rw [run_loop_outside _ _ _ h]⟩

theorem endsIn_loop_exit (h : m.test = .zero) (hp : p.EndsIn m e) : (loop b p).EndsIn m e := by
  obtain ⟨c, hc⟩ := hp
  exact ⟨c + 1, by rw [run_loop_exit _ _ _ h]; exact hc⟩

theorem endsIn_loop_again (h : m.test = .nonzero) (hb : (b ++ loop b p).EndsIn m e) :
    (loop b p).EndsIn m e := by
  obtain ⟨c, hc⟩ := hb
  exact ⟨c + 1, by rw [run_loop_again _ _ _ h, ← run_append]; exact hc⟩

/-- Induction over the rounds of a loop that ends. -/
theorem EndsIn.loop_induction {motive : Machine → Ending → Prop}
    (outside : ∀ m, m.test = .outside → motive m .offTape)
    (exit : ∀ m, m.test = .zero → motive m (.finished m))
    (stop : ∀ m, m.test = .nonzero → b.EndsIn m .offTape → motive m .offTape)
    (again : ∀ m m' e, m.test = .nonzero → b.EndsIn m (.finished m') → motive m' e → motive m e)
    (h : (loop b done).EndsIn m e) : motive m e := by
  obtain ⟨c, hc⟩ := h
  induction c using Nat.strongRecOn generalizing m with
  | _ c ih =>
    rcases c with _ | c
    · exact absurd rfl (run_loop_zero b done m ▸ hc.fault_ne_canceled)
    rcases ht : m.test with _ | _ | _
    · rw [run_loop_outside _ _ _ ht] at hc
      cases e with
      | finished n => cases hc.1
      | offTape => exact outside m ht
    · rw [run_loop_exit _ _ _ ht] at hc
      obtain rfl := endsIn_done.mp ⟨c, hc⟩
      exact exit m ht
    · rw [run_loop_again _ _ _ ht] at hc
      obtain ⟨hf, he⟩ | ⟨⟨f, hf⟩, he⟩ := (run b c m).andThen_cases (run (loop b done))
      · rw [he] at hc
        have less := Nat.lt_succ_of_le (run_checks_le b c m)
        exact again m _ e ht ⟨c, hf, rfl⟩ (ih _ less hc)
      · rw [he] at hc
        cases e with
        | finished n =>
          rw [hc.1] at hf
          cases hf
        | offTape => exact stop m ht ⟨c, hc⟩

/-! ## Keeping up -/

/-- However `q` ends, so does `p`, unless it leaves the tape. -/
def KeepsUpWith (p q : Program) : Prop :=
  ∀ m e, q.EndsIn m e → p.EndsIn m e ∨ p.EndsIn m .offTape

namespace KeepsUpWith

theorem refl (p : Program) : p.KeepsUpWith p :=
  fun _ _ h => .inl h

theorem trans (h : p.KeepsUpWith q) (h' : q.KeepsUpWith r) : p.KeepsUpWith r := by
  intro m e hr
  rcases h' m e hr with hq | hq
  · exact h m e hq
  · rcases h m .offTape hq with hp | hp <;> exact .inr hp

theorem of_run (h : ∀ c m, run p c m = run q c m) : p.KeepsUpWith q := by
  rintro m e ⟨c, hc⟩
  exact .inl ⟨c, h c m ▸ hc⟩

theorem append {p' q' : Program} (h : p.KeepsUpWith p') (h' : q.KeepsUpWith q') :
    (p ++ q).KeepsUpWith (p' ++ q') := by
  intro m e he
  have leaves (hp : p.EndsIn m .offTape) : (p ++ q).EndsIn m .offTape :=
    endsIn_append.mpr (.inr ⟨rfl, hp⟩)
  rcases endsIn_append.mp he with ⟨m', hp, hq⟩ | ⟨rfl, hp⟩
  · rcases h m _ hp with hp | hp
    · have goesOn {e : Ending} (hq : q.EndsIn m' e) : (p ++ q).EndsIn m e :=
        endsIn_append.mpr (.inl ⟨m', hp, hq⟩)
      exact (h' m' e hq).imp goesOn goesOn
    · exact .inr (leaves hp)
  · rcases h m _ hp with hp | hp <;> exact .inr (leaves hp)

theorem loop (h : b.KeepsUpWith b') : (loop b done).KeepsUpWith (loop b' done) := by
  intro m e he
  -- A round of the loop with the body `b` that leaves the tape is the last one.
  have leaves {m : Machine} (ht : m.test = .nonzero) (hb : b.EndsIn m .offTape) :
      (Program.loop b done).EndsIn m .offTape :=
    endsIn_loop_again ht (endsIn_append.mpr (.inr ⟨rfl, hb⟩))
  refine EndsIn.loop_induction (motive := fun m e => (Program.loop b done).EndsIn m e ∨
    (Program.loop b done).EndsIn m .offTape) ?_ ?_ ?_ ?_ he
  · intro m ht
    exact .inl (endsIn_loop_outside ht)
  · intro m ht
    exact .inl (endsIn_loop_exit ht (endsIn_done.mpr rfl))
  · intro m ht hb
    rcases h m _ hb with hb | hb <;> exact .inr (leaves ht hb)
  · intro m m' e ht hb ih
    rcases h m _ hb with hb | hb
    · have round {e : Ending} (he : (Program.loop b done).EndsIn m' e) :
          (Program.loop b done).EndsIn m e :=
        endsIn_loop_again ht (endsIn_append.mpr (.inl ⟨m', hb, he⟩))
      exact ih.imp round round
    · exact .inr (leaves ht hb)

end KeepsUpWith

/-! ## Rewrites of neighbours -/

theorem keepsUp_addZero (a : Int64) : (cell a (.add 0) done).KeepsUpWith done := by
  intro m e he
  obtain rfl := endsIn_done.mp he
  rcases hi : m.index? a with _ | i
  · exact .inr ((endsIn_cell a _).mpr (.inr ⟨rfl, hi⟩))
  · left
    rw [endsIn_cell, step_add_zero hi]
    exact .inl ⟨rfl, he⟩

theorem keepsUp_moveBack {d back : Int64} (a : Int64) (op : CellOp) (h : d + back = 0) :
    (move d (cell a op (move back done))).KeepsUpWith (cell (d + a) op done) := by
  intro m e he
  left
  rw [endsIn_move, endsIn_cell, step_moved]
  rcases (endsIn_cell _ op).mp he with ⟨hf, hd⟩ | ⟨rfl, hi⟩
  · refine .inl ⟨hf, ?_⟩
    rw [endsIn_move, moved_moved, h, moved_zero]
    exact hd
  · exact .inr ⟨rfl, (index?_moved m d a).trans hi⟩

/-- Steps of an odd number come to zero modulo 256. -/
theorem exists_steps_to_zero (x : UInt8) {v : Int8} (h : Odd v.toInt) :
    ∃ k : Nat, (x.toNat + k * v.toUInt8.toNat) % 256 = 0 := by
  have hv : v.toInt = if 2 * v.toUInt8.toNat < 256 then (v.toUInt8.toNat : Int)
      else (v.toUInt8.toNat : Int) - 256 := BitVec.toInt_eq_toNat_cond v.toBitVec
  have odd : Odd v.toUInt8.toNat := by
    rw [Nat.odd_iff]
    rw [Int.odd_iff, hv] at h
    split at h <;> omega
  have coprime : Nat.Coprime v.toUInt8.toNat 256 :=
    Nat.Coprime.pow_right 8 (Nat.coprime_two_right.mpr odd)
  obtain ⟨inverse, -, hinverse⟩ := Nat.exists_mul_mod_eq_one_of_coprime coprime (by decide)
  refine ⟨(256 - x.toNat) * inverse, ?_⟩
  have hx := x.toNat_lt
  calc (x.toNat + (256 - x.toNat) * inverse * v.toUInt8.toNat) % 256
      = (x.toNat + (256 - x.toNat) * (v.toUInt8.toNat * inverse)) % 256 := by
        rw [Nat.mul_assoc, Nat.mul_comm inverse]
    _ = (x.toNat + (256 - x.toNat) * 1) % 256 := by
        rw [Nat.add_mod, Nat.mul_mod, hinverse, ← Nat.mul_mod_mod, Nat.mul_one, ← Nat.add_mod]
        simp
    _ = 0 := by
        rw [Nat.mul_one, Nat.add_sub_cancel' (by omega)]

/-- A loop at a zero leaves the machine as it is, which is to say with zero there. -/
theorem endsIn_loop_at_zero {i : Nat} (hi : m.index? 0 = some i) (h0 : m.cellAt i = 0) :
    (loop b done).EndsIn m (.finished (m.setCell i 0)) := by
  refine endsIn_loop_exit (by simp [test, hi, h0]) (endsIn_done.mpr ?_)
  rw [← h0, setCell_cellAt]

/-- A loop that only changes its own cell ends with zero there, if its steps come to zero. -/
theorem endsIn_clearLoop {i : Nat} (hi : m.index? 0 = some i) (v : Int8) {k : Nat}
    (hk : ((m.cellAt i).toNat + k * v.toUInt8.toNat) % 256 = 0) :
    (loop (cell 0 (.add v) done) done).EndsIn m (.finished (m.setCell i 0)) := by
  induction k generalizing m with
  | zero =>
    have hlt := (m.cellAt i).toNat_lt
    apply endsIn_loop_at_zero hi
    apply UInt8.toNat.inj
    show _ = 0
    omega
  | succ k ih =>
    by_cases h0 : m.cellAt i = 0
    · exact endsIn_loop_at_zero hi h0
    · have hs : m.step 0 (.add v) = (m.setCell i (m.cellAt i + v.toUInt8), none) :=
        step_inside hi (.add v)
      have hcell : (m.setCell i (m.cellAt i + v.toUInt8)).cellAt i = m.cellAt i + v.toUInt8 := by
        rw [cellAt_setCell (index?_lt hi), if_pos rfl]
      refine endsIn_loop_again (by simp [test, hi, h0]) ?_
      rw [cell_append, done_append, endsIn_cell, hs]
      refine .inl ⟨rfl, ?_⟩
      rw [← setCell_setCell m i (m.cellAt i + v.toUInt8) 0]
      apply ih
      · rw [index?_setCell, hi]
      · rw [hcell, UInt8.toNat_add, Nat.mod_add_mod, Nat.add_assoc, Nat.add_comm v.toUInt8.toNat]
        rw [Nat.succ_mul] at hk
        exact hk

theorem keepsUp_clearLoop {v : Int8} (h : Odd v.toInt) :
    (loop (cell 0 (.add v) done) done).KeepsUpWith (cell 0 (.set 0) done) := by
  intro m e he
  left
  rcases hi : m.index? 0 with _ | i
  · rcases (endsIn_cell 0 _).mp he with ⟨hf, -⟩ | ⟨rfl, -⟩
    · rw [step_outside hi] at hf
      cases hf
    · exact endsIn_loop_outside (by simp [test, hi])
  · obtain ⟨k, hk⟩ := exists_steps_to_zero (m.cellAt i) h
    have hs : m.step 0 (.set 0) = (m.setCell i 0, none) := step_inside hi (.set 0)
    rw [endsIn_cell, hs, endsIn_done] at he
    rcases he with ⟨-, rfl⟩ | ⟨-, hout⟩
    · exact endsIn_clearLoop hi v hk
    · rw [hi] at hout
      cases hout

/-- A program keeps up with what it merges to, if the loops that are replaced step by
odd numbers. -/
theorem MergesTo.keepsUpWith (h : p.MergesTo (fun v => Odd v.toInt) q) : p.KeepsUpWith q := by
  induction h with
  | refl p => exact .refl p
  | trans _ _ ih ih' => exact ih.trans ih'
  | append _ _ ih ih' => exact ih.append ih'
  | loop _ ih => exact ih.loop
  | moveMove d e => exact .of_run fun c m => by rw [run_move, run_move, run_move, moved_moved]
  | moveZero => exact .of_run fun c m => by rw [run_move, moved_zero]
  | cellCell a h => exact .of_run (run_cell_cell a h)
  | addZero a => exact keepsUp_addZero a
  | moveBack a op h => exact keepsUp_moveBack a op h
  | clearLoop h => exact keepsUp_clearLoop h

/-! ## Merging -/

/-- If every loop that merging replaces by an assignment changes its cell by an odd number, then a
program ends like the merged one. Where the merged program comes to its end, so does the program
with enough checks, and with the same machine, unless it leaves the tape. It does not go on forever,
and it never comes to its end with another machine. -/
theorem ends_like_merged (p : Program)
    (odd : ∀ b ∈ p.bodies, Merge.loopToken b.merge = .cell 0 (.set 0) →
      ∃ v, b.merge = .cell 0 (.add v) done ∧ Odd v.toInt)
    (m : Machine) (checks : Nat) (h : (run p.merge checks m).fault = none) :
    (∃ enough, ∀ c, enough ≤ c →
      (run p c m).fault = none ∧ (run p c m).machine = (run p.merge checks m).machine ∨
        ∃ a, (run p c m).fault = some (.pointerOutOfRange a)) ∧
    ∀ c, (run p c m).fault = none → (run p c m).machine = (run p.merge checks m).machine := by
  have steps : p.ClearsBy fun v => Odd v.toInt := by
    intro b hb v hv hmerged
    obtain ⟨w, hw, hodd⟩ := odd b hb (by rw [hmerged]; exact if_pos ⟨rfl, hv⟩)
    rw [hmerged] at hw
    cases hw
    exact hodd
  have keeps := (merge_merges_of_clearsBy steps).keepsUpWith
  have ends := keeps m (.finished (run p.merge checks m).machine) ⟨checks, h, rfl⟩
  constructor
  · rcases ends with ⟨enough, hend⟩ | ⟨enough, hend⟩
    · exact ⟨enough, fun c hc => .inl (shows_of_le hend hc)⟩
    · exact ⟨enough, fun c hc => .inr (shows_of_le hend hc)⟩
  · intro c hf
    have here : p.EndsIn m (.finished (run p c m).machine) := ⟨c, hf, rfl⟩
    rcases ends with hend | hend
    · exact Ending.finished.inj (here.unique hend)
    · cases here.unique hend

/-- Clears a cell in steps of three, and the cell to the right of it in steps of minus one. -/
def clearTwo : Program :=
  loop (cell 0 (.add 1) (cell 0 (.add 1) (cell 0 (.add 1) done)))
    (move 1 (loop (cell 0 (.add (-1)) done) done))

theorem ends_like_merged_clearTwo :
    let m : Machine := { tape := #[1, 7] }
    (run clearTwo.merge 0 m).fault = none ∧ ∃ enough, ∀ c, enough ≤ c →
      (run clearTwo c m).fault = none ∧ (run clearTwo c m).machine =
        (run clearTwo.merge 0 m).machine ∨
        ∃ a, (run clearTwo c m).fault = some (.pointerOutOfRange a) := by
  intro m
  have merged : clearTwo.merge = cell 0 (.set 0) (move 1 (cell 0 (.set 0) done)) := rfl
  have h : (run clearTwo.merge 0 m).fault = none := by
    rw [merged, run_cell, RunEnd.andThen_of_none rfl, run_move, run_cell,
      RunEnd.andThen_of_none rfl, run_done]
  refine ⟨h, (ends_like_merged clearTwo ?_ m 0 h).1⟩
  intro b hb _
  simp only [clearTwo, bodies, List.append_nil, List.nil_append, List.mem_cons, List.not_mem_nil,
    or_false] at hb
  rcases hb with rfl | rfl
  · exact ⟨3, rfl, by decide⟩
  · exact ⟨-1, rfl, by decide⟩

end Program

end TapeLang
