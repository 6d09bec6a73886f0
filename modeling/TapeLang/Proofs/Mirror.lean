import TapeLang.Proofs.Reach
import TapeLang.Proofs.WordMachine

/-!
# A pointer of 32 bits is enough

A program that stays close to the tape does the same with a pointer of 64 bits and with one of 32.

* `Machine.MirroredBy`: the same state, seen through 64 and through 32 bits. The memory may go on
  after the tape.
* `Outcome.MirroredBy`: a run that comes to its end does so in both. If the memory is no larger than
  the tape, a run that fails fails in both, after the same output.
* `address_eq`: both find the same cell. `step_mirrored`: one operation. `rounds_mirrored`: the
  rounds of a loop. `run_mirrored`: a whole program.
-/

namespace TapeLang

open Wasm (Memory Trap)

/-- The same state, with a pointer of 64 bits and with one of 32 bits in a memory of
`size` bytes. -/
structure Machine.MirroredBy (size : Nat) (m : Machine) (w : WordMachine) : Prop where
  near : Inside (-2 ^ 31) (2 ^ 31 - 1) m.pointer
  pointer : w.pointer.toNat = (m.pointer.toInt % 2 ^ 32).toNat
  console : w.console = m.console
  tape : m.tape.size = tapeSize
  memory : w.memory.size = size
  tape_le : tapeSize ≤ size
  cells : ∀ i, i < tapeSize → w.memory.get i = m.cellAt i

/-- The outcome `o'` is that of the same run. -/
structure Outcome.MirroredBy (size : Nat) (o : Outcome) (o' : WordOutcome) : Prop where
  finish : o.fault = none → o'.fault = none ∧ o.machine.MirroredBy size o'.machine ∧
    o.checks ≤ o'.checks
  stop : ∀ f, o.fault = some f → f ≠ .canceled → size = tapeSize → ∃ t, o'.fault = some t ∧
    t ≠ .exhausted ∧ o'.machine.console.output = o.machine.console.output

namespace Outcome.MirroredBy

variable {size : Nat} {o : Outcome} {o' : WordOutcome}

/-- Nothing is said of a run that was canceled. -/
theorem of_canceled (h : o.fault = some .canceled) : o.MirroredBy size o' where
  finish hf := by simp [h] at hf
  stop f hf hc := by
    rw [h, Option.some.injEq] at hf
    exact absurd hf.symm hc

theorem andThen {f : Nat → Machine → Outcome} {g : Nat → WordMachine → WordOutcome}
    (h : o.MirroredBy size o')
    (next : o.machine.MirroredBy size o'.machine → o.checks ≤ o'.checks →
      (f o.checks o.machine).MirroredBy size (g o'.checks o'.machine)) :
    Outcome.MirroredBy size (o.andThen f) (o'.andThen g) := by
  obtain ⟨hf, e⟩ | ⟨⟨fault, hf⟩, e⟩ := o.andThen_cases f
  · obtain ⟨ht, hm, hc⟩ := h.finish hf
    rw [e, RunEnd.andThen_of_none ht]
    exact next hm hc
  · rw [e]
    refine ⟨fun hn => by simp [hf] at hn, fun g' hg hc hs => ?_⟩
    obtain ⟨t, ht, hrest⟩ := h.stop g' hg hc hs
    rw [RunEnd.andThen_of_some ht]
    exact ⟨t, ht, hrest⟩

end Outcome.MirroredBy

/-! ## Cells -/

namespace Machine

variable {m : Machine} {w : WordMachine} {size : Nat} {a : Int64} {i : Nat}

/-- An operation acts on the cell with the same number, if that fits into 32 bits. A cell to the
right is found only from a pointer on the tape. -/
theorem address_eq (h : m.MirroredBy size w) (ht : Inside (-2 ^ 31) (2 ^ 31 - 1) (m.target a))
    (hk : Inside 0 65535 m.pointer ∨ a.toInt ≤ 0) :
    w.address a = ((m.target a).toInt % 2 ^ 32).toNat := by
  have hp := h.pointer
  have hT : (m.target a).toInt = (m.pointer.toInt + a.toInt).bmod (2 ^ 64) := Int64.toInt_add _ _
  obtain ⟨hlo, hhi⟩ := ht
  rw [Int.bmod_eq_emod] at hT
  unfold WordMachine.address
  by_cases ha : 0 ≤ a.toInt
  · have := a.toInt_lt
    rw [if_pos ha, hp]
    rcases hk with ⟨h0, h1⟩ | h0
    · split at hT <;> omega
    · split at hT <;> omega
  · rw [if_neg ha, hp]
    split at hT <;> omega

theorem address_of_some (h : m.MirroredBy size w) (hi : m.index? a = some i)
    (hk : Inside 0 65535 m.pointer ∨ a.toInt ≤ 0) : i < tapeSize ∧ w.address a = i := by
  have ht := h.tape
  simp only [index?_eq, tapeSize] at hi ht
  split at hi
  · rename_i hr
    have := address_eq h ⟨by omega, by omega⟩ hk
    rw [Option.some.injEq] at hi
    simp only [tapeSize]
    omega
  · simp at hi

theorem address_of_none (h : m.MirroredBy size w) (hi : m.index? a = none)
    (hn : Inside (-2 ^ 31) (2 ^ 31 - 1) (m.target a))
    (hk : Inside 0 65535 m.pointer ∨ a.toInt ≤ 0) :
    tapeSize ≤ w.address a := by
  have ht := h.tape
  have ha := address_eq h hn hk
  obtain ⟨hlo, hhi⟩ := hn
  simp only [index?_eq, tapeSize] at hi ht ⊢
  split at hi
  · simp at hi
  · omega

theorem load?_of_lt (h : m.MirroredBy size w) (hi : i < tapeSize) :
    w.memory.load? i = some (m.cellAt i) := by
  have hm := h.memory
  have hs := h.tape_le
  rw [Memory.load?, if_pos (by omega), h.cells i hi]

/-- Storing a byte in a cell of the tape. -/
theorem store_mirrored (h : m.MirroredBy size w) (hi : i < tapeSize) (b : UInt8) :
    (w.store i b).2 = none ∧ (m.setCell i b).MirroredBy size (w.store i b).1 := by
  have hm := h.memory
  have hs := h.tape_le
  have ht := h.tape
  obtain ⟨memory, hstore⟩ : ∃ memory, w.memory.store? i b = some memory := by
    simp only [Memory.store?, if_pos (show i < w.memory.size by omega)]
    exact ⟨_, rfl⟩
  simp only [WordMachine.store, hstore]
  refine ⟨trivial, ⟨h.near, h.pointer, h.console, ?_, ?_, hs, fun j hj => ?_⟩⟩
  · simpa [setCell] using ht
  · rw [← hm]; exact Memory.size_store? hstore
  · rw [Memory.get_store? hstore, cellAt_setCell (by omega), h.cells j hj]

/-! ## Steps -/

/-- An operation on a cell of the tape. -/
theorem perform_mirrored (h : m.MirroredBy size w) (hi : i < tapeSize) (ha : w.address a = i)
    {op : CellOp} (hop : op.IsKnown) {c s : Nat} (hc : c ≤ s) :
    Outcome.MirroredBy size ⟨(m.perform i op).1, c, (m.perform i op).2⟩ (w.stepOutcome a op s) := by
  unfold WordMachine.stepOutcome
  cases op with
  | add v =>
    obtain ⟨hn, hm⟩ := store_mirrored h hi (m.cellAt i + v.toUInt8)
    simp only [perform, WordMachine.step, ha, load?_of_lt h hi]
    exact ⟨fun _ => ⟨hn, hm, hc⟩, fun f hf => by simp at hf⟩
  | set v =>
    obtain ⟨hn, hm⟩ := store_mirrored h hi v.toUInt8
    simp only [perform, WordMachine.step, ha]
    exact ⟨fun _ => ⟨hn, hm, hc⟩, fun f hf => by simp at hf⟩
  | print u =>
    simp only [perform, WordMachine.step, ha, load?_of_lt h hi, h.console]
    rcases m.console.write (m.cellAt i) with e | console
    · exact ⟨fun hf => by simp at hf, fun _ _ _ _ => ⟨_, rfl, by simp, by rw [h.console]⟩⟩
    · exact ⟨fun _ => ⟨rfl, ⟨h.near, h.pointer, rfl, h.tape, h.memory, h.tape_le, h.cells⟩, hc⟩,
        fun f hf => by simp at hf⟩
  | read u =>
    simp only [perform, WordMachine.step, ha, h.console]
    rcases m.console.read with e | ⟨b, console⟩
    · exact ⟨fun hf => by simp at hf, fun _ _ _ _ => ⟨_, rfl, by simp, by rw [h.console]⟩⟩
    · have h' : Machine.MirroredBy size { m with console } { w with console } :=
        ⟨h.near, h.pointer, rfl, h.tape, h.memory, h.tape_le, h.cells⟩
      obtain ⟨hn, hm⟩ := store_mirrored h' hi b
      exact ⟨fun _ => ⟨hn, hm, hc⟩, fun f hf => by simp at hf⟩
  | unknown k v => exact hop.elim

theorem output_read {c c' : Console} {b : UInt8} (h : c.read = .ok (b, c')) :
    c'.output = c.output := by
  unfold Console.read at h
  split at h
  · simp at h
  · split at h <;> simp only [Except.ok.injEq, Prod.mk.injEq] at h <;> rw [← h.2]

/-- An operation outside the memory prints nothing; it may have read a byte before it fails. -/
theorem step_traps (h : w.memory.size ≤ w.address a) {op : CellOp} (hop : op.IsKnown) :
    ∃ t, (w.step a op).2 = some t ∧ t ≠ .exhausted ∧
      (w.step a op).1.console.output = w.console.output := by
  have hl : w.memory.load? (w.address a) = none := if_neg (Nat.not_lt.mpr h)
  have hs (b : UInt8) : w.memory.store? (w.address a) b = none := if_neg (Nat.not_lt.mpr h)
  cases op with
  | add v => simp only [WordMachine.step, hl]; exact ⟨_, rfl, by simp, trivial⟩
  | set v => simp only [WordMachine.step, WordMachine.store, hs]; exact ⟨_, rfl, by simp, trivial⟩
  | print u => simp only [WordMachine.step, hl]; exact ⟨_, rfl, by simp, trivial⟩
  | read u =>
    simp only [WordMachine.step]
    rcases hr : w.console.read with e | ⟨b, console⟩
    · exact ⟨_, rfl, by simp, rfl⟩
    · simp only [WordMachine.store, hs]
      exact ⟨_, rfl, by simp, output_read hr⟩
  | unknown k v => exact hop.elim

/-- An operation, wherever it acts. -/
theorem step_mirrored (h : m.MirroredBy size w) (hn : Inside (-2 ^ 31) (2 ^ 31 - 1) (m.target a))
    (hk : Inside 0 65535 m.pointer ∨ a.toInt ≤ 0) {op : CellOp} (hop : op.IsKnown) {c s : Nat}
    (hc : c ≤ s) : (m.stepOutcome a op c).MirroredBy size (w.stepOutcome a op s) := by
  rw [stepOutcome]
  rcases hi : m.index? a with _ | i
  · rw [step_outside hi]
    refine ⟨fun hf => by simp at hf, fun _ _ _ hs => ?_⟩
    have hout : w.memory.size ≤ w.address a := by
      rw [h.memory, hs]
      exact address_of_none h hi hn hk
    obtain ⟨t, ht, hne, ho⟩ := step_traps hout hop
    exact ⟨t, ht, hne, by rw [← h.console]; exact ho⟩
  · obtain ⟨hlt, ha⟩ := address_of_some h hi hk
    rw [step_inside hi]
    exact perform_mirrored h hlt ha hop hc

/-! ## Loops -/

theorem address_zero (w : WordMachine) : w.address 0 = w.pointer.toNat := rfl

/-- A loop that finds its cell finds the same in both. -/
theorem test_eq (h : m.MirroredBy size w) (ht : m.test ≠ .outside) :
    Inside 0 65535 m.pointer ∧ w.test = m.test := by
  unfold test at ht ⊢
  rcases hi : m.index? 0 with _ | i
  · simp [hi] at ht
  · obtain ⟨hlt, ha⟩ := address_of_some h hi (.inr (Int.le_refl 0))
    rw [address_zero] at ha
    refine ⟨?_, by rw [WordMachine.test, ha, load?_of_lt h hlt]⟩
    have hs := h.tape
    rw [index?_eq, target_zero] at hi
    simp only [tapeSize] at hs
    split at hi
    · exact ⟨by omega, by omega⟩
    · simp at hi

theorem test_outside (h : m.MirroredBy size w) (ht : m.test = .outside) (hs : size = tapeSize) :
    w.test = .outside := by
  have hi : m.index? 0 = none := by
    unfold test at ht
    rcases hi : m.index? 0 with _ | i
    · rfl
    · simp only [hi] at ht
      split at ht <;> simp at ht
  have ha := address_of_none h hi (by rw [target_zero]; exact h.near) (.inr (Int.le_refl 0))
  have hl : w.memory.load? w.pointer.toNat = none := by
    rw [← address_zero, Memory.load?, if_neg (by rw [h.memory]; omega)]
  simp only [WordMachine.test, hl]

/-- From the tape on, the program does the same with a pointer of 32 bits. -/
def MirrorsFromTape (size : Nat) (p : Program) : Prop :=
  ∀ (c s : Nat) (m : Machine) (w : WordMachine), m.MirroredBy size w → Inside 0 65535 m.pointer →
    c ≤ s → (run p c m).MirroredBy size (WordMachine.run p s w)

variable {b p : Program}

/-- A loop whose cell is outside the tape. -/
theorem outside_mirrored (h : m.MirroredBy size w) {f : Fault} {c s : Nat} {o' : WordOutcome}
    (ho : size = tapeSize → o' = ⟨w, s, some .outOfBounds⟩) :
    Outcome.MirroredBy size ⟨m, c, some f⟩ o' where
  finish hf := by simp at hf
  stop _ _ _ hs := by
    rw [ho hs]
    exact ⟨.outOfBounds, rfl, by simp, by rw [h.console]⟩

/-- The rounds of a loop, from one whose cell is not zero on. -/
theorem rounds_mirrored (hb : MirrorsFromTape size b) (hp : MirrorsFromTape size p) {c s : Nat}
    (h : m.MirroredBy size w) (ht : m.test = .nonzero) (hc : c ≤ s) :
    Outcome.MirroredBy size ((run b c m).andThen (run (.loop b p)))
      ((WordMachine.run b s w).andThen (WordMachine.afterRound b p)) := by
  induction c using Nat.strongRecOn generalizing s m w with
  | _ c less =>
    have hle := run_checks_le b c m
    refine (hb c s m w h (test_eq h (by simp [ht])).1 hc).andThen fun h' hc' => ?_
    generalize (run b c m).machine = m' at h' ⊢
    generalize (WordMachine.run b s w).machine = w' at h' ⊢
    generalize (run b c m).checks = c' at hle hc' ⊢
    generalize (WordMachine.run b s w).checks = s' at hc' ⊢
    rcases c' with _ | c'
    · rw [run_loop_zero]; exact .of_canceled rfl
    rcases s' with _ | s'
    · simp at hc'
    have hc'' : c' ≤ s' := Nat.le_of_succ_le_succ hc'
    rcases ht' : m'.test with _ | _ | _
    · rw [run_loop_outside _ _ _ ht']
      exact outside_mirrored (s := s' + 1) h' fun hs => by
        simp only [WordMachine.afterRound, test_outside h' ht' hs]
    · obtain ⟨hin, he⟩ := test_eq h' (by simp [ht'])
      rw [run_loop_exit _ _ _ ht']
      simp only [WordMachine.afterRound, he, ht']
      exact hp _ _ m' w' h' hin (Nat.le_succ_of_le hc'')
    · obtain ⟨hin, he⟩ := test_eq h' (by simp [ht'])
      rw [run_loop_again _ _ _ ht']
      simp only [WordMachine.afterRound, he, ht']
      rw [WordMachine.run_loop_again _ _ _ (he.trans ht')]
      exact less c' (by omega) h' ht' hc''

theorem loop_mirrored (hb : MirrorsFromTape size b) (hp : MirrorsFromTape size p) {c s : Nat}
    (h : m.MirroredBy size w) (hc : c ≤ s) :
    (run (.loop b p) c m).MirroredBy size (WordMachine.run (.loop b p) s w) := by
  rcases c with _ | c
  · rw [run_loop_zero]; exact .of_canceled rfl
  rcases ht : m.test with _ | _ | _
  · rw [run_loop_outside _ _ _ ht]
    exact outside_mirrored h fun hs => WordMachine.run_loop_outside _ _ _ (test_outside h ht hs)
  · obtain ⟨hin, he⟩ := test_eq h (by simp [ht])
    rw [run_loop_exit _ _ _ ht, WordMachine.run_loop_exit _ _ _ (he.trans ht)]
    exact hp _ _ m w h hin (by omega)
  · obtain ⟨hin, he⟩ := test_eq h (by simp [ht])
    rw [run_loop_again _ _ _ ht, WordMachine.run_loop_again _ _ _ (he.trans ht)]
    exact rounds_mirrored hb hp h ht (by omega)

/-! ## Programs -/

/-- A pointer that stands at `pos` of a program, and was on the tape somewhere between
the bounds. -/
def OnCourse (lo hi : Int) (pos pointer : Int64) : Prop :=
  ∃ start, Inside lo hi start ∧ Inside 0 65535 (pointer - pos + start)

variable {lo hi : Int} {pos pointer : Int64}

/-- No position between the bounds is far from the tape. -/
theorem OnCourse.near (h : OnCourse lo hi pos pointer) (hw : hi - lo < 2 ^ 30) {x : Int64}
    (hx : Inside lo hi x) : Inside (-2 ^ 31) (2 ^ 31 - 1) (pointer - pos + x) := by
  obtain ⟨start, ⟨hs, hs'⟩, ht, ht'⟩ := h
  obtain ⟨hx, hx'⟩ := hx
  have e : pointer - pos + x = pointer - pos + start + (x - start) := by grind
  have hd : (x - start).toInt = x.toInt - start.toInt := by
    rw [Int64.toInt_sub, Int.bmod_eq_of_le (by omega) (by omega)]
  have hsum :=
    Program.toInt_add_eq (x := pointer - pos + start) (y := x - start) (by omega) (by omega)
  rw [e]
  exact ⟨by omega, by omega⟩

theorem OnCourse.of_tape (hp : Inside lo hi pos) (h : Inside 0 65535 pointer) :
    OnCourse lo hi pos pointer :=
  ⟨pos, hp, by rwa [Int64.sub_add_cancel]⟩

theorem OnCourse.move (h : OnCourse lo hi pos pointer) (d : Int64) :
    OnCourse lo hi (pos + d) (pointer + d) := by
  have e : pointer + d - (pos + d) = pointer - pos := by grind
  rwa [OnCourse, e]

theorem moved_mirrored (h : m.MirroredBy size w) (d : Int64)
    (hn : Inside (-2 ^ 31) (2 ^ 31 - 1) (m.pointer + d)) :
    (m.moved d).MirroredBy size (w.moved d) := by
  refine ⟨hn, ?_, h.console, h.tape, h.memory, h.tape_le, h.cells⟩
  have hp := h.pointer
  show (UInt32.ofInt (w.pointer.toNat + d.toInt)).toNat = ((m.pointer + d).toInt % 2 ^ 32).toNat
  rw [WordMachine.toNat_ofInt, Int64.toInt_add, Int.bmod_eq_emod, hp]
  split <;> omega

/-- A program that stays close to the tape does the same with a pointer of 32 bits. -/
theorem run_mirrored {known : Bool} {c s : Nat} (hw : hi - lo < 2 ^ 30)
    (hp : p.StaysWithin lo hi pos) (ha : p.Anchored known)
    (hk : known = true → Inside 0 65535 m.pointer) (ho : OnCourse lo hi pos m.pointer)
    (h : m.MirroredBy size w) (hc : c ≤ s) :
    (run p c m).MirroredBy size (WordMachine.run p s w) := by
  induction p generalizing pos known m w c s with
  | done =>
    rw [run_done, WordMachine.run_done]
    exact ⟨fun _ => ⟨rfl, h, hc⟩, fun f hf => by simp at hf⟩
  | move d p ih =>
    have ho' : OnCourse lo hi (pos + d) (m.pointer + d) := ho.move d
    have hn := ho'.near hw hp.2.inside
    rw [Int64.sub_add_cancel] at hn
    rw [run_move, WordMachine.run_move]
    exact ih hp.2 ha (by simp) ho' (moved_mirrored h d hn) hc
  | cell a op p ih =>
    obtain ⟨-, ⟨ht, hop⟩, hp⟩ := hp
    have hn := ho.near hw ht
    have e : m.pointer - pos + (pos + a) = m.target a := by rw [target]; grind
    rw [e] at hn
    rw [run_cell, WordMachine.run_cell]
    refine (step_mirrored h hn (ha.1.imp_left hk) hop hc).andThen fun h' hc' => ?_
    exact ih hp ha.2 (by rw [stepOutcome, pointer_step]; exact hk)
      (by rw [stepOutcome, pointer_step]; exact ho) h' hc'
  | loop b p ihb ih =>
    obtain ⟨hin, hb, hp⟩ := hp
    refine loop_mirrored (fun c s m w h ht hc => ?_) (fun c s m w h ht hc => ?_) h hc
    · exact ihb hb ha.1 (fun _ => ht) (.of_tape hb.inside ht) h hc
    · exact ih hp ha.2 (fun _ => ht) (.of_tape hin ht) h hc

end Machine

end TapeLang
