import Mathlib.Algebra.Group.Int.Defs
import Mathlib.Algebra.Group.Nat.Defs
import TapeLang.Proofs.Run
import TapeLang.Wasm.Exec

/-!
# The tape machine with a pointer of 32 bits

What a program means on a memory: the pointer is a word, which wraps, and the cell at an address
that is not negative is found without wrapping. There is no code here, only programs.

* `WordMachine.address`: where an operation acts.
* `WordMachine.step`: performs one operation. A byte is read before it is known whether there is a
  place for it, and a kind without meaning does nothing.
* `WordMachine.run`: runs a program. Every round of a loop but the first costs a step, so every
  run ends.
-/

namespace TapeLang

open Wasm (Trap Memory)

/-- A memory, a pointer into it, and a console. -/
structure WordMachine where
  memory : Memory
  pointer : UInt32 := 0
  console : Console

/-- How a run ends. What is left to spend is a number of steps. -/
abbrev WordOutcome := RunEnd WordMachine Trap

namespace WordMachine

/-- The pointer moves by `d`, modulo `2 ^ 32`. -/
def moved (m : WordMachine) (d : Int64) : WordMachine :=
  { m with pointer := UInt32.ofInt (m.pointer.toNat + d.toInt) }

/-- The address of the cell at `addr` from the pointer. The sum wraps only if `addr` is negative;
any other address is taken modulo `2 ^ 32` before it is added. -/
def address (m : WordMachine) (addr : Int64) : Nat :=
  if 0 ≤ addr.toInt then m.pointer.toNat + (addr.toInt % 2 ^ 32).toNat
  else ((m.pointer.toNat + addr.toInt) % 2 ^ 32).toNat

/-- Looks at the cell at the pointer. -/
def test (m : WordMachine) : Test :=
  match m.memory.load? m.pointer.toNat with
  | none => .outside
  | some b => if b = 0 then .zero else .nonzero

def store (m : WordMachine) (a : Nat) (b : UInt8) : WordMachine × Option Trap :=
  match m.memory.store? a b with
  | some memory => ({ m with memory }, none)
  | none => (m, some .outOfBounds)

/-- Performs `op` on the cell at `addr` from the pointer. -/
def step (m : WordMachine) (addr : Int64) (op : CellOp) : WordMachine × Option Trap :=
  match op with
  | .add v =>
    match m.memory.load? (m.address addr) with
    | some b => m.store (m.address addr) (b + v.toUInt8)
    | none => (m, some .outOfBounds)
  | .set v => m.store (m.address addr) v.toUInt8
  | .print _ =>
    match m.memory.load? (m.address addr) with
    | some b =>
      match m.console.write b with
      | .ok console => ({ m with console }, none)
      | .error e => (m, some (.console e))
    | none => (m, some .outOfBounds)
  | .read _ =>
    match m.console.read with
    | .ok (b, console) => { m with console }.store (m.address addr) b
    | .error e => (m, some (.console e))
  | .unknown _ _ => (m, none)

/-- What performing one operation leaves of a run with `steps` steps left. -/
def stepOutcome (m : WordMachine) (addr : Int64) (op : CellOp) (steps : Nat) : WordOutcome :=
  ⟨(m.step addr op).1, steps, (m.step addr op).2⟩

/-- Runs `p` with `steps` steps left. -/
def run (p : Program) (steps : Nat) (m : WordMachine) : WordOutcome :=
  match p with
  | .done => ⟨m, steps, none⟩
  | .move d p => run p steps (m.moved d)
  | .cell a op p =>
    match m.step a op with
    | (m, none) => run p steps m
    | (m, some t) => ⟨m, steps, some t⟩
  | .loop b p =>
    match m.test with
    | .outside => ⟨m, steps, some .outOfBounds⟩
    | .zero => run p steps m
    | .nonzero =>
      match run b steps m with
      | ⟨m, left, none⟩ =>
        -- A run never ends with more steps than it had, so `min` changes nothing.
        match m.test with
        | .outside => ⟨m, min left steps, some .outOfBounds⟩
        | .zero => run p (min left steps) m
        | .nonzero =>
          match _h : min left steps with
          | 0 => ⟨m, 0, some .exhausted⟩
          | left + 1 => run (.loop b p) left m
      | stopped => stopped
termination_by (steps, p)
decreasing_by
  all_goals simp only [Prod.lex_def, true_and, Program.move.sizeOf_spec, Program.cell.sizeOf_spec,
    Program.loop.sizeOf_spec]
  all_goals omega

/-- What a loop does after a round. -/
def afterRound (b p : Program) (left : Nat) (m : WordMachine) : WordOutcome :=
  match m.test with
  | .outside => ⟨m, left, some .outOfBounds⟩
  | .zero => run p left m
  | .nonzero =>
    match left with
    | 0 => ⟨m, 0, some .exhausted⟩
    | left + 1 => run (.loop b p) left m

/-! ## Words -/

theorem toNat_ofInt (x : Int) : (UInt32.ofInt x).toNat = (x % 2 ^ 32).toNat := by
  unfold UInt32.ofInt
  simp only [UInt32.toNat_ofNat']
  omega

/-- A signed number of 32 bits as a word. -/
theorem toNat_toUInt32 (v : Int32) : v.toUInt32.toNat = (v.toInt % 2 ^ 32).toNat := by
  have h : v.toUInt32.toNat = v.toBitVec.toNat := rfl
  have h' : v.toInt = v.toBitVec.toInt := rfl
  have := v.toBitVec.isLt
  rw [h, h', BitVec.toInt_eq_toNat_cond]
  split <;> omega

/-- A signed number of 64 bits cut to a word. -/
theorem toNat_toInt32 (v : Int64) : v.toInt32.toUInt32.toNat = (v.toInt % 2 ^ 32).toNat := by
  have h : v.toInt.bmod (2 ^ 32) % 2 ^ 32 = v.toInt % 2 ^ 32 := Int.bmod_emod
  rw [toNat_toUInt32, Int64.toInt_toInt32, h]

theorem toNat_toUInt64 {v : Int64} (h : 0 ≤ v.toInt) : v.toUInt64.toNat = v.toInt.toNat := by
  have e : v.toUInt64.toNat = v.toBitVec.toNat := rfl
  have e' : v.toInt = v.toBitVec.toInt := rfl
  have := v.toBitVec.isLt
  rw [e'] at h ⊢
  rw [e]
  rw [BitVec.toInt_eq_toNat_cond] at h ⊢
  split at h <;> omega

/-! ## Equations -/

@[simp]
theorem run_done (s : Nat) (m : WordMachine) : run .done s m = ⟨m, s, none⟩ := by
  rw [run]

@[simp]
theorem run_move (d : Int64) (p : Program) (s : Nat) (m : WordMachine) :
    run (.move d p) s m = run p s (m.moved d) := by
  rw [run]

theorem run_cell (a : Int64) (op : CellOp) (p : Program) (s : Nat) (m : WordMachine) :
    run (.cell a op p) s m = (m.stepOutcome a op s).andThen (run p) := by
  rw [run, stepOutcome]
  rcases h : m.step a op with ⟨m', _ | t⟩ <;> rfl

section Loop

variable {m : WordMachine} (b p : Program) (s : Nat)

theorem run_loop_outside (h : m.test = .outside) :
    run (.loop b p) s m = ⟨m, s, some .outOfBounds⟩ := by
  rw [run, h]

theorem run_loop_exit (h : m.test = .zero) : run (.loop b p) s m = run p s m := by
  rw [run, h]

/-- A loop whose cell is not zero, before it is known that its body does not gain steps. -/
private theorem run_loop_again_min (h : m.test = .nonzero) :
    run (.loop b p) s m = (run b s m).andThen fun left m => afterRound b p (min left s) m := by
  rw [run, h]
  rcases run b s m with ⟨m', left, _ | t⟩
  · simp only [RunEnd.andThen, afterRound]
    rcases m'.test with _ | _ | _
    · rfl
    · rfl
    · rcases min left s with _ | k <;> rfl
  · rfl

end Loop

/-- A run never ends with more steps than it had. -/
theorem run_steps_le (p : Program) (s : Nat) (m : WordMachine) : (run p s m).checks ≤ s := by
  induction p, s using Program.inductionWithin generalizing m with
  | done s => simp
  | move d p s ih => rw [run_move]; exact ih _
  | cell a op p s ih =>
    rw [run_cell]
    rcases h : (m.step a op).2 with _ | t
    · rw [RunEnd.andThen_of_none (by exact h)]; exact ih _
    · rw [RunEnd.andThen_of_some (by exact h)]; exact Nat.le_refl s
  | loop b p s again ihb ihp =>
    rcases ht : m.test with _ | _ | _
    · simp only [run_loop_outside _ _ _ ht, Nat.le_refl]
    · rw [run_loop_exit _ _ _ ht]; exact ihp s m
    · rw [run_loop_again_min _ _ _ ht]
      have hb := ihb s m
      rcases h : (run b s m).fault with _ | t
      · rw [RunEnd.andThen_of_none h, Nat.min_eq_left hb]
        unfold afterRound
        rcases (run b s m).machine.test with _ | _ | _
        · exact hb
        · exact Nat.le_trans (ihp _ _) hb
        · rcases hk : (run b s m).checks with _ | k
          · exact Nat.zero_le s
          · have := again k (by omega) (run b s m).machine
            simp only
            omega
      · rw [RunEnd.andThen_of_some h]; exact hb

/-- A loop whose cell is not zero is its body, and then what comes after a round. -/
theorem run_loop_again {m : WordMachine} (b p : Program) (s : Nat) (h : m.test = .nonzero) :
    run (.loop b p) s m = (run b s m).andThen (afterRound b p) := by
  rw [run_loop_again_min _ _ _ h]
  rcases ht : (run b s m).fault with _ | t
  · rw [RunEnd.andThen_of_none ht, RunEnd.andThen_of_none ht,
      Nat.min_eq_left (run_steps_le b s m)]
  · rw [RunEnd.andThen_of_some ht, RunEnd.andThen_of_some ht]

/-- A loop and a program after it run one after the other. -/
theorem run_loop_andThen (b p : Program) (s : Nat) (m : WordMachine) :
    run (.loop b p) s m = (run (.loop b .done) s m).andThen (run p) := by
  induction s using Nat.strongRecOn generalizing m with
  | _ s less =>
    rcases ht : m.test with _ | _ | _
    · rw [run_loop_outside _ _ _ ht, run_loop_outside _ _ _ ht]; rfl
    · rw [run_loop_exit _ _ _ ht, run_loop_exit _ _ _ ht, run_done]; rfl
    · rw [run_loop_again _ _ _ ht, run_loop_again _ _ _ ht]
      have hb := run_steps_le b s m
      rcases hn : (run b s m).fault with _ | t
      · rw [RunEnd.andThen_of_none hn, RunEnd.andThen_of_none hn]
        unfold afterRound
        rcases (run b s m).machine.test with _ | _ | _
        · rfl
        · simp only [run_done]; rfl
        · rcases hk : (run b s m).checks with _ | k
          · rfl
          · exact less k (by omega) _
      · rw [RunEnd.andThen_of_some hn, RunEnd.andThen_of_some hn,
          RunEnd.andThen_of_some hn]

/-! ## The size of the memory -/

theorem size_store (m : WordMachine) (a : Nat) (b : UInt8) :
    (m.store a b).1.memory.size = m.memory.size := by
  unfold store
  rcases h : m.memory.store? a b with _ | memory
  · rfl
  · exact Memory.size_store? h

theorem size_step (m : WordMachine) (a : Int64) (op : CellOp) :
    (m.step a op).1.memory.size = m.memory.size := by
  cases op with
  | add v =>
    unfold step
    rcases m.memory.load? (m.address a) with _ | b
    · rfl
    · exact size_store m _ _
  | set v => exact size_store m _ _
  | print u =>
    unfold step
    rcases m.memory.load? (m.address a) with _ | b
    · rfl
    · simp only
      rcases m.console.write b with e | console <;> rfl
  | read u =>
    unfold step
    rcases m.console.read with e | ⟨b, console⟩
    · rfl
    · exact size_store { m with console } _ _
  | unknown k v => rfl

/-- No run changes the size of the memory. -/
theorem size_run (p : Program) (s : Nat) (m : WordMachine) :
    (run p s m).machine.memory.size = m.memory.size := by
  induction p, s using Program.inductionWithin generalizing m with
  | done s => rw [run_done]
  | move d p s ih => rw [run_move]; exact ih (m.moved d)
  | cell a op p s ih =>
    rw [run_cell]
    rcases h : (m.step a op).2 with _ | t
    · rw [RunEnd.andThen_of_none (by exact h)]; exact (ih _).trans (size_step m a op)
    · rw [RunEnd.andThen_of_some (by exact h)]; exact size_step m a op
  | loop b p s again ihb ihp =>
    rcases ht : m.test with _ | _ | _
    · rw [run_loop_outside _ _ _ ht]
    · rw [run_loop_exit _ _ _ ht]; exact ihp s m
    · rw [run_loop_again _ _ _ ht]
      have hb := ihb s m
      have hle := run_steps_le b s m
      rcases h : (run b s m).fault with _ | t
      · rw [RunEnd.andThen_of_none h, ← hb]
        unfold afterRound
        rcases (run b s m).machine.test with _ | _ | _
        · rfl
        · exact ihp _ _
        · rcases hk : (run b s m).checks with _ | k
          · rfl
          · exact again k (by omega) _
      · rw [RunEnd.andThen_of_some h]; exact hb

end WordMachine

end TapeLang
