import TapeLang.Proofs.Instr
import TapeLang.Proofs.WordMachine
import TapeLang.Wasm.Exec

/-!
# The code of a program

The code of a program does what the program means on the machine with a pointer of 32 bits.

* `WordMachine.state`: the state that code finds: the pointer is the only local.
* `Follows`: some result goes on after an outcome, or is the trap of the outcome.
* `exec_cell`: the code of one operation. `exec_code`: the code of a whole program, whatever code
  comes after it.
-/

namespace TapeLang

open Wasm

/-- The state of code that works on a machine. -/
def WordMachine.state (m : WordMachine) (calls : Array CallEvent) (stack : List UInt32) :
    State where
  memory := m.memory
  console := m.console
  calls := calls
  locals := [m.pointer]
  stack := stack

/-- The functions that the code of a program finds: the builtin ones come first. -/
def linked (funcs : List Func) : Instance where
  builtins := [.print, .read]
  funcs := funcs

/-- The code goes on with `next` after the outcome, or ends in the trap of the outcome. -/
def Follows (funcs : List Func) (r : Result) (o : WordOutcome) (stack : List UInt32) (next : Code) :
    Prop :=
  match o.fault with
  | none => ∃ calls, r = exec (linked funcs) next o.checks (o.machine.state calls stack)
  | some t =>
    r.signal = .trap t ∧ r.state.memory = o.machine.memory ∧ r.state.console = o.machine.console

variable {funcs : List Func}

/-! ## Single instructions -/

section Ops

variable (m : WordMachine) (calls : Array CallEvent) (stack : List UInt32) (next : Code) (n : Nat)

/-- An instruction that calls no function of the module does its step. -/
theorem exec_op {o : Op} (h : (linked funcs).callee? o = none) (s : State) :
    exec (linked funcs) (.op o next) n s =
      match s.step [.print, .read] o with
      | (s, .next) => exec (linked funcs) next n s
      | (s, signal) => ⟨s, signal, n⟩ := by
  rw [exec]
  simp only [h]
  rfl

theorem exec_localGet :
    exec (linked funcs) (.op (.localGet pointerLocal) next) n (m.state calls stack) =
      exec (linked funcs) next n (m.state calls (m.pointer :: stack)) :=
  exec_op _ _ rfl _

theorem exec_localSet (v : UInt32) :
    exec (linked funcs) (.op (.localSet pointerLocal) next) n (m.state calls (v :: stack)) =
      exec (linked funcs) next n ({ m with pointer := v }.state calls stack) :=
  exec_op _ _ rfl _

theorem exec_const (v : Int32) :
    exec (linked funcs) (.op (.const v) next) n (m.state calls stack) =
      exec (linked funcs) next n (m.state calls (v.toUInt32 :: stack)) :=
  exec_op _ _ rfl _

theorem exec_add (a b : UInt32) :
    exec (linked funcs) (.op .add next) n (m.state calls (b :: a :: stack)) =
      exec (linked funcs) next n (m.state calls ((a + b) :: stack)) :=
  exec_op _ _ rfl _

theorem exec_eqz (a : UInt32) :
    exec (linked funcs) (.op .eqz next) n (m.state calls (a :: stack)) =
      exec (linked funcs) next n (m.state calls ((if a = 0 then 1 else 0) :: stack)) :=
  exec_op _ _ rfl _

theorem exec_brIf (a : UInt32) :
    exec (linked funcs) (.op (.brIf 0) next) n (m.state calls (a :: stack)) =
      if a = 0 then exec (linked funcs) next n (m.state calls stack)
      else ⟨m.state calls stack, .branch 0, n⟩ := by
  rw [exec_op _ _ rfl]
  by_cases h : a = 0 <;> simp [State.step, WordMachine.state, h]

theorem exec_load (offset a : UInt32) :
    exec (linked funcs) (.op (.load8u offset) next) n (m.state calls (a :: stack)) =
      match m.memory.load? (a.toNat + offset.toNat) with
      | some b => exec (linked funcs) next n (m.state calls (b.toUInt32 :: stack))
      | none => ⟨m.state calls (a :: stack), .trap .outOfBounds, n⟩ := by
  rw [exec_op _ _ rfl]
  simp only [State.step, State.load, WordMachine.state]
  rcases m.memory.load? (a.toNat + offset.toNat) with _ | b <;> rfl

theorem exec_store (offset a v : UInt32) :
    exec (linked funcs) (.op (.store8 offset) next) n (m.state calls (v :: a :: stack)) =
      match m.memory.store? (a.toNat + offset.toNat) v.toUInt8 with
      | some memory => exec (linked funcs) next n ({ m with memory }.state calls stack)
      | none => ⟨m.state calls (v :: a :: stack), .trap .outOfBounds, n⟩ := by
  rw [exec_op _ _ rfl]
  simp only [State.step, State.store, WordMachine.state]
  rcases m.memory.store? (a.toNat + offset.toNat) v.toUInt8 with _ | memory <;> rfl

theorem exec_print (v : UInt32) :
    exec (linked funcs) (.op (.call printIndex) next) n (m.state calls (v :: stack)) =
      match m.console.write v.toUInt8 with
      | .ok console =>
        exec (linked funcs) next n
          ({ m with console }.state ((calls.push (.enter .print [v])).push (.leave [])) stack)
      | .error e => ⟨m.state (calls.push (.enter .print [v])) stack, .trap (.console e), n⟩ := by
  rw [exec_op _ _ rfl]
  simp only [State.step, printIndex, WordMachine.state]
  show (match (State.callBuiltin _ Builtin.print) with | (s, .next) => _ | (s, signal) => _) = _
  simp only [State.callBuiltin]
  rcases m.console.write v.toUInt8 with e | console <;> rfl

theorem exec_read :
    exec (linked funcs) (.op (.call readIndex) next) n (m.state calls stack) =
      match m.console.read with
      | .ok (b, console) =>
        exec (linked funcs) next n
          ({ m with console }.state ((calls.push (.enter .read [])).push (.leave [b.toUInt32]))
            (b.toUInt32 :: stack))
      | .error e => ⟨m.state (calls.push (.enter .read [])) stack, .trap (.console e), n⟩ := by
  rw [exec_op _ _ rfl]
  simp only [State.step, readIndex, WordMachine.state]
  show (match (State.callBuiltin _ Builtin.read) with | (s, .next) => _ | (s, signal) => _) = _
  simp only [State.callBuiltin]
  rcases m.console.read with e | ⟨b, console⟩ <;> rfl

end Ops

/-! ## Operations -/

namespace WordMachine

/-- What the code of an operation adds an offset to. -/
def base (m : WordMachine) (addr : Int64) : UInt32 :=
  if 0 ≤ addr then m.pointer else m.pointer + addr.toInt32.toUInt32

/-- The code of an operation acts where the operation does. -/
theorem base_add_offset (m : WordMachine) (addr : Int64) :
    (m.base addr).toNat + (addressOffset addr).toNat = m.address addr := by
  have hp := m.pointer.toNat_lt
  unfold base addressOffset address
  by_cases h : 0 ≤ addr
  · have h' : 0 ≤ addr.toInt := Int64.le_iff_toInt_le.mp h
    rw [if_pos h, if_pos h, if_pos h', UInt64.toNat_toUInt32, toNat_toUInt64 h']
    omega
  · have h' : ¬ 0 ≤ addr.toInt := fun hn => h (Int64.le_iff_toInt_le.mpr hn)
    rw [if_neg h, if_neg h, if_neg h', UInt32.toNat_add, toNat_toInt32]
    show _ % 2 ^ 32 + 0 = _
    omega

theorem moved_eq (m : WordMachine) (d : Int64) :
    m.moved d = { m with pointer := m.pointer + d.toInt32.toUInt32 } := by
  have h : UInt32.ofInt (m.pointer.toNat + d.toInt) = m.pointer + d.toInt32.toUInt32 := by
    apply UInt32.toNat.inj
    rw [toNat_ofInt, UInt32.toNat_add, toNat_toInt32]
    omega
  rw [moved, h]

end WordMachine

theorem exec_address (m : WordMachine) (addr : Int64) (calls : Array CallEvent)
    (stack : List UInt32) (ops : List Op) (next : Code) (n : Nat) :
    exec (linked funcs) (.ofOps (addressOps addr ++ ops) next) n (m.state calls stack) =
      exec (linked funcs) (.ofOps ops next) n (m.state calls (m.base addr :: stack)) := by
  unfold addressOps WordMachine.base
  split
  · exact exec_localGet m calls stack (.ofOps ops next) n
  · show exec
      _ (.op (.localGet pointerLocal) (.op (.const addr.toInt32) (.op .add (.ofOps ops next))))
      n _ = _
    rw [exec_localGet, exec_const, exec_add]

/-- The low byte of a byte with its sign extended is the byte. -/
theorem toUInt8_toInt32 (v : Int8) : v.toInt32.toUInt32.toUInt8 = v.toUInt8 := by
  apply UInt8.eq_of_toBitVec_eq
  show (v.toBitVec.signExtend 32).setWidth 8 = v.toBitVec
  ext i hi
  simp [BitVec.getLsbD_signExtend, hi]
  omega

/-- The code of one operation. -/
theorem exec_cell (m : WordMachine) (addr : Int64) (op : CellOp) (calls : Array CallEvent)
    (stack : List UInt32) (next : Code) (n : Nat) :
    Follows funcs (exec (linked funcs) (.ofOps (op.ops addr) next) n (m.state calls stack))
      (m.stepOutcome addr op n) stack next := by
  have ha := m.base_add_offset addr
  unfold Follows WordMachine.stepOutcome
  cases op with
  | add v =>
    rw [CellOp.ops, List.append_assoc, exec_address, exec_address]
    simp only [Code.ofOps, List.foldr, exec_load, ha, WordMachine.step]
    rcases m.memory.load? (m.address addr) with _ | b
    · exact ⟨rfl, rfl, rfl⟩
    · have hb : (b.toUInt32 + v.toInt32.toUInt32).toUInt8 = b + v.toUInt8 := by
        rw [UInt32.toUInt8_add, toUInt8_toInt32, UInt8.toUInt8_toUInt32]
      simp only [exec_const, exec_add, exec_store, ha, hb, WordMachine.store]
      rcases m.memory.store? (m.address addr) (b + v.toUInt8) with _ | memory
      · exact ⟨rfl, rfl, rfl⟩
      · exact ⟨calls, rfl⟩
  | set v =>
    rw [CellOp.ops, exec_address]
    simp only [Code.ofOps, List.foldr, exec_const, exec_store, ha, toUInt8_toInt32,
      WordMachine.step, WordMachine.store]
    rcases m.memory.store? (m.address addr) v.toUInt8 with _ | memory
    · exact ⟨rfl, rfl, rfl⟩
    · exact ⟨calls, rfl⟩
  | print u =>
    rw [CellOp.ops, exec_address]
    simp only [Code.ofOps, List.foldr, exec_load, ha, WordMachine.step]
    rcases m.memory.load? (m.address addr) with _ | b
    · exact ⟨rfl, rfl, rfl⟩
    · simp only [exec_print, UInt8.toUInt8_toUInt32]
      rcases m.console.write b with e | console
      · exact ⟨rfl, rfl, rfl⟩
      · exact ⟨_, rfl⟩
  | read u =>
    rw [CellOp.ops, exec_address]
    simp only [Code.ofOps, List.foldr, exec_read, WordMachine.step]
    rcases m.console.read with e | ⟨b, console⟩
    · exact ⟨rfl, rfl, rfl⟩
    · simp only [exec_store, ha, UInt8.toUInt8_toUInt32, WordMachine.store]
      rcases m.memory.store? (m.address addr) b with _ | memory
      · exact ⟨rfl, rfl, rfl⟩
      · exact ⟨_, rfl⟩
  | unknown k v => exact ⟨calls, rfl⟩

/-! ## Blocks -/

section Blocks

variable {inst : Instance} {body : Code} {n left : Nat} {s s' : State}

theorem exec_block_end {signal : Signal} (hs : signal = .next ∨ signal = .branch 0)
    (h : exec inst body n { s with stack := [] } = ⟨s', signal, left⟩) (next : Code) :
    exec inst (.block body next) n s =
      exec inst next (min left n) { s' with stack := s.stack } := by
  rw [exec]
  rcases hs with rfl | rfl <;> simp only [h]

theorem exec_block_trap {r : Result} {t : Trap} (h : exec inst body n { s with stack := [] } = r)
    (ht : r.signal = .trap t) (next : Code) : exec inst (.block body next) n s = r := by
  obtain ⟨s', signal, left⟩ := r
  subst ht
  rw [exec]
  simp only [h]

theorem exec_loop_end (h : exec inst body n { s with stack := [] } = ⟨s', .next, left⟩)
    (next : Code) :
    exec inst (.loop body next) n s = exec inst next (min left n) { s' with stack := s.stack } := by
  rw [exec]
  simp only [h]

theorem exec_loop_trap {r : Result} {t : Trap} (h : exec inst body n { s with stack := [] } = r)
    (ht : r.signal = .trap t) (next : Code) : exec inst (.loop body next) n s = r := by
  obtain ⟨s', signal, left⟩ := r
  subst ht
  rw [exec]
  simp only [h]

theorem exec_loop_again (hl : left + 1 ≤ n)
    (h : exec inst body n { s with stack := [] } = ⟨s', .branch 0, left + 1⟩) (next : Code) :
    exec inst (.loop body next) n s =
      exec inst (.loop body next) left { s' with stack := s.stack } := by
  rw [exec]
  simp only [h]
  split
  · omega
  · rename_i k hk
    rw [show k = left by omega]

theorem exec_loop_exhausted (h : exec inst body n { s with stack := [] } = ⟨s', .branch 0, 0⟩)
    (next : Code) : exec inst (.loop body next) n s = ⟨s', .trap .exhausted, 0⟩ := by
  rw [exec]
  simp only [h]
  split
  · rfl
  · omega

end Blocks

/-! ## Programs -/

theorem Follows.andThen {r : Result} {o : WordOutcome} {stack : List UInt32} {k k' : Code}
    {next : Nat → WordMachine → WordOutcome} (h : Follows funcs r o stack k)
    (hn : o.fault = none → ∀ calls,
      Follows funcs (exec (linked funcs) k o.checks (o.machine.state calls stack))
        (next o.checks o.machine) stack k') :
    Follows funcs r (o.andThen next) stack k' := by
  rcases ht : o.fault with _ | t
  · rw [RunEnd.andThen_of_none ht]
    simp only [Follows, ht] at h
    obtain ⟨calls, rfl⟩ := h
    exact hn ht calls
  · rw [RunEnd.andThen_of_some ht]
    simp only [Follows, ht] at h ⊢
    exact h

section Test

variable {m : WordMachine} (calls : Array CallEvent) (stack : List UInt32) (next : Code) (n : Nat)

/-- The code that looks at the cell of a loop. -/
theorem exec_test :
    exec (linked funcs) (.ofOps [.localGet pointerLocal, .load8u 0] next) n (m.state calls stack) =
      match m.memory.load? m.pointer.toNat with
      | some b => exec (linked funcs) next n (m.state calls (b.toUInt32 :: stack))
      | none => ⟨m.state calls (m.pointer :: stack), .trap .outOfBounds, n⟩ := by
  simp only [Code.ofOps, List.foldr, exec_localGet, exec_load]
  rfl

theorem exec_test_outside (h : m.test = .outside) :
    exec (linked funcs) (.ofOps [.localGet pointerLocal, .load8u 0] next) n (m.state calls stack) =
      ⟨m.state calls (m.pointer :: stack), .trap .outOfBounds, n⟩ := by
  rw [exec_test]
  unfold WordMachine.test at h
  rcases hl : m.memory.load? m.pointer.toNat with _ | b
  · rfl
  · rw [hl] at h
    simp only at h
    split at h <;> simp at h

theorem exec_test_zero (h : m.test = .zero) :
    exec (linked funcs) (.ofOps [.localGet pointerLocal, .load8u 0] next) n (m.state calls stack) =
      exec (linked funcs) next n (m.state calls (0 :: stack)) := by
  rw [exec_test]
  unfold WordMachine.test at h
  rcases hl : m.memory.load? m.pointer.toNat with _ | b
  · simp [hl] at h
  · rw [hl] at h
    simp only at h
    split at h
    · rename_i hb; rw [hb]; rfl
    · simp at h

theorem exec_test_nonzero (h : m.test = .nonzero) :
    ∃ v, v ≠ 0 ∧
      exec (linked funcs) (.ofOps [.localGet pointerLocal, .load8u 0] next) n
        (m.state calls stack) = exec (linked funcs) next n (m.state calls (v :: stack)) := by
  rw [exec_test]
  unfold WordMachine.test at h
  rcases hl : m.memory.load? m.pointer.toNat with _ | b
  · simp [hl] at h
  · rw [hl] at h
    simp only at h
    split at h
    · simp at h
    · rename_i hb
      refine ⟨b.toUInt32, fun h0 => hb ?_, rfl⟩
      exact UInt8.toUInt32_inj.mp h0

/-- The code at the end of a round: it goes back unless the cell is zero. -/
theorem exec_retest_zero (h : m.test = .zero) :
    exec (linked funcs) (.ofOps [.localGet pointerLocal, .load8u 0, .brIf 0] .done) n
      (m.state calls stack) = ⟨m.state calls stack, .next, n⟩ := by
  refine (exec_test_zero calls stack (.op (.brIf 0) .done) n h).trans ?_
  rw [exec_brIf, if_pos rfl, exec]

theorem exec_retest_nonzero (h : m.test = .nonzero) :
    exec (linked funcs) (.ofOps [.localGet pointerLocal, .load8u 0, .brIf 0] .done) n
      (m.state calls stack) = ⟨m.state calls stack, .branch 0, n⟩ := by
  obtain ⟨v, hv, he⟩ := exec_test_nonzero calls stack (.op (.brIf 0) .done) n h
  refine he.trans ?_
  rw [exec_brIf, if_neg hv]

/-- The code in front of the first round: it leaves the block of the loop if the cell is zero. -/
theorem exec_entry_zero (h : m.test = .zero) :
    exec (linked funcs) (.ofOps [.localGet pointerLocal, .load8u 0, .eqz, .brIf 0] next) n
      (m.state calls stack) = ⟨m.state calls stack, .branch 0, n⟩ := by
  refine (exec_test_zero calls stack (.op .eqz (.op (.brIf 0) next)) n h).trans ?_
  rw [exec_eqz, if_pos rfl, exec_brIf, if_neg (by decide)]

theorem exec_entry_nonzero (h : m.test = .nonzero) :
    exec (linked funcs) (.ofOps [.localGet pointerLocal, .load8u 0, .eqz, .brIf 0] next) n
      (m.state calls stack) = exec (linked funcs) next n (m.state calls stack) := by
  obtain ⟨v, hv, he⟩ := exec_test_nonzero calls stack (.op .eqz (.op (.brIf 0) next)) n h
  refine he.trans ?_
  rw [exec_eqz, if_neg hv, exec_brIf, if_pos rfl]

end Test

/-- The code of a loop from its first round on, if the code of its body is right. -/
theorem exec_rounds {b : Program}
    (hb : ∀ (n : Nat) (m : WordMachine) (calls : Array CallEvent) (stack : List UInt32) (k : Code),
      Follows funcs (exec (linked funcs) (b.code.append k) n (m.state calls stack))
        (WordMachine.run b n m) stack k)
    (n : Nat) (m : WordMachine) (ht : m.test = .nonzero) (calls : Array CallEvent) :
    Follows funcs
      (exec (linked funcs)
        (.loop (b.code.append (.ofOps [.localGet pointerLocal, .load8u 0, .brIf 0] .done)) .done) n
        (m.state calls []))
      (WordMachine.run (.loop b .done) n m) [] .done := by
  induction n using Nat.strongRecOn generalizing m calls with
  | _ n ih =>
    have hle := WordMachine.run_steps_le b n m
    have h := hb n m calls [] (.ofOps [.localGet pointerLocal, .load8u 0, .brIf 0] .done)
    rw [WordMachine.run_loop_again _ _ _ ht]
    rcases htrap : (WordMachine.run b n m).fault with _ | t
    · rw [RunEnd.andThen_of_none htrap]
      simp only [Follows, htrap] at h
      obtain ⟨calls', hr⟩ := h
      generalize (WordMachine.run b n m).machine = m' at hr ⊢
      generalize (WordMachine.run b n m).checks = left at hr hle ⊢
      unfold WordMachine.afterRound
      rcases ht' : m'.test with _ | _ | _
      · have he := hr.trans (exec_test_outside calls' [] (.op (.brIf 0) .done) left ht')
        rw [exec_loop_trap he rfl]
        exact ⟨rfl, rfl, rfl⟩
      · have he := hr.trans (exec_retest_zero calls' [] left ht')
        rw [exec_loop_end he, Nat.min_eq_left hle]
        simp only [WordMachine.run_done]
        exact ⟨calls', rfl⟩
      · have he := hr.trans (exec_retest_nonzero calls' [] left ht')
        rcases left with _ | left
        · rw [exec_loop_exhausted he]
          exact ⟨rfl, rfl, rfl⟩
        · rw [exec_loop_again hle he]
          exact ih left (by omega) m' ht' calls'
    · rw [RunEnd.andThen_of_some htrap]
      simp only [Follows, htrap] at h ⊢
      rw [exec_loop_trap rfl h.1]
      exact h

theorem exec_code (p : Program) (n : Nat) (m : WordMachine) (calls : Array CallEvent)
    (stack : List UInt32) (k : Code) :
    Follows funcs (exec (linked funcs) (p.code.append k) n (m.state calls stack))
      (WordMachine.run p n m) stack k := by
  induction p generalizing n m calls stack k with
  | done => rw [WordMachine.run_done]; exact ⟨calls, rfl⟩
  | move d p ih =>
    rw [WordMachine.run_move, WordMachine.moved_eq, Program.code, Code.ofOps_append]
    simp only [Code.ofOps, List.foldr, exec_localGet, exec_const, exec_add, exec_localSet]
    exact ih n _ calls stack k
  | cell a op p ih =>
    rw [WordMachine.run_cell, Program.code, Code.ofOps_append]
    exact (exec_cell m a op calls stack _ n).andThen fun _ calls => ih _ _ calls stack k
  | loop b p ihb ihp =>
    show Follows funcs (exec (linked funcs) (.block (.ofOps
      [.localGet pointerLocal, .load8u 0, .eqz, .brIf 0] (.loop (b.code.append _) .done))
      (p.code.append k)) n _) _ stack k
    rcases ht : m.test with _ | _ | _
    · rw [exec_block_trap (exec_test_outside calls [] (.op .eqz (.op (.brIf 0) _)) n ht) rfl,
        WordMachine.run_loop_outside _ _ _ ht]
      exact ⟨rfl, rfl, rfl⟩
    · rw [exec_block_end (.inr rfl) (exec_entry_zero calls [] _ n ht), Nat.min_self,
        WordMachine.run_loop_exit _ _ _ ht]
      exact ihp n m calls stack k
    · have hr := exec_rounds ihb n m ht calls
      have hle := WordMachine.run_steps_le (.loop b .done) n m
      rw [WordMachine.run_loop_andThen]
      rcases htrap : (WordMachine.run (.loop b .done) n m).fault with _ | t
      · rw [RunEnd.andThen_of_none htrap]
        simp only [Follows, htrap] at hr
        obtain ⟨calls', hr⟩ := hr
        rw [exec] at hr
        rw [exec_block_end (.inl rfl) ((exec_entry_nonzero calls [] _ n ht).trans hr),
          Nat.min_eq_left hle]
        exact ihp _ _ calls' stack k
      · rw [RunEnd.andThen_of_some htrap]
        simp only [Follows, htrap] at hr ⊢
        rw [exec_block_trap (exec_entry_nonzero calls [] _ n ht) hr.1]
        exact hr

end TapeLang
