import TapeLang.Console
import TapeLang.Wasm.Instr
import TapeLang.Wasm.Memory
import TapeLang.Wasm.Section

/-!
# Running code

Code runs on a stack of 32-bit words, some locals, a memory and a console. Words wrap, addresses are
unsigned, and an offset is added to an address without wrapping. A block starts with an empty stack of
its own and leaves the one around it as it was.

* `exec`: runs code. A run may make a given number of steps, one for every branch back to the start of
  a loop and every call of a function of the module, so every run ends.
* `Instance.invoke`: calls a function of the module.
-/

namespace TapeLang.Wasm

/-- A function that is not part of the module. -/
inductive Builtin where
  /-- Prints the low byte of its argument. -/
  | print
  /-- Gives the next byte of the input. -/
  | read
  deriving DecidableEq, Repr

namespace Builtin

def name : Builtin → String
  | print => "print"
  | read => "read"

def ofName? (name : String) : Option Builtin :=
  if name = "print" then some print else if name = "read" then some read else none

def type : Builtin → FuncType
  | print => ⟨[ValueType.i32], []⟩
  | read => ⟨[], [ValueType.i32]⟩

end Builtin

/-- What can be seen of a call of a builtin function. -/
inductive CallEvent where
  | enter (f : Builtin) (args : List UInt32)
  | leave (results : List UInt32)
  deriving DecidableEq, Repr

/-- A function of a module. -/
structure Func where
  type : FuncType
  locals : List ValueType
  code : Code
  deriving DecidableEq, Repr

/-- The functions of a module; the builtin ones have the first indices. -/
structure Instance where
  builtins : List Builtin
  funcs : List Func
  deriving DecidableEq, Repr

/-- Why code stops in the middle. -/
inductive Trap where
  | outOfBounds
  | console (error : ConsoleError)
  /-- No step is left. -/
  | exhausted
  /-- The code is not well typed. -/
  | stuck
  deriving DecidableEq, Repr

/-- What code works on. -/
structure State where
  memory : Memory
  console : Console
  /-- The calls of builtin functions so far. -/
  calls : Array CallEvent := #[]
  locals : List UInt32 := []
  stack : List UInt32 := []

/-- How to go on after some code. -/
inductive Signal where
  | next
  /-- Out of that many blocks, and then on at the next one. -/
  | branch (depth : Nat)
  | ret
  | trap (t : Trap)
  deriving DecidableEq, Repr

/-- What running code gives: the state, how to go on, and the steps left. -/
structure Result where
  state : State
  signal : Signal
  steps : Nat

namespace State

def push (s : State) (v : UInt32) : State × Signal :=
  ({ s with stack := v :: s.stack }, .next)

/-- Calls a builtin function. -/
def callBuiltin (s : State) : Builtin → State × Signal
  | .print =>
    match s.stack with
    | v :: stack =>
      let s := { s with stack, calls := s.calls.push (.enter .print [v]) }
      match s.console.write v.toUInt8 with
      | .ok console => ({ s with console, calls := s.calls.push (.leave []) }, .next)
      | .error e => (s, .trap (.console e))
    | [] => (s, .trap .stuck)
  | .read =>
    let s := { s with calls := s.calls.push (.enter .read []) }
    match s.console.read with
    | .ok (b, console) =>
      { s with console, calls := s.calls.push (.leave [b.toUInt32]) }.push b.toUInt32
    | .error e => (s, .trap (.console e))

/-- Replaces the address on top of the stack by what is made of the byte there. -/
def load (s : State) (offset : UInt32) (extend : UInt8 → UInt32) : State × Signal :=
  match s.stack with
  | address :: stack =>
    match s.memory.load? (address.toNat + offset.toNat) with
    | some b => { s with stack }.push (extend b)
    | none => (s, .trap .outOfBounds)
  | [] => (s, .trap .stuck)

/-- Stores the low byte of the value on top of the stack at the address under it. -/
def store (s : State) (offset : UInt32) : State × Signal :=
  match s.stack with
  | v :: address :: stack =>
    match s.memory.store? (address.toNat + offset.toNat) v.toUInt8 with
    | some memory => ({ s with memory, stack }, .next)
    | none => (s, .trap .outOfBounds)
  | _ => (s, .trap .stuck)

/-- Performs an instruction other than a call of a function of the module. -/
def step (s : State) (builtins : List Builtin) : Op → State × Signal
  | .localGet i =>
    match s.locals[i.toNat]? with
    | some v => s.push v
    | none => (s, .trap .stuck)
  | .localSet i =>
    match s.stack with
    | v :: stack =>
      if i.toNat < s.locals.length then
        ({ s with stack, locals := s.locals.set i.toNat v }, .next)
      else (s, .trap .stuck)
    | [] => (s, .trap .stuck)
  | .const v => s.push v.toUInt32
  | .load8s offset => s.load offset fun b => b.toInt8.toInt32.toUInt32
  | .load8u offset => s.load offset UInt8.toUInt32
  | .store8 offset => s.store offset
  | .add =>
    match s.stack with
    | b :: a :: stack => { s with stack }.push (a + b)
    | _ => (s, .trap .stuck)
  | .eqz =>
    match s.stack with
    | a :: stack => { s with stack }.push (if a = 0 then 1 else 0)
    | [] => (s, .trap .stuck)
  | .call i =>
    match builtins[i.toNat]? with
    | some f => s.callBuiltin f
    | none => (s, .trap .stuck)
  | .brIf depth =>
    match s.stack with
    | a :: stack => ({ s with stack }, if a = 0 then .next else .branch depth.toNat)
    | [] => (s, .trap .stuck)
  | .drop =>
    match s.stack with
    | _ :: stack => ({ s with stack }, .next)
    | [] => (s, .trap .stuck)
  | .ret => (s, .ret)

/-- The state at the start of a function: its arguments, which are the top of the stack, and its other
locals, which are zero. -/
def enter (s : State) (f : Func) : State :=
  { s with
    locals := (s.stack.take f.type.params.length).reverse ++ f.locals.map fun _ => 0
    stack := [] }

/-- The state after a function that was called in state `s`: its results replace its arguments. -/
def leave (s : State) (f : Func) (inner : State) : State :=
  { inner with
    locals := s.locals
    stack := inner.stack.take f.type.results.length ++ s.stack.drop f.type.params.length }

end State

/-- The function of the module that an instruction calls. -/
def Instance.callee? (m : Instance) : Op → Option Func
  | .call i => if i.toNat < m.builtins.length then none else m.funcs[i.toNat - m.builtins.length]?
  | _ => none

/-- Runs `code` with `steps` steps left. -/
def exec (m : Instance) (code : Code) (steps : Nat) (s : State) : Result :=
  match code with
  | .done => ⟨s, .next, steps⟩
  | .op o next =>
    match m.callee? o with
    | some f =>
      match steps with
      | 0 => ⟨s, .trap .exhausted, 0⟩
      | steps + 1 =>
        match exec m f.code steps (s.enter f) with
        | ⟨inner, .trap t, left⟩ => ⟨inner, .trap t, left⟩
        | ⟨inner, _, left⟩ => exec m next (min left steps) (s.leave f inner)
    | none =>
      match s.step m.builtins o with
      | (s, .next) => exec m next steps s
      | (s, signal) => ⟨s, signal, steps⟩
  | .block body next =>
    let stack := s.stack
    match exec m body steps { s with stack := [] } with
    | ⟨s, .next, left⟩ => exec m next (min left steps) { s with stack }
    | ⟨s, .branch 0, left⟩ => exec m next (min left steps) { s with stack }
    | ⟨s, .branch (depth + 1), left⟩ => ⟨s, .branch depth, left⟩
    | stopped => stopped
  | .loop body next =>
    let stack := s.stack
    match exec m body steps { s with stack := [] } with
    | ⟨s, .next, left⟩ => exec m next (min left steps) { s with stack }
    | ⟨s, .branch 0, left⟩ =>
      match _h : min left steps with
      | 0 => ⟨s, .trap .exhausted, 0⟩
      | left + 1 => exec m (.loop body next) left { s with stack }
    | ⟨s, .branch (depth + 1), left⟩ => ⟨s, .branch depth, left⟩
    | stopped => stopped
termination_by (steps, code)
decreasing_by
  all_goals simp only [Prod.lex_def, true_and, Code.op.sizeOf_spec, Code.block.sizeOf_spec,
    Code.loop.sizeOf_spec]
  all_goals omega

/-- Calls a function without arguments, and gives its results, first one first. -/
def Instance.invoke (m : Instance) (f : Func) (steps : Nat) (s : State) :
    State × Except Trap (List UInt32) :=
  match exec m f.code steps (s.enter f) with
  | ⟨s, .trap t, _⟩ => (s, .error t)
  | ⟨s, _, _⟩ => (s, .ok (s.stack.take f.type.results.length).reverse)

end TapeLang.Wasm
