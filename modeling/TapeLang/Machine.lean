import TapeLang.Console
import TapeLang.Program.Text

/-!
# The tape machine

A machine has a tape of byte cells, a pointer, and a console. The pointer may wander outside the tape;
only looking at a cell outside it is an error.

* `Machine.run`: runs a program. A run may make a given number of checks, one before every test of a
  loop condition, and is canceled at the check after the last. So every run ends, and `RunEnd.checks`
  says how many checks are left.
* `Machine.step`: runs one operation on one cell, by `Machine.perform` if the cell is on the tape.
-/

namespace TapeLang

/-- Why a run stops before the end of the program. -/
inductive Fault where
  | pointerOutOfRange (cell : Int64)
  | invalidOp (op : CellOp)
  | console (error : ConsoleError)
  | canceled
  deriving DecidableEq, Repr

def Fault.message : Fault → String
  | pointerOutOfRange a => "pointer out of range: cell " ++ toString a.toInt
  | invalidOp op => "invalid memory op: " ++ op.text
  | console e => e.message
  | canceled => "context canceled"

/-- The number of cells of a fresh tape. -/
def tapeSize : Nat := 65536

/-- A tape, a pointer into it, and a console. -/
structure Machine where
  tape : Array UInt8 := Array.replicate tapeSize 0
  pointer : Int64 := 0
  console : Console := {}
  deriving DecidableEq, Repr

/-- How a run ends: the machine at its end, the checks left, and what stopped it, if anything did. -/
structure RunEnd (Machine Fault : Type) where
  machine : Machine
  checks : Nat
  fault : Option Fault := none
  deriving DecidableEq, Repr

/-- How a run of the tape machine ends. -/
abbrev Outcome := RunEnd Machine Fault

namespace Machine

/-- The cell number at `addr` from the pointer. -/
def target (m : Machine) (addr : Int64) : Int64 :=
  m.pointer + addr

/-- The position on the tape at `addr` from the pointer, `none` outside the tape. -/
def index? (m : Machine) (addr : Int64) : Option Nat :=
  let a := m.target addr
  if 0 ≤ a ∧ a.toNatClampNeg < m.tape.size then some a.toNatClampNeg else none

/-- The byte in the cell at a position. -/
def cellAt (m : Machine) (i : Nat) : UInt8 :=
  m.tape.getD i 0

def setCell (m : Machine) (i : Nat) (b : UInt8) : Machine :=
  { m with tape := m.tape.setIfInBounds i b }

/-- Writes bytes over the cells from position `i` on. -/
def setCells (m : Machine) (i : Nat) : List UInt8 → Machine
  | [] => m
  | b :: bytes => (m.setCell i b).setCells (i + 1) bytes

/-- Performs `op` on the cell at a position of the tape. A fault leaves the machine as it was. -/
def perform (m : Machine) (i : Nat) (op : CellOp) : Machine × Option Fault :=
  match op with
  | .add v => (m.setCell i (m.cellAt i + v.toUInt8), none)
  | .set v => (m.setCell i v.toUInt8, none)
  | .print _ =>
    match m.console.write (m.cellAt i) with
    | .ok c => ({ m with console := c }, none)
    | .error e => (m, some (.console e))
  | .read _ =>
    match m.console.read with
    | .ok (b, c) => ({ m with console := c }.setCell i b, none)
    | .error e => (m, some (.console e))
  | .unknown _ _ => (m, some (.invalidOp op))

/-- Performs `op` on the cell at `addr` from the pointer. -/
def step (m : Machine) (addr : Int64) (op : CellOp) : Machine × Option Fault :=
  match m.index? addr with
  | none => let a := m.target addr; (m, some (.pointerOutOfRange a))
  | some i => m.perform i op

/-- Runs `p` with `checks` checks left. -/
def run (p : Program) (checks : Nat) (m : Machine) : Outcome :=
  match p with
  | .done => ⟨m, checks, none⟩
  | .move d p => run p checks { m with pointer := m.pointer + d }
  | .cell a op p =>
    match m.step a op with
    | (m, none) => run p checks m
    | (m, some f) => ⟨m, checks, some f⟩
  | .loop b p =>
    match checks with
    | 0 => ⟨m, 0, some .canceled⟩
    | checks + 1 =>
      match m.index? 0 with
      | none => ⟨m, checks, some (.pointerOutOfRange (m.target 0))⟩
      | some i =>
        if m.cellAt i = 0 then run p checks m
        else
          match run b checks m with
          -- A run never ends with more checks than it had, so `min` changes nothing.
          | ⟨m, left, none⟩ => run (.loop b p) (min left checks) m
          | stopped => stopped
termination_by (checks, p)

end Machine

/-! ## Looking at a tape -/

/-- A walk along a tape: the position reached, the run of cells before it that are not zero, last byte
first, and the runs before that one, last one first. -/
structure TapeRuns where
  position : Nat := 0
  current : List UInt8 := []
  finished : List (Nat × List UInt8) := []

namespace TapeRuns

/-- Ends the current run, if there is one. -/
def close (r : TapeRuns) : List (Nat × List UInt8) :=
  match r.current with
  | [] => r.finished
  | bytes => (r.position - bytes.length, bytes.reverse) :: r.finished

/-- Goes on by one cell. -/
def visit (r : TapeRuns) (b : UInt8) : TapeRuns :=
  if b = 0 then ⟨r.position + 1, [], r.close⟩ else ⟨r.position + 1, b :: r.current, r.finished⟩

end TapeRuns

/-- The longest runs of cells that are not zero, in order: the position of each, and its bytes. -/
def nonZeroRuns (tape : Array UInt8) : List (Nat × List UInt8) :=
  (tape.foldl TapeRuns.visit {}).close.reverse

end TapeLang
