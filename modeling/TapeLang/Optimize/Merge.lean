import TapeLang.Program

/-!
# Merging neighbours

One pass from left to right that holds back the last element and fuses it with what follows.

* Two moves become their sum.
* Two changes of one cell become one; an assignment takes in later changes of its cell, and overrides
  earlier ones.
* A move, an operation and the move back become the operation at the moved address.
* A loop whose merged body only adds a non-zero value to its own cell becomes an assignment of zero.

A sum of zero is dropped; a zero that was there before stays.
-/

namespace TapeLang

/-- The operation that does `a` and then `b` on one cell, if there is one. -/
def CellOp.fuse? : CellOp → CellOp → Option CellOp
  | .add a, .add b => some (.add (a + b))
  | .set a, .add b => some (.set (a + b))
  | .add _, .set b => some (.set b)
  | .set _, .set b => some (.set b)
  | _, _ => none

namespace Merge

/-- What a pass holds back. -/
inductive Held where
  | nothing
  | token (t : Token)
  /-- A move and an operation after it, which fuse if the next element moves back. -/
  | moved (delta addr : Int64) (op : CellOp)
  deriving DecidableEq, Repr

namespace Held

/-- Holds a move unless it is by zero. -/
def ofMove (delta : Int64) : Held :=
  if delta = 0 then nothing else token (.move delta)

/-- Holds an operation unless it adds zero. -/
def ofCell (addr : Int64) (op : CellOp) : Held :=
  if op = .add 0 then nothing else token (.cell addr op)

/-- Holds back `t`, which follows `last`: what has to be let go for it, and what is held then. -/
def follow (last t : Token) : List Token × Held :=
  match last, t with
  | .move a, .move b => ([], ofMove (a + b))
  | .move d, .cell a op => ([], moved d a op)
  | .cell a op, .cell a' op' =>
    match if a' = a then op.fuse? op' else none with
    | some both => ([], ofCell a both)
    | none => ([last], token t)
  | _, _ => ([last], token t)

/-- Holds back `t` after what is held: what has to be let go for it, and what is held then. -/
def put : Held → Token → List Token × Held
  | nothing, t => ([], token t)
  | token last, t => follow last t
  | moved d a op, .move back =>
    if d + back = 0 then ([], token (.cell (d + a) op))
    else ([.move d, .cell a op], token (.move back))
  | moved d a op, t =>
    let (out, held) := follow (.cell a op) t
    (.move d :: out, held)

/-- What is held, as the last elements of a program. -/
def flush : Held → Program
  | nothing => .done
  | token t => .cons t .done
  | moved d a op => .move d (.cell a op .done)

end Held

/-- A loop around a merged body, or the assignment that it amounts to. -/
def loopToken : Program → Token
  | .cell a (.add v) .done =>
    if a = 0 ∧ v ≠ 0 then .cell 0 (.set 0) else .loop (.cell a (.add v) .done)
  | body => .loop body

end Merge

namespace Program

/-- Puts elements in front of a program. -/
def consAll (ts : List Token) (p : Program) : Program :=
  ts.foldr cons p

/-- Lets go of the elements of `out` and goes on with what is held then. -/
@[inline]
def letGo (out : List Token × Merge.Held) (rest : Merge.Held → Program) : Program :=
  match out with
  | ([], held) => rest held
  | (ts, held) => consAll ts (rest held)

theorem letGo_eq (out : List Token × Merge.Held) (rest : Merge.Held → Program) :
    letGo out rest = consAll out.1 (rest out.2) := by
  rcases out with ⟨_ | ⟨t, ts⟩, held⟩ <;> rfl

/-- Merges a program that follows what is held back. -/
def mergeAfter (held : Merge.Held) : Program → Program
  | done => held.flush
  | move d p => letGo (held.put (.move d)) fun h => p.mergeAfter h
  | cell a op p => letGo (held.put (.cell a op)) fun h => p.mergeAfter h
  | loop b p => letGo (held.put (Merge.loopToken (b.mergeAfter .nothing))) fun h => p.mergeAfter h

/-- One merging pass over a program. -/
def merge (p : Program) : Program :=
  p.mergeAfter .nothing

end Program

end TapeLang
