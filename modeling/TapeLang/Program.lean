/-!
# Programs

A program is a sequence of moves of the pointer, operations on one cell, and loops, which carry a
program of their own. There are no jump targets at this level.

* `CellOp`: what an operation does to its cell. Every byte is the number of exactly one kind of
  operation; the kinds past the fourth have no meaning, and running one is an error.
* `Program`: every constructor but `done` holds what comes after it.
* `Token`: one element of a program, for passes that hold one back.
* `Program.size`: the number of elements at every depth.
* `Program.equal_iff`: the comparison that the optimizer stops on is equality.
-/

namespace TapeLang

/-- An operation on the cell at some offset from the pointer. -/
inductive CellOp where
  /-- Adds to the cell, modulo 256. -/
  | add (value : Int8)
  /-- Overwrites the cell. -/
  | set (value : Int8)
  /-- Prints the cell; the value is carried along and has no meaning. -/
  | print (unused : Int8)
  /-- Reads a byte into the cell; the value is carried along and has no meaning. -/
  | read (unused : Int8)
  /-- The kind with number `4 + extra`, which has no meaning. -/
  | unknown (extra : Fin 252) (value : Int8)
  deriving DecidableEq, Repr

namespace CellOp

/-- The number of the kind of an operation. -/
def kind : CellOp → UInt8
  | add _ => 0
  | set _ => 1
  | print _ => 2
  | read _ => 3
  | unknown extra _ => UInt8.ofNat (4 + extra)

def value : CellOp → Int8
  | add v | set v | print v | read v | unknown _ v => v

/-- The operation of a kind given by number. -/
def ofKind (kind : UInt8) (value : Int8) : CellOp :=
  if h : 4 ≤ kind.toNat then
    unknown ⟨kind.toNat - 4, by have := kind.toNat_lt; omega⟩ value
  else if kind = 0 then add value
  else if kind = 1 then set value
  else if kind = 2 then print value
  else read value

/-- The four kinds that can be run. -/
def IsKnown : CellOp → Prop
  | unknown _ _ => False
  | _ => True

end CellOp

/-- A sequence of instructions for the tape machine. -/
inductive Program where
  | done
  /-- Moves the pointer without touching the tape. -/
  | move (delta : Int64) (next : Program)
  /-- Operates on the cell at `addr` from the pointer, which stays. -/
  | cell (addr : Int64) (op : CellOp) (next : Program)
  /-- Repeats `body` while the cell at the pointer is not zero. -/
  | loop (body next : Program)
  deriving DecidableEq, Repr

/-- One element of a program. -/
inductive Token where
  | move (delta : Int64)
  | cell (addr : Int64) (op : CellOp)
  | loop (body : Program)
  deriving DecidableEq, Repr

namespace Program

instance : Inhabited Program := ⟨done⟩

def cons : Token → Program → Program
  | .move d, p => move d p
  | .cell a op, p => cell a op p
  | .loop b, p => loop b p

/-- The elements of a program at the outermost level. -/
def tokens : Program → List Token
  | done => []
  | move d p => .move d :: p.tokens
  | cell a op p => .cell a op :: p.tokens
  | loop b p => .loop b :: p.tokens

def ofTokens (ts : List Token) : Program :=
  ts.foldr cons done

/-- The elements of the first program in reverse order, then the second. -/
def reverseOnto : Program → Program → Program
  | done, q => q
  | move d p, q => p.reverseOnto (move d q)
  | cell a op p, q => p.reverseOnto (cell a op q)
  | loop b p, q => p.reverseOnto (loop b q)

def append : Program → Program → Program
  | done, q => q
  | move d p, q => move d (p.append q)
  | cell a op p, q => cell a op (p.append q)
  | loop b p, q => loop b (p.append q)

instance : Append Program := ⟨append⟩

/-- The number of elements, at every depth; a loop counts for one besides its body. -/
def size : Program → Nat
  | done => 0
  | move _ p => p.size + 1
  | cell _ _ p => p.size + 1
  | loop b p => p.size + 1 + b.size

/-- Whether two programs are the same, element by element and at every depth. -/
def equal : Program → Program → Bool
  | done, done => true
  | move d p, move d' p' => d == d' && p.equal p'
  | cell a op p, cell a' op' p' => a == a' && op == op' && p.equal p'
  | loop b p, loop b' p' => b.equal b' && p.equal p'
  | _, _ => false

/-! ## Lemmas -/

theorem equal_iff (p q : Program) : p.equal q = true ↔ p = q := by
  induction p generalizing q with
  | done => cases q <;> simp [equal]
  | move d p ih => cases q <;> simp [equal, ih]
  | cell a op p ih => cases q <;> simp [equal, ih, and_assoc]
  | loop b p ihb ih => cases q <;> simp [equal, ihb, ih]

@[simp]
theorem done_append (q : Program) : done ++ q = q := rfl

@[simp]
theorem move_append (d : Int64) (p q : Program) : move d p ++ q = move d (p ++ q) := rfl

@[simp]
theorem cell_append (a : Int64) (op : CellOp) (p q : Program) :
    cell a op p ++ q = cell a op (p ++ q) := rfl

@[simp]
theorem loop_append (b p q : Program) : loop b p ++ q = loop b (p ++ q) := rfl

@[simp]
theorem append_done (p : Program) : p ++ done = p := by
  induction p <;> simp [*]

theorem append_assoc (p q r : Program) : p ++ q ++ r = p ++ (q ++ r) := by
  induction p <;> simp [*]

@[simp]
theorem ofTokens_tokens (p : Program) : ofTokens p.tokens = p := by
  induction p <;> simp_all [ofTokens, tokens, cons]

@[simp]
theorem size_append (p q : Program) : (p ++ q).size = p.size + q.size := by
  induction p <;> simp_all [size] <;> omega

end Program

end TapeLang
