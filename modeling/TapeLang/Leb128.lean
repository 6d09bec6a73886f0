/-!
# LEB128 integers

A number is written in groups of seven bits, the lowest first, one to a byte. Every byte but the last
has its top bit set. In a signed number the last group is in two's complement.

* `encodeUnsigned` and `encodeSigned`: the shortest bytes of a number.
* `readUInt32` and `readInt32`: the number at the start of some bytes, in at most five of them. Longer
  forms than the shortest are read too; bits past the thirty-second must agree with the number.
-/

namespace TapeLang.Leb128

/-! ## Writing -/

/-- The shortest bytes of a natural number. -/
def encodeUnsigned (n : Nat) : List UInt8 :=
  if n < 128 then [n.toUInt8]
  else (n % 128 + 128).toUInt8 :: encodeUnsigned (n / 128)
termination_by n
decreasing_by omega

/-- The shortest bytes of an integer. -/
def encodeSigned (v : Int) : List UInt8 :=
  if -64 ≤ v ∧ v < 64 then [(v % 128).toNat.toUInt8]
  else ((v % 128).toNat + 128).toUInt8 :: encodeSigned (v / 128)
termination_by v.natAbs
decreasing_by omega

def ofUInt32 (n : UInt32) : List UInt8 :=
  encodeUnsigned n.toNat

def ofUInt64 (n : UInt64) : List UInt8 :=
  encodeUnsigned n.toNat

def ofInt32 (v : Int32) : List UInt8 :=
  encodeSigned v.toInt

def ofInt64 (v : Int64) : List UInt8 :=
  encodeSigned v.toInt

/-! ## Reading -/

/-- Why bytes do not start with a number of 32 bits. -/
inductive Error where
  | endOfInput
  | overflow
  deriving DecidableEq, Repr

def Error.message : Error → String
  | endOfInput => "readByte failed: EOF"
  | overflow => "overflows a 32-bit integer"

/-- The number of bytes that hold 32 bits. -/
def maxLength : Nat := 5

/-- The bytes of one number at the start of others. -/
inductive Split where
  /-- The bytes of the number, and those after it. -/
  | number (groups rest : List UInt8)
  /-- The input ends inside the number. -/
  | cut
  /-- The number is too long; what comes after as much of it as was allowed. -/
  | long (rest : List UInt8)
  deriving DecidableEq, Repr

def Split.cons (b : UInt8) : Split → Split
  | number groups rest => number (b :: groups) rest
  | s => s

/-- Splits off the bytes of one number, of which there may be `limit`. -/
def split : (limit : Nat) → List UInt8 → Split
  | 0, bytes => .long bytes
  | _ + 1, [] => .cut
  | limit + 1, b :: bytes =>
    if b < 0x80 then .number [b] bytes else (split limit bytes).cons b

/-- The value of the groups of an unsigned number. -/
def unsignedValue : List UInt8 → Nat
  | [] => 0
  | b :: groups => b.toNat % 128 + 128 * unsignedValue groups

/-- The value of the groups of a signed number. -/
def signedValue : List UInt8 → Int
  | [] => 0
  | [b] => if b.toNat % 128 < 64 then b.toNat % 128 else b.toNat % 128 - 128
  | b :: groups => b.toNat % 128 + 128 * signedValue groups

/-- What reading a number gives: its value and length, or an error, and the bytes after what was
looked at. -/
structure Reading (α : Type) where
  result : Except Error (α × Nat)
  rest : List UInt8

/-- Reads a number whose groups `value?` turns into a value, if they are in its range. -/
def readWith {α : Type} (value? : List UInt8 → Option α) (bytes : List UInt8) : Reading α :=
  match split maxLength bytes with
  | .cut => ⟨.error .endOfInput, []⟩
  | .long rest => ⟨.error .overflow, rest⟩
  | .number groups rest =>
    match value? groups with
    | some v => ⟨.ok (v, groups.length), rest⟩
    | none => ⟨.error .overflow, rest⟩

/-- Reads an unsigned number of 32 bits. -/
def readUInt32 : List UInt8 → Reading UInt32 :=
  readWith fun groups =>
    let n := unsignedValue groups
    if n < 1 <<< 32 then some n.toUInt32 else none

/-- Reads a signed number of 32 bits. -/
def readInt32 : List UInt8 → Reading Int32 :=
  readWith fun groups =>
    let v := signedValue groups
    if -(1 <<< 31) ≤ v ∧ v < 1 <<< 31 then some v.toInt32 else none

/-- The readings of one number after the other up to the first error. -/
def readAll {α : Type} (read : List UInt8 → Reading α) (bytes : List UInt8) : List (Reading α) :=
  let r := read bytes
  match r.result with
  | .error _ => [r]
  | .ok _ => if r.rest.length < bytes.length then r :: readAll read r.rest else [r]
termination_by bytes.length

end TapeLang.Leb128
