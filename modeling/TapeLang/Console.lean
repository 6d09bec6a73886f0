/-!
# The console of a running program

Bytes come from an input and go to an output, one at a time. Both may be set to fail.

* `Console.read`: the next byte, and zero once the input is used up. A read fails when the input has
  given as many bytes as it may, also if none are left.
* `Console.write`: adds a byte to the output, and fails when there is no room left for it.
-/

namespace TapeLang

/-- Why a program cannot exchange a byte with its surroundings. -/
inductive ConsoleError where
  | readFailed
  | writeFailed
  deriving DecidableEq, Repr

def ConsoleError.message : ConsoleError → String
  | readFailed => "read failed"
  | writeFailed => "write failed"

/-- What a program reads from and prints to. -/
structure Console where
  /-- The bytes not read yet. -/
  input : List UInt8 := []
  /-- How many more bytes can be read before a read fails, if reads can fail. -/
  readable : Option Nat := none
  /-- The bytes printed so far. -/
  output : Array UInt8 := #[]
  /-- How many more bytes can be printed before a write fails, if writes can fail. -/
  room : Option Nat := none
  deriving DecidableEq, Repr

namespace Console

/-- The next byte of the input, and the console after reading it. -/
def read (c : Console) : Except ConsoleError (UInt8 × Console) :=
  match c.readable with
  | some 0 => .error .readFailed
  | left =>
    match c.input with
    | [] => .ok (0, c)
    | b :: rest => .ok (b, { c with input := rest, readable := left.map (· - 1) })

/-- The console after printing `b`. -/
def write (c : Console) (b : UInt8) : Except ConsoleError Console :=
  match c.room with
  | some 0 => .error .writeFailed
  | left => .ok { c with output := c.output.push b, room := left.map (· - 1) }

end Console

end TapeLang
