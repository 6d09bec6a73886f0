/-!
# The eight symbols

* `Symbol`: the primitives of the tape language, and the numbers they are known by.
* `Symbol.lex`: the symbols of a source in order. Every other byte is a comment.
-/

namespace TapeLang

/-- A primitive of the tape language. -/
inductive Symbol where
  | right
  | left
  | increment
  | decrement
  | loopStart
  | loopEnd
  | print
  | read
  deriving DecidableEq, Repr

namespace Symbol

/-- The number of a symbol. -/
def code : Symbol → UInt8
  | right => 0
  | left => 1
  | increment => 2
  | decrement => 3
  | loopStart => 4
  | loopEnd => 5
  | print => 6
  | read => 7

/-- The symbol of a number, for the numbers below eight. -/
def ofCode? : UInt8 → Option Symbol
  | 0 => some right
  | 1 => some left
  | 2 => some increment
  | 3 => some decrement
  | 4 => some loopStart
  | 5 => some loopEnd
  | 6 => some print
  | 7 => some read
  | _ => none

/-- The byte that stands for a symbol in a source. -/
def byte : Symbol → UInt8
  | right => 0x3e
  | left => 0x3c
  | increment => 0x2b
  | decrement => 0x2d
  | loopStart => 0x5b
  | loopEnd => 0x5d
  | print => 0x2e
  | read => 0x2c

def ofByte? : UInt8 → Option Symbol
  | 0x3e => some right
  | 0x3c => some left
  | 0x2b => some increment
  | 0x2d => some decrement
  | 0x5b => some loopStart
  | 0x5d => some loopEnd
  | 0x2e => some print
  | 0x2c => some read
  | _ => none

/-- The text of a symbol, the one it has in a source. -/
def text : Symbol → String
  | right => ">"
  | left => "<"
  | increment => "+"
  | decrement => "-"
  | loopStart => "["
  | loopEnd => "]"
  | print => "."
  | read => ","

/-- The text of a number: its symbol's, or a description if it has none. -/
def textOfCode (n : UInt8) : String :=
  match ofCode? n with
  | some s => s.text
  | none => s!"ParseToken({n})"

/-- The symbols of `source`, in order. -/
def lex (source : List UInt8) : List Symbol :=
  source.filterMap ofByte?

@[simp]
theorem ofCode?_code (s : Symbol) : ofCode? s.code = some s := by
  cases s <;> rfl

@[simp]
theorem ofByte?_byte (s : Symbol) : ofByte? s.byte = some s := by
  cases s <;> rfl

theorem code_of_ofCode? {n : UInt8} {s : Symbol} (h : ofCode? n = some s) : s.code = n := by
  unfold ofCode? at h
  split at h <;> simp_all [code] <;> subst h <;> rfl

@[simp]
theorem lex_nil : lex [] = [] := rfl

@[simp]
theorem lex_append (a b : List UInt8) : lex (a ++ b) = lex a ++ lex b := by
  simp [lex, List.filterMap_append]

end Symbol

end TapeLang
