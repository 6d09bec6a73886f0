/-!
# Numerals

An unsigned number is written in base 10, or in base 2, 8 or 16 after `0b`, `0o` or `0x`, or in base 8
after `0`. Underscores may stand between digits.

* `Numeral.parse`: the number of a text, which has to fit in 64 bits.
* `Numeral.parseSigned?`: the number of a text that may start with a sign.
-/

namespace TapeLang.Text.Numeral

/-- Why a text is no number. -/
inductive Error where
  | malformed
  /-- A number, or the start of one, that does not fit in 64 bits. -/
  | outOfRange
  deriving DecidableEq, Repr

/-- The value of a digit or letter. -/
def digitValue? (c : Char) : Option Nat :=
  if '0' ≤ c ∧ c ≤ '9' then some (c.toNat - '0'.toNat)
  else if 'a' ≤ c ∧ c ≤ 'z' then some (c.toNat - 'a'.toNat + 10)
  else if 'A' ≤ c ∧ c ≤ 'Z' then some (c.toNat - 'A'.toNat + 10)
  else none

/-- The base of a numeral, and its digits. -/
def splitBase : List Char → Nat × List Char
  | '0' :: c :: d :: rest =>
    if c = 'b' ∨ c = 'B' then (2, d :: rest)
    else if c = 'o' ∨ c = 'O' then (8, d :: rest)
    else if c = 'x' ∨ c = 'X' then (16, d :: rest)
    else (8, c :: d :: rest)
  | '0' :: rest => (8, rest)
  | cs => (10, cs)

/-- The value of digits after those that have `value`. The first fault counts. -/
def valueFrom (base : Nat) (value : Nat) : List Char → Except Error Nat
  | [] => .ok value
  | c :: cs =>
    match digitValue? c with
    | none => .error .malformed
    | some d =>
      if base ≤ d then .error .malformed
      else if 1 <<< 64 ≤ value * base + d then .error .outOfRange
      else valueFrom base (value * base + d) cs

/-- What stands in front of a character, as far as underscores care. -/
inductive Before where
  | digit
  | underscore
  | other
  deriving DecidableEq, Repr

/-- Whether every underscore has a digit, or the mark of a base, in front of it and a digit after it. -/
def underscoresFrom (isHex : Bool) : Before → List Char → Bool
  | b, [] => b ≠ .underscore
  | b, c :: cs =>
    if c = '_' then b = .digit && underscoresFrom isHex .underscore cs
    else if c.isDigit || (isHex && (digitValue? c).any (· < 16)) then underscoresFrom isHex .digit cs
    else b ≠ .underscore && underscoresFrom isHex .other cs

/-- Whether the underscores of a numeral stand where they may. -/
def underscoresOk : List Char → Bool
  | '0' :: c :: rest =>
    if c = 'x' ∨ c = 'X' then underscoresFrom true .digit rest
    else if c = 'b' ∨ c = 'B' ∨ c = 'o' ∨ c = 'O' then underscoresFrom false .digit rest
    else underscoresFrom false .other ('0' :: c :: rest)
  | cs => underscoresFrom false .other cs

/-- The number that a numeral stands for. -/
def parse (text : List Char) : Except Error Nat :=
  if text = [] then .error .malformed
  else
    let (base, digits) := splitBase text
    match valueFrom base 0 (digits.filter (· ≠ '_')) with
    | .error e => .error e
    | .ok n =>
      if digits.contains '_' && !underscoresOk text then .error .malformed else .ok n

/-- A sign in front of a text, as whether it is a minus, and the text after it. -/
def splitSign : List Char → Bool × List Char
  | '-' :: rest => (true, rest)
  | '+' :: rest => (false, rest)
  | cs => (false, cs)

/-- A number with its sign, if it fits in 64 bits. -/
def signed? (negative : Bool) (n : Nat) : Option Int :=
  if negative then (if n ≤ 1 <<< 63 then some (-(n : Int)) else none)
  else if n < 1 <<< 63 then some n else none

/-- The number of 64 bits that a numeral with or without a sign stands for. -/
def parseSigned? (text : List Char) : Option Int :=
  let (negative, digits) := splitSign text
  match parse digits with
  | .ok n => signed? negative n
  | .error _ => none

/-- The number of 64 bits that digits of a base with or without a sign stand for. -/
def parseBase? (base : Nat) (text : List Char) : Option Int :=
  let (negative, digits) := splitSign text
  if digits = [] then none
  else
    match valueFrom base 0 digits with
    | .ok n => signed? negative n
    | .error _ => none

end TapeLang.Text.Numeral
