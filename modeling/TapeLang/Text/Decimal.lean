/-!
# Decimal fractions

A number with a fraction or an exponent stands for the nearest binary number of 64 bits, of which only
the part in front of the point is of interest.

* `Decimal.parse?`: the sign, the digits as a whole number, and the exponent of a text.
* `Decimal.wholePart?`: the whole part of the nearest binary number, `none` if the decimal is too large
  for one. It is computed on whole numbers alone.
-/

namespace TapeLang.Text

/-- The decimal fraction `digits * 10 ^ exponent`. -/
structure Decimal where
  negative : Bool
  digits : Nat
  exponent : Int
  deriving DecidableEq, Repr

namespace Decimal

/-- The value of digits in base 10. -/
def digitsValue (cs : List Char) : Nat :=
  cs.foldl (fun n d => n * 10 + (d.toNat - '0'.toNat)) 0

/-- The exponent that a text consists of, zero if it is empty. -/
def exponent? : List Char → Option Int
  | [] => some 0
  | e :: cs =>
    if e ≠ 'e' ∧ e ≠ 'E' then none
    else
      let (negative, digits) := match cs with
        | '-' :: ds => (true, ds)
        | '+' :: ds => (false, ds)
        | ds => (false, ds)
      if digits = [] || !digits.all Char.isDigit then none
      else some (if negative then -(digitsValue digits : Int) else digitsValue digits)

/-- The decimal that a text consists of. There is a digit in front of the point or after it. -/
def parse? (text : List Char) : Option Decimal :=
  let (negative, cs) := match text with
    | '-' :: cs => (true, cs)
    | '+' :: cs => (false, cs)
    | cs => (false, cs)
  let whole := cs.takeWhile Char.isDigit
  let (fraction, rest) := match cs.dropWhile Char.isDigit with
    | '.' :: ds => (ds.takeWhile Char.isDigit, ds.dropWhile Char.isDigit)
    | ds => ([], ds)
  if whole = [] && fraction = [] then none
  else (exponent? rest).map fun e =>
    { negative, digits := digitsValue (whole ++ fraction), exponent := e - fraction.length }

/-- A quotient to the nearest whole number, a tie to the even one. -/
def roundDiv (a b : Nat) : Nat :=
  let q := a / b
  let twice := 2 * (a % b)
  if b < twice ∨ (twice = b ∧ q % 2 = 1) then q + 1 else q

/-- The number of bits of the significand of a binary number. -/
def precision : Nat := 53

/-- The whole part of the binary number nearest to `a / b`, where both are positive. -/
def wholePartOf (a b : Nat) : Nat :=
  -- The quotient has `width` bits in front of the point, or one less.
  let width : Int := a.log2 - b.log2 + 1
  let scaled (shift : Int) : Nat × Nat :=
    if 0 ≤ shift then (a, b <<< shift.toNat) else (a <<< (-shift).toNat, b)
  let shift := width - precision
  let (x, y) := scaled shift
  let (n, shift) :=
    if x < y <<< (precision - 1) then
      let (x, y) := scaled (shift - 1)
      (roundDiv x y, shift - 1)
    else (roundDiv x y, shift)
  if 0 ≤ shift then n <<< shift.toNat else n >>> (-shift).toNat

/-- The whole part of the nearest binary number, if there is one of 64 bits. -/
def wholePart? (d : Decimal) : Option Nat :=
  let size : Int := (Nat.toDigits 10 d.digits).length + d.exponent
  -- A decimal beyond these sizes needs no powers to be computed.
  if d.digits = 0 ∨ size < -1 then some 0
  else if 310 < size then none
  else
    let n :=
      if 0 ≤ d.exponent then wholePartOf (d.digits * Nat.pow 10 d.exponent.toNat) 1
      else wholePartOf d.digits (Nat.pow 10 (-d.exponent).toNat)
    if n < 1 <<< 1024 then some n else none

end Decimal

end TapeLang.Text
