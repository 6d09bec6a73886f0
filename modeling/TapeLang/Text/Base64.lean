/-!
# Base 64

Three bytes are written as four characters, each of which stands for six bits. At the end, where there
are one or two bytes, `=` stands for each character that is missing. Line breaks do not count.

* `Base64.decode?`: the bytes of a text. Bits at the end that belong to no byte may be anything.
-/

namespace TapeLang.Text.Base64

/-- The six bits that a character stands for. -/
def sextet? (c : Char) : Option Nat :=
  if 'A' ≤ c ∧ c ≤ 'Z' then some (c.toNat - 'A'.toNat)
  else if 'a' ≤ c ∧ c ≤ 'z' then some (c.toNat - 'a'.toNat + 26)
  else if '0' ≤ c ∧ c ≤ '9' then some (c.toNat - '0'.toNat + 52)
  else if c = '+' then some 62
  else if c = '/' then some 63
  else none

/-- The bytes of some sextets. -/
def bytesOf : List Nat → List UInt8
  | a :: b :: c :: d :: rest =>
    (a * 4 + b / 16).toUInt8 :: (b * 16 + c / 4).toUInt8 :: (c * 64 + d).toUInt8 :: bytesOf rest
  | [a, b, c] => [(a * 4 + b / 16).toUInt8, (b * 16 + c / 4).toUInt8]
  | [a, b] => [(a * 4 + b / 16).toUInt8]
  | _ => []

/-- The bytes of a text, `none` if it is malformed. -/
def decode? (s : String) : Option (List UInt8) := do
  let chars := s.toList.filter fun c => c ≠ '\n' && c ≠ '\r'
  let body := chars.takeWhile (· ≠ '=')
  let padding := chars.dropWhile (· ≠ '=')
  guard (padding = [] || padding = ['='] || padding = ['=', '='])
  guard (chars.length % 4 = 0)
  return bytesOf (← body.mapM sextet?)

end TapeLang.Text.Base64
