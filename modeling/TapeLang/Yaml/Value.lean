import TapeLang.Text.Decimal
import TapeLang.Text.Numeral
import TapeLang.Yaml.Node
import TapeLang.Yaml.Timestamp

/-!
# The values of scalars

A plain scalar without a tag stands for a value by the way it is written. A tag says which sort of value
it has to be.

* `Value.ofPlain`: the value of a plain scalar.
* `Value.ofTagged`: the value of a scalar with a tag, which fails if the two do not agree.
-/

namespace TapeLang.Yaml

/-- A number that may have a fraction, as far as it matters: cut at the point, if it is finite. -/
inductive Number where
  | nan
  | infinite (negative : Bool)
  | finite (whole : Int)
  deriving DecidableEq, Repr

/-- The value of a scalar. -/
inductive Value where
  | null
  | bool (b : Bool)
  | int (n : Int)
  | float (x : Number)
  | timestamp
  | text (s : String)
  deriving DecidableEq, Repr

/-- A scalar whose value is not of the sort that its tag names. -/
structure TagMismatch where
  found : String
  text : String
  expected : String
  deriving DecidableEq, Repr

def TagMismatch.message (e : TagMismatch) : String :=
  "yaml: cannot decode " ++ e.found ++ " `" ++ e.text ++ "` as a " ++ e.expected

namespace Value

def tag : Value → String
  | null => Tag.null
  | bool _ => Tag.bool
  | int _ => Tag.int
  | float _ => Tag.float
  | timestamp => Tag.timestamp
  | text _ => Tag.str

/-- The values that have words of their own. -/
def ofWord? : String → Option Value
  | "" | "~" | "null" | "Null" | "NULL" => some null
  | "true" | "True" | "TRUE" => some (bool true)
  | "false" | "False" | "FALSE" => some (bool false)
  | ".nan" | ".NaN" | ".NAN" => some (float .nan)
  | ".inf" | ".Inf" | ".INF" | "+.inf" | "+.Inf" | "+.INF" => some (float (.infinite false))
  | "-.inf" | "-.Inf" | "-.INF" => some (float (.infinite true))
  | _ => none

/-- A decimal fraction, if it is not too large. -/
def ofDecimal? (cs : List Char) : Option Value := do
  let d ← Text.Decimal.parse? cs
  let n ← Text.Decimal.wholePart? d
  return float (.finite (if d.negative then -(n : Int) else n))

/-- A decimal fraction that starts with the point. Underscores may stand between its digits. -/
def ofPointed? (cs : List Char) : Option Value :=
  if Text.Numeral.underscoresOk cs then ofDecimal? (cs.filter (· ≠ '_')) else none

/-- A whole number, of 64 bits with or without a sign. -/
def ofNumeral? (cs : List Char) : Option Value :=
  match Text.Numeral.parseSigned? cs, Text.Numeral.parse cs with
  | some n, _ => some (int n)
  | none, .ok n => some (int n)
  | none, .error _ => none

/-- Digits after the mark of a base that have a sign of their own. -/
def ofMarked? : List Char → Option Value
  | '0' :: 'b' :: cs => (Text.Numeral.parseBase? 2 cs).map int
  | '0' :: 'o' :: cs => (Text.Numeral.parseBase? 8 cs).map int
  | _ => none

/-- A number that starts with a digit or a sign. Underscores in it do not count. -/
def ofNumber? (cs : List Char) : Option Value :=
  let digits := cs.filter (· ≠ '_')
  ofNumeral? digits <|> ofDecimal? digits <|> ofMarked? digits

/-- The value of a text by the way it is written. -/
def ofWritten (dates : Bool) (s : String) : Value :=
  match ofWord? s, s.toList with
  | some v, _ => v
  | none, [] => text s
  | none, c :: cs =>
    if c = '.' then (ofPointed? (c :: cs)).getD (text s)
    else if c.isDigit || c = '+' || c = '-' then
      if dates && Timestamp.isTimestamp (c :: cs) then timestamp
      else (ofNumber? (c :: cs)).getD (text s)
    else text s

/-- The value of a plain scalar without a tag. -/
def ofPlain (s : String) : Value :=
  ofWritten true s

/-- The number with a fraction nearest to a whole number. -/
def nearest (n : Int) : Number :=
  if n = 0 then .finite 0
  else
    let m := Text.Decimal.wholePartOf n.natAbs 1
    .finite (if n < 0 then -(m : Int) else m)

/-- The tags that say which sort of value a scalar is. Under another tag it stays a text. -/
def isSort (tag : String) : Bool :=
  [Tag.bool, Tag.int, Tag.float, Tag.null, Tag.timestamp].contains tag

/-- The value of a scalar with a tag. -/
def ofTagged (tag s : String) : Except TagMismatch Value :=
  if isSort tag then
    let v := ofWritten (tag = Tag.timestamp) s
    match v with
    | int n => if tag = Tag.float ∧ n < 1 <<< 63 then .ok (float (nearest n)) else check v
    | _ => check v
  else .ok (text s)
where
  check (v : Value) : Except TagMismatch Value :=
    if v.tag = tag then .ok v else .error ⟨v.tag, s, tag⟩

end Value

end TapeLang.Yaml
