/-!
# Timestamps

A timestamp is a date, or a date and a time of day. With a `T` between them there is a time zone, with
blanks between them there is none.
-/

namespace TapeLang.Yaml.Timestamp

/-- One or two digits, and what follows. -/
def shortNumber? : List Char → Option (Nat × List Char)
  | a :: b :: rest =>
    if !a.isDigit then none
    else if b.isDigit then some ((a.toNat - 48) * 10 + (b.toNat - 48), rest)
    else some (a.toNat - 48, b :: rest)
  | [a] => if a.isDigit then some (a.toNat - 48, []) else none
  | [] => none

/-- A number below `limit` of one or two digits, and what follows. -/
def below? (limit : Nat) (cs : List Char) : Option (List Char) :=
  match shortNumber? cs with
  | some (n, rest) => if n < limit then some rest else none
  | none => none

/-- What follows a character. -/
def after? (c : Char) : List Char → Option (List Char)
  | d :: rest => if c = d then some rest else none
  | [] => none

def isLeapYear (year : Nat) : Bool :=
  year % 4 = 0 && (year % 100 ≠ 0 || year % 400 = 0)

def daysOf (year month : Nat) : Nat :=
  if month = 2 then (if isLeapYear year then 29 else 28)
  else if month = 4 ∨ month = 6 ∨ month = 9 ∨ month = 11 then 30
  else 31

/-- What follows a date at the start of a text. -/
def afterDate? (cs : List Char) : Option (List Char) := do
  let digits := cs.takeWhile Char.isDigit
  guard (digits.length = 4)
  let year := digits.foldl (fun n d => n * 10 + (d.toNat - 48)) 0
  let (month, rest) ← shortNumber? (← after? '-' (cs.drop 4))
  guard (1 ≤ month && month ≤ 12)
  let (day, rest) ← shortNumber? (← after? '-' rest)
  guard (1 ≤ day && day ≤ daysOf year month)
  return rest

/-- What follows the fraction of a second, if there is one. -/
def afterFraction : List Char → List Char
  | p :: d :: rest =>
    if (p = '.' || p = ',') && d.isDigit then rest.dropWhile Char.isDigit else p :: d :: rest
  | cs => cs

/-- What follows a time of day. -/
def afterTime? (cs : List Char) : Option (List Char) := do
  let rest ← after? ':' (← below? 24 cs)
  let rest ← after? ':' (← below? 60 rest)
  return afterFraction (← below? 60 rest)

/-- Whether a text is a time zone: a letter, or a sign and hours and minutes of two digits each. -/
def isZone : List Char → Bool
  | ['Z'] => true
  | [sign, a, b, ':', c, d] =>
    (sign = '+' || sign = '-') && [a, b, c, d].all Char.isDigit &&
      (a.toNat - 48) * 10 + (b.toNat - 48) ≤ 24 && (c.toNat - 48) * 10 + (d.toNat - 48) ≤ 60
  | _ => false

/-- Whether a text is a timestamp. -/
def isTimestamp (cs : List Char) : Bool :=
  match afterDate? cs with
  | none => false
  | some [] => true
  | some (c :: rest) =>
    if c = 'T' || c = 't' then (afterTime? rest).any isZone
    else if c = ' ' then (afterTime? (rest.dropWhile (· = ' '))).any (· = [])
    else false

end TapeLang.Yaml.Timestamp
