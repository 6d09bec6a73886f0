import TapeLang.Text.Utf8
import TapeLang.Yaml.Token
import TapeLang.Yaml.Token.Scalar

/-!
# Anchors, tags and directives

* `anchorName`: the name after `&` or `*`.
* `tagToken`: a tag, split into its handle and what comes after.
* `directiveToken`: a line that starts with `%`.
-/

namespace TapeLang.Yaml

/-- Characters that may stand right after the name of an anchor. -/
def endsAnchor : List Char → Bool
  | [] => true
  | c :: _ => isBlank c || isBreak c || "?:,]\x7d%@`".toList.contains c

/-- The name of the anchor or alias here, from its indicator on, and the place after. -/
def anchorName (c : Cursor) : Except ScanError (String × Cursor) :=
  let name := (c.rest.drop 1).takeWhile isWord
  let after := c.skip (1 + name.length)
  if name = [] || !endsAnchor after.rest then .error (after.fault c.line .anchorName)
  else .ok (String.ofList name, after)

/-! ## Tags -/

/-- The characters of tags, besides those of names. -/
def isUriMark (c : Char) : Bool :=
  ";/?:@&=+$,.!~*'()[]%".toList.contains c

/-- The octet that `%` and two digits stand for. -/
def escapedOctet? : List Char → Option UInt8
  | '%' :: a :: b :: _ => do
    let high ← hexDigit? a
    let low ← hexDigit? b
    return (high * 16 + low).toUInt8
  | _ => none

/-- Reads `n` escaped octets that follow the first of a character. -/
def escapedTrail (start : Nat) (c : Cursor) :
    (n : Nat) → (value : Nat) → Except ScanError (Nat × Cursor)
  | 0, value => .ok (value, c)
  | n + 1, value => do
    c.need 3
    match escapedOctet? c.rest with
    | none => throw (c.fault start .uriEscape)
    | some b =>
      if b &&& 0xc0 = 0x80 then escapedTrail start (c.skip 3) n (value * 64 + b.toNat % 64)
      else throw (c.fault start .uriTrailingOctet)

/-- The character of a value that takes `width` octets, or one mark for each of them if there is none. -/
def characterOf (width n : Nat) : List Char :=
  if leastValue width ≤ n ∧ n.isValidChar then [Char.ofNat n]
  else List.replicate width Text.replacement

/-- Reads a character that is written as escaped octets. -/
def escapedCharacter (start : Nat) (c : Cursor) : Except ScanError (List Char × Cursor) := do
  c.need 3
  match escapedOctet? c.rest with
  | none => throw (c.fault start .uriEscape)
  | some b =>
    match octetCount b with
    | none => throw (c.fault start .uriLeadingOctet)
    | some width =>
      let (n, c) ← escapedTrail start (c.skip 3) (width - 1) (leadingBits width b)
      return (characterOf width n, c)

/-- Reads the characters of a tag after `text`. -/
def uriOnto (start : Nat) :
    (fuel : Nat) → (text : List Char) → Cursor → Except ScanError (List Char × Cursor)
  | 0, text, c => .ok (text, c)
  | fuel + 1, text, c =>
    match c.rest with
    | [] => .ok (text, c)
    | ch :: _ =>
      if ch = '%' then
        match escapedCharacter start c with
        | .error e => .error e
        | .ok (e, c) => uriOnto start fuel (text ++ e) c
      else if isWord ch || isUriMark ch then uriOnto start fuel (text ++ [ch]) (c.skip 1)
      else .ok (text, c)

/-- The rest of a tag. Nothing may be left only after a handle that is part of it. -/
def tagUri (start : Nat) (handle : List Char) (c : Cursor) : Except ScanError (List Char × Cursor) := do
  let (text, after) ← uriOnto start c.total (handle.drop 1) c
  if handle = [] && text = [] then throw (after.fault start .tagUri)
  return (text, after)

/-- The handle here: an exclamation mark, and a name between two of them if there is one. -/
def tagHandle (start : Nat) (directive : Bool) (c : Cursor) : Except ScanError (List Char × Cursor) :=
  match c.rest with
  | '!' :: rest =>
    let name := rest.takeWhile isWord
    let after := c.skip (1 + name.length)
    if after.rest.head? = some '!' then .ok ('!' :: name ++ ['!'], after.skip 1)
    else if directive && name ≠ [] then .error (after.fault start .tagHandle)
    else .ok ('!' :: name, after)
  | _ => .error (c.fault start .tagHandle)

/-- The tag here, and the place after. -/
def tagToken (c : Cursor) : Except ScanError (TokenKind × Cursor) := do
  let start := c.line
  let (handle, suffix, c) ←
    if (c.rest.drop 1).head? = some '<' then
      let (suffix, c) ← tagUri start [] (c.skip 2)
      if c.rest.head? ≠ some '>' then throw (c.fault start .tagClose)
      pure (([] : List Char), suffix, c.skip 1)
    else
      let (handle, c) ← tagHandle start false c
      if 1 < handle.length && handle.getLast? = some '!' then
        let (suffix, c) ← tagUri start [] c
        pure (handle, suffix, c)
      else
        let (suffix, c) ← tagUri start handle c
        pure (if suffix = [] then ([], ['!'], c) else (['!'], suffix, c))
  if !startsBlank c.rest then throw (c.fault start .tagEnd)
  return (.tag (String.ofList handle) (String.ofList suffix), c)

/-! ## Directives -/

/-- The most digits of a part of a version. -/
def maxVersionDigits : Nat := 2

/-- The value of digits in base 10. -/
def decimalValue (digits : List Char) : Nat :=
  digits.foldl (fun n d => n * 10 + (d.toNat - '0'.toNat)) 0

/-- The number here, and the place after. -/
def versionPart (start : Nat) (c : Cursor) : Except ScanError (Nat × Cursor) :=
  let digits := c.rest.takeWhile Char.isDigit
  if maxVersionDigits < digits.length then .error (c.fault start .longVersion)
  else if digits = [] then .error (c.fault start .versionNumber)
  else .ok (decimalValue digits, c.skip digits.length)

/-- What a version directive says, and the place after. -/
def versionDirective (start : Nat) (c : Cursor) : Except ScanError (TokenKind × Cursor) := do
  let (major, c) ← versionPart start (c.skipWhile isBlank)
  if c.rest.head? ≠ some '.' then throw (c.fault start .versionDot)
  let (minor, c) ← versionPart start (c.skip 1)
  return (.versionDirective major minor, c)

/-- What a tag directive says, and the place after. -/
def tagDirective (start : Nat) (c : Cursor) : Except ScanError (TokenKind × Cursor) := do
  let (handle, c) ← tagHandle start true (c.skipWhile isBlank)
  if !c.rest.head?.any isBlank then throw (c.fault start .directiveBlank)
  let (stem, c) ← tagUri start [] (c.skipWhile isBlank)
  if !startsBlank c.rest then throw (c.fault start .tagEnd)
  return (.tagDirective (String.ofList handle) (String.ofList stem), c)

/-- The directive here, and the place after its line. -/
def directiveToken (c : Cursor) : Except ScanError (TokenKind × Cursor) := do
  let start := c.line
  let name := (c.rest.drop 1).takeWhile isWord
  let c := c.skip (1 + name.length)
  if name = [] then throw (c.fault start .directiveName)
  if !startsBlank c.rest then throw (c.fault start .directiveNameEnd)
  let (kind, c) ← match String.ofList name with
    | "YAML" => versionDirective start c
    | "TAG" => tagDirective start c
    | _ => throw (c.fault start .unknownDirective)
  let c := c.skipWhile isBlank
  let c := if c.rest.head? = some '#' then c.skipComment else c
  if !startsBreak c.rest then throw (c.fault start .lineEnd)
  c.need 2
  return (kind, c.skipLine)

end TapeLang.Yaml
