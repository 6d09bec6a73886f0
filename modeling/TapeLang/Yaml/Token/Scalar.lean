import TapeLang.Yaml.Source

/-!
# The text of scalars

A scalar may go over several lines. Outside of literal blocks a single line break is read as a space,
and of more than one all but the first are kept.

* `plainScalar`: a scalar without quotes. It ends where something else could start.
* `quotedScalar`: a scalar in single or double quotes, from its opening quote on.
* `blockScalar`: the lines of a block, from its indicator on.

Each gives the text and the place after it. The number of characters of the whole text bounds the number
of rounds of every loop here. What has been read of a scalar is kept last character first.
-/

namespace TapeLang.Yaml

/-- Blanks and line breaks inside a scalar. -/
structure Gap where
  /-- Whether there is a line break. -/
  broken : Bool := false
  /-- The blanks, if there is no line break. -/
  spaces : List Char := []
  /-- The first line break. -/
  first : List Char := []
  /-- The other line breaks, last one first. -/
  more : List Char := []
  deriving DecidableEq, Repr

namespace Gap

/-- What a gap is read as. -/
def text (g : Gap) : List Char :=
  if g.broken then
    if g.first.head? = some '\n' then (if g.more = [] then [' '] else g.more.reverse)
    else g.first ++ g.more.reverse
  else g.spaces

/-- The gap `g` together with what follows of it, and the place after. `start` is the line where the
scalar starts. After a line break no tab may stand in front of column `margin`. -/
def extend (start margin : Nat) :
    (fuel : Nat) → Gap → Cursor → Except ScanError (Gap × Cursor)
  | 0, g, c => .ok (g, c)
  | fuel + 1, g, c =>
    let blanks := c.rest.takeWhile isBlank
    if g.broken && (blanks.take (margin - c.column)).contains '\t' then
      .error (c.fault start .tabIndentation)
    else
      let g := if g.broken then g else { g with spaces := g.spaces ++ blanks }
      let c := c.skip blanks.length
      if !c.rest.head?.any isBreak then .ok (g, c)
      else if g.broken then
        extend start margin fuel { g with more := c.lineBreak ++ g.more } c.skipLine
      else extend start margin fuel { broken := true, first := c.lineBreak } c.skipLine

end Gap

/-! ## Plain scalars -/

/-- Whether a plain scalar ends in front of `ch`, with `rest` after that. -/
def endsPlain (inFlow : Bool) (ch : Char) (rest : List Char) : Bool :=
  (ch = ':' && startsBlank rest) ||
    (inFlow && (ch = ',' || ch = '?' || ch = '[' || ch = ']' || ch = '\x7b' || ch = '\x7d'))

/-- The number of characters of a plain scalar up to its end or the next blank, and of `n` in front. -/
def plainLength (inFlow : Bool) (n : Nat) : List Char → Nat
  | [] => n
  | ch :: rest =>
    if isBlank ch || isBreak ch || endsPlain inFlow ch rest then n
    else plainLength inFlow (n + 1) rest

/-- Reads on in a plain scalar after `before` and `gap`. Outside of flow collections it ends on the first
line that is not indented to column `margin`. Besides, it says whether the gap at the end has a line
break. -/
def plainOnto (inFlow : Bool) (start margin : Nat) :
    (fuel : Nat) → (before : List Char) → Gap → Cursor → Except ScanError (List Char × Bool × Cursor)
  | 0, before, gap, c => .ok (before, gap.broken, c)
  | fuel + 1, before, gap, c => do
    c.need 4
    if c.atDocument || c.rest.head? = some '#' then return (before, gap.broken, c)
    let run := c.rest.take (plainLength inFlow 0 c.rest)
    let c := c.skip run.length
    if run ≠ [] then c.need 2
    let (before, gap) : List Char × Gap :=
      if run = [] then (before, gap) else (run.reverse ++ (gap.text.reverse ++ before), {})
    match c.rest with
    | [] => return (before, gap.broken, c)
    | ch :: _ =>
      if !isBlank ch && !isBreak ch then return (before, gap.broken, c)
      let (gap, c) ← gap.extend start margin (c.total + 1) c
      if !inFlow && c.column < margin then return (before, gap.broken, c)
      plainOnto inFlow start margin fuel before gap c

/-- The plain scalar here. -/
def plainScalar (inFlow : Bool) (margin : Nat) (c : Cursor) :
    Except ScanError (List Char × Bool × Cursor) :=
  (plainOnto inFlow c.line margin (c.total + 1) [] {} c).map fun (before, broken, c) =>
    (before.reverse, broken, c)

/-! ## Quoted scalars -/

/-- What an escape sequence stands for: one character, or a number of so many digits. -/
inductive Escape where
  | char (c : Char)
  | digits (n : Nat)
  deriving DecidableEq, Repr

/-- The escape sequence of a letter. -/
def Escape.ofChar? : Char → Option Escape
  | '0' => some (char '\x00')
  | 'a' => some (char '\x07')
  | 'b' => some (char '\x08')
  | 't' => some (char '\t')
  | '\t' => some (char '\t')
  | 'n' => some (char '\n')
  | 'v' => some (char '\x0b')
  | 'f' => some (char '\x0c')
  | 'r' => some (char '\r')
  | 'e' => some (char '\x1b')
  | ' ' => some (char ' ')
  | '"' => some (char '"')
  | '\'' => some (char '\'')
  | '\\' => some (char '\\')
  | 'N' => some (char '\x85')
  | '_' => some (char '\xa0')
  | 'L' => some (char '\u2028')
  | 'P' => some (char '\u2029')
  | 'x' => some (digits 2)
  | 'u' => some (digits 4)
  | 'U' => some (digits 8)
  | _ => none

/-- The value of a digit in base 16. -/
def hexDigit? (c : Char) : Option Nat :=
  if '0' ≤ c ∧ c ≤ '9' then some (c.toNat - '0'.toNat)
  else if 'a' ≤ c ∧ c ≤ 'f' then some (c.toNat - 'a'.toNat + 10)
  else if 'A' ≤ c ∧ c ≤ 'F' then some (c.toNat - 'A'.toNat + 10)
  else none

/-- The value of `n` digits in base 16 at the start of a text. -/
def hexValue? (value : Nat) : (n : Nat) → List Char → Option Nat
  | 0, _ => some value
  | _ + 1, [] => none
  | n + 1, c :: cs => (hexDigit? c).bind fun d => hexValue? (value * 16 + d) n cs

/-- The character of the escape sequence at the place `c`, and the place after. -/
def escaped (start : Nat) (c : Cursor) : Except ScanError (Char × Cursor) := do
  c.need 2
  match (c.rest.drop 1).head?.bind Escape.ofChar? with
  | none => throw (c.fault start .escape)
  | some (.char ch) => return (ch, c.skip 2)
  | some (.digits n) =>
    c.need (2 + n)
    match hexValue? 0 n (c.rest.drop 2) with
    | none => throw (c.fault start .hexDigits)
    | some value =>
      if (0xd800 ≤ value ∧ value ≤ 0xdfff) ∨ 0x10ffff < value then throw (c.fault start .escapeValue)
      return (Char.ofNat value, c.skip (2 + n))

/-- Reads the characters of a quoted scalar, after `before`, up to a blank or the closing quote. An
escaped line break ends them too; the gap that it starts is given back. -/
def quotedRun (double : Bool) (start : Nat) :
    (fuel : Nat) → (before : List Char) → Cursor → Except ScanError (List Char × Gap × Cursor)
  | 0, before, c => .ok (before, {}, c)
  | fuel + 1, before, c =>
    match c.rest with
    | [] => .ok (before, {}, c)
    | ch :: rest =>
      if isBlank ch || isBreak ch then .ok (before, {}, c)
      else if !double && ch = '\'' then
        if rest.head? = some '\'' then quotedRun double start fuel ('\'' :: before) (c.skip 2)
        else .ok (before, {}, c)
      else if double && ch = '"' then .ok (before, {}, c)
      else if double && ch = '\\' then
        if rest.head?.any isBreak then .ok (before, { broken := true }, (c.skip 1).skipLine)
        else
          match escaped start c with
          | .error e => .error e
          | .ok (e, c) => quotedRun double start fuel (e :: before) c
      else quotedRun double start fuel (ch :: before) (c.skip 1)

/-- Reads on in a quoted scalar after `before`. -/
def quotedOnto (double : Bool) (start : Nat) :
    (fuel : Nat) → (before : List Char) → Cursor → Except ScanError (List Char × Cursor)
  | 0, before, c => .ok (before, c)
  | fuel + 1, before, c => do
    c.need 4
    if c.atDocument then throw (c.fault start .documentIndicator)
    if c.rest = [] then throw (c.fault start .streamEnd)
    let (before, gap, c) ← quotedRun double start (c.total + 1) before c
    if c.rest.head? = some (if double then '"' else '\'') then return (before, c.skip 1)
    let (gap, c) ← gap.extend start 0 (c.total + 1) c
    quotedOnto double start fuel (gap.text.reverse ++ before) c

/-- The quoted scalar here. -/
def quotedScalar (double : Bool) (c : Cursor) : Except ScanError (List Char × Cursor) :=
  (quotedOnto double c.line (c.total + 1) [] (c.skip 1)).map fun (before, c) => (before.reverse, c)

/-! ## Block scalars -/

/-- Which line breaks at the end of a block are kept. -/
inductive Chomping where
  | clip
  | strip
  | keep
  deriving DecidableEq, Repr

/-- What stands after the indicator of a block. -/
structure BlockHeader where
  chomping : Chomping := .clip
  /-- How much further than the block around it the block is indented, if that is said. -/
  increment : Option Nat := none
  deriving DecidableEq, Repr

namespace BlockHeader

def chomping? : Option Char → Option Chomping
  | some '+' => some .keep
  | some '-' => some .strip
  | _ => none

/-- The digit here, if there is one, and the place after. -/
def readIncrement (start : Nat) (c : Cursor) : Except ScanError (Option Nat × Cursor) :=
  match c.rest with
  | ch :: _ =>
    if ch = '0' then .error (c.fault start .zeroIndentation)
    else if ch.isDigit then .ok (some (ch.toNat - '0'.toNat), c.skip 1)
    else .ok (none, c)
  | [] => .ok (none, c)

/-- The header here, and the place after. Its two parts may come in any order. -/
def read (start : Nat) (c : Cursor) : Except ScanError (BlockHeader × Cursor) := do
  match chomping? c.rest.head? with
  | some chomping =>
    let (increment, c) ← readIncrement start (c.skip 1)
    return ({ chomping, increment }, c)
  | none =>
    let (increment, c) ← readIncrement start c
    match increment, chomping? c.rest.head? with
    | some _, some chomping => return ({ chomping, increment }, c.skip 1)
    | _, _ => return ({ increment }, c)

end BlockHeader

/-- Reads the empty lines here, after the line breaks `before`, and the indentation of the line after
them. With `indent` given, no more columns than that are read; otherwise the widest line counts, which
is also given back. -/
def blockBreaks (start : Nat) (indent : Option Nat) :
    (fuel : Nat) → (before : List Char) → (widest : Nat) → Cursor →
      Except ScanError (List Char × Nat × Cursor)
  | 0, before, widest, c => .ok (before.reverse, widest, c)
  | fuel + 1, before, widest, c =>
    let spaces := (c.rest.takeWhile (· = ' ')).length
    let c := c.skip (match indent with | none => spaces | some n => min spaces (n - c.column))
    let widest := max widest c.column
    let inside := match indent with | none => true | some n => c.column < n
    match c.rest with
    | [] => .ok (before.reverse, widest, c)
    | ch :: _ =>
      if inside && ch = '\t' then .error (c.fault start .tabForSpace)
      else if isBreak ch then blockBreaks start indent fuel (c.lineBreak ++ before) widest c.skipLine
      else .ok (before.reverse, widest, c)

/-- What has been read of a block. -/
structure BlockText where
  /-- The text up to the end of the last line. -/
  before : List Char := []
  /-- The line break after the last line. -/
  lastBreak : List Char := []
  /-- The line breaks after that. -/
  breaks : List Char := []
  /-- Whether the last line starts with a blank. -/
  indented : Bool := false
  deriving DecidableEq, Repr

namespace BlockText

/-- Adds the text of a line. In a folded block a line break between lines that start with no blank is
read as a space if no empty line follows it, and left out otherwise. -/
def addLine (b : BlockText) (folded : Bool) (line lineBreak breaks : List Char) : BlockText :=
  let blank := line.head?.any isBlank
  let joint :=
    if folded && !b.indented && !blank && b.lastBreak.head? = some '\n' then
      if b.breaks = [] then [' '] else []
    else b.lastBreak
  { before := (joint ++ b.breaks ++ line).reverse ++ b.before, lastBreak := lineBreak, breaks,
    indented := blank }

/-- The text of a block at its end. -/
def finish (b : BlockText) : Chomping → List Char
  | .strip => b.before.reverse
  | .clip => b.before.reverse ++ b.lastBreak
  | .keep => b.before.reverse ++ (b.lastBreak ++ b.breaks)

end BlockText

/-- Reads the lines of a block that is indented to column `indent`. -/
def blockLines (folded : Bool) (start indent : Nat) :
    (fuel : Nat) → BlockText → Cursor → Except ScanError (BlockText × Cursor)
  | 0, b, c => .ok (b, c)
  | fuel + 1, b, c =>
    if c.column ≠ indent ∨ c.rest = [] then .ok (b, c)
    else
      let line := c.rest.takeWhile fun ch => !isBreak ch
      let c := c.skip line.length
      match blockBreaks start (some indent) (c.total + 1) [] 0 c.skipLine with
      | .error e => .error e
      | .ok (breaks, _, after) =>
        blockLines folded start indent fuel (b.addLine folded line c.lineBreak breaks) after

/-- The block here, inside a block whose content is indented to column `margin`. -/
def blockScalar (folded : Bool) (margin : Nat) (c : Cursor) : Except ScanError (List Char × Cursor) := do
  let start := c.line
  let (header, c) ← BlockHeader.read start (c.skip 1)
  let c := c.skipWhile isBlank
  let c := if c.rest.head? = some '#' then c.skipComment else c
  if !startsBreak c.rest then throw (c.fault start .lineEnd)
  let c := c.skipLine
  let given := header.increment.map fun n => margin - 1 + n
  let (breaks, widest, c) ← blockBreaks start given (c.total + 1) [] 0 c
  let indent := given.getD (max widest (max margin 1))
  let (b, c) ← blockLines folded start indent (c.total + 1) { breaks } c
  c.need 1
  return (b.finish header.chomping, c)

end TapeLang.Yaml
