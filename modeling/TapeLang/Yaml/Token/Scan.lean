import TapeLang.Yaml.Token.Property

/-!
# From characters to tokens

The tokens are found one after the other. What comes late is the token in front of a key that only the
colon after it shows to be one: until then the key is pending, and the tokens from it on are held back
for as long as it is watched.

* `Scanner`: how far a text has been read, and the tokens found but not given out.
* `Scanner.fetch`: finds the next token, and with it any blocks that start or end there.
* `tokens`: the tokens of a text in order, up to the end or to the first fault.
-/

namespace TapeLang.Yaml

/-- The last token of a collection that may turn out to be a key. Until there is one, the token that
opens the collection stands in for it. -/
structure KeyCandidate where
  /-- Whether it still may turn out to be one. -/
  pending : Bool := false
  /-- Whether there must be a colon after it, because it stands where the next key of a block is due. -/
  required : Bool := false
  /-- The number of the token. -/
  number : Nat := 0
  line : Nat := 0
  column : Nat := 0
  index : Nat := 0
  deriving DecidableEq, Repr

/-- The most characters from the start of a pending key to the colon after it. -/
def maxKeyLength : Nat := 1024

/-- How far a text has been read. -/
structure Scanner where
  cursor : Cursor
  /-- The tokens found but not given out. -/
  queue : List Token := []
  /-- The number of tokens given out. -/
  taken : Nat := 0
  /-- The candidate of the innermost collection. -/
  key : KeyCandidate := {}
  /-- The candidates of the collections around the innermost flow collection. -/
  outer : List KeyCandidate := []
  /-- The numbers of the tokens that are held back for a candidate, and how many flow collections that
  one stands in. -/
  watched : List (Nat × Nat) := []
  /-- Whether a key may start here. -/
  keyAllowed : Bool := true
  /-- The column after the one that the entries of the innermost block start at, zero outside of all
  blocks. -/
  margin : Nat := 0
  /-- The margins of the blocks around it. -/
  margins : List Nat := []
  /-- Whether the end of the text has been found. -/
  ended : Bool := false
  deriving DecidableEq, Repr

namespace Scanner

def inFlow (s : Scanner) : Bool :=
  s.outer ≠ []

/-- A fault in a construct that starts here. -/
def fault (s : Scanner) (p : Problem) : ScanError :=
  s.cursor.fault s.cursor.line p

/-- Adds a token at the end. -/
def push (s : Scanner) (kind : TokenKind) (line : Nat) : Scanner :=
  { s with queue := s.queue ++ [⟨kind, line⟩] }

/-- Adds a token in front of the one with a number, or at the end if that one has been given out. -/
def insert (s : Scanner) (number : Nat) (kind : TokenKind) (line : Nat) : Scanner :=
  if number < s.taken then s.push kind line
  else
    let i := number - s.taken
    { s with queue := s.queue.take i ++ ⟨kind, line⟩ :: s.queue.drop i }

/-- Adds a token of `n` characters. -/
def pushMark (s : Scanner) (kind : TokenKind) (n : Nat) : Scanner :=
  { s.push kind s.cursor.line with cursor := s.cursor.skip n }

/-! ## Keys -/

/-- The number of the next token to be found. -/
def nextNumber (s : Scanner) : Nat :=
  s.taken + s.queue.length

/-- Holds the token with a number back no longer. -/
def unwatch (s : Scanner) (number : Nat) : Scanner :=
  { s with watched := s.watched.filter fun w => w.1 ≠ number }

/-- Gives up on the pending key. -/
def dropKey (s : Scanner) : Except ScanError Scanner :=
  if !s.key.pending then .ok s
  else if s.key.required then .error (s.cursor.fault s.key.line .missingColon)
  else .ok ({ s with key := { s.key with pending := false } }.unwatch s.key.number)

/-- Makes the token that starts here the pending key, if a key may start here. -/
def saveKey (s : Scanner) : Except ScanError Scanner :=
  if s.keyAllowed then
    s.dropKey.map fun s =>
      let c := s.cursor
      { s with
        key :=
          { pending := true, required := !s.inFlow && s.margin = c.column + 1, number := s.nextNumber,
            line := c.line, column := c.column, index := c.index }
        watched := (s.nextNumber, s.outer.length) :: s.watched }
  else .ok s

/-- Whether a candidate can become a key here. It is a fault if one cannot that has to. -/
def keyHolds (s : Scanner) (k : KeyCandidate) : Except ScanError Bool :=
  if !k.pending then .ok false
  else if k.line < s.cursor.line || k.index + maxKeyLength < s.cursor.index then
    if k.required then .error (s.cursor.fault k.line .missingColon) else .ok false
  else .ok true

/-! ## Blocks -/

/-- Ends the blocks whose margin is over `limit`. -/
def closeBlocks (s : Scanner) (limit line : Nat) : Scanner :=
  if s.inFlow then s else close s s.margins
where
  close (s : Scanner) : List Nat → Scanner
    | [] => s
    | m :: ms =>
      if limit < s.margin then close { s.push .blockEnd line with margin := m, margins := ms } ms
      else s

/-- Starts a block with entries at `column` unless there is one that goes as far, with its token in
front of the one with a number, or at the end. -/
def openBlock (s : Scanner) (column : Nat) (number : Option Nat) (kind : TokenKind) (line : Nat) :
    Except ScanError Scanner :=
  if s.inFlow || column < s.margin then .ok s
  else if maxDepth ≤ s.margins.length then .error (s.cursor.fault s.key.line .tooDeep)
  else
    let s := { s with margin := column + 1, margins := s.margin :: s.margins }
    match number with
    | some n => .ok (s.insert n kind line)
    | none => .ok (s.push kind line)

/-! ## Space between tokens -/

/-- How far ahead a comment is looked for. -/
def commentReach : Nat := 512

/-- Whether the characters of a class within reach have a comment right after them. -/
def commentAfter (space : Char → Bool) (rest : List Char) : Bool :=
  ((rest.take commentReach).dropWhile space).head? = some '#'

/-- The blanks and the line breaks of a single octet. -/
def isPlainSpace (c : Char) : Bool :=
  isBlank c || c = '\n' || c = '\r'

/-- The place after the comment here, and after the comments on the lines that follow. -/
def skipComments : (fuel : Nat) → Cursor → Cursor
  | 0, c => c
  | fuel + 1, c =>
    let c := c.skipComment
    if commentAfter isPlainSpace c.rest then skipComments fuel (skipSpace c.total c) else c
where
  skipSpace : (fuel : Nat) → Cursor → Cursor
    | 0, c => c
    | fuel + 1, c =>
      match c.rest with
      | [] => c
      | ch :: _ =>
        if isBlank ch then skipSpace fuel (c.skip 1)
        else if isBreak ch then skipSpace fuel c.skipLine
        else c

/-- Goes to the next token. Tabs are no indentation, and a new line may start with a key. -/
def toToken : (fuel : Nat) → Scanner → Scanner
  | 0, s => s
  | fuel + 1, s =>
    let c := s.cursor
    let c := if c.column = 0 && c.rest.head? = some byteOrderMark then c.skip 1 else c
    let c := c.skipWhile fun ch => ch = ' ' || ((s.inFlow || !s.keyAllowed) && ch = '\t')
    let c := if c.rest.head? = some '#' then skipComments c.total c else c
    if c.rest.head?.any isBreak then
      toToken fuel { s with cursor := c.skipLine, keyAllowed := s.keyAllowed || !s.inFlow }
    else { s with cursor := c }

/-- Goes to the end of the line if only a comment is left on it. A comment on the next line does not
belong to that one. -/
def skipLineComment (s : Scanner) : Except ScanError Scanner := do
  let c := s.cursor.skip ((s.cursor.rest.take commentReach).takeWhile isBlank).length
  if c.index < s.cursor.index + commentReach then c.need 1
  if !commentAfter isBlank s.cursor.rest then return s
  let c := c.skipComment
  c.need 1
  return { s with cursor := c }

/-! ## Tokens -/

/-- The end of the text, which ends all blocks. -/
def fetchEnd (s : Scanner) : Except ScanError Scanner := do
  let c := s.cursor
  let c := if c.column ≠ 0 then { c with line := c.line + 1, column := 0 } else c
  let s := { s with cursor := c }
  let s ← (s.closeBlocks 0 c.line).dropKey
  return { s.push .streamEnd c.line with keyAllowed := false, ended := true }

/-- Gets ready for something that stands outside of all blocks. -/
def leaveBlocks (s : Scanner) : Except ScanError Scanner := do
  let s ← (s.closeBlocks 0 s.cursor.line).dropKey
  return { s with keyAllowed := false }

def fetchDirective (s : Scanner) : Except ScanError Scanner := do
  let s ← s.leaveBlocks
  let (kind, c) ← directiveToken s.cursor
  return { s.push kind s.cursor.line with cursor := c }

def fetchFlowStart (s : Scanner) (kind : TokenKind) : Except ScanError Scanner := do
  let s ← s.saveKey
  if maxDepth ≤ s.outer.length then throw (s.fault .tooDeep)
  { s.pushMark kind 1 with
    outer := s.key :: s.outer
    key := { number := s.nextNumber, line := s.cursor.line }
    keyAllowed := true }.skipLineComment

/-- The end of a flow collection. With it goes the watch on its candidate, which is on the collection
itself if none of its tokens was one. -/
def fetchFlowEnd (s : Scanner) (kind : TokenKind) : Except ScanError Scanner := do
  let s ← s.dropKey
  let s := match s.outer with
    | [] => s
    | k :: ks => { s.unwatch s.key.number with key := k, outer := ks }
  { s.pushMark kind 1 with keyAllowed := false }.skipLineComment

def fetchFlowEntry (s : Scanner) : Except ScanError Scanner := do
  let s ← s.dropKey
  { s.pushMark .flowEntry 1 with keyAllowed := true }.skipLineComment

/-- A dash. A comment after it belongs to what follows. -/
def fetchBlockEntry (s : Scanner) : Except ScanError Scanner := do
  if !s.inFlow && !s.keyAllowed then throw (s.fault .blockEntryHere)
  let s ← s.openBlock s.cursor.column none .blockSequenceStart s.cursor.line
  let s ← s.dropKey
  return { s.pushMark .blockEntry 1 with keyAllowed := true }

def fetchKey (s : Scanner) : Except ScanError Scanner := do
  if !s.inFlow && !s.keyAllowed then throw (s.fault .keyHere)
  let s ← s.openBlock s.cursor.column none .blockMappingStart s.cursor.line
  let s ← s.dropKey
  { s.pushMark .key 1 with keyAllowed := !s.inFlow }.skipLineComment

/-- A colon. It makes a key of the pending one, if that still can be one. -/
def fetchValue (s : Scanner) : Except ScanError Scanner := do
  let k := s.key
  let holds ← s.keyHolds k
  let s := { s with key := { k with pending := false } }
  if holds then
    let s := s.insert k.number .key k.line
    let s ← s.openBlock k.column (some k.number) .blockMappingStart k.line
    { (s.unwatch k.number).pushMark .value 1 with keyAllowed := false }.skipLineComment
  else
    if !s.inFlow && !s.keyAllowed then throw (s.fault .valueHere)
    let s ← s.openBlock s.cursor.column none .blockMappingStart s.cursor.line
    { s.pushMark .value 1 with keyAllowed := !s.inFlow }.skipLineComment

/-- A token that may be a key, or the start of one. -/
def fetchContent (s : Scanner) (read : Cursor → Except ScanError (TokenKind × Cursor)) :
    Except ScanError Scanner := do
  let s ← s.saveKey
  let (kind, c) ← read s.cursor
  { s.push kind s.cursor.line with cursor := c, keyAllowed := false }.skipLineComment

def fetchBlockScalar (s : Scanner) (folded : Bool) : Except ScanError Scanner := do
  let s ← s.dropKey
  let (text, c) ← blockScalar folded s.margin s.cursor
  return { s.push (.scalar .marked (String.ofList text)) s.cursor.line with
    cursor := c, keyAllowed := true }

def fetchQuoted (s : Scanner) (double : Bool) : Except ScanError Scanner :=
  s.fetchContent fun c => do
    let (text, c) ← quotedScalar double c
    return (.scalar .marked (String.ofList text), c)

/-- A plain scalar. A key may follow it on a line of its own. -/
def fetchPlain (s : Scanner) : Except ScanError Scanner := do
  let s ← s.saveKey
  let (text, broken, c) ← plainScalar s.inFlow s.margin s.cursor
  let s := { s.push (.scalar .plain (String.ofList text)) s.cursor.line with
    cursor := c, keyAllowed := broken }
  if broken then
    c.need 1
    return s
  else s.skipLineComment

/-- Characters that cannot start a plain scalar. -/
def isIndicator (c : Char) : Bool :=
  "-?:,[]\x7b\x7d#&*!|>'\"%@`".toList.contains c

/-- Whether a plain scalar can start with `ch`, with `rest` after that. -/
def startsPlain (s : Scanner) (ch : Char) (rest : List Char) : Bool :=
  (!isBlank ch && !isBreak ch && !isIndicator ch) ||
    (ch = '-' && !rest.head?.any isBlank) ||
    (!s.inFlow && (ch = '?' || ch = ':') && !startsBlank rest)

/-- The token that starts with `ch`, with `rest` after that. -/
def fetchAt (s : Scanner) (ch : Char) (rest : List Char) : Except ScanError Scanner :=
  match ch with
  | '[' => s.fetchFlowStart .flowSequenceStart
  | '\x7b' => s.fetchFlowStart .flowMappingStart
  | ']' => s.fetchFlowEnd .flowSequenceEnd
  | '\x7d' => s.fetchFlowEnd .flowMappingEnd
  | ',' => s.fetchFlowEntry
  | '*' => s.fetchContent fun c => (anchorName c).map fun (name, c) => (.reference name, c)
  | '&' => s.fetchContent fun c => (anchorName c).map fun (name, c) => (.anchor name, c)
  | '!' => s.fetchContent tagToken
  | '\'' => s.fetchQuoted false
  | '"' => s.fetchQuoted true
  | _ =>
    if ch = '-' && startsBlank rest then s.fetchBlockEntry
    else if ch = '?' && (s.inFlow || startsBlank rest) then s.fetchKey
    else if ch = ':' && (s.inFlow || startsBlank rest) then s.fetchValue
    else if ch = '|' && !s.inFlow then s.fetchBlockScalar false
    else if ch = '>' && !s.inFlow then s.fetchBlockScalar true
    else if s.startsPlain ch rest then s.fetchPlain
    else .error (s.fault .noToken)

/-- Finds the next token. -/
def fetch (s : Scanner) : Except ScanError Scanner := do
  let line := s.cursor.line
  let s := toToken (s.cursor.total + 1) s
  let s := s.closeBlocks (s.cursor.column + 1) line
  s.cursor.need 4
  match s.cursor.rest with
  | [] => s.fetchEnd
  | ch :: rest =>
    if s.cursor.column = 0 && ch = '%' then s.fetchDirective
    else if s.cursor.atDocument then
      let s ← s.leaveBlocks
      return s.pushMark (if ch = '-' then .documentStart else .documentEnd) 3
    else s.fetchAt ch rest

/-! ## Giving out tokens -/

/-- Gives up on the candidate that stands in so many flow collections. -/
def giveUpAt (s : Scanner) (depth : Nat) : Scanner :=
  if depth = s.outer.length then { s with key := { s.key with pending := false } }
  else
    { s with
      outer := s.outer.modify (s.outer.length - 1 - depth) fun k => { k with pending := false } }

/-- Whether the token that is due may yet get another one in front. A candidate that it is held back
for in vain is given up. -/
def waits (s : Scanner) : Except ScanError (Bool × Scanner) :=
  match s.watched.find? fun w => w.1 = s.taken with
  | none => .ok (false, s)
  | some (_, depth) =>
    (s.keyHolds ((s.key :: s.outer).getD (s.outer.length - depth) {})).map fun holds =>
      (holds, if holds then s else s.giveUpAt depth)

/-- Reads on until the token that is due is settled. Two more are found than are given out, as long as
there are any. -/
def settle : (fuel : Nat) → Scanner → Except ScanError Scanner
  | 0, s => .ok s
  | fuel + 1, s => do
    if !s.ended && s.queue.length ≤ 2 then settle fuel (← s.fetch)
    else
      let (more, s) ← s.waits
      if more && !s.ended then settle fuel (← s.fetch) else return s

/-- Gives out tokens after those of `before`, last one first. -/
def giveOnto : (fuel : Nat) → (before : List Token) → Scanner → List Token × Option ScanError
  | 0, before, _ => (before.reverse, none)
  | fuel + 1, before, s =>
    match settle (s.cursor.total + 4) s with
    | .error e => (before.reverse, some e)
    | .ok s =>
      match s.queue with
      | [] => (before.reverse, none)
      | t :: queue => giveOnto fuel (t :: before) { s with queue, taken := s.taken + 1 }

end Scanner

/-- The tokens of a text in order, and the fault that ends them, if there is one. A character gives at
most four tokens. -/
def tokens (bytes : List UInt8) : List Token × Option ScanError :=
  let (text, unreadable) := characters bytes
  let s : Scanner := { cursor := { rest := text, unreadable }, queue := [⟨.streamStart, 0⟩] }
  s.giveOnto (4 * text.length + 8) []

end TapeLang.Yaml
