import TapeLang.Yaml.Source
import TapeLang.Yaml.Token.Scan
import TapeLang.Yaml.Value

/-!
# From tokens to nodes

* `Node.ofBytes?`: the first document of a text, `none` if there is no document. What comes after it is
  not looked at.

The parser reads the tokens from the front. Every round of a loop takes a token, so the number of tokens
bounds the depth of the recursion.
-/

namespace TapeLang.Yaml

/-- What the parser goes by. -/
structure ParseState where
  tokens : List Token
  /-- The fault after the last token, if there is one. -/
  failure : Option ScanError := none
  /-- The nodes that have a name so far, the latest first. -/
  anchors : List (String × Node) := []
  /-- What the handles of tags stand for. -/
  handles : List (String × String) := []

abbrev Parse := StateT ParseState (Except Error)

namespace Parse

/-- The next token. -/
def peek : Parse Token := do
  let s ← get
  match s.tokens, s.failure with
  | t :: _, _ => return t
  | [], some e => throw (.scan e)
  | [], none => return ⟨.streamEnd, 0⟩

/-- Goes past the next token. -/
def skip : Parse Unit :=
  modify fun s => { s with tokens := s.tokens.drop 1 }

/-- Goes past the next token and gives the one after. -/
def skipPeek : Parse Token := do
  skip
  peek

def fail {α : Type} (p : Problem) (start line : Nat) : Parse α :=
  throw (.node ⟨p, start, line⟩)

/-- The null that stands for a node that is left out. -/
def emptyNode (line : Nat) : Node :=
  .scalar (line + 1) Tag.null ""

/-- Names a node. -/
def name (anchor : Option String) (n : Node) : Parse Unit :=
  match anchor with
  | none => pure ()
  | some a => modify fun s => { s with anchors := (a, n) :: s.anchors }

/-- What stands in front of a node. -/
structure Properties where
  anchor : Option String := none
  /-- The handle and the suffix of a tag, and its line. -/
  tag : Option (String × String × Nat) := none

/-- Reads an anchor and a tag, in any order. -/
def properties : Parse Properties := do
  let t ← peek
  match t.kind with
  | .anchor a =>
    let u ← skipPeek
    match u.kind with
    | .tag h s =>
      skip
      return { anchor := some a, tag := some (h, s, u.line) }
    | _ => return { anchor := some a }
  | .tag h s =>
    let u ← skipPeek
    match u.kind with
    | .anchor a =>
      skip
      return { anchor := some a, tag := some (h, s, t.line) }
    | _ => return { tag := some (h, s, t.line) }
  | _ => return {}

/-- The tag of a node in full, empty if there is none. -/
def fullTag (start : Nat) (p : Properties) : Parse String := do
  match p.tag with
  | none => return ""
  | some (handle, suffix, line) =>
    if handle = "" then return suffix
    else
      match (← get).handles.find? fun h => h.1 = handle with
      | some (_, stem) => return stem ++ suffix
      | none => fail .unknownHandle start line

/-- Whether a tag says nothing. -/
def isOpen (tag : String) : Bool :=
  tag = "" || tag = "!"

/-- The tag of a scalar. A plain scalar has the tag of its value. -/
def scalarTag (tag : String) (style : ScalarStyle) (text : String) : String :=
  if !isOpen tag then Tag.short tag
  else
    match style with
    | .marked => Tag.str
    | .plain => if text = "<<" then Tag.merge else (Value.ofPlain text).tag

/-- Whether a kind of token shows that a node of a block is left out. -/
def endsBlockNode : TokenKind → Bool
  | .key | .value | .blockEnd => true
  | _ => false

mutual

/-- Reads a node. Blocks are read only if `block` says so, and a sequence that is not indented only if
`flush` says so. -/
def node : (fuel : Nat) → (block flush : Bool) → Parse Node
  | 0, _, _ => return emptyNode 0
  | fuel + 1, block, flush => do
    let t ← peek
    if let .reference a := t.kind then
      match (← get).anchors.find? fun n => n.1 = a with
      | none => throw (.unknownAnchor a)
      | some (_, n) =>
        skip
        return .reference (t.line + 1) a n
    let start := t.line
    let p ← properties
    let tag ← fullTag start p
    let u ← peek
    let line := start + 1
    let collectionTag (default : String) : String := if isOpen tag then default else Tag.short tag
    let sequence (items : Parse (List Node)) : Parse Node := do
      let tag := collectionTag Tag.seq
      name p.anchor (.unfinished line tag false)
      let n := Node.sequence line tag (← items)
      name p.anchor n
      return n
    let mapping (entries : Parse (List (Node × Node))) : Parse Node := do
      let tag := collectionTag Tag.map
      name p.anchor (.unfinished line tag true)
      let n := Node.mapping line tag (← entries)
      name p.anchor n
      return n
    match u.kind with
    | .scalar style text =>
      skip
      let n := Node.scalar line (scalarTag tag style text) text
      name p.anchor n
      return n
    | .flowSequenceStart => skip; sequence (flowItems fuel u.line true)
    | .flowMappingStart => skip; mapping (flowEntries fuel u.line true)
    | kind =>
      if flush && kind = .blockEntry then sequence (flushItems fuel)
      else if block && kind = .blockSequenceStart then skip; sequence (blockItems fuel u.line)
      else if block && kind = .blockMappingStart then skip; mapping (blockEntries fuel u.line)
      else if p.anchor.isSome || tag ≠ "" then
        let n := Node.scalar line (scalarTag tag .plain "") ""
        name p.anchor n
        return n
      else fail .nodeContent start u.line

/-- Reads the entries of a sequence in a block that starts at a line. -/
def blockItems : (fuel : Nat) → (start : Nat) → Parse (List Node)
  | 0, _ => return []
  | fuel + 1, start => do
    let t ← peek
    match t.kind with
    | .blockEntry =>
      let u ← skipPeek
      let n ← if u.kind = .blockEntry || u.kind = .blockEnd then pure (emptyNode t.line)
        else node fuel true false
      return n :: (← blockItems fuel start)
    | .blockEnd => skip; return []
    | _ => fail .dash start t.line

/-- Reads the entries of a sequence that stands at the margin of the mapping around it. -/
def flushItems : (fuel : Nat) → Parse (List Node)
  | 0 => return []
  | fuel + 1 => do
    let t ← peek
    match t.kind with
    | .blockEntry =>
      let u ← skipPeek
      let n ← if u.kind = .blockEntry || endsBlockNode u.kind then pure (emptyNode t.line)
        else node fuel true false
      return n :: (← flushItems fuel)
    | _ => return []

/-- Reads the entries of a mapping in a block that starts at a line. -/
def blockEntries : (fuel : Nat) → (start : Nat) → Parse (List (Node × Node))
  | 0, _ => return []
  | fuel + 1, start => do
    let t ← peek
    match t.kind with
    | .key =>
      let u ← skipPeek
      let k ← if endsBlockNode u.kind then pure (emptyNode t.line) else node fuel true true
      let v ← blockValue fuel
      return (k, v) :: (← blockEntries fuel start)
    | .blockEnd => skip; return []
    | _ => fail .key start t.line

/-- Reads the value after a key in a block. -/
def blockValue : (fuel : Nat) → Parse Node
  | 0 => return emptyNode 0
  | fuel + 1 => do
    let t ← peek
    match t.kind with
    | .value =>
      let u ← skipPeek
      if endsBlockNode u.kind then return emptyNode t.line else node fuel true true
    | _ => return emptyNode t.line

/-- Reads the entries of a sequence in brackets that starts at a line. -/
def flowItems : (fuel : Nat) → (start : Nat) → (first : Bool) → Parse (List Node)
  | 0, _, _ => return []
  | fuel + 1, start, first => do
    let t ← peek
    if t.kind = .flowSequenceEnd then
      skip
      return []
    let t ← if first then pure t
      else if t.kind = .flowEntry then skipPeek
      else fail .commaOrBracket start t.line
    match t.kind with
    | .flowSequenceEnd => skip; return []
    | .key =>
      skip
      let entry ← flowPair fuel
      return .mapping (t.line + 1) Tag.map [entry] :: (← flowItems fuel start false)
    | _ =>
      let n ← node fuel false false
      return n :: (← flowItems fuel start false)

/-- Reads a key and a value that are an entry of a sequence. -/
def flowPair : (fuel : Nat) → Parse (Node × Node)
  | 0 => return (emptyNode 0, emptyNode 0)
  | fuel + 1 => do
    let t ← peek
    let ends (kind : TokenKind) : Bool := kind = .flowEntry || kind = .flowSequenceEnd
    let k ← if t.kind = .value || ends t.kind then do skip; pure (emptyNode t.line)
      else node fuel false false
    let t ← peek
    if t.kind = .value then
      let u ← skipPeek
      let v ← if ends u.kind then pure (emptyNode u.line) else node fuel false false
      return (k, v)
    else return (k, emptyNode t.line)

/-- Reads the entries of a mapping in braces that starts at a line. -/
def flowEntries : (fuel : Nat) → (start : Nat) → (first : Bool) → Parse (List (Node × Node))
  | 0, _, _ => return []
  | fuel + 1, start, first => do
    let t ← peek
    if t.kind = .flowMappingEnd then
      skip
      return []
    let t ← if first then pure t
      else if t.kind = .flowEntry then skipPeek
      else fail .commaOrBrace start t.line
    let ends (kind : TokenKind) : Bool := kind = .flowEntry || kind = .flowMappingEnd
    match t.kind with
    | .flowMappingEnd => skip; return []
    | .key =>
      let u ← skipPeek
      let k ← if u.kind = .value || ends u.kind then pure (emptyNode u.line) else node fuel false false
      let w ← peek
      let v ← if w.kind = .value then do
          let x ← skipPeek
          if ends x.kind then pure (emptyNode x.line) else node fuel false false
        else pure (emptyNode w.line)
      return (k, v) :: (← flowEntries fuel start false)
    | _ =>
      let k ← node fuel false false
      let w ← peek
      return (k, emptyNode w.line) :: (← flowEntries fuel start false)

end

/-! ## Documents -/

/-- The handles that need no directive. -/
def standardHandles : List (String × String) := [("!", "!"), ("!!", Tag.standard)]

/-- Reads the directives in front of a document. -/
def directives : (fuel : Nat) → (seen : Bool) → Parse Unit
  | 0, _ => pure ()
  | fuel + 1, seen => do
    let t ← peek
    match t.kind with
    | .versionDirective major minor =>
      if seen then fail .repeatedVersion 0 t.line
      if major ≠ 1 || minor ≠ 1 then fail .incompatible 0 t.line
      skip
      directives fuel true
    | .tagDirective handle stem =>
      if (← get).handles.any fun h => h.1 = handle then fail .repeatedHandle 0 t.line
      modify fun s => { s with handles := s.handles ++ [(handle, stem)] }
      skip
      directives fuel seen
    | _ => pure ()

/-- Reads the content of a document after its start mark. -/
def content (fuel : Nat) : Parse Node := do
  let t ← peek
  match t.kind with
  | .versionDirective _ _ | .tagDirective _ _ | .documentStart | .documentEnd | .streamEnd =>
    return emptyNode t.line
  | _ => node fuel true false

/-- Reads the first document, and the token after it. -/
def document (fuel : Nat) : Parse (Option Node) := do
  skip
  let t ← peek
  match t.kind with
  | .streamEnd => return none
  | .versionDirective _ _ | .tagDirective _ _ | .documentStart =>
    directives fuel false
    let u ← peek
    if u.kind ≠ .documentStart then fail .documentStart 0 u.line
    skip
    modify fun s => { s with handles := s.handles ++ standardHandles }
    let n ← content fuel
    let _ ← peek
    return some n
  | _ =>
    modify fun s => { s with handles := standardHandles }
    let n ← node fuel true false
    let _ ← peek
    return some n

end Parse

/-- The first document of a text, if there is one. -/
def Node.ofBytes? (bytes : List UInt8) : Except Error (Option Node) := do
  let (tokens, failure) := tokens bytes
  let (n, _) ← (Parse.document (2 * tokens.length + 4)).run { tokens, failure }
  return n

end TapeLang.Yaml
