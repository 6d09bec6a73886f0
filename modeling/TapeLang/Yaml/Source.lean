import TapeLang.Yaml.Problem

/-!
# The characters of a YAML text

* `characters`: the characters of some bytes, which have to be UTF-8, or UTF-16 with a byte order mark
  in front. The mark is left out, and control characters are refused. Bytes are read a block at a time,
  so a fault spoils the block that it is in, and the characters in front of the block are good.
* `Cursor`: a place in the text, and what follows.
-/

namespace TapeLang.Yaml

/-! ## Decoding -/

/-- The number of octets of a character, by the first one. -/
def octetCount (b : UInt8) : Option Nat :=
  if b < 0x80 then some 1
  else if b &&& 0xe0 = 0xc0 then some 2
  else if b &&& 0xf0 = 0xe0 then some 3
  else if b &&& 0xf8 = 0xf0 then some 4
  else none

/-- The bits of the first of `width` octets. -/
def leadingBits (width : Nat) (b : UInt8) : Nat :=
  if width = 1 then b.toNat else b.toNat % (1 <<< (7 - width))

/-- The least value that takes `width` octets. -/
def leastValue : (width : Nat) → Nat
  | 2 => 0x80
  | 3 => 0x800
  | 4 => 0x10000
  | _ => 0

/-- Adds the bits of trailing octets. -/
def trailingBits (value : Nat) : List UInt8 → Except EncodingProblem Nat
  | [] => .ok value
  | b :: bytes =>
    if b &&& 0xc0 = 0x80 then trailingBits (value * 64 + b.toNat % 64) bytes
    else .error .trailingOctet

/-- The characters that may occur in a text. -/
def isAllowed (n : Nat) : Bool :=
  n = 0x09 || n = 0x0a || n = 0x0d || (0x20 ≤ n && n ≤ 0x7e) || n = 0x85 ||
    (0xa0 ≤ n && n ≤ 0xd7ff) || (0xe000 ≤ n && n ≤ 0xfffd) || (0x10000 ≤ n && n ≤ 0x10ffff)

/-- The character at the start of `b :: bytes`, and the number of octets after the first. -/
def firstCharacter (b : UInt8) (bytes : List UInt8) : Except EncodingProblem (Char × Nat) :=
  match octetCount b with
  | none => .error .leadingOctet
  | some width =>
    let trailing := bytes.take (width - 1)
    if trailing.length < width - 1 then .error .incomplete
    else
      match trailingBits (leadingBits width b) trailing with
      | .error e => .error e
      | .ok n =>
        if n < leastValue width then .error .length
        else if (0xd800 ≤ n ∧ n ≤ 0xdfff) ∨ 0x10ffff < n then .error .notUnicode
        else if isAllowed n then .ok (Char.ofNat n, width - 1)
        else .error .control

/-- The value of two bytes. -/
def word (bigEndian : Bool) (a b : UInt8) : Nat :=
  if bigEndian then a.toNat * 256 + b.toNat else b.toNat * 256 + a.toNat

def isHighSurrogate (n : Nat) : Bool :=
  n / 1024 = 0xd800 / 1024

def isLowSurrogate (n : Nat) : Bool :=
  n / 1024 = 0xdc00 / 1024

/-- The character at the start of `a :: b :: bytes`, which are words of two bytes, and the number of
bytes after the first two. -/
def firstWideCharacter (bigEndian : Bool) (a b : UInt8) (bytes : List UInt8) :
    Except EncodingProblem (Char × Nat) :=
  let first := word bigEndian a b
  let checked (n more : Nat) : Except EncodingProblem (Char × Nat) :=
    if isAllowed n then .ok (Char.ofNat n, more) else .error .control
  if isLowSurrogate first then .error .lowSurrogate
  else if isHighSurrogate first then
    match bytes with
    | c :: d :: _ =>
      let second := word bigEndian c d
      if isLowSurrogate second then checked (0x10000 + first % 1024 * 1024 + second % 1024) 2
      else .error .noLowSurrogate
    | _ => .error .halfPair
  else checked first 0

/-- How characters are written as bytes. -/
inductive Encoding where
  | utf8
  | utf16 (bigEndian : Bool)
  deriving DecidableEq, Repr

namespace Encoding

/-- The number of bytes of the character at the start of `b :: bytes`, as far as they tell. -/
def width (e : Encoding) (b : UInt8) (bytes : List UInt8) : Nat :=
  match e, bytes with
  | utf8, _ => (octetCount b).getD 1
  | utf16 _, [] => 2
  | utf16 bigEndian, c :: _ => if isHighSurrogate (word bigEndian b c) then 4 else 2

/-- The character at the start of `b :: bytes`, and the number of bytes after the first. -/
def first (e : Encoding) (b : UInt8) (bytes : List UInt8) : Except EncodingProblem (Char × Nat) :=
  match e, bytes with
  | utf8, _ => firstCharacter b bytes
  | utf16 _, [] => .error .halfWord
  | utf16 bigEndian, c :: bytes =>
    (firstWideCharacter bigEndian b c bytes).map fun (ch, more) => (ch, more + 1)

end Encoding

/-- The number of bytes that are read at a time. -/
def blockSize : Nat := 512

/-- Decodes bytes, of which the first `skip` belong to a character that has been read. `before` holds the
characters up to here and `block` those in front of the block here, last one first, and `room` is the
number of bytes left in the block. A character that is cut off starts the next block. -/
def decodeOnto (e : Encoding) (block before : List Char) (room : Nat) :
    (skip : Nat) → List UInt8 → List Char × Option EncodingProblem
  | _, [] => (before.reverse, none)
  | skip + 1, _ :: bytes => decodeOnto e block before (room - 1) skip bytes
  | 0, b :: bytes =>
    let width := e.width b bytes
    let isCut := room < width || (bytes.take (width - 1)).length < width - 1
    let block := if isCut then before else block
    let room := if isCut then blockSize else room
    match e.first b bytes with
    | .error p => (block.reverse, some p)
    | .ok (c, more) => decodeOnto e block (c :: before) (room - 1) more bytes

/-- The byte order mark. -/
def byteOrderMark : Char := '\ufeff'

/-- The characters of a text up to the first block that cannot be read, and what is wrong with that. -/
def characters (bytes : List UInt8) : List Char × Option EncodingProblem :=
  match bytes with
  | 0xff :: 0xfe :: rest => decodeOnto (.utf16 false) [] [] (blockSize - 2) 0 rest
  | 0xfe :: 0xff :: rest => decodeOnto (.utf16 true) [] [] (blockSize - 2) 0 rest
  | 0xef :: 0xbb :: 0xbf :: rest => decodeOnto .utf8 [] [] (blockSize - 3) 0 rest
  | _ => decodeOnto .utf8 [] [] blockSize 0 bytes

/-! ## Classes -/

def isBreak (c : Char) : Bool :=
  c = '\n' || c = '\r' || c = '\x85' || c = '\u2028' || c = '\u2029'

def isBlank (c : Char) : Bool :=
  c = ' ' || c = '\t'

/-- Whether a text starts with a blank or a line break, or is at its end. -/
def startsBlank : List Char → Bool
  | [] => true
  | c :: _ => isBlank c || isBreak c

/-- Whether a text is at the end of a line. -/
def startsBreak : List Char → Bool
  | [] => true
  | c :: _ => isBreak c

/-- The characters of names. -/
def isWord (c : Char) : Bool :=
  c.isAlphanum || c = '_' || c = '-'

/-- Whether a line starts with a mark between documents. -/
def startsDocument : List Char → Bool
  | '-' :: '-' :: '-' :: rest => startsBlank rest
  | '.' :: '.' :: '.' :: rest => startsBlank rest
  | _ => false

/-! ## Places -/

/-- A place in a text. Lines and columns count from zero. -/
structure Cursor where
  rest : List Char
  line : Nat := 0
  column : Nat := 0
  /-- The number of characters in front. -/
  index : Nat := 0
  /-- The number of characters of the whole text. -/
  total : Nat := rest.length
  /-- What is wrong with the bytes after `rest`, if `rest` ends only because of that. -/
  unreadable : Option EncodingProblem := none
  deriving DecidableEq, Repr

namespace Cursor

/-- The place `n` characters on, none of which is a line break. -/
def skip (c : Cursor) (n : Nat) : Cursor :=
  { c with rest := c.rest.drop n, column := c.column + n, index := c.index + n }

/-- The place after the characters of a class, which has no line break in it. -/
def skipWhile (c : Cursor) (p : Char → Bool) : Cursor :=
  c.skip (c.rest.takeWhile p).length

/-- The place after the line break here, if there is one. -/
def skipLine (c : Cursor) : Cursor :=
  match c.rest with
  | '\r' :: '\n' :: rest => { c with rest, line := c.line + 1, column := 0, index := c.index + 2 }
  | b :: rest =>
    if isBreak b then { c with rest, line := c.line + 1, column := 0, index := c.index + 1 } else c
  | [] => c

/-- What the line break here stands for in a scalar, nothing if there is none. -/
def lineBreak (c : Cursor) : List Char :=
  match c.rest with
  | b :: _ => if b = '\u2028' || b = '\u2029' then [b] else if isBreak b then ['\n'] else []
  | [] => []

/-- What is wrong if more than `n` characters are needed here. -/
def shortage? (c : Cursor) (n : Nat) : Option ScanError :=
  match c.unreadable with
  | some p => if c.rest.drop n = [] then some ⟨.unreadable p, 0, 0⟩ else none
  | none => none

/-- Fails if `n` characters are needed here and the bytes after them cannot be read. -/
def need (c : Cursor) (n : Nat) : Except ScanError Unit :=
  match c.shortage? (n - 1) with
  | some e => .error e
  | none => .ok ()

/-- A fault noticed here in a construct that starts at a line. At the end it is rather one of the bytes
after it, if there are any. -/
def fault (c : Cursor) (start : Nat) (p : Problem) : ScanError :=
  (c.shortage? 0).getD ⟨p, start, c.line⟩

/-- Whether a mark between documents stands here. -/
def atDocument (c : Cursor) : Bool :=
  c.column = 0 && startsDocument c.rest

/-- The place after the rest of the line. -/
def skipComment (c : Cursor) : Cursor :=
  c.skipWhile fun ch => !isBreak ch

end Cursor

end TapeLang.Yaml
