/-!
# Text from bytes

* `ofBytes`: the characters of bytes that should be UTF-8. Each byte that belongs to no character is told
  by a replacement character.
-/

namespace TapeLang.Text

/-- The character that stands for a byte that belongs to no character. -/
def replacement : Char := '�'

/-- The character at the start of some bytes, and the number of its bytes. -/
def firstOf? (bytes : List UInt8) : Option (Char × Nat) :=
  [1, 2, 3, 4].findSome? fun n => do
    let s ← String.fromUTF8? ⟨(bytes.take n).toArray⟩
    let c ← s.toList.head?
    return (c, n)

/-- The characters of bytes, of which the first `skip` belong to a character that has been read. -/
def charsOf (before : List Char) : (skip : Nat) → List UInt8 → List Char
  | _, [] => before.reverse
  | skip + 1, _ :: bytes => charsOf before skip bytes
  | 0, b :: bytes =>
    match firstOf? (b :: bytes) with
    | some (c, n) => charsOf (c :: before) (n - 1) bytes
    | none => charsOf (replacement :: before) 0 bytes

/-- The text of bytes. -/
def ofBytes (bytes : List UInt8) : String :=
  String.ofList (charsOf [] 0 bytes)

end TapeLang.Text
