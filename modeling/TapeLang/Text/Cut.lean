import TapeLang.Text.Utf8

/-!
# Cutting a text short

* `cut`: a text of more than a few bytes is told by its first bytes. A character that the cut goes
  through is told by one replacement character for each of its bytes that are left.
-/

namespace TapeLang.Text

/-- The characters in the first `n` bytes. -/
def takeBytes : (n : Nat) → List Char → List Char
  | _, [] => []
  | n, c :: cs =>
    if c.utf8Size ≤ n then c :: takeBytes (n - c.utf8Size) cs else List.replicate n replacement

/-- A text of at most `limit` bytes as it is, and the first `kept` bytes and dots for any other. -/
def cut (limit kept : Nat) (s : String) : String :=
  if s.utf8ByteSize ≤ limit then s else String.ofList (takeBytes kept s.toList) ++ "..."

end TapeLang.Text
