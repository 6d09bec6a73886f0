import Mathlib.Data.List.Basic
import TapeLang.Target.CSource

/-!
# Statements of C source

The statements that programs are written in, one on a line, and a reader for them. The reader knows
the grammar of the statements and not how they come to be written.

* `CStatement`: the eight forms. `CStatement.text`: a statement as it is written.
* `CStatement.reader`: reads the statement that a text starts with.
* `run_word_of_differs`: forms that start with different words are not taken for each other.
* `run_number`, `run_cell`, `run_reader`: numbers, cells and statements are read back, whatever
  comes after them.
-/

namespace TapeLang

/-- A statement of the source of a program. -/
inductive CStatement where
  | move (delta : Int64)
  | add (addr : Int64) (value : Int8)
  | set (addr : Int64) (value : Int8)
  | put (addr : Int64)
  /-- Reads a character, to be stored by the next statement. -/
  | get
  | store (addr : Int64)
  | openLoop
  | closeLoop
  deriving DecidableEq, Repr

/-- A statement as it is written. -/
def CStatement.text : CStatement → String
  | move d => "pointer += " ++ toString d.toInt ++ ";"
  | add a v => cCell a ++ " += " ++ toString v.toInt ++ ";"
  | set a v => cCell a ++ " = " ++ toString v.toInt ++ ";"
  | put a => "putchar(" ++ cCell a ++ ");"
  | get => "c = getchar();"
  | store a => cCell a ++ " = c == EOF ? 0 : c;"
  | openLoop => "while (buffer[pointer]) \x7b"
  | closeLoop => "\x7d"

namespace CStatement

/-- Reads something at the start of a text, and leaves the rest. -/
abbrev Reader := StateT (List Char) Option

/-! ## Words -/

/-- Reads some words. -/
def word (words : String) : Reader Unit := fun cs =>
  (cs.dropPrefix? words.toList).map fun rest => ((), rest)

theorem run_word (words : String) (rest : List Char) :
    (word words).run (words.toList ++ rest) = some ((), rest) := by
  have found := List.dropPrefix?_append_of_beq rest (beq_self_eq_true words.toList)
  simp only [word, StateT.run, found, Option.map_some]

/-- Words are not found in front of a text that starts with others, if neither words start with
the other. -/
theorem run_word_of_differs {words others : String}
    (h : ¬ words.toList <+: others.toList ∧ ¬ others.toList <+: words.toList) (rest : List Char) :
    (word words).run (others.toList ++ rest) = none := by
  rcases found : (others.toList ++ rest).dropPrefix? words.toList with _ | r
  · simp only [word, StateT.run, found, Option.map_none]
  obtain ⟨w, split, same⟩ := List.dropPrefix?_eq_some_iff.1 found
  obtain rfl := eq_of_beq same
  have first : words.toList <+: others.toList ++ rest := ⟨r, split.symm⟩
  rcases List.prefix_or_prefix_of_prefix first (List.prefix_append _ rest) with le | le
  · exact absurd le h.1
  · exact absurd le h.2

section

variable {α β : Type} {x y : Reader α} {cs rest : List Char}

theorem run_bind_of_some {a : α} (h : x.run cs = some (a, rest)) (f : α → Reader β) :
    (x >>= f).run cs = (f a).run rest := by
  rw [StateT.run_bind, h]
  rfl

theorem run_bind_of_none (h : x.run cs = none) (f : α → Reader β) : (x >>= f).run cs = none := by
  rw [StateT.run_bind, h]
  rfl

theorem run_orElse_of_some {r : α × List Char} (h : x.run cs = some r) :
    (x <|> y).run cs = some r := by
  rw [StateT.run_orElse, h]
  rfl

theorem run_orElse_of_none (h : x.run cs = none) : (x <|> y).run cs = y.run cs := by
  rw [StateT.run_orElse, h]
  exact Option.none_or

/-- A form that starts with other words is passed over. -/
theorem run_skip {words others : String}
    (h : ¬ words.toList <+: others.toList ∧ ¬ others.toList <+: words.toList)
    {f : Unit → Reader α} :
    (word words >>= f <|> y).run (others.toList ++ rest) = y.run (others.toList ++ rest) :=
  run_orElse_of_none (run_bind_of_none (run_word_of_differs h rest) f)

end

/-! ## Numbers -/

/-- Reads digits as a number. There is at least one. -/
def digits : Reader Nat := fun cs =>
  match cs.takeWhile Char.isDigit with
  | [] => none
  | ds => some (Nat.ofDigitChars 10 ds 0, cs.dropWhile Char.isDigit)

/-- Reads a number, which may have a minus in front. -/
def number : Reader Int :=
  (do
    word "-"
    return -(← digits))
  <|> (do return ← digits)

/-- No digit comes first, so a number in front of the text ends there. -/
def EndsNumber (rest : List Char) : Prop :=
  ∀ c ∈ rest.head?, c.isDigit = false

theorem isDigit_of_mem_repr {n : Nat} {c : Char} (h : c ∈ n.repr.toList) : c.isDigit = true :=
  Nat.isDigit_of_mem_toDigits (by decide) (by decide) (Nat.toList_repr ▸ h)

theorem exists_digit_repr (n : Nat) : ∃ d ds, n.repr.toList = d :: ds ∧ d.isDigit = true := by
  have ne : n.repr.toList ≠ [] := by
    rw [Nat.toList_repr]
    exact Nat.toDigits_ne_nil
  obtain ⟨d, ds, h⟩ := List.exists_cons_of_ne_nil ne
  exact ⟨d, ds, h, isDigit_of_mem_repr (h ▸ List.mem_cons_self)⟩

theorem run_digits (n : Nat) {rest : List Char} (h : EndsNumber rest) :
    digits.run (n.repr.toList ++ rest) = some (n, rest) := by
  have digit : ∀ d ∈ n.repr.toList, d.isDigit = true := fun _ => isDigit_of_mem_repr
  have stops : rest.takeWhile Char.isDigit = [] ∧ rest.dropWhile Char.isDigit = rest := by
    cases rest with
    | nil => exact ⟨rfl, rfl⟩
    | cons c cs =>
      have hc : c.isDigit = false := h c rfl
      simp [hc]
  have value : Nat.ofDigitChars 10 n.repr.toList 0 = n := by
    rw [Nat.toList_repr, Nat.ofDigitChars_ten_toDigits]
  obtain ⟨d, ds, hd, -⟩ := exists_digit_repr n
  rw [StateT.run, digits, List.takeWhile_append_of_pos digit, List.dropWhile_append_of_pos digit,
    stops.1, stops.2, List.append_nil]
  rw [hd] at value ⊢
  simp only [value]

/-- Digits have no minus in front. -/
theorem run_minus_repr (n : Nat) (rest : List Char) :
    (word "-").run (n.repr.toList ++ rest) = none := by
  obtain ⟨d, ds, hd, digit⟩ := exists_digit_repr n
  have other : (d == '-') = false := by
    rw [beq_eq_false_iff_ne]
    rintro rfl
    simp at digit
  rw [hd]
  simp [word, StateT.run, List.dropPrefix?, other]

/-- A number is read back if no digit comes after it. -/
theorem run_number (n : Int) {rest : List Char} (h : EndsNumber rest) :
    number.run ((toString n).toList ++ rest) = some (n, rest) := by
  rw [Int.toString_eq_repr, Int.repr_eq_if, number]
  split
  · rename_i le
    rw [run_orElse_of_none (run_bind_of_none (run_minus_repr _ _) _),
      run_bind_of_some (run_digits _ h)]
    simp [Int.toNat_of_nonneg le]
  · rename_i lt
    have back : -((-n).toNat : Int) = n := by omega
    rw [String.toList_append, List.append_assoc]
    apply run_orElse_of_some
    rw [run_bind_of_some (run_word _ _), run_bind_of_some (run_digits _ h), back]
    rfl

/-- A number has digits and perhaps a minus. -/
theorem mem_toString {n : Int} {c : Char} (h : c ∈ (toString n).toList) :
    c.isDigit = true ∨ c = '-' := by
  rw [Int.toString_eq_repr, Int.repr_eq_if] at h
  split at h
  · exact .inl (isDigit_of_mem_repr h)
  · rw [String.toList_append, List.mem_append] at h
    rcases h with minus | digit
    · exact .inr (by simpa using minus)
    · exact .inl (isDigit_of_mem_repr digit)

/-- Reads a number of 64 bits. -/
def int64 : Reader Int64 := do
  let n ← number
  if (Int64.ofInt n).toInt = n then return Int64.ofInt n else failure

/-- Reads a number of eight bits. -/
def int8 : Reader Int8 := do
  let n ← number
  if (Int8.ofInt n).toInt = n then return Int8.ofInt n else failure

theorem run_int64 (n : Int64) {rest : List Char} (h : EndsNumber rest) :
    int64.run ((toString n.toInt).toList ++ rest) = some (n, rest) := by
  rw [int64, run_bind_of_some (run_number _ h), Int64.ofInt_toInt, if_pos rfl]
  rfl

theorem run_int8 (n : Int8) {rest : List Char} (h : EndsNumber rest) :
    int8.run ((toString n.toInt).toList ++ rest) = some (n, rest) := by
  rw [int8, run_bind_of_some (run_number _ h), Int8.ofInt_toInt, if_pos rfl]
  rfl

/-! ## Cells -/

/-- What stands after the pointer in a cell. -/
def index (a : Int64) : String :=
  if 0 < a then " + " ++ toString a.toInt ++ "]"
  else if a < 0 then " - " ++ toString (-a).toInt ++ "]"
  else "]"

theorem cCell_eq (a : Int64) : cCell a = "buffer[pointer" ++ index a := by
  unfold cCell index
  split
  · rfl
  · split
    · rfl
    · rfl

/-- Reads the address of a cell. -/
def cell : Reader Int64 := do
  word "buffer[pointer"
  (do
    word "]"
    return 0)
  <|> (do
    word " + "
    let a ← int64
    word "]"
    return a)
  <|> (do
    word " - "
    let a ← int64
    word "]"
    return -a)

/-- A cell is read back. The least address is written as its own negative, and is read as that. -/
theorem run_cell (a : Int64) (rest : List Char) :
    cell.run ((cCell a).toList ++ rest) = some (a, rest) := by
  have ends : EndsNumber ("]".toList ++ rest) := by simp [EndsNumber]
  rw [cCell_eq, String.toList_append, List.append_assoc, cell, run_bind_of_some (run_word _ _)]
  unfold index
  split
  · simp only [String.toList_append, List.append_assoc]
    rw [run_skip (by decide)]
    apply run_orElse_of_some
    rw [run_bind_of_some (run_word _ _), run_bind_of_some (run_int64 _ ends),
      run_bind_of_some (run_word _ _)]
    rfl
  · rename_i le
    split
    · simp only [String.toList_append, List.append_assoc]
      rw [run_skip (by decide), run_skip (by decide), run_bind_of_some (run_word _ _),
        run_bind_of_some (run_int64 _ ends), run_bind_of_some (run_word _ _), Int64.neg_neg]
      rfl
    · rename_i ge
      obtain rfl : a = 0 := by
        rw [Int64.lt_iff_toInt_lt, Int64.toInt_zero] at le ge
        exact Int64.toInt_inj.1 (by rw [Int64.toInt_zero]; omega)
      apply run_orElse_of_some
      rw [run_bind_of_some (run_word _ _)]
      rfl

/-! ## Statements -/

/-- Reads what is done to the cell at `a`. -/
def assignment (a : Int64) : Reader CStatement :=
  (do
    word " += "
    let v ← int8
    word ";"
    return .add a v)
  <|> (do
    word " = "
    let v ← int8
    word ";"
    return .set a v)
  <|> (do
    word " = c == EOF ? 0 : c;"
    return .store a)

/-- Reads a statement. -/
def reader : Reader CStatement :=
  (do
    word "c = getchar();"
    return .get)
  <|> (do
    word "while (buffer[pointer]) \x7b"
    return .openLoop)
  <|> (do
    word "\x7d"
    return .closeLoop)
  <|> (do
    word "pointer += "
    let d ← int64
    word ";"
    return .move d)
  <|> (do
    word "putchar("
    let a ← cell
    word ");"
    return .put a)
  <|> (do
    let a ← cell
    assignment a)

theorem endsNumber_semicolon (rest : List Char) : EndsNumber (";".toList ++ rest) := by
  simp [EndsNumber]

theorem run_assignment_add (a : Int64) (v : Int8) (rest : List Char) :
    (assignment a).run (" += ".toList ++ ((toString v.toInt).toList ++ (";".toList ++ rest))) =
      some (.add a v, rest) := by
  apply run_orElse_of_some
  rw [run_bind_of_some (run_word _ _), run_bind_of_some (run_int8 _ (endsNumber_semicolon rest)),
    run_bind_of_some (run_word _ _)]
  rfl

theorem run_assignment_set (a : Int64) (v : Int8) (rest : List Char) :
    (assignment a).run (" = ".toList ++ ((toString v.toInt).toList ++ (";".toList ++ rest))) =
      some (.set a v, rest) := by
  rw [assignment, run_skip (by decide)]
  apply run_orElse_of_some
  rw [run_bind_of_some (run_word _ _), run_bind_of_some (run_int8 _ (endsNumber_semicolon rest)),
    run_bind_of_some (run_word _ _)]
  rfl

/-- The words of a store start like those of a number that is set, but no number follows. -/
theorem run_assignment_store (a : Int64) (rest : List Char) :
    (assignment a).run (" = c == EOF ? 0 : c;".toList ++ rest) = some (.store a, rest) := by
  have noNumber : number.run ("c == EOF ? 0 : c;".toList ++ rest) = none := by
    rw [number, run_skip (by decide)]
    exact run_bind_of_none (by simp [digits, StateT.run]) _
  rw [assignment, run_skip (by decide), run_orElse_of_none, run_bind_of_some (run_word _ _)]
  · rfl
  · change (word " = " >>= _).run (" = ".toList ++ ("c == EOF ? 0 : c;".toList ++ rest)) = none
    rw [run_bind_of_some (run_word _ _)]
    exact run_bind_of_none (run_bind_of_none noNumber _) _

/-- A statement that starts with a cell is an assignment to it. -/
theorem run_reader_cell (a : Int64) (rest : List Char) :
    reader.run ((cCell a).toList ++ rest) = (assignment a).run rest := by
  rw [← run_bind_of_some (run_cell a rest), cCell_eq, String.toList_append, List.append_assoc,
    reader, run_skip (by decide), run_skip (by decide), run_skip (by decide), run_skip (by decide),
    run_skip (by decide)]

/-- A statement is read back, whatever comes after it. -/
theorem run_reader (s : CStatement) (rest : List Char) :
    reader.run (s.text.toList ++ rest) = some (s, rest) := by
  cases s with
  | move d =>
    simp only [text, String.toList_append, List.append_assoc]
    rw [reader, run_skip (by decide), run_skip (by decide), run_skip (by decide)]
    apply run_orElse_of_some
    rw [run_bind_of_some (run_word _ _), run_bind_of_some (run_int64 _ (endsNumber_semicolon rest)),
      run_bind_of_some (run_word _ _)]
    rfl
  | add a v =>
    simp only [text, String.toList_append, List.append_assoc]
    rw [run_reader_cell, run_assignment_add]
  | set a v =>
    simp only [text, String.toList_append, List.append_assoc]
    rw [run_reader_cell, run_assignment_set]
  | put a =>
    simp only [text, String.toList_append, List.append_assoc]
    rw [reader, run_skip (by decide), run_skip (by decide), run_skip (by decide),
      run_skip (by decide)]
    apply run_orElse_of_some
    rw [run_bind_of_some (run_word _ _), run_bind_of_some (run_cell _ _),
      run_bind_of_some (run_word _ _)]
    rfl
  | get =>
    apply run_orElse_of_some
    exact run_bind_of_some (run_word _ _) _
  | store a =>
    simp only [text, String.toList_append, List.append_assoc]
    rw [run_reader_cell, run_assignment_store]
  | openLoop =>
    rw [text, reader, run_skip (by decide)]
    apply run_orElse_of_some
    exact run_bind_of_some (run_word _ _) _
  | closeLoop =>
    rw [text, reader, run_skip (by decide), run_skip (by decide)]
    apply run_orElse_of_some
    exact run_bind_of_some (run_word _ _) _

end CStatement

end TapeLang
