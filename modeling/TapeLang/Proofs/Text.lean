import TapeLang.Program.Text
import TapeLang.Proofs.CSource

/-!
# Telling programs apart

Programs are told apart by comparing them. Their texts tell them apart too, but for operations that
cannot be run and for values that have no use.

* `Program.labelAt?`: what stands at a place of a program, by the numbers of the elements that lead
  there. `eq_of_labelAt?_eq`: these labels are all that there is to a program.
* `Program.textAfter`: what is written after an opening bracket or after an item, up to the
  closing bracket.
* `Label.headReader`: reads what such a text starts with. `run_headReader`: that is the label of the
  first element.
* `textAfter_append_inj`: texts are told apart also if something comes after them, so that none is
  the start of another.
* `equal_and_text_tell_apart`: both ways to tell programs apart.
-/

namespace TapeLang

/-! ## Places -/

/-- What an element is, without the elements inside it. -/
inductive Label where
  | move (delta : Int64)
  /-- An operation with the number of its kind. -/
  | cell (addr : Int64) (kind : UInt8) (value : Int8)
  | loop
  deriving DecidableEq, Repr

def Token.label : Token → Label
  | move d => .move d
  | cell a op => .cell a op.kind op.value
  | loop _ => .loop

namespace CellOp

/-- An operation is made from the number of its kind and its value. -/
theorem ofKind_kind (op : CellOp) : ofKind op.kind op.value = op := by
  cases op with
  | add v | set v | print v | read v => rfl
  | unknown extra v =>
    have number : (UInt8.ofNat (4 + extra)).toNat = 4 + extra :=
      UInt8.toNat_ofNat_of_lt (by have := extra.isLt; simp only [UInt8.size]; omega)
    simp only [kind, value, ofKind, number, Nat.le_add_right, ↓reduceDIte, Nat.add_sub_cancel_left,
      Fin.eta]

theorem eq_of_kind_eq {op op' : CellOp} (kind : op.kind = op'.kind) (value : op.value = op'.value) :
    op = op' := by
  rw [← ofKind_kind op, kind, value, ofKind_kind]

end CellOp

theorem Token.label_cell_inj {a a' : Int64} {op op' : CellOp}
    (h : (cell a op).label = (cell a' op').label) :
    a = a' ∧ op = op' := by
  obtain ⟨addr, kind, value⟩ := Label.cell.inj h
  exact ⟨addr, CellOp.eq_of_kind_eq kind value⟩

namespace Program

/-- The label of the element that a path leads to. A path has a number for each loop around the
element, outermost first, and one for the element itself: how many elements come before it in
its sequence. -/
def labelAt? (p : Program) : (path : List Nat) → Option Label
  | [] => none
  | [i] => p.tokens[i]?.map Token.label
  | i :: j :: path =>
    match p.tokens[i]? with
    | some (.loop b) => b.labelAt? (j :: path)
    | _ => none

theorem labelAt?_cons_succ (t : Token) (p : Program) (i : Nat) (path : List Nat) :
    (cons t p).labelAt? ((i + 1) :: path) = p.labelAt? (i :: path) := by
  cases t <;> cases path <;> rfl

/-- Sequences with the same labels everywhere have them also after their first elements. -/
theorem labelAt?_eq_of_cons {t u : Token} {p q : Program}
    (h : ∀ path, (cons t p).labelAt? path = (cons u q).labelAt? path) (path : List Nat) :
    p.labelAt? path = q.labelAt? path := by
  cases path with
  | nil => rfl
  | cons i path =>
    have later := h ((i + 1) :: path)
    rwa [labelAt?_cons_succ, labelAt?_cons_succ] at later

/-- Loops with the same labels everywhere have them also inside. -/
theorem labelAt?_eq_of_loop {b c p q : Program}
    (h : ∀ path, (loop b p).labelAt? path = (loop c q).labelAt? path) (path : List Nat) :
    b.labelAt? path = c.labelAt? path := by
  cases path with
  | nil => rfl
  | cons i path => exact h (0 :: i :: path)

/-- Programs with the same labels everywhere are the same. -/
theorem eq_of_labelAt?_eq {p q : Program} (h : ∀ path, p.labelAt? path = q.labelAt? path) :
    p = q := by
  induction p generalizing q with
  | done =>
    cases q with
    | done => rfl
    | move | cell | loop => nomatch h [0]
  | move d p ih =>
    cases q with
    | move d' q =>
      obtain rfl : d = d' := Label.move.inj (Option.some.inj (h [0]))
      rw [ih (labelAt?_eq_of_cons (t := .move d) (u := .move d) h)]
    | done | cell | loop => nomatch h [0]
  | cell a op p ih =>
    cases q with
    | cell a' op' q =>
      obtain ⟨rfl, rfl⟩ := Token.label_cell_inj (Option.some.inj (h [0]))
      rw [ih (labelAt?_eq_of_cons (t := .cell a op) (u := .cell a op) h)]
    | done | move | loop => nomatch h [0]
  | loop b p ihb ih =>
    cases q with
    | loop c q =>
      rw [ihb (labelAt?_eq_of_loop h), ih (labelAt?_eq_of_cons (t := .loop b) (u := .loop c) h)]
    | done | move | cell => nomatch h [0]

/-! ## What is written after a bracket or an item -/

/-- Items up to the closing bracket. The first one has `sep` in front of it. -/
def itemsAfter (sep : String) : List String → String
  | [] => "]"
  | i :: is => sep ++ (i ++ itemsAfter ", " is)

theorem intercalate_append_bracket (i : String) (is : List String) :
    ", ".intercalate (i :: is) ++ "]" = i ++ itemsAfter ", " is := by
  induction is generalizing i with
  | nil => rw [String.intercalate_singleton, itemsAfter]
  | cons j is ih =>
    rw [String.intercalate_cons_cons, String.append_assoc, String.append_assoc, ih, itemsAfter]

theorem bracketed_eq (is : List String) : bracketed is = "[" ++ itemsAfter "" is := by
  cases is with
  | nil => rfl
  | cons i is =>
    rw [bracketed, String.append_assoc, intercalate_append_bracket, itemsAfter, String.empty_append]

/-- What is written of the elements of a program up to the closing bracket. -/
def textAfter (sep : String) (p : Program) : List Char :=
  (itemsAfter sep p.items).toList

theorem toList_text (p : Program) : p.text.toList = "[".toList ++ p.textAfter "" := by
  rw [text, bracketed_eq, String.toList_append, textAfter]

theorem textAfter_move (sep : String) (d : Int64) (p : Program) (rest : List Char) :
    (move d p).textAfter sep ++ rest =
      sep.toList ++ ("ChangeAddr(".toList ++ ((toString d.toInt).toList ++
      (")".toList ++ (p.textAfter ", " ++ rest)))) := by
  simp only [textAfter, items, itemsAfter, String.toList_append, List.append_assoc]

theorem textAfter_cell (sep : String) (a : Int64) (op : CellOp) (p : Program) (rest : List Char) :
    (cell a op p).textAfter sep ++ rest =
      sep.toList ++ ("Offset(".toList ++ ((toString a.toInt).toList ++
      (", ".toList ++ (op.text.toList ++ (")".toList ++ (p.textAfter ", " ++ rest)))))) := by
  simp only [textAfter, items, itemsAfter, String.toList_append, List.append_assoc]

theorem textAfter_loop (sep : String) (b p : Program) (rest : List Char) :
    (loop b p).textAfter sep ++ rest =
      sep.toList ++ ("Loop".toList ++ ("[".toList ++ (b.textAfter "" ++
      (p.textAfter ", " ++ rest)))) := by
  simp only [textAfter, items, itemsAfter, bracketed_eq, String.toList_append, List.append_assoc]

end Program

/-! ## Reading what comes first -/

-- Words and numbers are read as they are in statements.
open CStatement

/-- Reads an operation that can be run. -/
def CellOp.reader : Reader CellOp :=
  (do
    word "ChangeValue("
    let v ← int8
    word ")"
    return .add v)
  <|> (do
    word "SetValue("
    let v ← int8
    word ")"
    return .set v)
  <|> (do
    word "Print"
    return .print 0)
  <|> (do
    word "Read"
    return .read 0)

theorem endsNumber_paren (rest : List Char) : EndsNumber (")".toList ++ rest) := by
  simp [EndsNumber]

theorem endsNumber_comma (rest : List Char) : EndsNumber (", ".toList ++ rest) := by
  simp [EndsNumber]

/-- The text of an operation is read back, but for a value that has no use. -/
theorem CellOp.run_reader {op : CellOp} (h : op.IsKnown) (rest : List Char) :
    CellOp.reader.run (op.text.toList ++ rest) = some (op.forgetUnused, rest) := by
  cases op with
  | add v =>
    simp only [text, String.toList_append, List.append_assoc]
    apply run_orElse_of_some
    rw [run_bind_of_some (run_word _ _), run_bind_of_some (run_int8 _ (endsNumber_paren rest)),
      run_bind_of_some (run_word _ _)]
    rfl
  | set v =>
    simp only [text, String.toList_append, List.append_assoc]
    rw [CellOp.reader, run_skip (by decide)]
    apply run_orElse_of_some
    rw [run_bind_of_some (run_word _ _), run_bind_of_some (run_int8 _ (endsNumber_paren rest)),
      run_bind_of_some (run_word _ _)]
    rfl
  | print u =>
    rw [text, CellOp.reader, run_skip (by decide), run_skip (by decide)]
    apply run_orElse_of_some
    exact run_bind_of_some (run_word _ _) _
  | read u =>
    rw [text, CellOp.reader, run_skip (by decide), run_skip (by decide), run_skip (by decide)]
    exact run_bind_of_some (run_word _ _) _
  | unknown n v => exact h.elim

namespace Label

/-- Reads an element as its label. Of a loop only the start is read. -/
def reader : Reader Label :=
  (do
    word "ChangeAddr("
    let d ← int64
    word ")"
    return (Token.move d).label)
  <|> (do
    word "Offset("
    let a ← int64
    word ", "
    let op ← CellOp.reader
    word ")"
    return (Token.cell a op).label)
  <|> (do
    word "Loop"
    word "["
    return .loop)

/-- Reads an element that has `sep` in front of it, or the closing bracket. -/
def headReader (sep : String) : Reader (Option Label) :=
  (do
    word sep
    return some (← reader))
  <|> (do
    word "]"
    return none)

/-- What is in front of an element: nothing after a bracket, and a comma after an item. -/
def IsSeparator (sep : String) : Prop :=
  sep = "" ∨ sep = ", "

theorem run_headReader_of_reader (sep : String) {cs rest : List Char} {l : Label}
    (h : reader.run cs = some (l, rest)) :
    (headReader sep).run (sep.toList ++ cs) = some (some l, rest) := by
  apply run_orElse_of_some
  rw [run_bind_of_some (run_word _ _), run_bind_of_some h]
  rfl

/-- No element starts with a closing bracket. -/
theorem run_headReader_close {sep : String} (h : IsSeparator sep) (rest : List Char) :
    (headReader sep).run ("]".toList ++ rest) = some (none, rest) := by
  have noElement : reader.run ("]".toList ++ rest) = none := by
    rw [reader, run_skip (by decide), run_skip (by decide)]
    exact run_bind_of_none (run_word_of_differs (by decide) rest) _
  have noItem :
      (word sep >>= fun _ => do return some (← reader)).run ("]".toList ++ rest) = none := by
    rcases h with rfl | rfl
    · have nothing : (word "").run ("]".toList ++ rest) = _ := run_word "" ("]".toList ++ rest)
      rw [run_bind_of_some nothing, run_bind_of_none noElement]
    · exact run_bind_of_none (run_word_of_differs (by decide) rest) _
  rw [headReader, run_orElse_of_none noItem]
  exact run_bind_of_some (run_word _ _) _

end Label

namespace Program

open Label

/-- What is left of a text when its first element is read, of a loop its start, or else its
closing bracket. -/
def textAfterHead : Program → List Char → List Char
  | done, rest => rest
  | move _ p, rest => p.textAfter ", " ++ rest
  | cell _ _ p, rest => p.textAfter ", " ++ rest
  | loop b p, rest => b.textAfter "" ++ (p.textAfter ", " ++ rest)

/-- A text starts with the label of the first element. -/
theorem run_headReader {p : Program} (h : p.OpsKnown) {sep : String} (hsep : IsSeparator sep)
    (rest : List Char) :
    (headReader sep).run (p.textAfter sep ++ rest) =
      some (p.forgetUnused.labelAt? [0], p.textAfterHead rest) := by
  cases p with
  | done => exact run_headReader_close hsep rest
  | move d p =>
    rw [textAfter_move]
    apply run_headReader_of_reader
    apply run_orElse_of_some
    rw [run_bind_of_some (run_word _ _), run_bind_of_some (run_int64 _ (endsNumber_paren _)),
      run_bind_of_some (run_word _ _)]
    rfl
  | cell a op p =>
    rw [textAfter_cell]
    apply run_headReader_of_reader
    rw [Label.reader, run_skip (by decide)]
    apply run_orElse_of_some
    rw [run_bind_of_some (run_word _ _), run_bind_of_some (run_int64 _ (endsNumber_comma _)),
      run_bind_of_some (run_word _ _), run_bind_of_some (CellOp.run_reader h.1 _),
        run_bind_of_some (run_word _ _)]
    rfl
  | loop b p =>
    rw [textAfter_loop]
    apply run_headReader_of_reader
    rw [Label.reader, run_skip (by decide), run_skip (by decide), run_bind_of_some (run_word _ _),
      run_bind_of_some (run_word _ _)]
    rfl

/-- Equal texts start with the same element and go on alike. -/
theorem head_eq_of_textAfter_eq {p q : Program} (hp : p.OpsKnown) (hq : q.OpsKnown) {sep : String}
    (hsep : IsSeparator sep) {rest rest' : List Char}
    (h : p.textAfter sep ++ rest = q.textAfter sep ++ rest') :
    p.forgetUnused.labelAt? [0] = q.forgetUnused.labelAt? [0] ∧
      p.textAfterHead rest = q.textAfterHead rest' := by
  have read := run_headReader hp hsep rest
  rw [h, run_headReader hq hsep rest'] at read
  obtain ⟨label, left⟩ := Prod.mk.inj (Option.some.inj read)
  exact ⟨label.symm, left.symm⟩

/-- Equal texts are of the same program, but for values that have no use, and end at the
same place. -/
theorem textAfter_append_inj {p q : Program} (hp : p.OpsKnown) (hq : q.OpsKnown) {sep : String}
    (hsep : IsSeparator sep) {rest rest' : List Char}
    (h : p.textAfter sep ++ rest = q.textAfter sep ++ rest') :
    p.forgetUnused = q.forgetUnused ∧ rest = rest' := by
  -- The body of a loop is read with the elements after the loop as its rest, so the rests are not
  -- fixed.
  induction p generalizing q sep rest rest' with
  | done =>
    obtain ⟨label, left⟩ := head_eq_of_textAfter_eq hp hq hsep h
    cases q with
    | done => exact ⟨rfl, left⟩
    | move | cell | loop => nomatch label
  | move d p ih =>
    obtain ⟨label, left⟩ := head_eq_of_textAfter_eq hp hq hsep h
    cases q with
    | move d' q =>
      obtain rfl : d = d' := Label.move.inj (Option.some.inj label)
      obtain ⟨next, ends⟩ := ih (q := q) hp hq (.inr rfl) left
      exact ⟨congrArg (move d) next, ends⟩
    | done | cell | loop => nomatch label
  | cell a op p ih =>
    obtain ⟨label, left⟩ := head_eq_of_textAfter_eq hp hq hsep h
    cases q with
    | cell a' op' q =>
      obtain ⟨rfl, sameOp⟩ := Token.label_cell_inj (Option.some.inj label)
      obtain ⟨next, ends⟩ := ih hp.2 hq.2 (.inr rfl) left
      exact ⟨congrArg₂ (cell a) sameOp next, ends⟩
    | done | move | loop => nomatch label
  | loop b p ihb ih =>
    obtain ⟨label, left⟩ := head_eq_of_textAfter_eq hp hq hsep h
    cases q with
    | loop c q =>
      obtain ⟨body, afterBody⟩ := ihb hp.1 hq.1 (.inl rfl) left
      obtain ⟨next, ends⟩ := ih hp.2 hq.2 (.inr rfl) afterBody
      exact ⟨congrArg₂ loop body next, ends⟩
    | done | move | cell => nomatch label

/-- No text of a program is the start of another. -/
theorem text_append_inj {p q : Program} (hp : p.OpsKnown) (hq : q.OpsKnown) {rest rest' : List Char}
    (h : p.text.toList ++ rest = q.text.toList ++ rest') :
    p.forgetUnused = q.forgetUnused ∧ rest = rest' := by
  rw [toList_text, toList_text, List.append_assoc, List.append_assoc] at h
  exact textAfter_append_inj hp hq (.inl rfl) (List.append_cancel_left h)

/-- Every operation can be run, and the values that have no use are zero. -/
def OpsPlain (p : Program) : Prop :=
  p.OpsKnown ∧ p.forgetUnused = p

/-- Comparing programs tells whether they are the same: whether they have the same elements with the
same moves, addresses, kinds of operations and values, at every place. So do their texts, if all
operations can be run and the values that have no use are zero. -/
theorem equal_and_text_tell_apart (p q : Program) :
    (p.equal q = true ↔ p = q) ∧
    (p.equal q = true ↔ ∀ path, p.labelAt? path = q.labelAt? path) ∧
    (p.OpsPlain → q.OpsPlain → (p.text = q.text ↔ p.equal q = true)) := by
  refine ⟨equal_iff p q, ?_, fun hp hq => ?_⟩
  · rw [equal_iff]
    exact ⟨fun same _ => by rw [same], eq_of_labelAt?_eq⟩
  · rw [equal_iff]
    refine ⟨fun same => ?_, congrArg text⟩
    have whole : p.text.toList ++ [] = q.text.toList ++ [] := by rw [same]
    have both := (text_append_inj hp.1 hq.1 whole).1
    rwa [hp.2, hq.2] at both

-- A value that has no use does not show.
example : (cell 0 (.print 1) done).text = (cell 0 (.print 2) done).text := rfl

/-- A move after a loop. -/
def moveAfterLoop : Program :=
  loop (cell 1 (.add (-1)) (cell 0 (.print 0) done)) (move 12 done)

/-- The same elements in the same order, but the move is the last one inside the loop. -/
def moveInsideLoop : Program :=
  loop (cell 1 (.add (-1)) (cell 0 (.print 0) (move 12 done))) done

theorem text_tells_moveAfterLoop_from_moveInsideLoop :
    moveAfterLoop.OpsPlain ∧ moveInsideLoop.OpsPlain ∧
      moveAfterLoop.text ≠ moveInsideLoop.text := by
  have after : moveAfterLoop.OpsPlain := ⟨⟨⟨trivial, trivial, trivial⟩, trivial⟩, rfl⟩
  have inside : moveInsideLoop.OpsPlain := ⟨⟨⟨trivial, trivial, trivial⟩, trivial⟩, rfl⟩
  refine ⟨after, inside, fun same => ?_⟩
  have equal := ((equal_and_text_tell_apart moveAfterLoop moveInsideLoop).2.2 after inside).1 same
  exact absurd equal (by decide)

end Program

end TapeLang
