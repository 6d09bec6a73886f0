import TapeLang.Proofs.Accept
import TapeLang.Proofs.CStatement

/-!
# Reading C source back

The source of a program determines the program, but for the values that its operations have no
use for.

* `Program.statementsOnto`: the statements of a program. `Program.ofStatements?`: the program that
  some statements are written from, with a stack of the loops that are open.
* `Indented`: lines with balanced braces and two spaces in front for every brace around.
* `readSource?`: the program of a source: the lines between the fixed first and last ones, each read
  as a statement.
* `cSource_determines_program`: what is written is laid out like this and is read back.
-/

namespace TapeLang

/-- The operation without a value that it has no use for. -/
def CellOp.forgetUnused : CellOp → CellOp
  | .print _ => .print 0
  | .read _ => .read 0
  | op => op

/-- The statements of an operation on the cell at `a`. -/
def CellOp.statements (a : Int64) : CellOp → List CStatement
  | .add v => [.add a v]
  | .set v => [.set a v]
  | .print _ => [.put a]
  | .read _ => [.get, .store a]
  | .unknown _ _ => []

theorem CellOp.cStatements_eq (a : Int64) (op : CellOp) :
    op.cStatements a = (op.statements a).map CStatement.text := by
  cases op <;> rfl

namespace Program

/-- The program without the values that its operations have no use for. -/
def forgetUnused : Program → Program
  | done => done
  | move d p => move d p.forgetUnused
  | cell a op p => cell a op.forgetUnused p.forgetUnused
  | loop b p => loop b.forgetUnused p.forgetUnused

/-- Every operation is of a kind that can be run. -/
def OpsKnown : Program → Prop
  | done => True
  | move _ p => p.OpsKnown
  | cell _ op p => op.IsKnown ∧ p.OpsKnown
  | loop b p => b.OpsKnown ∧ p.OpsKnown

/-! ## Statements -/

/-- The statements of a program, in front of `rest`. -/
def statementsOnto (rest : List CStatement) : Program → List CStatement
  | done => rest
  | move d p => .move d :: p.statementsOnto rest
  | cell a op p => op.statements a ++ p.statementsOnto rest
  | loop b p => .openLoop :: b.statementsOnto (.closeLoop :: p.statementsOnto rest)

/-- Reads statements inside the loops `outer`, each with the elements before it, after the elements
`kept`. Elements are kept last one first. -/
def ofStatementsAfter (outer : List Program) (kept : Program) : List CStatement → Option Program
  | [] =>
    match outer with
    | [] => some (kept.reverseOnto done)
    | _ :: _ => none
  | .move d :: rest => ofStatementsAfter outer (move d kept) rest
  | .add a v :: rest => ofStatementsAfter outer (cell a (.add v) kept) rest
  | .set a v :: rest => ofStatementsAfter outer (cell a (.set v) kept) rest
  | .put a :: rest => ofStatementsAfter outer (cell a (.print 0) kept) rest
  | .get :: .store a :: rest => ofStatementsAfter outer (cell a (.read 0) kept) rest
  | .get :: _ => none
  | .store _ :: _ => none
  | .openLoop :: rest => ofStatementsAfter (kept :: outer) done rest
  | .closeLoop :: rest =>
    match outer with
    | [] => none
    | before :: outer => ofStatementsAfter outer (loop (kept.reverseOnto done) before) rest

/-- The program that some statements are written from. -/
def ofStatements? (ss : List CStatement) : Option Program :=
  ofStatementsAfter [] done ss

theorem ofStatementsAfter_cell (outer : List Program) (kept : Program) (a : Int64) {op : CellOp}
    (h : op.IsKnown) (rest : List CStatement) :
    ofStatementsAfter outer kept (op.statements a ++ rest) =
      ofStatementsAfter outer (cell a op.forgetUnused kept) rest := by
  cases op with
  | add v | set v | print u | read u => rfl
  | unknown n v => exact h.elim

/-- The statements of a program add its elements to those before. -/
theorem ofStatementsAfter_statementsOnto {p : Program} (h : p.OpsKnown) (outer : List Program)
    (kept : Program) (rest : List CStatement) :
    ofStatementsAfter outer kept (p.statementsOnto rest) =
      ofStatementsAfter outer (p.forgetUnused.reverseOnto kept) rest := by
  induction p generalizing outer kept rest with
  | done => rfl
  | move d p ih => exact ih h outer (move d kept) rest
  | cell a op p ih =>
    rw [statementsOnto, ofStatementsAfter_cell _ _ _ h.1, ih h.2]
    rfl
  | loop b p ihb ih =>
    rw [statementsOnto, ofStatementsAfter, ihb h.1, ofStatementsAfter, ih h.2,
      reverseOnto_reverseOnto]
    simp only [reverseOnto, append_done]
    rfl

theorem ofStatements?_statementsOnto {p : Program} (h : p.OpsKnown) :
    ofStatements? (p.statementsOnto []) = some p.forgetUnused := by
  rw [ofStatements?, ofStatementsAfter_statementsOnto h, ofStatementsAfter, reverseOnto_reverseOnto]
  simp [reverseOnto]

end Program

/-! ## Lines -/

/-- The statement on a line, whatever spaces are in front of it. -/
def readLine? (line : List Char) : Option CStatement :=
  match CStatement.reader.run (line.dropWhile (· = ' ')) with
  | some (s, []) => some s
  | _ => none

/-- The statements on some lines. -/
def readLines? (lines : List (List Char)) : Option (List CStatement) :=
  lines.mapM readLine?

/-- The number of spaces that a line starts with. -/
def indentation (line : List Char) : Nat :=
  (line.takeWhile (· = ' ')).length

/-- From inside `depth` braces on, braces are balanced, and each line starts with two spaces for
every brace around it. A brace that a line closes is not around it. -/
def Indented : Nat → List (List Char) → Prop
  | depth, [] => depth = 0
  | depth, line :: rest =>
    line.count '\x7d' ≤ depth ∧ indentation line = 2 * (depth - line.count '\x7d') ∧
      Indented (depth - line.count '\x7d' + line.count '\x7b') rest

theorem toList_pushn (s : String) (c : Char) (n : Nat) :
    (s.pushn c n).toList = s.toList ++ List.replicate n c := by
  induction n with
  | zero => simp [String.pushn, Nat.repeat]
  | succ n ih =>
    rw [String.pushn] at ih
    rw [String.pushn, Nat.repeat, String.toList_push, ih, List.append_assoc, ← List.replicate_succ']

theorem toList_cIndent (depth : Nat) (s : String) :
    (cIndent depth s).toList = List.replicate (2 * depth) ' ' ++ s.toList := by
  rw [cIndent, String.toList_append, toList_pushn]
  simp

namespace CStatement

/-- A number has no braces and no line breaks. -/
theorem count_toString {c : Char} (h : c = '\x7b' ∨ c = '\x7d' ∨ c = '\n') (n : Int) :
    (toString n).toList.count c = 0 := by
  rw [List.count_eq_zero]
  intro mem
  rcases h with rfl | rfl | rfl
  · simpa using mem_toString mem
  · simpa using mem_toString mem
  · simpa using mem_toString mem

theorem count_cCell {c : Char} (h : c = '\x7b' ∨ c = '\x7d' ∨ c = '\n') (a : Int64) :
    (cCell a).toList.count c = 0 := by
  have other : ∀ w ∈ ["buffer[pointer", " + ", " - ", "]"], w.toList.count c = 0 := by
    rcases h with rfl | rfl | rfl <;> decide
  simp only [List.forall_mem_cons] at other
  obtain ⟨base, plus, minus, bracket, -⟩ := other
  rw [cCell_eq, String.toList_append, List.count_append, base, Nat.zero_add]
  unfold index
  split
  · simp only [String.toList_append, List.count_append, count_toString h, plus, bracket]
  · split
    · simp only [String.toList_append, List.count_append, count_toString h, minus, bracket]
    · exact bracket

/-- How many braces a statement opens. -/
def opens : CStatement → Nat
  | openLoop => 1
  | _ => 0

/-- How many braces a statement closes. -/
def closes : CStatement → Nat
  | closeLoop => 1
  | _ => 0

/-- The only braces are those of loops, and there are no line breaks. -/
theorem count_text {c : Char} (h : c = '\x7b' ∨ c = '\x7d' ∨ c = '\n') (s : CStatement) :
    s.text.toList.count c = if c = '\x7b' then s.opens else if c = '\x7d' then s.closes else 0 := by
  cases s with
  | move d =>
    simp only [text, String.toList_append, List.count_append, count_toString h]
    rcases h with rfl | rfl | rfl <;> simp [opens, closes]
  | add a v | set a v =>
    simp only [text, String.toList_append, List.count_append, count_toString h, count_cCell h]
    rcases h with rfl | rfl | rfl <;> simp [opens, closes]
  | put a | store a =>
    simp only [text, String.toList_append, List.count_append, count_cCell h]
    rcases h with rfl | rfl | rfl <;> simp [opens, closes]
  | get | openLoop | closeLoop => rcases h with rfl | rfl | rfl <;> decide

theorem count_line {c : Char} (h : c = '\x7b' ∨ c = '\x7d' ∨ c = '\n') (s : CStatement)
    (depth : Nat) :
    (cIndent depth s.text).toList.count c =
      if c = '\x7b' then s.opens else if c = '\x7d' then s.closes else 0 := by
  have space : (' ' == c) = false := by
    rcases h with rfl | rfl | rfl <;> decide
  rw [toList_cIndent, List.count_append, List.count_replicate, space, count_text h]
  simp

/-- No statement starts with a space. -/
theorem exists_text_eq (s : CStatement) : ∃ c cs, s.text.toList = c :: cs ∧ c ≠ ' ' := by
  cases s with
  | move d | put a =>
    simp only [text, String.toList_append]
    exact ⟨'p', _, rfl, by decide⟩
  | add a v | set a v | store a =>
    simp only [text, cCell_eq, String.toList_append]
    exact ⟨'b', _, rfl, by decide⟩
  | get | openLoop | closeLoop => exact ⟨_, _, rfl, by decide⟩

/-- The spaces in front of a statement are those that it is indented by. -/
theorem indentation_text (s : CStatement) (depth : Nat) :
    indentation (cIndent depth s.text).toList = 2 * depth := by
  obtain ⟨c, cs, hs, hc⟩ := s.exists_text_eq
  rw [indentation, toList_cIndent, List.takeWhile_append_of_pos (by simp), hs]
  simp [hc]

end CStatement

/-- The statement on a line is read back, however far it is indented. -/
theorem readLine?_cIndent (depth : Nat) (s : CStatement) :
    readLine? (cIndent depth s.text).toList = some s := by
  obtain ⟨c, cs, hs, hc⟩ := s.exists_text_eq
  have rest : (cIndent depth s.text).toList.dropWhile (· = ' ') = s.text.toList ++ [] := by
    rw [toList_cIndent, List.dropWhile_append_of_pos (by simp), hs]
    simp [hc]
  rw [readLine?, rest, CStatement.run_reader]

theorem readLines?_line (s : CStatement) (depth : Nat) (rest : List (List Char)) :
    readLines? ((cIndent depth s.text).toList :: rest) = (readLines? rest).map (s :: ·) := by
  rw [readLines?, List.mapM_cons, readLine?_cIndent, readLines?]
  cases rest.mapM readLine? <;> rfl

/-- A statement has to be inside the braces that it closes, and is indented by those that
are left. -/
theorem indented_line (s : CStatement) (depth outside : Nat) (rest : List (List Char)) :
    Indented outside ((cIndent depth s.text).toList :: rest) ↔
      s.closes ≤ outside ∧ depth = outside - s.closes ∧
        Indented (outside - s.closes + s.opens) rest := by
  have opens : (cIndent depth s.text).toList.count '\x7b' = s.opens := s.count_line (.inl rfl) depth
  have closes : (cIndent depth s.text).toList.count '\x7d' = s.closes :=
    s.count_line (.inr (.inl rfl)) depth
  rw [Indented, opens, closes, s.indentation_text, Nat.mul_left_cancel_iff (by decide)]

namespace Program

theorem indented_cell (op : CellOp) (a : Int64) (depth : Nat) (rest : List String) :
    Indented depth (((op.cStatements a).map (cIndent depth) ++ rest).map String.toList) ↔
      Indented depth (rest.map String.toList) := by
  rw [CellOp.cStatements_eq]
  cases op <;> simp [CellOp.statements, indented_line, CStatement.closes, CStatement.opens]

/-- The lines of a program leave the depth as it was. -/
theorem indented_cLinesOnto (p : Program) (depth : Nat) (rest : List String) :
    Indented depth ((p.cLinesOnto depth rest).map String.toList) ↔
      Indented depth (rest.map String.toList) := by
  induction p generalizing depth rest with
  | done => rfl
  | move d p ih =>
    refine (indented_line (.move d) depth depth _).trans ?_
    simp [CStatement.closes, CStatement.opens, ih]
  | cell a op p ih => rw [cLinesOnto, indented_cell, ih]
  | loop b p ihb ih =>
    refine (indented_line .openLoop depth depth _).trans ?_
    simp only [CStatement.closes, CStatement.opens, Nat.sub_zero, Nat.zero_le, true_and, ihb]
    refine (indented_line .closeLoop depth (depth + 1) _).trans ?_
    simp [CStatement.closes, CStatement.opens, ih]

theorem readLines?_cell (op : CellOp) (a : Int64) (depth : Nat) (rest : List String) :
    readLines? (((op.cStatements a).map (cIndent depth) ++ rest).map String.toList) =
      (readLines? (rest.map String.toList)).map (op.statements a ++ ·) := by
  rw [CellOp.cStatements_eq]
  cases op <;> simp [CellOp.statements, readLines?_line, Function.comp_def]

/-- The lines of a program are read back as its statements. -/
theorem readLines?_cLinesOnto (p : Program) (depth : Nat) (rest : List String) :
    readLines? ((p.cLinesOnto depth rest).map String.toList) =
      (readLines? (rest.map String.toList)).map fun ss => p.statementsOnto ss := by
  induction p generalizing depth rest with
  | done => simp [cLinesOnto, statementsOnto]
  | move d p ih =>
    refine (readLines?_line (.move d) depth _).trans ?_
    rw [ih, Option.map_map]
    rfl
  | cell a op p ih =>
    rw [cLinesOnto, readLines?_cell, ih, Option.map_map]
    rfl
  | loop b p ihb ih =>
    have close (lines : List (List Char)) :
        readLines? ((cIndent depth "\x7d").toList :: lines) = _ :=
      readLines?_line .closeLoop depth lines
    refine (readLines?_line .openLoop depth _).trans ?_
    rw [ihb, List.map_cons, close, ih, Option.map_map, Option.map_map, Option.map_map]
    rfl

/-- No line of a program has a line break in it. -/
theorem lineBreak_not_mem_cLinesOnto {p : Program} {depth : Nat} {rest : List String}
    (h : ∀ l ∈ rest, '\n' ∉ l.toList) : ∀ l ∈ p.cLinesOnto depth rest, '\n' ∉ l.toList := by
  have line (s : CStatement) (d : Nat) : '\n' ∉ (cIndent d s.text).toList :=
    List.count_eq_zero.1 (s.count_line (.inr (.inr rfl)) d)
  induction p generalizing depth rest with
  | done => exact h
  | move d p ih => exact List.forall_mem_cons.2 ⟨line (.move d) depth, ih h⟩
  | cell a op p ih =>
    rw [cLinesOnto, CellOp.cStatements_eq, List.forall_mem_append]
    refine ⟨fun l hl => ?_, ih h⟩
    obtain ⟨t, ht, rfl⟩ := List.mem_map.1 hl
    obtain ⟨s, -, rfl⟩ := List.mem_map.1 ht
    exact line s depth
  | loop b p ihb ih =>
    refine List.forall_mem_cons.2 ⟨line .openLoop depth, ihb ?_⟩
    exact List.forall_mem_cons.2 ⟨line .closeLoop depth, ih h⟩

theorem cLinesOnto_append (p : Program) (depth : Nat) (rest more : List String) :
    p.cLinesOnto depth (rest ++ more) = p.cLinesOnto depth rest ++ more := by
  induction p generalizing depth rest with
  | done => rfl
  | move d p ih => rw [cLinesOnto, cLinesOnto, ih, List.cons_append]
  | cell a op p ih => rw [cLinesOnto, cLinesOnto, ih, List.append_assoc]
  | loop b p ihb ih => rw [cLinesOnto, cLinesOnto, ih, ← List.cons_append, ihb, List.cons_append]

/-! ## Sources -/

/-- The source does not show values that have no use. -/
theorem cLinesOnto_forgetUnused (p : Program) (depth : Nat) (rest : List String) :
    p.forgetUnused.cLinesOnto depth rest = p.cLinesOnto depth rest := by
  induction p generalizing depth rest with
  | done => rfl
  | move d p ih => rw [forgetUnused, cLinesOnto, cLinesOnto, ih]
  | cell a op p ih =>
    rw [forgetUnused, cLinesOnto, cLinesOnto, ih]
    cases op <;> rfl
  | loop b p ihb ih => rw [forgetUnused, cLinesOnto, cLinesOnto, ih, ihb]

/-- The lines of a source: the fixed ones, and the statements between them. -/
theorem cLines_eq (p : Program) : p.cLines = cPrologue ++ (p.cLinesOnto 1 [] ++ cEpilogue) := by
  rw [cLines, ← cLinesOnto_append, List.nil_append]

end Program

/-- The lines of a text. What comes after the last line break is one too. -/
def linesOf (text : String) : List (List Char) :=
  text.toList.splitOn '\n'

/-- Lines that each end in a line break are told apart again. -/
theorem linesOf_join {lines : List String} (h : ∀ l ∈ lines, '\n' ∉ l.toList) :
    linesOf (String.join (lines.map (· ++ "\n"))) = (lines ++ [""]).map String.toList := by
  rw [linesOf, String.toList_join]
  induction lines with
  | nil => rfl
  | cons l lines ih =>
    have first : (l ++ "\n").toList = l.toList ++ ['\n'] := String.toList_append
    obtain ⟨hl, hr⟩ := List.forall_mem_cons.1 h
    rw [List.map_cons, List.flatMap_cons, first, List.append_assoc, List.singleton_append,
      List.splitOn_append_cons_self_of_not_mem hl, ih hr]
    rfl

/-- The program of a source: what the lines between the fixed ones say. -/
def readSource? (text : String) : Option Program := do
  let lines ← (linesOf text).dropPrefix? (Program.cPrologue.map String.toList)
  let body ← lines.dropSuffix? ((Program.cEpilogue ++ [""]).map String.toList)
  Program.ofStatements? (← readLines? body)

namespace Program

theorem linesOf_cSource (p : Program) :
    linesOf p.cSource = (p.cLines ++ [""]).map String.toList := by
  apply linesOf_join
  have first : ∀ l ∈ cPrologue, '\n' ∉ l.toList := by decide
  have last : ∀ l ∈ cEpilogue, '\n' ∉ l.toList := by decide
  exact List.forall_mem_append.2 ⟨first, lineBreak_not_mem_cLinesOnto last⟩

theorem readLines?_body (p : Program) :
    readLines? ((p.cLinesOnto 1 []).map String.toList) = some (p.statementsOnto []) := by
  rw [readLines?_cLinesOnto]
  rfl

theorem readSource?_cSource {p : Program} (h : p.OpsKnown) :
    readSource? p.cSource = some p.forgetUnused := by
  have split : linesOf p.cSource = cPrologue.map String.toList ++
      ((p.cLinesOnto 1 []).map String.toList ++ (cEpilogue ++ [""]).map String.toList) := by
    rw [linesOf_cSource, cLines_eq, List.append_assoc, List.append_assoc, List.map_append,
      List.map_append]
  have front := List.dropPrefix?_append_of_beq ((p.cLinesOnto 1 []).map String.toList ++
    (cEpilogue ++ [""]).map String.toList) (beq_self_eq_true (cPrologue.map String.toList))
  have back :
      ((p.cLinesOnto 1 []).map String.toList ++ (cEpilogue ++ [""]).map String.toList).dropSuffix?
      ((cEpilogue ++ [""]).map String.toList) = some ((p.cLinesOnto 1 []).map String.toList) :=
    List.dropSuffix?_eq_some_iff.2 ⟨_, rfl, beq_self_eq_true _⟩
  rw [readSource?, split, front, Option.bind_eq_bind, Option.bind_some, back, Option.bind_eq_bind,
    Option.bind_some, readLines?_body]
  exact ofStatements?_statementsOnto h

theorem indented_cons {d e : Nat} {line : List Char} (h : line.count '\x7d' ≤ d ∧
    indentation line = 2 * (d - line.count '\x7d') ∧ d - line.count '\x7d' + line.count '\x7b' = e)
    (rest : List (List Char)) : Indented d (line :: rest) ↔ Indented e rest := by
  obtain ⟨closes, spaces, rfl⟩ := h
  rw [Indented]
  exact ⟨fun all => all.2.2, fun after => ⟨closes, spaces, after⟩⟩

/-- The fixed first lines open one brace. -/
theorem indented_prologue (rest : List (List Char)) :
    Indented 0 (cPrologue.map String.toList ++ rest) ↔ Indented 1 rest := by
  refine (indented_cons (e := 0) (by decide +kernel) _).trans ?_
  refine (indented_cons (e := 0) (by decide +kernel) _).trans ?_
  refine (indented_cons (e := 0) (by decide +kernel) _).trans ?_
  refine (indented_cons (e := 1) (by decide +kernel) _).trans ?_
  refine (indented_cons (e := 1) (by decide +kernel) _).trans ?_
  refine (indented_cons (e := 1) (by decide +kernel) _).trans ?_
  exact indented_cons (by decide +kernel) _

/-- The fixed last lines close it. -/
theorem indented_epilogue : Indented 1 ((cEpilogue ++ [""]).map String.toList) := by
  refine (indented_cons (e := 1) (by decide +kernel) _).2 ?_
  refine (indented_cons (e := 1) (by decide +kernel) _).2 ?_
  refine (indented_cons (e := 0) (by decide +kernel) _).2 ?_
  exact (indented_cons (e := 0) (by decide +kernel) _).2 rfl

/-- The source of a program is the fixed first lines, statements, and the fixed last lines. Braces
are balanced, and every line is indented by two spaces for each brace around it. Reading the
statements gives the program back, but for values that have no use, so two programs have the same
source only if they differ in such values. -/
theorem cSource_determines_program (p : Program) (h : p.OpsKnown) :
    (∃ body ss, p.cSource = String.join ((cPrologue ++ (body ++ cEpilogue)).map (· ++ "\n")) ∧
        readLines? (body.map String.toList) = some ss ∧ ofStatements? ss = some p.forgetUnused) ∧
      Indented 0 (linesOf p.cSource) ∧ readSource? p.cSource = some p.forgetUnused ∧
      ∀ q : Program, q.OpsKnown → (p.cSource = q.cSource ↔ p.forgetUnused = q.forgetUnused) := by
  refine ⟨⟨p.cLinesOnto 1 [], p.statementsOnto [], ?_, p.readLines?_body,
    ofStatements?_statementsOnto h⟩, ?_, readSource?_cSource h,
    fun q hq => ⟨fun same => ?_, fun same => ?_⟩⟩
  · rw [cSource, cLines_eq]
  · rw [linesOf_cSource, cLines, List.append_assoc, ← cLinesOnto_append, List.map_append,
      indented_prologue, indented_cLinesOnto]
    exact indented_epilogue
  · have both :=
      (readSource?_cSource h).symm.trans
        ((congrArg readSource? same).trans (readSource?_cSource hq))
    exact Option.some.inj both
  · rw [cSource, cSource, cLines, cLines, ← cLinesOnto_forgetUnused p, ← cLinesOnto_forgetUnused q,
      same]

/-- A loop around the farthest cells, with values that have no use. -/
def farLoop : Program :=
  move (-7)
    (loop (cell Int64.minValue (.set (-128)) (cell Int64.maxValue (.read 5) done))
      (cell 0 (.print 9) done))

theorem cSource_determines_program_farLoop :
    farLoop.OpsKnown ∧ readSource? farLoop.cSource = some
      (move (-7) (loop (cell Int64.minValue (.set (-128)) (cell Int64.maxValue (.read 0) done))
        (cell 0 (.print 0) done))) := by
  have known : farLoop.OpsKnown := ⟨⟨trivial, trivial, trivial⟩, trivial, trivial⟩
  exact ⟨known, (cSource_determines_program farLoop known).2.2.1⟩

end Program

end TapeLang
