import TapeLang.Program.Parse
import TapeLang.Proofs.Brackets

/-!
# What a parsed program is made of

* `Spells`: a program is made of single steps at the pointer, and these are its symbols.
* `ReadSoFar`: the symbols that the parser has read, as they stand in the loops that are still open.
* `ParsesTo`: what there is to say of a list of numbers: it spells a program, or something cannot be
  read after all that stands before it, or a loop stays open. `parsesTo_build`: the parser says it.
  `spells_of_parse`: a parsed program spells the symbols of its source.
* `Spells.size_eq`: a program has as many elements as symbols other than ends.
-/

namespace TapeLang

/-- The element that a symbol stands for; a bracket is no element by itself. -/
def Symbol.token? : Symbol → Option Token
  | right => some (.move 1)
  | left => some (.move (-1))
  | increment => some (.cell 0 (.add 1))
  | decrement => some (.cell 0 (.add (-1)))
  | print => some (.cell 0 (.print 0))
  | read => some (.cell 0 (.read 0))
  | loopStart | loopEnd => none

theorem Symbol.code_inj {x y : Symbol} (h : x.code = y.code) : x = y := by
  rw [← Option.some.injEq, ← Symbol.ofCode?_code x, ← Symbol.ofCode?_code y, h]

theorem Symbol.count_moves_le (a : List Symbol) : a.count .left + a.count .right ≤ a.length := by
  induction a with
  | nil => exact Nat.le_refl 0
  | cons s a ih =>
    cases s <;>
      simp only [List.count_cons_self, List.count_cons_of_ne, List.length_cons, ne_eq, reduceCtorEq,
      not_false_eq_true] <;> omega

namespace Program

/-- The program is written with these symbols. -/
inductive Spells : Program → List Symbol → Prop where
  | done : Spells .done []
  | step {s : Symbol} {t : Token} {p : Program} {a : List Symbol} (h : s.token? = some t) :
    Spells p a → Spells (cons t p) (s :: a)
  | loop {b p : Program} {a c : List Symbol} :
    Spells b a → Spells p c → Spells (.loop b p) (.loopStart :: (a ++ .loopEnd :: c))

theorem cons_append (t : Token) (p q : Program) : cons t p ++ q = cons t (p ++ q) := by
  cases t <;> rfl

theorem Spells.append {p q : Program} {a c : List Symbol} (hp : p.Spells a) (hq : q.Spells c) :
    (p ++ q).Spells (a ++ c) := by
  induction hp with
  | done => exact hq
  | step h _ ih =>
    rw [cons_append]
    exact .step h ih
  | loop hb _ _ ih =>
    rw [loop_append, List.cons_append, List.append_assoc, List.cons_append]
    exact .loop hb ih

/-- A loop has two symbols, everything else has one. -/
theorem Spells.size_eq {p : Program} {a : List Symbol} (h : p.Spells a) :
    p.size = a.countP (· ≠ .loopEnd) := by
  induction h with
  | done => rfl
  | @step s t p a h _ ih =>
    cases s <;> simp only [Symbol.token?, Option.some.injEq, reduceCtorEq] at h <;> subst h <;>
      simp [cons, size, ih]
  | loop _ _ ihb ih =>
    simp [size, ihb, ih]
    omega

theorem Spells.size_le {p : Program} {a : List Symbol} (h : p.Spells a) : p.size ≤ a.length := by
  rw [h.size_eq]
  exact List.countP_le_length

/-- The symbols of a program close what they open, and nothing else. -/
theorem Spells.depthAfter_eq {p : Program} {a : List Symbol} (h : p.Spells a) (d : Nat) :
    Symbol.depthAfter d a = some d := by
  induction h generalizing d with
  | done => rfl
  | @step s t p a h _ ih =>
    have hs : Symbol.nest d s = some d := by
      cases s <;> simp only [Symbol.token?, reduceCtorEq] at h <;> rfl
    rw [Symbol.depthAfter, hs]
    exact ih d
  | loop _ _ ihb ih =>
    rw [Symbol.depthAfter, Symbol.nest, Option.bind_some, Symbol.depthAfter_append, ihb (d + 1)]
    exact ih d

/-! ## The parser -/

theorem reverseOnto_eq_append (p q : Program) : p.reverseOnto q = p.reverseOnto done ++ q := by
  induction p generalizing q with
  | done => rfl
  | move d p ih => rw [reverseOnto, reverseOnto, ih (move d q), ih (move d done), append_assoc]; rfl
  | cell a op p ih =>
    rw [reverseOnto, reverseOnto, ih (cell a op q), ih (cell a op done), append_assoc]; rfl
  | loop b p _ ih =>
    rw [reverseOnto, reverseOnto, ih (loop b q), ih (loop b done), append_assoc]; rfl

/-- One more element at the end of what is kept last element first. -/
theorem reverse_cons (t : Token) (p : Program) :
    (cons t p).reverseOnto done = p.reverseOnto done ++ cons t done := by
  cases t <;> exact reverseOnto_eq_append p _

/-- The symbols read so far, with `body` in the innermost of the loops `opened`. -/
def ReadSoFar : List OpenLoop → Program → List Symbol → Prop
  | [], body, syms => (body.reverseOnto done).Spells syms
  | o :: opened, body, syms =>
    ∃ a c, ReadSoFar opened o.before a ∧ (body.reverseOnto done).Spells c ∧
      syms = a ++ .loopStart :: c ∧ o.start = a.length

theorem ReadSoFar.depthAfter_eq {opened : List OpenLoop} {body : Program} {syms : List Symbol}
    (h : ReadSoFar opened body syms) : Symbol.depthAfter 0 syms = some opened.length := by
  induction opened generalizing body syms with
  | nil => exact Spells.depthAfter_eq h 0
  | cons o opened ih =>
    obtain ⟨a, c, ha, hc, rfl, -⟩ := h
    rw [Symbol.depthAfter_append, ih ha, Option.bind_some, Symbol.depthAfter, Symbol.nest,
      Option.bind_some]
    exact hc.depthAfter_eq _

/-- What is added to the innermost body is added to what was read. -/
theorem ReadSoFar.add {opened : List OpenLoop} {body body' more : Program} {syms c : List Symbol}
    (h : ReadSoFar opened body syms) (hb : body'.reverseOnto done = body.reverseOnto done ++ more)
    (hc : more.Spells c) : ReadSoFar opened body' (syms ++ c) := by
  cases opened with
  | nil =>
    rw [ReadSoFar, hb]
    exact Spells.append h hc
  | cons o opened =>
    obtain ⟨a, b, ha, hbody, rfl, hs⟩ := h
    refine ⟨a, b ++ c, ha, ?_, by simp, hs⟩
    rw [hb]
    exact hbody.append hc

/-- A symbol that is no bracket is read as its element. -/
theorem buildFrom_step {s : Symbol} {t : Token} (h : s.token? = some t) (index : Nat)
    (opened : List OpenLoop) (body : Program) (codes : List UInt8) :
    buildFrom index opened body (s.code :: codes) =
      buildFrom (index + 1) opened (cons t body) codes := by
  cases s <;> simp only [Symbol.token?, Option.some.injEq, reduceCtorEq] at h <;> subst h <;> rfl

/-- What there is to say of a list of symbol numbers. -/
inductive ParsesTo : List UInt8 → Except ParseError Program → Prop where
  | program {p : Program} {syms : List Symbol} (h : p.Spells syms) :
    ParsesTo (syms.map Symbol.code) (.ok p)
  | invalid {syms : List Symbol} {d : Nat} {n : UInt8} (before : Symbol.depthAfter 0 syms = some d)
    (h : Symbol.ofCode? n = none) (rest : List UInt8) :
    ParsesTo (syms.map Symbol.code ++ n :: rest) (.error (.invalidSymbol n))
  | excess {syms : List Symbol} (before : Symbol.depthAfter 0 syms = some 0) (rest : List UInt8) :
    ParsesTo (syms.map Symbol.code ++ Symbol.loopEnd.code :: rest)
      (.error (.unmatchedEnd syms.length))
  | unclosed {a c : List Symbol} {d : Nat} (before : Symbol.depthAfter 0 a = some d)
    (after : Symbol.depthAfter 0 c = some 0) :
    ParsesTo ((a ++ .loopStart :: c).map Symbol.code) (.error (.unmatchedStart a.length))

/-- What the parser says of the symbols that it has read and those that it reads. -/
theorem parsesTo_buildFrom {opened : List OpenLoop} {body : Program} {syms : List Symbol}
    (codes : List UInt8) (hr : ReadSoFar opened body syms) :
    ParsesTo (syms.map Symbol.code ++ codes) (buildFrom syms.length opened body codes) := by
  induction codes generalizing opened body syms with
  | nil =>
    rw [List.append_nil]
    cases opened with
    | nil => exact .program hr
    | cons o opened =>
      obtain ⟨a, c, ha, hc, rfl, hs⟩ := hr
      rw [buildFrom, hs]
      exact .unclosed ha.depthAfter_eq (hc.depthAfter_eq 0)
  | cons n codes ih =>
    rcases hs : Symbol.ofCode? n with _ | s
    · simp only [buildFrom, hs]
      exact .invalid hr.depthAfter_eq hs codes
    · obtain rfl := Symbol.code_of_ofCode? hs
      -- The symbol joins those that have been read.
      have join :
          syms.map Symbol.code ++ s.code :: codes =
            (syms ++ [s]).map Symbol.code ++ codes := by simp
      have count : (syms ++ [s]).length = syms.length + 1 := by simp
      rcases ht : s.token? with _ | t
      · -- A bracket: one that opens a loop, or one that closes it.
        cases s <;> simp only [Symbol.token?, reduceCtorEq] at ht
        · have hopen : ReadSoFar (⟨syms.length, body⟩ :: opened) done (syms ++ [.loopStart]) :=
            ⟨syms, [], hr, .done, rfl, rfl⟩
          have said := ih hopen
          rw [← join, count] at said
          exact said
        · cases opened with
          | nil => exact .excess hr.depthAfter_eq codes
          | cons o opened =>
            obtain ⟨a, c, ha, hc, rfl, -⟩ := hr
            have hclose : ReadSoFar opened (.loop (body.reverseOnto done) o.before)
                (a ++ .loopStart :: (c ++ [.loopEnd])) :=
              ha.add (reverse_cons (.loop _) o.before) (.loop hc .done)
            rw [← List.cons_append, ← List.append_assoc] at hclose
            have said := ih hclose
            rw [← join, count] at said
            exact said
      · have said := ih (hr.add (reverse_cons t body) (.step ht .done))
        rw [← join, count] at said
        rw [buildFrom_step ht]
        exact said

theorem parsesTo_build (codes : List UInt8) : ParsesTo codes (build codes) :=
  parsesTo_buildFrom codes (show ReadSoFar [] done [] from .done)

theorem ParsesTo.spells {codes : List UInt8} {p : Program} (h : ParsesTo codes (.ok p)) :
    ∃ syms : List Symbol, codes = syms.map Symbol.code ∧ p.Spells syms := by
  cases h with
  | program h => exact ⟨_, rfl, h⟩

/-- A parsed program spells the symbols of its source. -/
theorem spells_of_parse {source : List UInt8} {p : Program} (h : parse source = .ok p) :
    p.Spells (Symbol.lex source) := by
  have said := parsesTo_build ((Symbol.lex source).map Symbol.code)
  rw [parse] at h
  rw [h] at said
  obtain ⟨syms, hm, hp⟩ := said.spells
  rw [(List.map_inj_right fun x y => Symbol.code_inj).mp hm]
  exact hp

end Program

end TapeLang
