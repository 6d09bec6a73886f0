import Mathlib.Data.List.Count
import TapeLang.Proofs.Parse

/-!
# What the parser accepts

* `IsPlain`: a program of single steps at the pointer. `Spells.symbols?_eq`: such a program is
  written out with the symbols that it spells.
* `build_of_spells`: written out, it is read back.
* `IsMisplaced codes i`: what stands at `i` cannot be read there. `firstProblem_of_build`: the
  parser stops at the first such place, and names the last loop that stays open if there is none.
-/

namespace TapeLang

namespace Symbol

/-- The bytes that stand for symbols. -/
def bytes : List UInt8 :=
  [right, left, increment, decrement, loopStart, loopEnd, print, read].map byte

theorem byte_of_ofByte? {b : UInt8} {s : Symbol} (h : ofByte? b = some s) : s.byte = b := by
  unfold ofByte? at h
  split at h <;> simp_all [byte] <;> subst h <;> rfl

theorem mem_bytes_iff {b : UInt8} : b ∈ bytes ↔ ∃ s, ofByte? b = some s := by
  constructor
  · intro h
    obtain ⟨s, -, rfl⟩ := List.mem_map.mp h
    exact ⟨s, ofByte?_byte s⟩
  · rintro ⟨s, h⟩
    rw [← byte_of_ofByte? h]
    cases s <;> decide

/-- The symbols of a source are its symbol bytes, in order. -/
theorem map_byte_lex (source : List UInt8) : (lex source).map byte = source.filter (· ∈ bytes) := by
  induction source with
  | nil => rfl
  | cons b source ih =>
    rcases h : ofByte? b with _ | s
    · have hb : b ∉ bytes := fun hb => by
        obtain ⟨s, hs⟩ := mem_bytes_iff.mp hb
        rw [h] at hs
        cases hs
      rw [lex, List.filterMap_cons_none h, List.filter_cons_of_neg (by simpa using hb)]
      exact ih
    · have hb : b ∈ bytes := mem_bytes_iff.mpr ⟨s, h⟩
      rw [lex, List.filterMap_cons_some h, List.filter_cons_of_pos (by simpa using hb),
        List.map_cons, byte_of_ofByte? h]
      exact congrArg (b :: ·) ih

theorem lex_map_byte (syms : List Symbol) : lex (syms.map byte) = syms := by
  induction syms with
  | nil => rfl
  | cons s syms ih =>
    rw [List.map_cons, lex, List.filterMap_cons_some (ofByte?_byte s)]
    exact congrArg (s :: ·) ih

end Symbol

namespace Program

/-- The program is made of single steps at the pointer. -/
def IsPlain : Program → Prop
  | done => True
  | move d p => (d = 1 ∨ d = -1) ∧ p.IsPlain
  | cell a op p => (a = 0 ∧ op ∈ [.add 1, .add (-1), .print 0, .read 0]) ∧ p.IsPlain
  | loop b p => b.IsPlain ∧ p.IsPlain

/-! ## Writing out -/

theorem Spells.symbols?_eq {p : Program} {a : List Symbol} (h : p.Spells a) :
    p.symbols? = some a := by
  induction h with
  | done => rfl
  | @step s t p a h _ ih =>
    cases s <;> simp only [Symbol.token?, Option.some.injEq, reduceCtorEq] at h <;> subst h <;>
      simp [cons, symbols?, ih]
  | loop _ _ ihb ih => simp [symbols?, ihb, ih]

theorem IsPlain.exists_spells {p : Program} (h : p.IsPlain) : ∃ syms, p.Spells syms := by
  induction p with
  | done => exact ⟨[], .done⟩
  | move d p ih =>
    obtain ⟨hd, hp⟩ := h
    obtain ⟨syms, hs⟩ := ih hp
    rcases hd with rfl | rfl
    · exact ⟨.right :: syms, .step (t := .move 1) rfl hs⟩
    · exact ⟨.left :: syms, .step (t := .move (-1)) rfl hs⟩
  | cell a op p ih =>
    obtain ⟨⟨rfl, hop⟩, hp⟩ := h
    obtain ⟨syms, hs⟩ := ih hp
    simp only [List.mem_cons, List.not_mem_nil, or_false] at hop
    rcases hop with rfl | rfl | rfl | rfl
    · exact ⟨.increment :: syms, .step (t := .cell 0 (.add 1)) rfl hs⟩
    · exact ⟨.decrement :: syms, .step (t := .cell 0 (.add (-1))) rfl hs⟩
    · exact ⟨.print :: syms, .step (t := .cell 0 (.print 0)) rfl hs⟩
    · exact ⟨.read :: syms, .step (t := .cell 0 (.read 0)) rfl hs⟩
  | loop b p ihb ih =>
    obtain ⟨hb, hp⟩ := h
    obtain ⟨a, ha⟩ := ihb hb
    obtain ⟨c, hc⟩ := ih hp
    exact ⟨_, .loop ha hc⟩

/-! ## Reading back -/

theorem reverseOnto_reverseOnto (p q r : Program) :
    (p.reverseOnto q).reverseOnto r = q.reverseOnto (p ++ r) := by
  induction p generalizing q r with
  | done => rfl
  | move d p ih => exact ih _ _
  | cell a op p ih => exact ih _ _
  | loop b p _ ih => exact ih _ _

theorem buildFrom_start (index : Nat) (opened : List OpenLoop) (body : Program)
    (codes : List UInt8) :
    buildFrom index opened body (Symbol.loopStart.code :: codes) =
      buildFrom (index + 1) (⟨index, body⟩ :: opened) done codes := rfl

theorem buildFrom_end (index : Nat) (o : OpenLoop) (opened : List OpenLoop) (body : Program)
    (codes : List UInt8) :
    buildFrom index (o :: opened) body (Symbol.loopEnd.code :: codes) =
      buildFrom (index + 1) opened (.loop (body.reverseOnto done) o.before) codes := rfl

/-- The parser reads the symbols of a program as the program, wherever they stand. -/
theorem buildFrom_of_spells {p : Program} {a : List Symbol} (h : p.Spells a) (index : Nat)
    (opened : List OpenLoop) (body : Program) (codes : List UInt8) :
    buildFrom index opened body (a.map Symbol.code ++ codes) =
      buildFrom (index + a.length) opened (p.reverseOnto body) codes := by
  induction h generalizing index opened body codes with
  | done => rfl
  | @step s t p a h _ ih =>
    rw [List.map_cons, List.cons_append, buildFrom_step h, ih, List.length_cons, Nat.add_assoc,
      Nat.add_comm 1]
    cases t <;> rfl
  | @loop b p a c _ _ ihb ih =>
    have hsyms : (Symbol.loopStart :: (a ++ .loopEnd :: c)).map Symbol.code ++ codes =
        Symbol.loopStart.code :: (a.map Symbol.code ++
          (Symbol.loopEnd.code :: (c.map Symbol.code ++ codes))) := by simp
    have hlen : index + (Symbol.loopStart :: (a ++ .loopEnd :: c)).length =
        index + 1 + a.length + 1 + c.length := by
      simp only [List.length_cons, List.length_append]
      omega
    rw [hsyms, hlen, buildFrom_start, ihb, buildFrom_end, ih, reverseOnto_reverseOnto, append_done]
    rfl

/-- A program that is written out is read back. -/
theorem build_of_spells {p : Program} {syms : List Symbol} (h : p.Spells syms) :
    build (syms.map Symbol.code) = .ok p := by
  have hb := buildFrom_of_spells h 0 [] done []
  rw [List.append_nil, buildFrom, reverseOnto_reverseOnto, append_done] at hb
  exact hb

/-! ## Errors -/

/-- What stands at `i` cannot be read there: it is no symbol, or it closes a loop and none
is open. -/
def IsMisplaced (codes : List UInt8) (i : Nat) : Prop :=
  ∃ n, codes[i]? = some n ∧
    (Symbol.ofCode? n = none ∨
      n = Symbol.loopEnd.code ∧
        (codes.take i).count Symbol.loopStart.code ≤ (codes.take i).count Symbol.loopEnd.code)

/-- The error is that of the first place that cannot be read. If there is none, it names the last
loop that stays open. -/
inductive FirstProblem (codes : List UInt8) : ParseError → Prop where
  | invalid {i : Nat} {n : UInt8} (place : codes[i]? = some n) (h : Symbol.ofCode? n = none)
    (first : ∀ j < i, ¬ IsMisplaced codes j) : FirstProblem codes (.invalidSymbol n)
  | excess {i : Nat} (place : codes[i]? = some Symbol.loopEnd.code) (h : IsMisplaced codes i)
    (first : ∀ j < i, ¬ IsMisplaced codes j) : FirstProblem codes (.unmatchedEnd i)
  | unclosed {syms : List Symbol} {i : Nat} (symbols : codes = syms.map Symbol.code)
    (readable : ∀ j, ¬ IsMisplaced codes j) (place : syms[i]? = some .loopStart)
    (h : Symbol.closing? syms i = none)
    (last : ∀ j, i < j → syms[j]? = some .loopStart → Symbol.closing? syms j ≠ none) :
    FirstProblem codes (.unmatchedStart i)

theorem count_map_code (s : Symbol) (syms : List Symbol) :
    (syms.map Symbol.code).count s.code = syms.count s :=
  List.count_map_of_injective syms Symbol.code (fun _ _ => Symbol.code_inj) s

/-- Symbols that keep the depth can be read. -/
theorem not_isMisplaced {syms : List Symbol} {d : Nat} (h : Symbol.depthAfter 0 syms = some d)
    (rest : List UInt8) {j : Nat} (hj : j < syms.length) :
    ¬ IsMisplaced (syms.map Symbol.code ++ rest) j := by
  rintro ⟨n, hn, hbad⟩
  rw [List.getElem?_append_left (by simpa using hj), List.getElem?_map] at hn
  obtain ⟨s, hs, rfl⟩ := Option.map_eq_some_iff.mp hn
  rcases hbad with hbad | ⟨hend, hcount⟩
  · rw [Symbol.ofCode?_code] at hbad
    cases hbad
  · obtain rfl := Symbol.code_inj hend
    obtain ⟨a, b, rfl, rfl⟩ := Symbol.exists_around hs
    rw [List.map_append, List.append_assoc, List.take_left' (by simp), count_map_code,
      count_map_code] at hcount
    rw [Symbol.depthAfter_append] at h
    obtain ⟨e, he, hb⟩ := Option.bind_eq_some_iff.mp h
    -- No loop is open in front of this end.
    have := (Symbol.depthAfter_eq_some_iff.mp he).2
    obtain rfl : e = 0 := by omega
    cases hb

theorem ParsesTo.firstProblem {codes : List UInt8} {e : ParseError}
    (h : ParsesTo codes (.error e)) :
    FirstProblem codes e := by
  cases h with
  | @invalid syms d n before h rest =>
    refine .invalid (i := syms.length) (by simp) h fun j hj => not_isMisplaced before _ hj
  | @excess syms before rest =>
    have place : (syms.map Symbol.code ++ Symbol.loopEnd.code :: rest)[syms.length]? =
        some Symbol.loopEnd.code := by simp
    refine .excess place ⟨_, place, .inr ⟨rfl, ?_⟩⟩ fun j hj => not_isMisplaced before _ hj
    rw [List.take_left' (by simp), count_map_code, count_map_code]
    have := (Symbol.depthAfter_eq_some_iff.mp before).2
    omega
  | @unclosed a c d before after =>
    have hdepth : Symbol.depthAfter 0 (a ++ .loopStart :: c) = some (d + 1) := by
      rw [Symbol.depthAfter_append, before, Option.bind_some, Symbol.depthAfter, Symbol.nest,
        Option.bind_some, Symbol.depthAfter_of_zero after, Nat.zero_add]
    refine .unclosed rfl (fun j hj => ?_) (by simp) ?_ fun j hj hs => ?_
    · by_cases hlt : j < (a ++ Symbol.loopStart :: c).length
      · rw [← List.append_nil (List.map _ _)] at hj
        exact not_isMisplaced hdepth [] hlt hj
      · obtain ⟨n, hn, -⟩ := hj
        rw [List.getElem?_eq_none (by rw [List.length_map]; omega)] at hn
        cases hn
    · rw [Symbol.closing?_append_start, Symbol.firstExcess_eq_none after]
      rfl
    · -- The symbols after the start are balanced.
      obtain ⟨k, rfl⟩ : ∃ k, j = (a ++ [Symbol.loopStart]).length + k :=
        ⟨j - a.length - 1, by simp; omega⟩
      have hsplit : a ++ .loopStart :: c = (a ++ [.loopStart]) ++ c := by simp
      rw [hsplit] at hs ⊢
      rw [List.getElem?_append_right (by omega), Nat.add_sub_cancel_left] at hs
      exact Symbol.closing?_ne_none after _ hs

theorem firstProblem_of_build {codes : List UInt8} {e : ParseError} (h : build codes = .error e) :
    FirstProblem codes e :=
  ParsesTo.firstProblem (h ▸ parsesTo_build codes)

/-! ## What is accepted -/

/-- Balanced symbols leave nothing to object to. -/
theorem exists_build_of_balanced {syms : List Symbol} (h : Symbol.Balanced syms) :
    ∃ p, build (syms.map Symbol.code) = .ok p := by
  have hdepth := Symbol.balanced_iff_depthAfter.mp h
  have readable (i : Nat) (n : UInt8) (hn : (syms.map Symbol.code)[i]? = some n) :
      ¬ IsMisplaced (syms.map Symbol.code) i := by
    have hi : i < syms.length := by
      obtain ⟨hi, -⟩ := List.getElem?_eq_some_iff.mp hn
      simpa using hi
    rw [← List.append_nil (List.map _ _)]
    exact not_isMisplaced hdepth [] hi
  rcases hb : build (syms.map Symbol.code) with e | p
  · exfalso
    cases firstProblem_of_build hb with
    | invalid place hn _ => exact readable _ _ place ⟨_, place, .inl hn⟩
    | excess place hbad _ => exact readable _ _ place hbad
    | @unclosed syms' i symbols _ place hopen _ =>
      obtain rfl := (List.map_inj_right fun _ _ => Symbol.code_inj).mp symbols
      have hends := Symbol.closing?_ne_none hdepth [] place
      rw [List.nil_append, List.length_nil, Nat.zero_add] at hends
      exact hends hopen
  · exact ⟨p, rfl⟩

theorem spells_of_build {codes : List UInt8} {p : Program} (h : build codes = .ok p) :
    ∃ syms : List Symbol, codes = syms.map Symbol.code ∧ p.Spells syms :=
  ParsesTo.spells (h ▸ parsesTo_build codes)

/-- The parser accepts exactly the balanced lists of symbols, and loses nothing: a program that it
builds is written out with the symbols that it was read from, and has as many elements as there are
symbols other than ends. Every program of single steps is read back when it is written out. An error
is that of the first place that cannot be read, or else that of the last loop that stays open. And
parsing a source is reading its symbol bytes, in order. -/
theorem build_accepts_balanced (codes source : List UInt8) (p : Program) :
    ((∃ q, build codes = .ok q) ↔
      ∃ syms : List Symbol, codes = syms.map Symbol.code ∧ Symbol.Balanced syms) ∧
    (build codes = .ok p →
      (∃ syms, p.symbols? = some syms ∧ codes = syms.map Symbol.code) ∧
        p.size = codes.countP (· ≠ Symbol.loopEnd.code)) ∧
    (p.IsPlain → ∃ syms, p.symbols? = some syms ∧ build (syms.map Symbol.code) = .ok p) ∧
    (∀ e, build codes = .error e → FirstProblem codes e) ∧
    ∃ syms : List Symbol, syms.map Symbol.byte = source.filter (· ∈ Symbol.bytes) ∧
      parse source = build (syms.map Symbol.code) := by
  refine ⟨⟨?_, ?_⟩, fun h => ?_, fun h => ?_, fun e => firstProblem_of_build, ?_⟩
  · rintro ⟨q, hq⟩
    obtain ⟨syms, rfl, hs⟩ := spells_of_build hq
    exact ⟨syms, rfl, Symbol.balanced_iff_depthAfter.mpr (hs.depthAfter_eq 0)⟩
  · rintro ⟨syms, rfl, hs⟩
    exact exists_build_of_balanced hs
  · obtain ⟨syms, rfl, hs⟩ := spells_of_build h
    refine ⟨⟨syms, hs.symbols?_eq, rfl⟩, ?_⟩
    rw [hs.size_eq, List.countP_map]
    congr 1
    funext s
    cases s <;> rfl
  · obtain ⟨syms, hs⟩ := h.exists_spells
    exact ⟨syms, hs.symbols?_eq, build_of_spells hs⟩
  · exact ⟨Symbol.lex source, Symbol.map_byte_lex source, rfl⟩

/-- Two loops of which the second is in the first, and the same with the end of the
first missing. -/
theorem build_accepts_balanced_nested :
    (∃ syms, (loop (loop (cell 0 (.add (-1)) done) (move 1 done)) done).symbols? = some syms ∧
      build (syms.map Symbol.code) =
        .ok (loop (loop (cell 0 (.add (-1)) done) (move 1 done)) done)) ∧
    FirstProblem [4, 4, 3, 5, 0] (.unmatchedStart 0) := by
  constructor
  · apply (build_accepts_balanced [] [] _).2.2.1
    simp [IsPlain]
  · exact (build_accepts_balanced [4, 4, 3, 5, 0] [] done).2.2.2.1 _ rfl

end Program

end TapeLang
