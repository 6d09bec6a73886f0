import TapeLang.Proofs.Load

/-!
# The grammar of modules

What bytes are split into sections, and what is said of all others.

* `ConsistsOf`: the bytes are some sections one after another, each with its number and its size in
  front. A size may be written in any form that is read (`Leb128.WritesUInt32`).
* `StartsBroken`: a section cannot be split off, since its size is no number of 32 bits or is larger
  than what is left.
* `exists_consistsOf_append`: any bytes are some sections, and then nothing or a broken section.
  `splitOnto_append` and `splitOnto_broken`: splitting finds them.
* `splitSections_eq_iff`: so it gives what the grammar says (`SplitsInto`), for all bytes.
* `splitSections_mergeSort`: sections that were written are split again.
  `length_payload_lt_of_splitSections`: only sections shorter than 2^32 bytes are.
-/

namespace TapeLang.Wasm

open Leb128 (WritesUInt32 UInt32Fault)

/-- The bytes are the sections, one after another. -/
inductive ConsistsOf : List UInt8 → List Section → Prop where
  | nil : ConsistsOf [] []
  | cons {s : Section} {size bytes : List UInt8} {sections : List Section}
    (h : WritesUInt32 size s.payload.length) :
    ConsistsOf bytes sections → ConsistsOf (s.id :: (size ++ (s.payload ++ bytes))) (s :: sections)

/-- The bytes start with a section that cannot be split off. -/
inductive StartsBroken : List UInt8 → SplitError → Prop where
  | badSize (id : SectionId) {bytes : List UInt8} {e : Leb128.Error} (h : UInt32Fault bytes e) :
    StartsBroken (id :: bytes) (.badSize id e)
  | tooLong (id : SectionId) {size rest : List UInt8} {n : Nat} (h : WritesUInt32 size n)
    (hl : rest.length < n) : StartsBroken (id :: (size ++ rest)) (.tooLong id n rest.length)

/-- What bytes are split into, and why others are not. -/
inductive SplitsInto : List UInt8 → Except SplitError (List Section) → Prop where
  | sections {body : List UInt8} {sections : List Section} (h : ConsistsOf body sections) :
    SplitsInto (magic ++ version ++ body) (.ok sections)
  | noMagic {bytes : List UInt8} (h : ¬ magic <+: bytes) : SplitsInto bytes (.error .invalidMagic)
  | noVersion {bytes : List UInt8} (h : magic <+: bytes) (h' : ¬ magic ++ version <+: bytes) :
    SplitsInto bytes (.error .invalidVersion)
  | broken {whole rest : List UInt8} {sections : List Section} {e : SplitError}
    (h : ConsistsOf whole sections) (h' : StartsBroken rest e) :
    SplitsInto (magic ++ version ++ (whole ++ rest)) (.error e)

/-! ## Headers -/

theorem dropHeader_of_noMagic {bytes : List UInt8} (h : ¬ magic <+: bytes) :
    dropHeader bytes = .error .invalidMagic := by
  rw [dropHeader, if_pos]
  intro same
  exact h (List.prefix_iff_eq_take.mpr same.symm)

theorem dropHeader_of_noVersion {bytes : List UInt8} (h : magic <+: bytes)
    (h' : ¬ magic ++ version <+: bytes) : dropHeader bytes = .error .invalidVersion := by
  obtain ⟨rest, rfl⟩ := h
  have hv : rest.take 4 ≠ version := fun same =>
    h' ((List.prefix_append_right_inj magic).mpr (List.prefix_iff_eq_take.mpr same.symm))
  rw [dropHeader, if_neg (by simp [magic]), if_pos (by simpa [magic] using hv)]

theorem dropHeader_append (body : List UInt8) :
    dropHeader (magic ++ version ++ body) = .ok body := by
  simp [dropHeader, magic, version]

theorem splitSections_append (body : List UInt8) :
    splitSections (magic ++ version ++ body) = splitOnto [] body.length body := by
  rw [splitSections, dropHeader_append]
  rfl

/-! ## Sections -/

theorem ConsistsOf.length_le {bytes : List UInt8} {sections : List Section}
    (h : ConsistsOf bytes sections) :
    sections.length ≤ bytes.length := by
  induction h with
  | nil => exact Nat.le_refl 0
  | cons _ _ ih =>
    simp only [List.length_cons, List.length_append]
    omega

/-- The sections at the start are split off one by one. -/
theorem splitOnto_append {whole : List UInt8} {sections : List Section}
    (h : ConsistsOf whole sections) (before : List Section) (most : Nat) (rest : List UInt8) :
    splitOnto before (sections.length + most) (whole ++ rest) =
      splitOnto (sections.reverse ++ before) most rest := by
  induction h generalizing before with
  | nil => rw [List.length_nil, Nat.zero_add]; rfl
  | @cons s size bytes sections hsize _ ih =>
    have hread := hsize.readUInt32_eq (s.payload ++ (bytes ++ rest))
    have hn : s.payload.length.toUInt32.toNat = s.payload.length := toNat_toUInt32_of_lt hsize.lt
    rw [List.length_cons, Nat.add_right_comm, List.cons_append, List.append_assoc,
      List.append_assoc, splitOnto, hread]
    simp only [hn]
    rw [if_neg (by simp), List.take_left, List.drop_left, ih, List.reverse_cons, List.append_assoc]
    rfl

theorem splitOnto_broken {bytes : List UInt8} {e : SplitError} (h : StartsBroken bytes e)
    (before : List Section) (most : Nat) : splitOnto before (most + 1) bytes = .error e := by
  cases h with
  | badSize id h => simp only [splitOnto, h.result_eq]
  | @tooLong id size rest n h hl =>
    have hn : n.toUInt32.toNat = n := toNat_toUInt32_of_lt h.lt
    simp only [splitOnto, h.readUInt32_eq rest, hn, if_pos hl]

/-- Any bytes are some sections, and then nothing or a broken section. -/
theorem exists_consistsOf_append (bytes : List UInt8) :
    ∃ whole rest sections, bytes = whole ++ rest ∧ ConsistsOf whole sections ∧
      (rest = [] ∨ ∃ e, StartsBroken rest e) := by
  induction hk : bytes.length using Nat.strongRecOn generalizing bytes with
  | _ k ih =>
    subst hk
    cases bytes with
    | nil => exact ⟨[], [], [], rfl, .nil, .inl rfl⟩
    | cons id bytes =>
      obtain ⟨size, n, left, hsize, rfl⟩ | ⟨e, he⟩ := Leb128.exists_writesUInt32_or_fault bytes
      · rcases Nat.lt_or_ge left.length n with short | enough
        · exact ⟨[], _, [], rfl, .nil, .inr ⟨_, .tooLong id hsize short⟩⟩
        · -- The section is complete: the rest is shorter.
          obtain ⟨whole, rest, sections, hleft, consists, hrest⟩ :=
            ih (left.drop n).length (by simp; omega) (left.drop n) rfl
          have hpayload : WritesUInt32 size (left.take n).length := by
            rwa [List.length_take, Nat.min_eq_left enough]
          refine ⟨_, rest, ⟨id, left.take n⟩ :: sections, ?_, .cons hpayload consists, hrest⟩
          rw [List.cons_append, List.append_assoc, List.append_assoc, ← hleft,
            List.take_append_drop]
      · exact ⟨[], _, [], rfl, .nil, .inr ⟨_, .badSize id he⟩⟩

/-! ## Modules -/

theorem SplitsInto.splitSections_eq {bytes : List UInt8} {result : Except SplitError (List Section)}
    (h : SplitsInto bytes result) : splitSections bytes = result := by
  cases h with
  | @sections body sections h =>
    obtain ⟨most, hm⟩ := Nat.exists_eq_add_of_le h.length_le
    have split := splitOnto_append h [] most []
    rw [List.append_nil, List.append_nil] at split
    rw [splitSections_append, hm, split, splitOnto, List.reverse_reverse]
  | noMagic h => rw [splitSections, dropHeader_of_noMagic h]; rfl
  | noVersion h h' => rw [splitSections, dropHeader_of_noVersion h h']; rfl
  | @broken whole rest sections e h h' =>
    -- A broken section has its number at least, so the limit is not reached.
    have pos : 0 < rest.length := by cases h' <;> exact Nat.succ_pos _
    obtain ⟨most, hm⟩ : ∃ most, (whole ++ rest).length = sections.length + (most + 1) := by
      have := h.length_le
      exact ⟨whole.length + rest.length - sections.length - 1, by rw [List.length_append]; omega⟩
    rw [splitSections_append, hm, splitOnto_append h, splitOnto_broken h']

theorem exists_splitsInto (bytes : List UInt8) : ∃ result, SplitsInto bytes result := by
  by_cases hm : magic <+: bytes
  · by_cases hv : magic ++ version <+: bytes
    · obtain ⟨body, rfl⟩ := hv
      obtain ⟨whole, rest, sections, rfl, consists, rfl | ⟨e, he⟩⟩ := exists_consistsOf_append body
      · rw [List.append_nil]
        exact ⟨_, .sections consists⟩
      · exact ⟨_, .broken consists he⟩
    · exact ⟨_, .noVersion hm hv⟩
  · exact ⟨_, .noMagic hm⟩

/-- Splitting gives what the grammar says, for all bytes. -/
theorem splitSections_eq_iff {bytes : List UInt8} {result : Except SplitError (List Section)} :
    splitSections bytes = result ↔ SplitsInto bytes result := by
  constructor
  · rintro rfl
    obtain ⟨result, h⟩ := exists_splitsInto bytes
    rwa [h.splitSections_eq]
  · exact SplitsInto.splitSections_eq

/-! ## Sections that were written -/

theorem consistsOf_flatMap_encode {sections : List Section}
    (h : ∀ s ∈ sections, s.payload.length < 2 ^ 32) :
    ConsistsOf (sections.flatMap Section.encode) sections := by
  induction sections with
  | nil => exact .nil
  | cons s sections ih =>
    obtain ⟨hs, h⟩ := List.forall_mem_cons.mp h
    have consists := ConsistsOf.cons (writesLength_of_lt hs) (ih h)
    rwa [← List.append_assoc] at consists

/-- The sections of a module are split again, in the order that they are written in. -/
theorem splitSections_mergeSort {sections : List Section}
    (h : ∀ s ∈ sections, s.payload.length < 2 ^ 32) :
    splitSections (encodeModule sections) = .ok (sections.mergeSort fun a b => a.id ≤ b.id) := by
  apply SplitsInto.splitSections_eq
  exact .sections (consistsOf_flatMap_encode fun s hs => h s (List.mem_mergeSort.mp hs))

/-- Sections in ascending order are split again. -/
theorem splitSections_encode {sections : List Section}
    (h : ∀ s ∈ sections, s.payload.length < 2 ^ 32)
    (hs : sections.Pairwise fun a b => decide (a.id ≤ b.id)) :
    splitSections (encodeModule sections) = .ok sections := by
  rw [splitSections_mergeSort h, List.mergeSort_of_pairwise hs]

theorem ConsistsOf.length_payload_lt {bytes : List UInt8} {sections : List Section}
    (h : ConsistsOf bytes sections) : ∀ s ∈ sections, s.payload.length < 2 ^ 32 := by
  induction h with
  | nil => simp
  | cons size _ ih => exact List.forall_mem_cons.mpr ⟨size.lt, ih⟩

/-- The sections that a module is split into have sizes of 32 bits. -/
theorem length_payload_lt_of_splitSections {bytes : List UInt8} {sections : List Section}
    (h : splitSections bytes = .ok sections) : ∀ s ∈ sections, s.payload.length < 2 ^ 32 := by
  cases splitSections_eq_iff.mp h with
  | sections consists => exact consists.length_payload_lt

/-! ## What is split -/

/-- Bytes are split into sections if and only if they are the header and then these sections, each
as its number, its size in any form of at most five bytes, and as many bytes as the size says. All
others are refused: for the first four bytes if they are not the magic ones, else for the next four
if they are not the version, and else with the number of the first section that has a size that is
cut off or too large for 32 bits, or larger than what is left. -/
theorem splitSections_follows_grammar (bytes : List UInt8) :
    (∀ sections, splitSections bytes = .ok sections ↔
      ∃ body, bytes = magic ++ version ++ body ∧ ConsistsOf body sections) ∧
    (splitSections bytes = .error .invalidMagic ↔ ¬ magic <+: bytes) ∧
    (splitSections bytes = .error .invalidVersion ↔
      magic <+: bytes ∧ ¬ magic ++ version <+: bytes) ∧
    (∀ id e, splitSections bytes = .error (.badSize id e) ↔
      ∃ whole sections rest, bytes = magic ++ version ++ (whole ++ id :: rest) ∧
        ConsistsOf whole sections ∧ UInt32Fault rest e) ∧
    (∀ id n left, splitSections bytes = .error (.tooLong id n left) ↔
      ∃ whole sections size rest, bytes = magic ++ version ++ (whole ++ id :: (size ++ rest)) ∧
        ConsistsOf whole sections ∧ WritesUInt32 size n ∧ rest.length = left ∧ left < n) := by
  refine ⟨fun sections => ?_, ?_, ?_, fun id e => ?_, fun id n left => ?_⟩ <;>
    rw [splitSections_eq_iff]
  · constructor
    · rintro ⟨h⟩
      exact ⟨_, rfl, h⟩
    · rintro ⟨body, rfl, h⟩
      exact .sections h
  · constructor
    · intro h
      cases h with
      | noMagic h => exact h
      | broken _ h => cases h
    · exact .noMagic
  · constructor
    · intro h
      cases h with
      | noVersion h h' => exact ⟨h, h'⟩
      | broken _ h => cases h
    · rintro ⟨h, h'⟩
      exact .noVersion h h'
  · constructor
    · intro h
      cases h with
      | broken consists h =>
        cases h with
        | badSize _ h => exact ⟨_, _, _, rfl, consists, h⟩
    · rintro ⟨whole, sections, rest, rfl, consists, h⟩
      exact .broken consists (.badSize id h)
  · constructor
    · intro h
      cases h with
      | broken consists h =>
        cases h with
        | tooLong _ h hl => exact ⟨_, _, _, _, rfl, consists, h, rfl, hl⟩
    · rintro ⟨whole, sections, size, rest, rfl, consists, h, rfl, hl⟩
      exact .broken consists (.tooLong id h hl)

-- A size of one in two bytes.
example : splitSections (magic ++ version ++ [1, 0x81, 0x00, 7]) = .ok [⟨1, [7]⟩] := by rfl

end TapeLang.Wasm
