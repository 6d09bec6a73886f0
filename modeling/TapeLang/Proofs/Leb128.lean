import Mathlib.Algebra.Group.Int.Defs
import Mathlib.Algebra.Group.Nat.Defs
import Mathlib.Algebra.GroupWithZero.Nat
import TapeLang.Leb128

/-!
# Reading LEB128 integers

* `Framed`: all bytes of a number but the last have their top bit set. `split_framed`: so its end is
  found again, whatever comes after it. `SplitsAs`: this is all that splitting tells
  (`splitsAs_split`, `SplitsAs.split_eq`).
* `sumOfPlaces`: the number that groups of seven bits are. `unsignedValue_eq_sumOfPlaces`: it is the
  value that is read.
* `WritesUInt32`: the forms of an unsigned number of 32 bits. `UInt32Fault`: why there is none at
  the start of some bytes. These are all cases (`exists_writesUInt32_or_fault`), and what is read in
  each (`WritesUInt32.readUInt32_eq`, `UInt32Fault.result_eq`).
* `readUInt32_ofUInt32` and `readInt32_ofInt32`: a number that was written is read back from the
  start of any bytes, and the rest is left.
-/

namespace TapeLang.Leb128

/-- All bytes but the last have their top bit set. -/
def Framed : List UInt8 → Prop
  | [] => False
  | [b] => b < 0x80
  | b :: groups => ¬ b < 0x80 ∧ Framed groups

theorem ne_nil_of_framed {groups : List UInt8} (h : Framed groups) : groups ≠ [] := by
  rintro rfl
  exact h

theorem framed_cons {b : UInt8} {groups : List UInt8} (hb : ¬ b < 0x80) (h : Framed groups) :
    Framed (b :: groups) := by
  cases groups with
  | nil => exact h.elim
  | cons _ _ => exact ⟨hb, h⟩

/-- The end of a number is found again. -/
theorem split_framed {groups : List UInt8} (h : Framed groups) {limit : Nat}
    (hl : groups.length ≤ limit) (rest : List UInt8) :
    split limit (groups ++ rest) = .number groups rest := by
  induction groups generalizing limit with
  | nil => exact h.elim
  | cons b groups ih =>
    obtain ⟨limit, rfl⟩ : ∃ k, limit = k + 1 :=
      ⟨limit - 1, by simp only [List.length_cons] at hl; omega⟩
    have hl' : groups.length ≤ limit := by simpa using hl
    cases groups with
    | nil => rw [List.singleton_append, split, if_pos (by exact h)]
    | cons b' groups =>
      obtain ⟨hb, h'⟩ := h
      rw [List.cons_append, split, if_neg hb, ih h' hl']
      rfl

/-- Bytes that go on with a top bit are not the end of a number. -/
theorem split_append_of_top {groups : List UInt8} (h : ∀ b ∈ groups, 0x80 ≤ b) (limit : Nat)
    (rest : List UInt8) :
    split (groups.length + limit) (groups ++ rest) =
      groups.foldr Split.cons (split limit rest) := by
  induction groups with
  | nil => rw [List.length_nil, Nat.zero_add]; rfl
  | cons b groups ih =>
    obtain ⟨hb, h⟩ := List.forall_mem_cons.mp h
    rw [List.length_cons, Nat.add_right_comm, List.cons_append, split, if_neg (UInt8.not_lt.mpr hb),
      ih h]
    rfl

/-- How a number of at most `limit` bytes may stand at the start of others. -/
inductive SplitsAs (limit : Nat) : List UInt8 → Split → Prop where
  | number (groups rest : List UInt8) (h : Framed groups) (hl : groups.length ≤ limit) :
    SplitsAs limit (groups ++ rest) (.number groups rest)
  | cut (bytes : List UInt8) (h : ∀ b ∈ bytes, 0x80 ≤ b) (hl : bytes.length < limit) :
    SplitsAs limit bytes .cut
  | long (groups rest : List UInt8) (h : ∀ b ∈ groups, 0x80 ≤ b) (hl : groups.length = limit) :
    SplitsAs limit (groups ++ rest) (.long rest)

theorem SplitsAs.cons {limit : Nat} {bytes : List UInt8} {s : Split} (h : SplitsAs limit bytes s)
    {b : UInt8} (hb : 0x80 ≤ b) : SplitsAs (limit + 1) (b :: bytes) (s.cons b) := by
  cases h with
  | number groups rest h hl =>
    exact .number (b :: groups) rest (framed_cons (UInt8.not_lt.mpr hb) h) (Nat.succ_le_succ hl)
  | cut bytes h hl =>
    exact .cut (b :: bytes) (List.forall_mem_cons.mpr ⟨hb, h⟩) (Nat.succ_lt_succ hl)
  | long groups rest h hl =>
    exact .long (b :: groups) rest (List.forall_mem_cons.mpr ⟨hb, h⟩) (congrArg Nat.succ hl)

/-- Splitting tells how a number stands at the start. -/
theorem splitsAs_split (limit : Nat) (bytes : List UInt8) :
    SplitsAs limit bytes (split limit bytes) := by
  induction limit generalizing bytes with
  | zero => exact .long [] bytes (by simp) rfl
  | succ limit ih =>
    cases bytes with
    | nil => exact .cut [] (by simp) (Nat.succ_pos limit)
    | cons b bytes =>
      rw [split]
      split
      · rename_i hb
        exact .number [b] bytes hb (Nat.le_add_left 1 limit)
      · rename_i hb
        exact (ih bytes).cons (UInt8.not_lt.mp hb)

theorem SplitsAs.split_eq {limit : Nat} {bytes : List UInt8} {s : Split}
    (h : SplitsAs limit bytes s) :
    split limit bytes = s := by
  have stays (s : Split) (hs : ∀ b, s.cons b = s) (groups : List UInt8) :
      groups.foldr Split.cons s = s := by
    induction groups with
    | nil => rfl
    | cons b groups ih => rw [List.foldr_cons, ih, hs]
  cases h with
  | number groups rest h hl => exact split_framed h hl rest
  | cut bytes h hl =>
    obtain ⟨k, rfl⟩ := Nat.exists_eq_add_of_lt hl
    have e := split_append_of_top h (k + 1) []
    rw [List.append_nil] at e
    exact e.trans (stays .cut (fun _ => rfl) bytes)
  | long groups rest h hl =>
    subst hl
    exact (split_append_of_top h 0 rest).trans (stays (.long rest) (fun _ => rfl) groups)

theorem readWith_framed {α : Type} {value? : List UInt8 → Option α} {groups : List UInt8} {v : α}
    (h : Framed groups) (hl : groups.length ≤ maxLength) (hv : value? groups = some v)
    (rest : List UInt8) :
    readWith value? (groups ++ rest) = ⟨.ok (v, groups.length), rest⟩ := by
  rw [readWith, split_framed h hl]
  simp only [hv]

/-! ## Reading unsigned numbers -/

/-- A number ends at the first byte without a top bit. -/
theorem framed_concat_iff {init : List UInt8} {last : UInt8} :
    Framed (init ++ [last]) ↔ (∀ b ∈ init, 0x80 ≤ b) ∧ last < 0x80 := by
  induction init with
  | nil => simp [Framed]
  | cons b init ih =>
    have step : Framed (b :: (init ++ [last])) ↔ ¬ b < 0x80 ∧ Framed (init ++ [last]) := by
      cases init <;> rfl
    rw [List.cons_append, step, ih, List.forall_mem_cons, UInt8.not_lt, and_assoc]

theorem unsignedValue_append (a b : List UInt8) :
    unsignedValue (a ++ b) = unsignedValue a + 128 ^ a.length * unsignedValue b := by
  induction a with
  | nil => simp [unsignedValue]
  | cons x a ih =>
    rw [List.cons_append, unsignedValue, unsignedValue, ih, List.length_cons, Nat.pow_succ,
      Nat.mul_add, Nat.mul_comm (128 ^ a.length) 128, Nat.mul_assoc, Nat.add_assoc]

theorem unsignedValue_lt (groups : List UInt8) : unsignedValue groups < 128 ^ groups.length := by
  induction groups with
  | nil => decide
  | cons b groups ih =>
    rw [unsignedValue, List.length_cons, Nat.pow_succ]
    omega

/-- Groups of seven bits as an unsigned number: each counts by its place. -/
def sumOfPlaces (groups : List UInt8) : Nat :=
  (groups.mapIdx fun i b => b.toNat % 128 * 128 ^ i).sum

theorem unsignedValue_eq_sumOfPlaces (groups : List UInt8) :
    unsignedValue groups = sumOfPlaces groups := by
  have shifted (k : Nat) :
      (groups.mapIdx fun i b => b.toNat % 128 * 128 ^ (i + k)).sum =
        128 ^ k * unsignedValue groups := by
    induction groups generalizing k with
    | nil => simp [unsignedValue]
    | cons b groups ih =>
      have tail := ih (k + 1)
      simp only [List.mapIdx_cons, List.sum_cons, unsignedValue, Nat.zero_add,
        Nat.add_right_comm _ 1 k]
      simp only [← Nat.add_assoc] at tail
      rw [tail, Nat.mul_add, Nat.pow_succ, Nat.mul_assoc, Nat.mul_comm (b.toNat % 128)]
  have all := shifted 0
  rw [Nat.pow_zero, Nat.one_mul] at all
  exact all.symm

theorem exists_fifth {groups : List UInt8} (h : groups.length = 5) :
    ∃ four b, groups = four ++ [b] ∧ four.length = 4 ∧ groups[4]? = some b := by
  have ne : groups ≠ [] := List.ne_nil_of_length_pos (by omega)
  refine ⟨_, _, (List.dropLast_concat_getLast ne).symm, by simp [h], ?_⟩
  rw [← List.getLast?_eq_some_getLast ne, List.getLast?_eq_getElem?, h]

theorem unsignedValue_lt_of_short {groups : List UInt8} (short : groups.length < 5) :
    unsignedValue groups < 2 ^ 32 := by
  have := unsignedValue_lt groups
  have : 128 ^ groups.length ≤ 128 ^ 4 := Nat.pow_le_pow_right (by decide) (by omega)
  omega

/-- A fifth byte has room for four bits. -/
theorem unsignedValue_lt_iff {groups : List UInt8} (hf : Framed groups) (hl : groups.length ≤ 5) :
    unsignedValue groups < 2 ^ 32 ↔ ∀ b, groups[4]? = some b → b ≤ 0x0f := by
  rcases Nat.lt_or_eq_of_le hl with short | full
  · have none : groups[4]? = none := List.getElem?_eq_none (by omega)
    simp only [none, reduceCtorEq, false_implies, implies_true, iff_true]
    exact unsignedValue_lt_of_short short
  · obtain ⟨four, b, rfl, length, fifth⟩ := exists_fifth full
    have low := unsignedValue_lt four
    have hb := (framed_concat_iff.mp hf).2
    rw [fifth, unsignedValue_append, unsignedValue, unsignedValue]
    rw [length] at low ⊢
    simp only [Option.some.injEq, forall_eq', UInt8.le_iff_toNat_le, UInt8.lt_iff_toNat_lt] at hb ⊢
    simp at hb ⊢
    omega

/-- The bytes write an unsigned number of 32 bits. They need not be the shortest that do. -/
structure WritesUInt32 (groups : List UInt8) (n : Nat) : Prop where
  framed : Framed groups
  length_le : groups.length ≤ 5
  fifth_le : ∀ b, groups[4]? = some b → b ≤ 0x0f
  value : sumOfPlaces groups = n

/-- No unsigned number of 32 bits stands at the start of the bytes. -/
inductive UInt32Fault : List UInt8 → Error → Prop where
  /-- The bytes end before a number does. -/
  | cut {bytes : List UInt8} (more : ∀ b ∈ bytes, 0x80 ≤ b) (short : bytes.length < 5) :
    UInt32Fault bytes .endOfInput
  /-- There are more than four bits in the fifth byte, or a sixth one follows. -/
  | large {four : List UInt8} {b : UInt8} (more : ∀ x ∈ four, 0x80 ≤ x) (length : four.length = 4)
    (fifth : 0x0f < b) (rest : List UInt8) : UInt32Fault (four ++ b :: rest) .overflow

theorem WritesUInt32.lt {groups : List UInt8} {n : Nat} (h : WritesUInt32 groups n) :
    n < 2 ^ 32 := by
  have := (unsignedValue_lt_iff h.framed h.length_le).mpr h.fifth_le
  rwa [unsignedValue_eq_sumOfPlaces, h.value] at this

/-- A number of 32 bits is read, whatever its form. -/
theorem WritesUInt32.readUInt32_eq {groups : List UInt8} {n : Nat} (h : WritesUInt32 groups n)
    (rest : List UInt8) :
    readUInt32 (groups ++ rest) = ⟨.ok (n.toUInt32, groups.length), rest⟩ := by
  refine readWith_framed h.framed h.length_le ?_ rest
  have hn : n < 1 <<< 32 := h.lt
  simp only [unsignedValue_eq_sumOfPlaces, h.value, if_pos hn]

/-- Nothing else is read. -/
theorem UInt32Fault.result_eq {bytes : List UInt8} {e : Error} (h : UInt32Fault bytes e) :
    (readUInt32 bytes).result = .error e := by
  cases h with
  | cut more short =>
    have e : split maxLength bytes = .cut := (SplitsAs.cut _ more short).split_eq
    simp only [readUInt32, readWith, e]
  | @large four b more length fifth rest =>
    rw [List.append_cons]
    by_cases hb : b < 0x80
    · have framed : Framed (four ++ [b]) := framed_concat_iff.mpr ⟨more, hb⟩
      have hl : (four ++ [b]).length ≤ 5 := by simp [length]
      have large : ¬ unsignedValue (four ++ [b]) < 1 <<< 32 := by
        intro lt
        have := (unsignedValue_lt_iff framed hl).mp lt b (by simp [← length])
        exact absurd fifth (UInt8.not_lt.mpr this)
      simp only [readUInt32, readWith, split_framed framed (show _ ≤ maxLength from hl),
        if_neg large]
    · have e : split maxLength (four ++ [b] ++ rest) = .long rest := by
        refine (SplitsAs.long _ rest ?_ (by simp [length, maxLength])).split_eq
        exact List.forall_mem_append.mpr ⟨more, by simpa using hb⟩
      simp only [readUInt32, readWith, e]

/-- At the start of any bytes there is a number of 32 bits, or there is none. -/
theorem exists_writesUInt32_or_fault (bytes : List UInt8) :
    (∃ groups n rest, WritesUInt32 groups n ∧ bytes = groups ++ rest) ∨
      ∃ e, UInt32Fault bytes e := by
  have h := splitsAs_split 5 bytes
  generalize split 5 bytes = s at h
  cases h with
  | number groups rest framed hl =>
    by_cases fits : ∀ b, groups[4]? = some b → b ≤ 0x0f
    · exact .inl ⟨groups, _, rest, ⟨framed, hl, fits, rfl⟩, rfl⟩
    · simp only [Classical.not_forall, UInt8.not_le] at fits
      obtain ⟨b, hb, large⟩ := fits
      have full : groups.length = 5 := by
        have := (List.getElem?_eq_some_iff.mp hb).1
        omega
      obtain ⟨four, b', rfl, length, fifth⟩ := exists_fifth full
      obtain rfl : b' = b := Option.some.inj (fifth.symm.trans hb)
      rw [List.append_assoc]
      exact .inr ⟨_, .large (framed_concat_iff.mp framed).1 length large rest⟩
  | cut bytes more short => exact .inr ⟨_, .cut more short⟩
  | long groups rest more hl =>
    obtain ⟨four, b, rfl, length, -⟩ := exists_fifth hl
    obtain ⟨more, last⟩ := List.forall_mem_append.mp more
    have large : 0x0f < b := UInt8.lt_of_lt_of_le (by decide) (last b List.mem_cons_self)
    rw [List.append_assoc]
    exact .inr ⟨_, .large more length large rest⟩

/-! ## Writing unsigned numbers -/

theorem framed_encodeUnsigned (n : Nat) : Framed (encodeUnsigned n) := by
  fun_induction encodeUnsigned n with
  | case1 n h =>
    show n.toUInt8 < 0x80
    rw [UInt8.lt_iff_toNat_lt]
    simp; omega
  | case2 n h ih =>
    refine framed_cons ?_ ih
    rw [UInt8.lt_iff_toNat_lt]
    simp; omega

theorem unsignedValue_encodeUnsigned (n : Nat) : unsignedValue (encodeUnsigned n) = n := by
  fun_induction encodeUnsigned n with
  | case1 n h =>
    simp [unsignedValue]; omega
  | case2 n h ih =>
    rw [unsignedValue, ih]
    simp; omega

theorem length_encodeUnsigned_le {k n : Nat} (h : n < 128 ^ (k + 1)) :
    (encodeUnsigned n).length ≤ k + 1 := by
  induction k generalizing n with
  | zero => rw [encodeUnsigned, if_pos (by simpa using h)]; simp
  | succ k ih =>
    rw [encodeUnsigned]
    split
    · simp
    · have : n / 128 < 128 ^ (k + 1) := Nat.div_lt_of_lt_mul (by rw [Nat.pow_succ] at h; omega)
      simpa using ih this

theorem length_ofUInt32_le (n : UInt32) : (ofUInt32 n).length ≤ 5 := by
  have hn := n.toNat_lt
  exact length_encodeUnsigned_le (by omega)

theorem ofUInt32_ne_nil (n : UInt32) : ofUInt32 n ≠ [] :=
  ne_nil_of_framed (framed_encodeUnsigned n.toNat)

/-- The shortest form of a number is one of its forms. -/
theorem writesUInt32_ofUInt32 (n : UInt32) : WritesUInt32 (ofUInt32 n) n.toNat where
  framed := framed_encodeUnsigned n.toNat
  length_le := length_ofUInt32_le n
  fifth_le := by
    apply (unsignedValue_lt_iff (framed_encodeUnsigned n.toNat) (length_ofUInt32_le n)).mp
    rw [unsignedValue_encodeUnsigned]
    exact n.toNat_lt
  value := by rw [← unsignedValue_eq_sumOfPlaces, ofUInt32, unsignedValue_encodeUnsigned]

/-- An unsigned number is read back. -/
theorem readUInt32_ofUInt32 (n : UInt32) (rest : List UInt8) :
    readUInt32 (ofUInt32 n ++ rest) = ⟨.ok (n, (ofUInt32 n).length), rest⟩ := by
  have h := (writesUInt32_ofUInt32 n).readUInt32_eq rest
  rwa [Nat.toUInt32_eq, UInt32.ofNat_toNat] at h

/-! ## Signed numbers -/

theorem framed_encodeSigned (v : Int) : Framed (encodeSigned v) := by
  fun_induction encodeSigned v with
  | case1 v h =>
    show (v % 128).toNat.toUInt8 < 0x80
    rw [UInt8.lt_iff_toNat_lt]
    simp; omega
  | case2 v h ih =>
    refine framed_cons ?_ ih
    rw [UInt8.lt_iff_toNat_lt]
    simp; omega

theorem signedValue_cons {b : UInt8} {groups : List UInt8} (h : groups ≠ []) :
    signedValue (b :: groups) = b.toNat % 128 + 128 * signedValue groups := by
  cases groups with
  | nil => exact absurd rfl h
  | cons _ _ => rfl

theorem encodeSigned_ne_nil (v : Int) : encodeSigned v ≠ [] := by
  rw [encodeSigned]
  split <;> simp

theorem signedValue_encodeSigned (v : Int) : signedValue (encodeSigned v) = v := by
  fun_induction encodeSigned v with
  | case1 v h =>
    simp only [signedValue]
    simp
    omega
  | case2 v h ih =>
    rw [signedValue_cons (encodeSigned_ne_nil _), ih]
    simp; omega

theorem length_encodeSigned_le {k : Nat} {v : Int} (hlo : -(64 * 128 ^ k) ≤ v)
    (hhi : v < 64 * 128 ^ k) :
    (encodeSigned v).length ≤ k + 1 := by
  induction k generalizing v with
  | zero => rw [encodeSigned, if_pos (by simpa using ⟨hlo, hhi⟩)]; simp
  | succ k ih =>
    rw [encodeSigned]
    split
    · simp
    · have :=
        ih (v := v / 128) (by rw [Int.pow_succ] at hlo; omega) (by rw [Int.pow_succ] at hhi; omega)
      simpa using this

theorem length_ofInt32_le (v : Int32) : (ofInt32 v).length ≤ 5 := by
  have hlo := v.le_toInt
  have hhi := v.toInt_lt
  exact length_encodeSigned_le (k := 4) (by omega) (by omega)

/-- A signed number is read back. -/
theorem readInt32_ofInt32 (v : Int32) (rest : List UInt8) :
    readInt32 (ofInt32 v ++ rest) = ⟨.ok (v, (ofInt32 v).length), rest⟩ := by
  have hlo : -(1 <<< 31) ≤ v.toInt := v.le_toInt
  have hhi : v.toInt < 1 <<< 31 := v.toInt_lt
  refine readWith_framed (framed_encodeSigned _) (length_ofInt32_le v) ?_ rest
  simp only [signedValue_encodeSigned, if_pos (And.intro hlo hhi)]
  simp

/-! ## Items one after another -/

/-- Items that take a byte or more each are no more than their bytes. -/
theorem length_le_length_flatMap {α : Type} {encode : α → List UInt8} {xs : List α}
    (h : ∀ x, encode x ≠ []) : xs.length ≤ (xs.flatMap encode).length := by
  induction xs with
  | nil => exact Nat.le_refl 0
  | cons x xs ih =>
    have hx := List.length_pos_iff.mpr (h x)
    rw [List.flatMap_cons, List.length_append, List.length_cons]
    omega

end TapeLang.Leb128
