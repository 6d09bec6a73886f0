import TapeLang.Proofs.Leb128

/-!
# Forms of LEB128 integers

What the bytes of a number stand for, said without reading or writing them, and how the two
follow it.

* `twosComplement`: the signed number that groups of seven bits are, as `sumOfPlaces` is the
  unsigned one. `signedValue_eq_twosComplement`: it is the value that is read.
* `StartsWithNumber`: how many bytes a number has at the start of others. `ReadsExactly`: a
  number is read if and only if it stands there and is in range, and what is said and left of
  all other bytes.
* `IsShortest`: no form of a value has fewer bytes.
* `readInTurn`: numbers of both kinds, one after another.
-/

namespace TapeLang.Leb128

/-! ## Values -/

/-- Groups of seven bits as a signed number: all of their bits in two's complement. -/
def twosComplement (groups : List UInt8) : Int :=
  (BitVec.ofNat (7 * groups.length) (sumOfPlaces groups)).toInt

theorem two_pow_seven_mul (k : Nat) : 2 ^ (7 * k) = 128 ^ k :=
  Nat.pow_mul 2 7 k

/-- The upper half of the numbers of `7 * k` bits are the negative ones. -/
theorem signedValue_eq_ite {groups : List UInt8} (h : groups ≠ []) :
    signedValue groups =
      if 2 * unsignedValue groups < 128 ^ groups.length then (unsignedValue groups : Int)
      else unsignedValue groups - (128 ^ groups.length : Nat) := by
  induction groups with
  | nil => exact absurd rfl h
  | cons b groups ih =>
    cases groups with
    | nil =>
      simp only [signedValue, unsignedValue, List.length_singleton, Nat.pow_one, Nat.mul_zero,
        Nat.add_zero]
      split <;> split <;> omega
    | cons b' groups =>
      have ne : b' :: groups ≠ [] := List.cons_ne_nil b' groups
      have value : unsignedValue (b :: b' :: groups) =
          b.toNat % 128 + 128 * unsignedValue (b' :: groups) := rfl
      have even : 128 ^ (b' :: groups).length = 2 * (64 * 128 ^ groups.length) := by
        rw [List.length_cons, Nat.pow_succ]; omega
      have next : 128 ^ (b :: b' :: groups).length = 128 * 128 ^ (b' :: groups).length := by
        rw [List.length_cons, Nat.pow_succ, Nat.mul_comm]
      rw [signedValue_cons ne, ih ne, value, next]
      by_cases low : 2 * unsignedValue (b' :: groups) < 128 ^ (b' :: groups).length
      · rw [if_pos low, if_pos (by omega)]
        omega
      · rw [if_neg low, if_neg (by omega)]
        omega

theorem signedValue_eq_twosComplement {groups : List UInt8} (h : groups ≠ []) :
    signedValue groups = twosComplement groups := by
  have lt := unsignedValue_lt groups
  rw [signedValue_eq_ite h, twosComplement, ← unsignedValue_eq_sumOfPlaces,
    BitVec.toInt_eq_toNat_cond, BitVec.toNat_ofNat, two_pow_seven_mul, Nat.mod_eq_of_lt lt]

/-- Half of the numbers of `7 * (k + 1)` bits are negative. -/
theorem twosComplement_bounds {groups : List UInt8} {k : Nat} (h : groups.length = k + 1) :
    -(64 * 128 ^ k) ≤ twosComplement groups ∧ twosComplement groups < 64 * 128 ^ k := by
  have lower := BitVec.le_two_mul_toInt (x := BitVec.ofNat (7 * groups.length) (sumOfPlaces groups))
  have upper := BitVec.two_mul_toInt_lt (x := BitVec.ofNat (7 * groups.length) (sumOfPlaces groups))
  have width : (2 : Int) ^ (7 * groups.length) = 128 * 128 ^ k := by
    rw [h, Int.pow_mul, Int.pow_succ, Int.mul_comm]; rfl
  rw [width] at lower upper
  rw [twosComplement]
  omega

/-! ## Where a number ends -/

theorem framed_iff_getElem? {groups : List UInt8} :
    Framed groups ↔ groups ≠ [] ∧ ∀ i b, groups[i]? = some b →
      (0x80 ≤ b ↔ i + 1 < groups.length) := by
  rcases List.eq_nil_or_concat groups with rfl | ⟨init, last, rfl⟩
  · simp [Framed]
  · rw [List.concat_eq_append, framed_concat_iff]
    constructor
    · rintro ⟨more, ends⟩
      refine ⟨by simp, fun i b hb => ?_⟩
      rw [List.length_append, List.length_singleton, Nat.add_lt_add_iff_right]
      rcases Nat.lt_or_ge i init.length with hi | hi
      · rw [List.getElem?_append_left hi] at hb
        exact iff_of_true (more b (List.mem_of_getElem? hb)) hi
      · rw [List.getElem?_append_right hi, List.getElem?_singleton] at hb
        obtain ⟨-, ⟨⟩⟩ := Option.ite_none_right_eq_some.mp hb
        exact iff_of_false (UInt8.not_le.mpr ends) (Nat.not_lt.mpr hi)
    · rintro ⟨-, top⟩
      constructor
      · intro b hb
        obtain ⟨i, hi, rfl⟩ := List.mem_iff_getElem.mp hb
        refine (top i init[i] ?_).mpr (by simpa using hi)
        rw [List.getElem?_append_left hi, List.getElem?_eq_getElem hi]
      · have := top init.length last (by simp)
        exact UInt8.not_le.mp fun h => absurd (this.mp h) (by simp)

theorem exists_length_eq_succ {groups : List UInt8} (h : Framed groups) :
    ∃ k, groups.length = k + 1 :=
  Nat.exists_eq_succ_of_ne_zero (mt List.length_eq_zero_iff.mp (ne_nil_of_framed h))

/-- The first `k` bytes, of which there are at most five, are those of a number: all of them but the
last have their top bit set. -/
structure StartsWithNumber (bytes : List UInt8) (k : Nat) : Prop where
  pos : 1 ≤ k
  le_five : k ≤ 5
  le_length : k ≤ bytes.length
  top_iff : ∀ i b, i < k → bytes[i]? = some b → (0x80 ≤ b ↔ i + 1 < k)

theorem startsWithNumber_iff {bytes : List UInt8} {k : Nat} :
    StartsWithNumber bytes k ↔ k ≤ 5 ∧ k ≤ bytes.length ∧ Framed (bytes.take k) := by
  constructor
  · rintro ⟨pos, five, length, top⟩
    refine ⟨five, length, framed_iff_getElem?.mpr ⟨?_, fun i b hb => ?_⟩⟩
    · exact List.ne_nil_of_length_pos (by rw [List.length_take, Nat.min_eq_left length]; exact pos)
    · rw [List.length_take, Nat.min_eq_left length]
      rw [List.getElem?_take] at hb
      obtain ⟨hi, hb⟩ := Option.ite_none_right_eq_some.mp hb
      exact top i b hi hb
  · rintro ⟨five, length, framed⟩
    obtain ⟨ne, top⟩ := framed_iff_getElem?.mp framed
    rw [List.length_take, Nat.min_eq_left length] at top
    refine ⟨?_, five, length, fun i b hi hb => top i b (by rw [List.getElem?_take, if_pos hi, hb])⟩
    exact Nat.pos_of_ne_zero fun h => ne (by rw [h, List.take_zero])

/-- A number ends in one place only. -/
theorem startsWithNumber_append_iff {groups : List UInt8} (h : Framed groups)
    (hl : groups.length ≤ 5) (rest : List UInt8) {k : Nat} :
    StartsWithNumber (groups ++ rest) k ↔ k = groups.length := by
  constructor
  · intro starts
    obtain ⟨five, length, framed⟩ := startsWithNumber_iff.mp starts
    -- Both are split off the same bytes.
    have short : ((groups ++ rest).take k).length ≤ 5 := by rw [List.length_take]; omega
    have there := split_framed framed short ((groups ++ rest).drop k)
    rw [List.take_append_drop, split_framed h hl rest] at there
    injection there with same
    rw [same, List.length_take, Nat.min_eq_left length]
  · rintro rfl
    exact startsWithNumber_iff.mpr ⟨hl, by simp, by rwa [List.take_left]⟩

theorem not_startsWithNumber_of_top {bytes : List UInt8}
    (h : ∀ i b, i < 5 → bytes[i]? = some b → 0x80 ≤ b) (k : Nat) : ¬ StartsWithNumber bytes k := by
  rintro ⟨pos, five, length, top⟩
  have hk : k - 1 < bytes.length := by omega
  have last := List.getElem?_eq_getElem hk
  have := (top (k - 1) _ (by omega) last).mp (h (k - 1) _ (by omega) last)
  omega

/-! ## What is read -/

/-- The bytes end before a number does. -/
def EndsInside (bytes : List UInt8) : Prop :=
  bytes.length < 5 ∧ ∀ b ∈ bytes, 0x80 ≤ b

/-- What is read of the bytes is the number that they start with, if there is one and its groups
denote a value. The value comes with the number of bytes, and the bytes after them are left.
Otherwise the error says whether the bytes end inside the number; if they do not, then just five of
them are gone. -/
structure ReadsExactly {α : Type} (read : List UInt8 → Reading α) (Denotes : List UInt8 → α → Prop)
    (bytes : List UInt8) : Prop where
  ok_iff : ∀ v k, (read bytes).result = .ok (v, k) ↔
    StartsWithNumber bytes k ∧ Denotes (bytes.take k) v
  endOfInput_iff : (read bytes).result = .error .endOfInput ↔ EndsInside bytes
  overflow_iff : (read bytes).result = .error .overflow ↔
    ¬ EndsInside bytes ∧ ∀ v k, ¬ (StartsWithNumber bytes k ∧ Denotes (bytes.take k) v)
  rest_of_ok : ∀ v k, (read bytes).result = .ok (v, k) → (read bytes).rest = bytes.drop k
  rest_of_endOfInput : (read bytes).result = .error .endOfInput → (read bytes).rest = []
  rest_of_overflow : (read bytes).result = .error .overflow →
    5 ≤ bytes.length ∧ (read bytes).rest = bytes.drop 5

theorem EndsInside.not_startsWithNumber {bytes : List UInt8} (h : EndsInside bytes) (k : Nat) :
    ¬ StartsWithNumber bytes k :=
  not_startsWithNumber_of_top (fun _ b _ hb => h.2 b (List.mem_of_getElem? hb)) k

section

variable {α : Type} {read : List UInt8 → Reading α} {Denotes : List UInt8 → α → Prop}
    {bytes : List UInt8}

theorem ReadsExactly.of_ok {v : α} {k : Nat} (h : read bytes = ⟨.ok (v, k), bytes.drop k⟩)
    (only : ∀ v' k', StartsWithNumber bytes k' ∧ Denotes (bytes.take k') v' ↔ v' = v ∧ k' = k) :
    ReadsExactly read Denotes bytes := by
  have found := (only v k).mpr ⟨rfl, rfl⟩
  constructor <;> rw [h]
  · intro v' k'
    rw [only, Except.ok.injEq, Prod.mk.injEq, eq_comm, eq_comm (a := k)]
  · exact iff_of_false (by simp) fun inside => inside.not_startsWithNumber k found.1
  · exact iff_of_false (by simp) fun none => none.2 v k found
  · rintro _ _ ⟨⟩
    rfl
  · rintro ⟨⟩
  · rintro ⟨⟩

theorem ReadsExactly.of_endOfInput (h : read bytes = ⟨.error .endOfInput, []⟩)
    (inside : EndsInside bytes) :
    ReadsExactly read Denotes bytes := by
  constructor <;> rw [h]
  · exact fun v k => iff_of_false (by simp) fun found => inside.not_startsWithNumber k found.1
  · exact iff_of_true rfl inside
  · exact iff_of_false (by simp) fun none => none.1 inside
  · rintro _ _ ⟨⟩
  · exact fun _ => rfl
  · rintro ⟨⟩

theorem ReadsExactly.of_overflow (h : read bytes = ⟨.error .overflow, bytes.drop 5⟩)
    (length : 5 ≤ bytes.length)
    (none : ∀ v k, ¬ (StartsWithNumber bytes k ∧ Denotes (bytes.take k) v)) :
    ReadsExactly read Denotes bytes := by
  have outside : ¬ EndsInside bytes := fun inside => absurd inside.1 (Nat.not_lt.mpr length)
  constructor <;> rw [h]
  · exact fun v k => iff_of_false (by simp) (none v k)
  · exact iff_of_false (by simp) outside
  · exact iff_of_true rfl ⟨outside, none⟩
  · rintro _ _ ⟨⟩
  · rintro ⟨⟩
  · exact fun _ => ⟨length, rfl⟩

/-- A number is read exactly if its groups are turned into what they denote, and those of fewer than
five bytes all denote something. -/
theorem readsExactly_readWith {value? : List UInt8 → Option α}
    (value : ∀ groups v, Framed groups → (value? groups = some v ↔ Denotes groups v))
    (small : ∀ groups, Framed groups → groups.length < 5 → value? groups ≠ none)
    (bytes : List UInt8) :
    ReadsExactly (readWith value?) Denotes bytes := by
  have h := splitsAs_split 5 bytes
  generalize hs : split 5 bytes = s at h
  have hs : split maxLength bytes = s := hs
  cases h with
  | number groups rest framed hl =>
    cases hv : value? groups with
    | some v =>
      refine .of_ok (v := v) (k := groups.length) (by simp [readWith, hs, hv]) fun v' k' => ?_
      rw [startsWithNumber_append_iff framed hl, and_comm]
      refine and_congr_left fun hk => ?_
      rw [hk, List.take_left, ← value groups v' framed, hv, Option.some.injEq, eq_comm]
    | none =>
      have full : groups.length = 5 := by
        have := mt (small groups framed) (not_not_intro hv)
        omega
      refine .of_overflow (by simp [readWith, hs, hv, ← full]) (by simp [← full]) ?_
      rintro v k ⟨starts, denotes⟩
      rw [(startsWithNumber_append_iff framed hl rest).mp starts, List.take_left,
        ← value groups v framed, hv] at denotes
      cases denotes
  | cut bytes more short => exact .of_endOfInput (by simp [readWith, hs]) ⟨short, more⟩
  | long groups rest more full =>
    refine .of_overflow (by simp [readWith, hs, ← full]) (by simp [← full]) fun v k found => ?_
    refine not_startsWithNumber_of_top (fun i b hi hb => more b ?_) k found.1
    rw [List.getElem?_append_left (by omega)] at hb
    exact List.mem_of_getElem? hb

end

theorem signedValue_bounds_of_short {groups : List UInt8} (framed : Framed groups)
    (short : groups.length < 5) :
    -(1 <<< 31) ≤ signedValue groups ∧ signedValue groups < 1 <<< 31 := by
  obtain ⟨k, hk⟩ := exists_length_eq_succ framed
  obtain ⟨lower, upper⟩ := twosComplement_bounds hk
  have : (128 : Int) ^ k ≤ 128 ^ 3 := by
    exact_mod_cast Nat.pow_le_pow_right (show 0 < 128 by decide) (show k ≤ 3 by omega)
  rw [signedValue_eq_twosComplement (ne_nil_of_framed framed)]
  exact ⟨by omega, by omega⟩

theorem readsExactly_readUInt32 (bytes : List UInt8) :
    ReadsExactly readUInt32 (fun groups n => sumOfPlaces groups = n.toNat) bytes := by
  refine readsExactly_readWith (fun groups n _ => ?_) (fun groups _ short => ?_) bytes
  · simp only [Option.ite_none_right_eq_some, Option.some.injEq, unsignedValue_eq_sumOfPlaces]
    constructor
    · rintro ⟨lt, rfl⟩
      exact (Nat.mod_eq_of_lt lt).symm
    · intro same
      rw [same]
      exact ⟨n.toNat_lt, UInt32.ofNat_toNat⟩
  · have lt : unsignedValue groups < 1 <<< 32 := unsignedValue_lt_of_short short
    simp only [if_pos lt, ne_eq, reduceCtorEq, not_false_eq_true]

theorem readsExactly_readInt32 (bytes : List UInt8) :
    ReadsExactly readInt32 (fun groups v => twosComplement groups = v.toInt) bytes := by
  refine readsExactly_readWith (fun groups v framed => ?_) (fun groups framed short => ?_) bytes
  · simp only [Option.ite_none_right_eq_some, Option.some.injEq,
      signedValue_eq_twosComplement (ne_nil_of_framed framed)]
    constructor
    · rintro ⟨⟨lower, upper⟩, rfl⟩
      exact (Int32.toInt_ofInt_of_le lower upper).symm
    · intro same
      rw [same]
      exact ⟨⟨v.le_toInt, v.toInt_lt⟩, Int32.ofInt_toInt v⟩
  · simp only [if_pos (signedValue_bounds_of_short framed short), ne_eq, reduceCtorEq,
      not_false_eq_true]

/-! ## What is written -/

/-- The bytes stand for a value, and none that do are fewer. -/
structure IsShortest {α : Type} (value : List UInt8 → α) (v : α) (bytes : List UInt8) : Prop where
  framed : Framed bytes
  value_eq : value bytes = v
  length_le : ∀ groups, Framed groups → value groups = v → bytes.length ≤ groups.length

theorem isShortest_encodeUnsigned (n : Nat) : IsShortest sumOfPlaces n (encodeUnsigned n) where
  framed := framed_encodeUnsigned n
  value_eq := by rw [← unsignedValue_eq_sumOfPlaces, unsignedValue_encodeUnsigned]
  length_le groups framed value := by
    obtain ⟨k, hk⟩ := exists_length_eq_succ framed
    have lt := unsignedValue_lt groups
    rw [unsignedValue_eq_sumOfPlaces, value, hk] at lt
    rw [hk]
    exact length_encodeUnsigned_le lt

theorem isShortest_encodeSigned (v : Int) : IsShortest twosComplement v (encodeSigned v) where
  framed := framed_encodeSigned v
  value_eq := by rw [← signedValue_eq_twosComplement (encodeSigned_ne_nil v),
    signedValue_encodeSigned]
  length_le groups framed value := by
    obtain ⟨k, hk⟩ := exists_length_eq_succ framed
    obtain ⟨lower, upper⟩ := twosComplement_bounds hk
    rw [value] at lower upper
    rw [hk]
    exact length_encodeSigned_le lower upper

theorem length_ofUInt64_le (n : UInt64) : (ofUInt64 n).length ≤ 10 := by
  have hn := n.toNat_lt
  exact length_encodeUnsigned_le (k := 9) (by omega)

theorem length_ofInt64_le (v : Int64) : (ofInt64 v).length ≤ 10 := by
  have hlo := v.le_toInt
  have hhi := v.toInt_lt
  exact length_encodeSigned_le (k := 9) (by omega) (by omega)

/-! ## Numbers one after another -/

/-- The kinds of numbers of 32 bits. -/
inductive Kind where
  | unsigned
  | signed
  deriving DecidableEq, Repr

/-- A number of 32 bits of either kind. -/
inductive Number where
  | unsigned (n : UInt32)
  | signed (v : Int32)
  deriving DecidableEq, Repr

def Number.kind : Number → Kind
  | unsigned _ => .unsigned
  | signed _ => .signed

def Number.encode : Number → List UInt8
  | unsigned n => ofUInt32 n
  | signed v => ofInt32 v

/-- Reads a number of one kind: its value and length, or an error, and the bytes that are left. -/
def readKind : Kind → List UInt8 → Except Error (Number × Nat) × List UInt8
  | .unsigned, bytes =>
    let r := readUInt32 bytes
    (r.result.map fun (n, k) => (.unsigned n, k), r.rest)
  | .signed, bytes =>
    let r := readInt32 bytes
    (r.result.map fun (v, k) => (.signed v, k), r.rest)

/-- Reads numbers of the given kinds, each from what the one before it left. -/
def readInTurn : List Kind → List UInt8 → List (Except Error (Number × Nat)) × List UInt8
  | [], bytes => ([], bytes)
  | kind :: kinds, bytes =>
    let (first, rest) := readKind kind bytes
    let (others, rest) := readInTurn kinds rest
    (first :: others, rest)

theorem readKind_encode (n : Number) (rest : List UInt8) :
    readKind n.kind (n.encode ++ rest) = (.ok (n, n.encode.length), rest) := by
  cases n with
  | unsigned n =>
    simp only [Number.kind, Number.encode, readKind, readUInt32_ofUInt32]
    rfl
  | signed v =>
    simp only [Number.kind, Number.encode, readKind, readInt32_ofInt32]
    rfl

theorem readInTurn_encode (ns : List Number) (rest : List UInt8) :
    readInTurn (ns.map Number.kind) (ns.flatMap Number.encode ++ rest) =
      (ns.map fun n => .ok (n, n.encode.length), rest) := by
  induction ns with
  | nil => rfl
  | cons n ns ih =>
    rw [List.map_cons, List.flatMap_cons, List.append_assoc, readInTurn, readKind_encode]
    simp only [ih, List.map_cons]

/-- Numbers of both kinds that are written one after another are read one after another, each with
the number of its bytes, and what comes after them is left. So no other numbers of these kinds are
written in the same bytes. -/
theorem numbers_are_read_in_turn (ns : List Number) (rest : List UInt8) :
    readInTurn (ns.map Number.kind) (ns.flatMap Number.encode ++ rest) =
      (ns.map fun n => .ok (n, n.encode.length), rest) ∧
    ∀ ms rest', ms.map Number.kind = ns.map Number.kind →
      ms.flatMap Number.encode ++ rest' = ns.flatMap Number.encode ++ rest →
        ms = ns ∧ rest' = rest := by
  refine ⟨readInTurn_encode ns rest, fun ms rest' kinds bytes => ?_⟩
  have same := readInTurn_encode ms rest'
  rw [kinds, bytes, readInTurn_encode] at same
  injection same with numbers left
  refine ⟨(List.map_inj_right fun m n h => ?_).mp numbers.symm, left.symm⟩
  injection h with h
  exact congrArg Prod.fst h

end TapeLang.Leb128
