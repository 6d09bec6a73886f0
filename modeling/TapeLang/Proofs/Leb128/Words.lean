import TapeLang.Proofs.Leb128.Forms

/-!
# LEB128 integers in machine words

Reading and writing in words of a fixed width: groups are shifted into their places or out of
the word, and a number that does not fit is told from its last byte. Words and exact numbers
give the same.

* `appendUInt64_eq` and `appendInt64_eq`: the bytes that are shifted out of a word are those of
  its number.
* `gather_of_top`: what is in the word after some groups, by induction on them.
* `loadWith_eq`: loading agrees with reading if the last steps do; `loadUInt32_eq` and
  `loadInt32_eq`: they do.
-/

namespace TapeLang.Leb128

/-! ## Bytes -/

theorem forall_byte {P : UInt8 → Prop} (h : ∀ i : Fin 256, P (UInt8.ofNat i)) (b : UInt8) :
    P b := by
  have := h ⟨b.toNat, b.toNat_lt⟩
  rwa [UInt8.ofNat_toNat] at this

theorem toNat_and_low (b : UInt8) : (b &&& 0x7f).toNat = b.toNat % 128 :=
  forall_byte (P := fun b => (b &&& 0x7f).toNat = b.toNat % 128) (by decide +kernel) b

theorem toNat_or_top (b : UInt8) : (b ||| 0x80).toNat = b.toNat % 128 + 128 :=
  forall_byte (P := fun b => (b ||| 0x80).toNat = b.toNat % 128 + 128) (by decide +kernel) b

theorem and_sign_eq_zero_iff (b : UInt8) : b &&& 0x40 = 0 ↔ b.toNat % 128 < 64 :=
  forall_byte (P := fun b => b &&& 0x40 = 0 ↔ b.toNat % 128 < 64) (by decide +kernel) b

theorem and_high_eq_zero_iff (b : UInt8) : b &&& 0xf0 = 0 ↔ b.toNat < 16 :=
  forall_byte (P := fun b => b &&& 0xf0 = 0 ↔ b.toNat < 16) (by decide +kernel) b

theorem and_unused_eq_zero_iff (b : UInt8) : b &&& 0x70 = 0 ↔ b.toNat % 128 < 16 :=
  forall_byte (P := fun b => b &&& 0x70 = 0 ↔ b.toNat % 128 < 16) (by decide +kernel) b

theorem and_unused_eq_ones_iff (b : UInt8) : b &&& 0x70 = 0x70 ↔ 112 ≤ b.toNat % 128 :=
  forall_byte (P := fun b => b &&& 0x70 = 0x70 ↔ 112 ≤ b.toNat % 128) (by decide +kernel) b

/-! ## Writing -/

theorem toNat_shiftRight_seven (n : UInt64) : (n >>> 7).toNat = n.toNat / 128 := by
  rw [UInt64.toNat_shiftRight]
  simp [Nat.shiftRight_eq_div_pow]

theorem toInt_shiftRight_seven (v : Int64) : (v >>> 7).toInt = v.toInt / 128 := by
  rw [Int64.toInt, Int64.toBitVec_shiftRight]
  simp [Int.shiftRight_eq_div_pow]

theorem toNat_lowByte (v : Int64) : (v.toUInt64.toUInt8.toNat : Int) = v.toInt % 256 := by
  have word : v.toUInt64.toNat = v.toBitVec.toNat := rfl
  rw [UInt64.toNat_toUInt8, word, Int64.toInt, BitVec.toInt_eq_toNat_cond]
  split <;> omega

/-- Appends the bytes of an unsigned number, seven bits at a time. -/
def appendUInt64 (buf : List UInt8) (n : UInt64) : List UInt8 :=
  if n < 0x80 then buf ++ [n.toUInt8]
  else appendUInt64 (buf ++ [n.toUInt8 ||| 0x80]) (n >>> 7)
termination_by n.toNat
decreasing_by
  rename_i h
  rw [UInt64.lt_iff_toNat_lt] at h
  rw [toNat_shiftRight_seven]
  simp at h
  omega

/-- The group of the lowest bits of a signed number is its last one: its top bit is the sign of
the rest. -/
def IsLastGroup (v : Int64) : Prop :=
  (v >>> 7 = 0 ∧ v.toUInt64.toUInt8 &&& 0x40 = 0) ∨ (v >>> 7 = -1 ∧ v.toUInt64.toUInt8 &&& 0x40 ≠ 0)

instance (v : Int64) : Decidable (IsLastGroup v) :=
  inferInstanceAs (Decidable (_ ∨ _))

theorem isLastGroup_iff (v : Int64) : IsLastGroup v ↔ -64 ≤ v.toInt ∧ v.toInt < 64 := by
  have low := toNat_lowByte v
  have zero : v >>> 7 = 0 ↔ v.toInt / 128 = 0 := by
    rw [← Int64.toInt_inj, toInt_shiftRight_seven]
    rfl
  have minus : v >>> 7 = -1 ↔ v.toInt / 128 = -1 := by
    rw [← Int64.toInt_inj, toInt_shiftRight_seven]
    rfl
  rw [IsLastGroup, zero, minus, ne_eq, and_sign_eq_zero_iff]
  omega

/-- Appends the bytes of a signed number, seven bits at a time. The shift keeps the sign. -/
def appendInt64 (buf : List UInt8) (v : Int64) : List UInt8 :=
  let group := v.toUInt64.toUInt8 &&& 0x7f
  if IsLastGroup v then buf ++ [group]
  else appendInt64 (buf ++ [group ||| 0x80]) (v >>> 7)
termination_by v.toInt.natAbs
decreasing_by
  rename_i h
  rw [isLastGroup_iff] at h
  rw [toInt_shiftRight_seven]
  omega

theorem appendUInt64_eq (buf : List UInt8) (n : UInt64) :
    appendUInt64 buf n = buf ++ ofUInt64 n := by
  fun_induction appendUInt64 buf n with
  | case1 buf n h =>
    have lt : n.toNat < 128 := UInt64.lt_iff_toNat_lt.mp h
    have byte : n.toUInt8 = n.toNat.toUInt8 := rfl
    rw [ofUInt64, encodeUnsigned, if_pos lt, byte]
  | case2 buf n h ih =>
    have ge : ¬ n.toNat < 128 := fun lt => h (UInt64.lt_iff_toNat_lt.mpr lt)
    have byte : n.toUInt8 ||| 0x80 = (n.toNat % 128 + 128).toUInt8 := by
      rw [← UInt8.toNat_inj, toNat_or_top, UInt64.toNat_toUInt8, Nat.toUInt8_eq, UInt8.toNat_ofNat']
      omega
    rw [ih, ofUInt64, ofUInt64, toNat_shiftRight_seven, encodeUnsigned.eq_def n.toNat, if_neg ge,
      byte, List.append_assoc, List.singleton_append]

theorem appendInt64_eq (buf : List UInt8) (v : Int64) : appendInt64 buf v = buf ++ ofInt64 v := by
  fun_induction appendInt64 buf v with
  | case1 buf v group h =>
    have low := toNat_lowByte v
    have byte : group = (v.toInt % 128).toNat.toUInt8 := by
      rw [← UInt8.toNat_inj, toNat_and_low, Nat.toUInt8_eq, UInt8.toNat_ofNat']
      omega
    rw [ofInt64, encodeSigned, if_pos ((isLastGroup_iff v).mp h), byte]
  | case2 buf v group h ih =>
    have low := toNat_lowByte v
    have byte : group ||| 0x80 = ((v.toInt % 128).toNat + 128).toUInt8 := by
      rw [← UInt8.toNat_inj, toNat_or_top, toNat_and_low, Nat.toUInt8_eq, UInt8.toNat_ofNat']
      omega
    rw [ih, ofInt64, ofInt64, toInt_shiftRight_seven, encodeSigned.eq_def v.toInt,
      if_neg (mt (isLastGroup_iff v).mpr h), byte, List.append_assoc, List.singleton_append]

/-- The bytes of a number of 64 bits are at most ten and the shortest that stand for it, and
shifting them out of a word appends just these. Those of a number of 32 bits are those of the same
number of 64 bits, and at most five. -/
theorem written_numbers_are_shortest :
    (∀ buf (v : Int64), appendInt64 buf v = buf ++ ofInt64 v ∧
      IsShortest twosComplement v.toInt (ofInt64 v) ∧ (ofInt64 v).length ≤ 10) ∧
    (∀ buf (n : UInt64), appendUInt64 buf n = buf ++ ofUInt64 n ∧
      IsShortest sumOfPlaces n.toNat (ofUInt64 n) ∧ (ofUInt64 n).length ≤ 10) ∧
    (∀ v : Int32, ofInt32 v = ofInt64 v.toInt64 ∧ (ofInt32 v).length ≤ 5) ∧
    (∀ n : UInt32, ofUInt32 n = ofUInt64 n.toUInt64 ∧ (ofUInt32 n).length ≤ 5) := by
  refine ⟨fun buf v => ⟨appendInt64_eq buf v, isShortest_encodeSigned v.toInt, length_ofInt64_le v⟩,
    fun buf n => ⟨appendUInt64_eq buf n, isShortest_encodeUnsigned n.toNat, length_ofUInt64_le n⟩,
    fun v => ⟨?_, length_ofInt32_le v⟩, fun n => ⟨?_, length_ofUInt32_le n⟩⟩
  · rw [ofInt32, ofInt64, Int32.toInt_toInt64]
  · rw [ofUInt32, ofUInt64, UInt32.toNat_toUInt64]

/-! ## Reading -/

/-- Gathers the groups from place `i` on in a word, each shifted to its place, of which at most
`left` are looked at: the word, the last byte and the number of all bytes. -/
def gather (bytes : List UInt8) (word : UInt32) (i : Nat) :
    (left : Nat) → Except Error (UInt32 × UInt8 × Nat)
  | 0 => .error .overflow
  | left + 1 =>
    match bytes[i]? with
    | none => .error .endOfInput
    | some b =>
      let word := word ||| (b &&& 0x7f).toUInt32 <<< (7 * i).toUInt32
      if b < 0x80 then .ok (word, b, i + 1) else gather bytes word (i + 1) left

/-- Loads a number whose bits `finish?` turns into a value, if there is none past the word. -/
def loadWith {α : Type} (finish? : UInt32 → UInt8 → Nat → Option α) (bytes : List UInt8) :
    Except Error (α × Nat) :=
  match gather bytes 0 0 maxLength with
  | .error e => .error e
  | .ok (word, last, k) =>
    match finish? word last k with
    | some v => .ok (v, k)
    | none => .error .overflow

/-- Loads an unsigned number. A fifth byte has room for four bits only. -/
def loadUInt32 : List UInt8 → Except Error (UInt32 × Nat) :=
  loadWith fun word last k => if k = maxLength ∧ last &&& 0xf0 ≠ 0 then none else some word

/-- The bits of a number of `k` bytes as a signed one: if they do not fill the word, then the sign
is that of the last byte. -/
def extendSign (word : UInt32) (last : UInt8) (k : Nat) : Int32 :=
  if 7 * k < 32 ∧ last &&& 0x40 ≠ 0 then (word ||| 0xffffffff <<< (7 * k).toUInt32).toInt32
  else word.toInt32

/-- Loads a signed number. The bits of a fifth byte that are past the word have to repeat
the sign. -/
def loadInt32 : List UInt8 → Except Error (Int32 × Nat) :=
  loadWith fun word last k =>
    let v := extendSign word last k
    if k = maxLength ∧ last &&& 0x70 ≠ (if v < 0 then 0x70 else 0) then none else some v

/-- Bits that are shifted above those of a word are added to it, as far as the word goes. -/
theorem toNat_or_shiftLeft {word : UInt32} {s : Nat} (hs : s < 32) (hw : word.toNat < 2 ^ s)
    (x : UInt32) :
    (word ||| x <<< s.toUInt32).toNat = (word.toNat + 2 ^ s * x.toNat) % 2 ^ 32 := by
  have amount : s.toUInt32.toNat % 32 = s := by
    rw [Nat.toUInt32_eq, UInt32.toNat_ofNat']
    omega
  have width : 2 ^ 32 = 2 ^ s * 2 ^ (32 - s) := by rw [← Nat.pow_add]; congr 1; omega
  have shifted : (x <<< s.toUInt32).toNat = (x.toNat % 2 ^ (32 - s)) <<< s := by
    rw [UInt32.toNat_shiftLeft, amount, Nat.shiftLeft_eq, Nat.shiftLeft_eq, width,
      Nat.mul_comm (2 ^ s), Nat.mul_mod_mul_right]
  rw [UInt32.toNat_or, shifted, Nat.or_comm, ← Nat.shiftLeft_add_eq_or_of_lt hw, width, Nat.mod_mul,
    Nat.add_mul_mod_self_left, Nat.mod_eq_of_lt hw, Nat.add_mul_div_left _ _ (Nat.two_pow_pos s),
    Nat.div_eq_of_lt hw, Nat.zero_add, Nat.shiftLeft_eq, Nat.mul_comm, Nat.add_comm]

/-- A group that is shifted into its place in a word is added to the value, as far as the
word goes. -/
theorem toNat_shiftIn {before : List UInt8} {word : UInt32} (hi : before.length ≤ 4)
    (hw : word.toNat = unsignedValue before) (b : UInt8) :
    (word ||| (b &&& 0x7f).toUInt32 <<< (7 * before.length).toUInt32).toNat =
      unsignedValue (before ++ [b]) % 2 ^ 32 := by
  have lt : word.toNat < 2 ^ (7 * before.length) := by
    rw [hw, two_pow_seven_mul]
    exact unsignedValue_lt before
  rw [toNat_or_shiftLeft (by omega) lt, UInt8.toNat_toUInt32, toNat_and_low, hw, two_pow_seven_mul,
    unsignedValue_append, unsignedValue, unsignedValue, Nat.mul_zero, Nat.add_zero]

/-- Bytes with a top bit are gathered one after another. -/
theorem gather_of_top {more : List UInt8} (h : ∀ b ∈ more, 0x80 ≤ b) (before rest : List UInt8)
    (word : UInt32) (left : Nat) :
    ∃ word', gather (before ++ (more ++ rest)) word before.length (more.length + left) =
        gather (before ++ (more ++ rest)) word' (before ++ more).length left ∧
      ((before ++ more).length ≤ 4 → word.toNat = unsignedValue before →
        word'.toNat = unsignedValue (before ++ more)) := by
  induction more generalizing before word with
  | nil => exact ⟨word, by simp, by simp⟩
  | cons b more ih =>
    obtain ⟨hb, h⟩ := List.forall_mem_cons.mp h
    obtain ⟨word', run, value⟩ := ih h (before ++ [b])
      (word ||| (b &&& 0x7f).toUInt32 <<< (7 * before.length).toUInt32)
    have here : (before ++ (b :: more ++ rest))[before.length]? = some b := by simp
    simp only [← List.append_cons] at run value
    refine ⟨word', ?_, fun hi hw => value hi ?_⟩
    · rw [List.length_cons, Nat.add_right_comm, gather, here]
      simp only [if_neg (UInt8.not_lt.mpr hb)]
      rw [List.length_append, List.length_singleton] at run
      exact run
    · have short : (before ++ [b]).length < 5 := by simp at hi ⊢; omega
      have four : before.length ≤ 4 := by simp at short; omega
      rw [toNat_shiftIn four hw, Nat.mod_eq_of_lt (unsignedValue_lt_of_short short)]

theorem gather_number {init : List UInt8} {last : UInt8} (framed : Framed (init ++ [last]))
    (hl : init.length ≤ 4) (rest : List UInt8) :
    ∃ word, gather (init ++ [last] ++ rest) 0 0 maxLength = .ok (word, last, init.length + 1) ∧
      word.toNat = unsignedValue (init ++ [last]) % 2 ^ 32 := by
  obtain ⟨more, ends⟩ := framed_concat_iff.mp framed
  obtain ⟨word, run, value⟩ := gather_of_top more [] ([last] ++ rest) 0 (4 - init.length + 1)
  have left : init.length + (4 - init.length + 1) = maxLength := by rw [maxLength]; omega
  have here : (init ++ ([last] ++ rest))[init.length]? = some last := by simp
  rw [left, List.nil_append, List.nil_append, List.length_nil] at run
  rw [List.append_assoc, run, gather, here]
  simp only [if_pos ends]
  exact ⟨_, rfl, toNat_shiftIn hl (value hl rfl) last⟩

theorem gather_cut {bytes : List UInt8} (more : ∀ b ∈ bytes, 0x80 ≤ b) (short : bytes.length < 5) :
    gather bytes 0 0 maxLength = .error .endOfInput := by
  obtain ⟨word, run, -⟩ := gather_of_top more [] [] 0 (4 - bytes.length + 1)
  have left : bytes.length + (4 - bytes.length + 1) = maxLength := by rw [maxLength]; omega
  rw [left, List.append_nil, List.nil_append, List.length_nil] at run
  rw [run, gather, List.getElem?_eq_none (Nat.le_refl _)]

theorem gather_long {groups : List UInt8} (more : ∀ b ∈ groups, 0x80 ≤ b) (full : groups.length = 5)
    (rest : List UInt8) : gather (groups ++ rest) 0 0 maxLength = .error .overflow := by
  obtain ⟨word, run, -⟩ := gather_of_top more [] rest 0 0
  rw [List.nil_append, List.nil_append, List.length_nil, Nat.add_zero, full] at run
  rw [maxLength, run, gather]

theorem exists_concat_of_framed {groups : List UInt8} (h : Framed groups) :
    ∃ init last, groups = init ++ [last] :=
  ⟨_, _, (List.dropLast_concat_getLast (ne_nil_of_framed h)).symm⟩

/-- It does not matter whether a number is put together in a word or from its groups, if both are
finished alike. -/
theorem loadWith_eq {α : Type} {finish? : UInt32 → UInt8 → Nat → Option α}
    {value? : List UInt8 → Option α}
    (h : ∀ init last word, Framed (init ++ [last]) → init.length ≤ 4 →
      word.toNat = unsignedValue (init ++ [last]) % 2 ^ 32 →
      finish? word last (init.length + 1) = value? (init ++ [last])) (bytes : List UInt8) :
    loadWith finish? bytes = (readWith value? bytes).result := by
  have parts := splitsAs_split 5 bytes
  generalize hs : split 5 bytes = s at parts
  have hs : split maxLength bytes = s := hs
  cases parts with
  | number groups rest framed hl =>
    obtain ⟨init, last, rfl⟩ := exists_concat_of_framed framed
    have four : init.length ≤ 4 := by
      rw [List.length_append, List.length_singleton] at hl
      exact Nat.le_of_succ_le_succ hl
    obtain ⟨word, run, value⟩ := gather_number framed four rest
    simp only [loadWith, run, readWith, hs, h init last word framed four value, List.length_append,
      List.length_singleton]
    cases value? (init ++ [last]) <;> rfl
  | cut bytes more short => simp only [loadWith, gather_cut more short, readWith, hs]
  | long groups rest more full => simp only [loadWith, gather_long more full, readWith, hs]

/-- A value of five bytes fits if the bits of the fifth that are past the word are zero. -/
theorem unsignedValue_lt_iff_fifth {init : List UInt8} {last : UInt8}
    (framed : Framed (init ++ [last])) (hl : init.length ≤ 4) :
    unsignedValue (init ++ [last]) < 2 ^ 32 ↔
      ¬ (init.length + 1 = maxLength ∧ last &&& 0xf0 ≠ 0) := by
  rcases Nat.lt_or_eq_of_le hl with short | full
  · have notFive : init.length + 1 ≠ maxLength := by rw [maxLength]; omega
    exact iff_of_true (unsignedValue_lt_of_short (by simp; omega)) fun h => notFive h.1
  · have fifth : (init ++ [last])[4]? = some last := by simp [← full]
    have five : init.length + 1 = maxLength := by rw [full]; rfl
    rw [unsignedValue_lt_iff framed (by simp [full]), fifth]
    simp only [Option.some.injEq, forall_eq', five, true_and, ne_eq, not_not, and_high_eq_zero_iff,
      UInt8.le_iff_toNat_le]
    exact Nat.lt_succ_iff.symm

theorem loadUInt32_eq (bytes : List UInt8) : loadUInt32 bytes = (readUInt32 bytes).result := by
  refine loadWith_eq (fun init last word framed hl hw => ?_) bytes
  have range := unsignedValue_lt_iff_fifth framed hl
  have same : word = (unsignedValue (init ++ [last])).toUInt32 := by
    rw [← UInt32.toNat_inj, hw]
    rfl
  by_cases lt : unsignedValue (init ++ [last]) < 1 <<< 32
  · simp only [if_neg (range.mp lt), if_pos lt, same]
  · simp only [if_pos (not_not.mp (mt range.mpr lt)), if_neg lt]

/-- The sign bit of the last byte says in which half of its range a value is. -/
theorem and_sign_eq_zero_iff_half (init : List UInt8) (last : UInt8) :
    last &&& 0x40 = 0 ↔ 2 * unsignedValue (init ++ [last]) < 128 ^ (init.length + 1) := by
  have low := unsignedValue_lt init
  rw [and_sign_eq_zero_iff, unsignedValue_append, Nat.pow_succ, unsignedValue, unsignedValue,
    Nat.mul_zero, Nat.add_zero]
  generalize 128 ^ init.length = place at low ⊢
  constructor
  · intro h
    have := Nat.mul_le_mul_left place (Nat.succ_le_of_lt h)
    rw [Nat.mul_succ] at this
    omega
  · intro h
    rcases Nat.lt_or_ge (last.toNat % 128) 64 with lt | top
    · exact lt
    · have := Nat.mul_le_mul_left place top
      omega

theorem toInt32_eq_of_emod {word : UInt32} {v : Int} (h : (word.toNat : Int) = v % 2 ^ 32) :
    word.toInt32 = v.toInt32 := by
  rw [← Int32.toBitVec_inj]
  refine BitVec.eq_of_toNat_eq ?_
  rw [UInt32.toBitVec_toInt32, Int.toInt32, Int32.toBitVec_ofInt, BitVec.toNat_ofInt]
  show word.toNat = _
  omega

/-- The sign that is extended is that of the value, as far as the word goes. -/
theorem extendSign_eq {init : List UInt8} {last : UInt8} {word : UInt32} (hl : init.length ≤ 4)
    (hw : word.toNat = unsignedValue (init ++ [last]) % 2 ^ 32) :
    extendSign word last (init.length + 1) = (signedValue (init ++ [last])).toInt32 := by
  have length : (init ++ [last]).length = init.length + 1 := by simp
  have half := and_sign_eq_zero_iff_half init last
  rw [extendSign, signedValue_eq_ite (by simp), length]
  by_cases sign : last &&& 0x40 = 0
  · rw [if_neg (fun h => h.2 sign), if_pos (half.mp sign)]
    exact toInt32_eq_of_emod (by omega)
  · rw [if_neg (mt half.mpr sign)]
    rcases Nat.lt_or_eq_of_le hl with short | full
    · -- The sign is put above the bits of the value, which counts as taking their range away.
      have room : 7 * (init.length + 1) < 32 := by omega
      have value : word.toNat = unsignedValue (init ++ [last]) := by
        rw [hw, Nat.mod_eq_of_lt (unsignedValue_lt_of_short (by omega))]
      have lt : word.toNat < 2 ^ (7 * (init.length + 1)) := by
        rw [value, two_pow_seven_mul, ← length]
        exact unsignedValue_lt _
      rw [if_pos ⟨room, sign⟩]
      refine toInt32_eq_of_emod ?_
      rw [toNat_or_shiftLeft room lt, value, two_pow_seven_mul]
      have ones : (0xffffffff : UInt32).toNat = 2 ^ 32 - 1 := rfl
      rw [ones]
      omega
    · -- The place of a sixth group is past the word.
      rw [if_neg (by omega), full]
      exact toInt32_eq_of_emod (by omega)

/-- A value of five bytes fits if the bits of the fifth that are past the word repeat the sign. -/
theorem signedValue_bounds_iff_fifth {init : List UInt8} {last : UInt8}
    (framed : Framed (init ++ [last])) (hl : init.length ≤ 4) :
    (-(1 <<< 31) ≤ signedValue (init ++ [last]) ∧ signedValue (init ++ [last]) < 1 <<< 31) ↔
      ¬ (init.length + 1 = maxLength ∧
        last &&& 0x70 ≠ (if (signedValue (init ++ [last])).toInt32 < 0 then 0x70 else 0)) := by
  rcases Nat.lt_or_eq_of_le hl with short | full
  · have notFive : init.length + 1 ≠ maxLength := by rw [maxLength]; omega
    exact iff_of_true (signedValue_bounds_of_short framed (by simp; omega)) fun h => notFive h.1
  · have five : init.length + 1 = maxLength := by rw [full]; rfl
    have low := unsignedValue_lt init
    have value :
        unsignedValue (init ++ [last]) = unsignedValue init + 2 ^ 28 * (last.toNat % 128) := by
      rw [unsignedValue_append, full]
      rfl
    rw [full] at low
    have signed := signedValue_eq_ite (show init ++ [last] ≠ [] by simp)
    rw [List.length_append, List.length_singleton, full, value] at signed
    have negative : (signedValue (init ++ [last])).toInt32 < 0 ↔ 8 ≤ last.toNat % 16 := by
      have zero : (0 : Int32).toInt = 0 := rfl
      rw [Int32.lt_iff_toInt_lt, Int.toInt32, Int32.toInt_ofInt, Int.bmod_def, signed, zero,
        Int32.size]
      omega
    simp only [five, true_and, ne_eq, not_not, negative]
    by_cases neg : 8 ≤ last.toNat % 16
    · rw [if_pos neg, and_unused_eq_ones_iff, signed]
      omega
    · rw [if_neg neg, and_unused_eq_zero_iff, signed]
      omega

theorem loadInt32_eq (bytes : List UInt8) : loadInt32 bytes = (readInt32 bytes).result := by
  refine loadWith_eq (fun init last word framed hl hw => ?_) bytes
  have range := signedValue_bounds_iff_fifth framed hl
  simp only [extendSign_eq hl hw]
  by_cases fits : -(1 <<< 31) ≤ signedValue (init ++ [last]) ∧
    signedValue (init ++ [last]) < 1 <<< 31
  · rw [if_neg (range.mp fits), if_pos fits]
  · rw [if_pos (not_not.mp (mt range.mpr fits)), if_neg fits]

/-- A number of 32 bits is read if and only if it stands at the start of the bytes: `k` of them, at
most five, all but the last with their top bit set, are the unsigned number by places, and the
signed one in two's complement of `7 * k` bits. Loading it in a word gives the same. -/
theorem reads_exactly_numbers_of_32_bits (bytes : List UInt8) :
    ReadsExactly readUInt32 (fun groups n => sumOfPlaces groups = n.toNat) bytes ∧
    ReadsExactly readInt32 (fun groups v => twosComplement groups = v.toInt) bytes ∧
    loadUInt32 bytes = (readUInt32 bytes).result ∧ loadInt32 bytes = (readInt32 bytes).result :=
  ⟨readsExactly_readUInt32 bytes, readsExactly_readInt32 bytes, loadUInt32_eq bytes,
    loadInt32_eq bytes⟩

-- The last bits of a fifth byte have to repeat the sign.
example : (readInt32 [0x80, 0x80, 0x80, 0x80, 0x78]).result = .ok (-2147483648, 5) ∧
    (readInt32 [0x80, 0x80, 0x80, 0x80, 0x08]).result = .error .overflow := ⟨rfl, rfl⟩

end TapeLang.Leb128
