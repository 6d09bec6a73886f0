import TapeLang.Proofs.Leb128.Forms
import TapeLang.Proofs.Load

/-!
# The grammar of instructions

What bytes are instructions, one after another, said without reading or writing them.

* `Leb128.WritesInt32`: the forms of a signed number of 32 bits.
  `Leb128.ReadsExactly.exists_ok_iff`: a number is read if and only if a form of it stands in front
  of what is left.
* `WritesInstr`: an opcode, and then the operand that instructions with this opcode have
  (`Instr.operand`). Numbers may be written in any of their forms.
* `Instr.read?_eq_some_iff`: the instruction that is read at the start of some bytes is the one that
  the grammar has there. `Instr.readAll?_eq_some_iff`: bytes are split into instructions if and only
  if they are these by the grammar.
-/

namespace TapeLang

/-! ## Numbers -/

namespace Leb128

/-- The bytes write a signed number of 32 bits. They need not be the shortest that do. -/
structure WritesInt32 (groups : List UInt8) (v : Int32) : Prop where
  framed : Framed groups
  length_le : groups.length ≤ 5
  value : twosComplement groups = v.toInt

/-- A number is read and some bytes are left if and only if it stands in front of them. -/
theorem ReadsExactly.exists_ok_iff {α : Type} {read : List UInt8 → Reading α}
    {Denotes : List UInt8 → α → Prop} {bytes rest : List UInt8} {v : α}
    (h : ReadsExactly read Denotes bytes) :
    (∃ k, read bytes = ⟨.ok (v, k), rest⟩) ↔
      ∃ groups, bytes = groups ++ rest ∧ Framed groups ∧ groups.length ≤ 5 ∧ Denotes groups v := by
  constructor
  · rintro ⟨k, hk⟩
    have result : (read bytes).result = .ok (v, k) := by rw [hk]
    have left := h.rest_of_ok v k result
    rw [hk] at left
    obtain ⟨starts, denotes⟩ := (h.ok_iff v k).mp result
    obtain ⟨five, -, framed⟩ := startsWithNumber_iff.mp starts
    refine ⟨bytes.take k, ?_, framed, ?_, denotes⟩
    · rw [show rest = bytes.drop k from left, List.take_append_drop]
    · rw [List.length_take]
      omega
  · rintro ⟨groups, rfl, framed, five, denotes⟩
    have starts := (startsWithNumber_append_iff framed five rest).mpr rfl
    have result := (h.ok_iff v groups.length).mpr ⟨starts, by rwa [List.take_left]⟩
    have left := h.rest_of_ok v groups.length result
    rw [List.drop_left] at left
    refine ⟨groups.length, ?_⟩
    calc read (groups ++ rest)
      _ = ⟨(read (groups ++ rest)).result, (read (groups ++ rest)).rest⟩ := rfl
      _ = ⟨.ok (v, groups.length), rest⟩ := by rw [result, left]

theorem writesUInt32_iff {groups : List UInt8} {n : UInt32} :
    WritesUInt32 groups n.toNat ↔
      Framed groups ∧ groups.length ≤ 5 ∧ sumOfPlaces groups = n.toNat := by
  constructor
  · intro h
    exact ⟨h.framed, h.length_le, h.value⟩
  · rintro ⟨framed, five, value⟩
    refine ⟨framed, five, (unsignedValue_lt_iff framed five).mp ?_, value⟩
    rw [unsignedValue_eq_sumOfPlaces, value]
    exact n.toNat_lt

/-- An unsigned number is read where one of its forms stands, and nowhere else. -/
theorem readUInt32_ok_iff (bytes rest : List UInt8) (n : UInt32) :
    (∃ k, readUInt32 bytes = ⟨.ok (n, k), rest⟩) ↔
      ∃ groups, bytes = groups ++ rest ∧ WritesUInt32 groups n.toNat := by
  simp only [(readsExactly_readUInt32 bytes).exists_ok_iff, writesUInt32_iff]

/-- A signed number is read where one of its forms stands, and nowhere else. -/
theorem readInt32_ok_iff (bytes rest : List UInt8) (v : Int32) :
    (∃ k, readInt32 bytes = ⟨.ok (v, k), rest⟩) ↔
      ∃ groups, bytes = groups ++ rest ∧ WritesInt32 groups v := by
  rw [(readsExactly_readInt32 bytes).exists_ok_iff]
  constructor
  · rintro ⟨groups, same, framed, five, value⟩
    exact ⟨groups, same, framed, five, value⟩
  · rintro ⟨groups, same, framed, five, value⟩
    exact ⟨groups, same, framed, five, value⟩

/-- The shortest form of a signed number is one of its forms. -/
theorem writesInt32_ofInt32 (v : Int32) : WritesInt32 (ofInt32 v) v where
  framed := framed_encodeSigned v.toInt
  length_le := length_ofInt32_le v
  value := (isShortest_encodeSigned v.toInt).value_eq

end Leb128

namespace Wasm

open Leb128 (WritesUInt32 WritesInt32)

/-! ## Grammar -/

/-- What an instruction has besides its opcode. -/
inductive Operand where
  | none
  /-- The type of a block, which neither takes nor gives values. -/
  | blockType
  /-- The index of a local or a function, or the depth of a label. -/
  | index (n : UInt32)
  | value (v : Int32)
  /-- What is added to an address, after the alignment. -/
  | offset (n : UInt32)
  deriving DecidableEq, Repr

def Op.operand : Op → Operand
  | localGet n | localSet n | call n | brIf n => .index n
  | const v => .value v
  | load8s n | load8u n | store8 n => .offset n
  | add | eqz | drop | ret => .none

def Instr.operand : Instr → Operand
  | op o => o.operand
  | block | loop => .blockType
  | close => .none

/-- The bytes are an operand. A byte needs no alignment, so no other than zero is written. -/
inductive WritesOperand : List UInt8 → Operand → Prop where
  | none : WritesOperand [] .none
  | blockType : WritesOperand [emptyBlockType] .blockType
  | index {bytes : List UInt8} {n : UInt32} (h : WritesUInt32 bytes n.toNat) :
    WritesOperand bytes (.index n)
  | value {bytes : List UInt8} {v : Int32} (h : WritesInt32 bytes v) :
    WritesOperand bytes (.value v)
  | offset {align bytes : List UInt8} {n : UInt32} (ha : WritesUInt32 align 0)
    (hn : WritesUInt32 bytes n.toNat) :
    WritesOperand (align ++ bytes) (.offset n)

/-- The bytes are an instruction: its opcode, and then its operand. -/
inductive WritesInstr : List UInt8 → Instr → Prop where
  | intro {bytes : List UInt8} (i : Instr) (h : WritesOperand bytes i.operand) :
    WritesInstr (i.opcode :: bytes) i

/-- The alignment of a byte. -/
theorem writesUInt32_zero : WritesUInt32 [0] 0 where
  framed := show (0 : UInt8) < 0x80 by decide
  length_le := by decide
  fifth_le := by simp
  value := rfl

theorem writesOperand_immediates (o : Op) : WritesOperand o.immediates o.operand := by
  cases o with
  | localGet n | localSet n | call n | brIf n => exact .index (Leb128.writesUInt32_ofUInt32 n)
  | const v => exact .value (Leb128.writesInt32_ofInt32 v)
  | load8s n | load8u n | store8 n =>
    exact .offset writesUInt32_zero (Leb128.writesUInt32_ofUInt32 n)
  | add | eqz | drop | ret => exact .none

/-- What is written of an instruction follows the grammar. -/
theorem writesInstr_encode (i : Instr) : WritesInstr i.encode i := by
  cases i with
  | op o => exact .intro (.op o) (writesOperand_immediates o)
  | block => exact .intro .block .blockType
  | loop => exact .intro .loop .blockType
  | close => exact .intro .close .none

/-! ## Reading -/

namespace Instr

variable {bytes rest : List UInt8} {i : Instr}

theorem readIndex?_eq_some_iff {make : UInt32 → Op} :
    readIndex? make bytes = some (i, rest) ↔
      ∃ n groups, i = op (make n) ∧ bytes = groups ++ rest ∧ WritesUInt32 groups n.toNat := by
  simp only [exists_and_left, ← Leb128.readUInt32_ok_iff, readIndex?]
  rcases Leb128.readUInt32 bytes with ⟨e | ⟨n, k⟩, left⟩
  · simp
  · constructor
    · rintro ⟨⟩
      exact ⟨n, rfl, k, rfl⟩
    · rintro ⟨n', rfl, k', ⟨⟩⟩
      rfl

theorem readConst?_eq_some_iff :
    readConst? bytes = some (i, rest) ↔
      ∃ v groups, i = op (.const v) ∧ bytes = groups ++ rest ∧ WritesInt32 groups v := by
  simp only [exists_and_left, ← Leb128.readInt32_ok_iff, readConst?]
  rcases Leb128.readInt32 bytes with ⟨e | ⟨v, k⟩, left⟩
  · simp
  · constructor
    · rintro ⟨⟩
      exact ⟨v, rfl, k, rfl⟩
    · rintro ⟨v', rfl, k', ⟨⟩⟩
      rfl

theorem readOffset?_eq_some_iff {make : UInt32 → Op} :
    readOffset? make bytes = some (i, rest) ↔
      ∃ n align groups, i = op (make n) ∧ bytes = align ++ groups ++ rest ∧
        WritesUInt32 align 0 ∧ WritesUInt32 groups n.toNat := by
  constructor
  · intro h
    simp only [readOffset?] at h
    split at h
    · rename_i k result
      obtain ⟨align, same, zero⟩ := (Leb128.readUInt32_ok_iff bytes _ 0).mp ⟨k, by rw [← result]⟩
      obtain ⟨n, groups, rfl, left, w⟩ := readIndex?_eq_some_iff.mp h
      exact ⟨n, align, groups, rfl, by rw [List.append_assoc, ← left, ← same], zero, w⟩
    · cases h
  · rintro ⟨n, align, groups, rfl, rfl, zero, w⟩
    rw [List.append_assoc]
    obtain ⟨k, hk⟩ := (Leb128.readUInt32_ok_iff _ (groups ++ rest) 0).mpr ⟨align, rfl, zero⟩
    simp only [readOffset?, hk]
    exact readIndex?_eq_some_iff.mpr ⟨n, groups, rfl, rfl, w⟩

theorem readBlock?_eq_some_iff {opens : Instr} :
    readBlock? opens bytes = some (i, rest) ↔ i = opens ∧ bytes = emptyBlockType :: rest := by
  unfold readBlock?
  split
  · rename_i b bytes
    by_cases hb : b = emptyBlockType
    · subst hb
      simp [eq_comm]
    · simp [hb]
  · simp

/-- Reading finds no instruction but what the grammar has. -/
theorem writesInstr_of_read? (h : read? bytes = some (i, rest)) :
    ∃ item, bytes = item ++ rest ∧ WritesInstr item i := by
  unfold read? at h
  split at h
  · cases h
  · rename_i b bytes
    split at h
    case h_1 | h_2 =>
      obtain ⟨rfl, rfl⟩ := readBlock?_eq_some_iff.mp h
      exact ⟨_, rfl, .intro _ .blockType⟩
    case h_3 | h_5 | h_7 | h_14 | h_15 =>
      cases h
      exact ⟨_, rfl, .intro _ .none⟩
    case h_4 | h_6 | h_8 | h_9 =>
      obtain ⟨n, groups, rfl, rfl, w⟩ := readIndex?_eq_some_iff.mp h
      exact ⟨_, rfl, .intro _ (.index w)⟩
    case h_10 | h_11 | h_12 =>
      obtain ⟨n, align, groups, rfl, rfl, zero, w⟩ := readOffset?_eq_some_iff.mp h
      exact ⟨_, rfl, .intro _ (.offset zero w)⟩
    case h_13 =>
      obtain ⟨v, groups, rfl, rfl, w⟩ := readConst?_eq_some_iff.mp h
      exact ⟨_, rfl, .intro _ (.value w)⟩
    case h_16 => cases h

/-- Reading finds every instruction that the grammar has. -/
theorem reads_of_writesInstr {item : List UInt8} (h : WritesInstr item i) : Reads read? item i := by
  intro rest
  obtain ⟨i, h⟩ := h
  cases i with
  | block | loop | close =>
    cases h
    rfl
  | op o =>
    cases o with
    | localGet n | localSet n | call n | brIf n =>
      cases h with
      | index w => exact readIndex?_eq_some_iff.mpr ⟨n, _, rfl, rfl, w⟩
    | const v =>
      cases h with
      | value w => exact readConst?_eq_some_iff.mpr ⟨v, _, rfl, rfl, w⟩
    | load8s n | load8u n | store8 n =>
      cases h with
      | offset zero w => exact readOffset?_eq_some_iff.mpr ⟨n, _, _, rfl, rfl, zero, w⟩
    | add | eqz | drop | ret =>
      cases h
      rfl

/-- The instruction that is read at the start of some bytes is the one that the grammar
has there. -/
theorem read?_eq_some_iff :
    read? bytes = some (i, rest) ↔ ∃ item, bytes = item ++ rest ∧ WritesInstr item i := by
  constructor
  · exact writesInstr_of_read?
  · rintro ⟨item, rfl, h⟩
    exact reads_of_writesInstr h rest

/-- Bytes that are some instructions start with the first one, and the others are what is
left then. -/
theorem writesItems_cons_iff {b : UInt8} {is : List Instr} :
    WritesItems WritesInstr (b :: bytes) is ↔
      ∃ i rest others, read? (b :: bytes) = some (i, rest) ∧ WritesItems WritesInstr rest others ∧
        is = i :: others := by
  constructor
  · intro h
    generalize hb : b :: bytes = whole at h
    cases h with
    | nil => cases hb
    | @cons item rest i others h hs =>
      exact ⟨i, rest, others, read?_eq_some_iff.mpr ⟨item, rfl, h⟩, hs, rfl⟩
  · rintro ⟨i, rest, others, h, hs, rfl⟩
    obtain ⟨item, same, h⟩ := read?_eq_some_iff.mp h
    rw [same]
    exact .cons h hs

theorem length_rest_lt (h : read? bytes = some (i, rest)) : rest.length < bytes.length := by
  obtain ⟨item, rfl, ⟨i, -⟩⟩ := read?_eq_some_iff.mp h
  simp only [List.length_append, List.length_cons]
  omega

theorem writesItems_nil_iff {is : List Instr} : WritesItems WritesInstr [] is ↔ is = [] := by
  constructor
  · intro h
    generalize hb : ([] : List UInt8) = whole at h
    cases h with
    | nil => rfl
    | cons h hs =>
      obtain ⟨i, -⟩ := h
      cases hb
  · rintro rfl
    exact .nil

-- Each instruction takes a byte at least, so the bytes run out before the limit does.
theorem readOnto_eq_some_iff {before js : List Instr} {most : Nat} (hm : bytes.length ≤ most) :
    readOnto before most bytes = some js ↔
      ∃ is, WritesItems WritesInstr bytes is ∧ js = before.reverse ++ is := by
  induction most generalizing before bytes with
  | zero =>
    obtain rfl : bytes = [] := List.length_eq_zero_iff.mp (by omega)
    simp [readOnto, writesItems_nil_iff, eq_comm]
  | succ most ih =>
    cases bytes with
    | nil => simp [readOnto, writesItems_nil_iff, eq_comm]
    | cons b bytes =>
      simp only [readOnto, writesItems_cons_iff]
      cases hr : read? (b :: bytes) with
      | none => simp
      | some first =>
        obtain ⟨i, rest⟩ := first
        have shorter := length_rest_lt hr
        simp only
        rw [ih (by simp only [List.length_cons] at shorter hm; omega)]
        constructor
        · rintro ⟨others, hs, rfl⟩
          exact ⟨i :: others, ⟨i, rest, others, rfl, hs, rfl⟩, by simp⟩
        · rintro ⟨_, ⟨i', rest', others, ⟨⟩, hs, rfl⟩, rfl⟩
          exact ⟨others, hs, by simp⟩

/-- Bytes are split into instructions, with none left over, if and only if they are these by
the grammar. -/
theorem readAll?_eq_some_iff {is : List Instr} :
    readAll? bytes = some is ↔ WritesItems WritesInstr bytes is := by
  rw [readAll?, readOnto_eq_some_iff (Nat.le_refl _)]
  simp

end Instr

end Wasm

end TapeLang
