import TapeLang.Wasm.Host

/-!
# Names as bytes

A name is any bytes where a module is made, and has to be a text where one is loaded.

* `IsText`: bytes that are a text. `isText_iff`: they are found out.
* `toUTF8_toList_inj`: different texts have different bytes.
* `checkImports_eq_ok_iff`, `checkExports_eq_ok_iff`: what is checked of the names in a module.
-/

namespace TapeLang.Wasm

theorem toList_loop (bytes : ByteArray) (i : Nat) (before : List UInt8) :
    ByteArray.toList.loop bytes i before = before.reverse ++ bytes.data.toList.drop i := by
  fun_induction ByteArray.toList.loop bytes i before with
  | case1 i before h ih =>
    have hi : i < bytes.data.toList.length := by simpa using h
    have hb : bytes.get! i = bytes.data.toList[i] := by
      rw [ByteArray.get!, getElem!_pos bytes.data i (by simpa using h), Array.getElem_toList]
    rw [ih, List.drop_eq_getElem_cons hi, hb]
    simp
  | case2 i before h =>
    rw [List.drop_of_length_le (by simpa using h), List.append_nil]

theorem toList_eq (bytes : ByteArray) : bytes.toList = bytes.data.toList := by
  rw [ByteArray.toList, toList_loop]
  rfl

/-- Some bytes are those of a text. -/
def IsText (bytes : List UInt8) : Prop :=
  ∃ s : String, bytes = s.toUTF8.toList

@[simp]
theorem isText_toByteArray (s : String) : IsText s.toByteArray.toList :=
  ⟨s, rfl⟩

theorem fromUTF8?_eq_some_iff {bytes : List UInt8} {s : String} :
    String.fromUTF8? ⟨bytes.toArray⟩ = some s ↔ bytes = s.toUTF8.toList := by
  rw [toList_eq]
  constructor
  · intro h
    unfold String.fromUTF8? at h
    split at h
    · obtain rfl := Option.some.inj h
      rfl
    · cases h
  · rintro rfl
    have valid : (⟨s.toUTF8.data.toList.toArray⟩ : ByteArray).IsValidUTF8 := s.isValidUTF8
    rw [String.fromUTF8?, dif_pos valid]
    rfl

/-- A text is all that its bytes can be. -/
theorem toUTF8_toList_inj {s s' : String} : s.toUTF8.toList = s'.toUTF8.toList ↔ s = s' := by
  constructor
  · intro same
    have h := fromUTF8?_eq_some_iff.mpr (rfl : s.toUTF8.toList = s.toUTF8.toList)
    rw [fromUTF8?_eq_some_iff.mpr same] at h
    exact (Option.some.inj h).symm
  · rintro rfl
    rfl

theorem textOf_toUTF8 (s : String) : Host.textOf s.toUTF8.toList = s := by
  rw [Host.textOf, fromUTF8?_eq_some_iff.mpr rfl]
  rfl

theorem isText_iff {bytes : List UInt8} : isText bytes = true ↔ IsText bytes := by
  simp only [isText, Option.isSome_iff_exists, fromUTF8?_eq_some_iff, IsText]

theorem checkImports_eq_ok_iff {index : Nat} {imports : List FuncImport} :
    checkImports index imports = .ok () ↔ ∀ i ∈ imports, IsText i.module ∧ IsText i.name := by
  induction imports generalizing index with
  | nil => simp [checkImports]
  | cons i imports ih =>
    rw [checkImports, List.forall_mem_cons, ← isText_iff, ← isText_iff, ← @ih (index + 1)]
    cases isText i.module <;> cases isText i.name <;> simp

theorem checkExports_eq_ok_iff {exports : List Export} :
    checkExports exports = .ok () ↔ ∀ e ∈ exports, IsText e.name := by
  simp only [← isText_iff, ← List.all_eq_true, checkExports]
  cases exports.all fun e => isText e.name <;> simp

end TapeLang.Wasm
