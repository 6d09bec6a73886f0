import TapeLang.Proofs.Instr

/-!
# The size of code

The size of a section is written with 32 bits. Nothing bounds the code of a program, so it may have
more bytes than that.

* `length_codePayload_le`: how many bytes the code of a program has at most.
* `counting`: programs of any length, and how many bytes their code has (`length_encode_counting`).
  That of one of them still has a size of 32 bits (`length_encode_overflow`), but the code section
  has one byte more (`length_codePayload_overflow`).
* `encode_code_overflow`: what is written for a code section of that size.
-/

namespace TapeLang

open Wasm

namespace Wasm

/-- One function has its number in front. -/
theorem codePayload_singleton (f : FuncBody) : codePayload [f] = 1 :: f.encode := by
  have one : lengthBytes [f] = [1] := by
    show Leb128.ofUInt32 1 = [1]
    decide +kernel
  rw [codePayload, vector, one, List.flatMap_singleton]
  rfl

/-- A code section of `2 ^ 32` bytes has zero for its size. What it holds reads as one more section,
since the number of its functions, which is one, is also that of a section. -/
theorem encode_code_overflow {f : FuncBody} (h : (codePayload [f]).length = 2 ^ 32) :
    Section.encode ⟨SectionId.code, codePayload [f]⟩ = Section.encode ⟨SectionId.code, []⟩ ++
      Section.encode ⟨SectionId.type, localBytes f.locals ++ f.body⟩ := by
  have zero : Leb128.ofUInt32 (2 ^ 32 : Nat).toUInt32 = lengthBytes ([] : List UInt8) := rfl
  have size : sized (codePayload [f]) = sized [] ++ codePayload [f] := by
    rw [sized, lengthBytes, h, zero, sized, List.append_nil]
  rw [Section.encode, size, codePayload_singleton]
  rfl

theorem length_function_lt {f : FuncBody} (h : (codePayload [f]).length = 2 ^ 32) :
    (localBytes f.locals ++ f.body).length < 2 ^ 32 := by
  rw [codePayload_singleton, FuncBody.encode, sized, List.length_cons, List.length_append] at h
  omega

end Wasm

namespace Program

theorem length_function_main (p : Program) :
    (localBytes p.mainBody.locals ++ p.mainBody.body).length =
      (Instr.encodeAll p.mainInstrs).length + 3 := by
  have hlocals : (localBytes [ValueType.i32]).length = 3 := by decide +kernel
  show (localBytes [ValueType.i32] ++ Instr.encodeAll p.mainInstrs).length = _
  rw [List.length_append, hlocals, Nat.add_comm]

/-- No element of a program takes more than 77 bytes. -/
theorem length_codePayload_le (p : Program) :
    (codePayload [p.mainBody]).length ≤ 77 * p.size + 64 := by
  have hinstrs := Instr.length_encodeAll_le p.mainInstrs
  have honto : p.mainInstrs.length ≤ 11 * p.size + 3 := length_instrsOnto_le p _
  have hfunction := p.length_function_main
  have hsize : (lengthBytes (localBytes p.mainBody.locals ++ p.mainBody.body)).length ≤ 5 :=
    Leb128.length_ofUInt32_le _
  rw [codePayload_singleton, FuncBody.encode, sized, List.length_cons, List.length_append]
  omega

/-! ## A program of any length -/

/-- Moves so often to the right. -/
def moves : Nat → Program
  | 0 => done
  | n + 1 => move 1 (moves n)

/-- Adds one so often to the cell at the pointer, before `rest`. -/
def adds (rest : Program) : Nat → Program
  | 0 => rest
  | n + 1 => cell 0 (.add 1) (adds rest n)

/-- Adds one to a cell `n` times and then moves away from it `k` times. -/
def counting (n k : Nat) : Program :=
  adds (moves k) n

theorem length_encodeAll_moves (k : Nat) (rest : List Instr) :
    (Instr.encodeAll ((moves k).instrsOnto rest)).length =
      7 * k + (Instr.encodeAll rest).length := by
  induction k with
  | zero => simp [moves, instrsOnto]
  | succ k ih =>
    have one : (Instr.encodeAll [.op (.localGet pointerLocal), .op (.const (1 : Int64).toInt32),
        .op .add, .op (.localSet pointerLocal)]).length = 7 := by decide +kernel
    have split : (moves (k + 1)).instrsOnto rest = [.op (.localGet pointerLocal),
        .op (.const (1 : Int64).toInt32), .op .add, .op (.localSet pointerLocal)] ++
          (moves k).instrsOnto rest := rfl
    rw [split, Instr.encodeAll, List.flatMap_append, List.length_append]
    simp only [Instr.encodeAll] at one ih ⊢
    omega

theorem length_encodeAll_adds (p : Program) (n : Nat) (rest : List Instr) :
    (Instr.encodeAll ((adds p n).instrsOnto rest)).length =
      13 * n + (Instr.encodeAll (p.instrsOnto rest)).length := by
  induction n with
  | zero => simp [adds]
  | succ n ih =>
    have one : (Instr.encodeAll ((CellOp.ops 0 (.add 1)).map .op)).length = 13 := by decide +kernel
    have split : (adds p (n + 1)).instrsOnto rest =
        (CellOp.ops 0 (.add 1)).map .op ++ (adds p n).instrsOnto rest := rfl
    rw [split, Instr.encodeAll, List.flatMap_append, List.length_append]
    simp only [Instr.encodeAll] at one ih ⊢
    omega

theorem length_encode_counting (n k : Nat) : (counting n k).mainBody.encode.length =
    (Leb128.ofUInt32 (13 * n + 7 * k + 7).toUInt32).length + (13 * n + 7 * k + 7) := by
  have htail : (Instr.encodeAll [.op (.localGet pointerLocal), .op .ret, .close]).length = 4 := by
    decide +kernel
  have hfunction := (counting n k).length_function_main
  rw [mainInstrs, counting, length_encodeAll_adds, length_encodeAll_moves, htail] at hfunction
  rw [FuncBody.encode, sized, List.length_append, lengthBytes, counting, hfunction]
  simp only [Nat.add_assoc, Nat.reduceAdd]

/-- The largest size that has 32 bits. -/
theorem length_encode_overflow : (counting 330382096 5).mainBody.encode.length = 2 ^ 32 - 1 := by
  have hsize : (Leb128.ofUInt32 (13 * 330382096 + 7 * 5 + 7 : Nat).toUInt32).length = 5 := by
    decide +kernel
  have hlength := length_encode_counting 330382096 5
  rw [hsize] at hlength
  omega

theorem length_encode_overflow_lt : (counting 330382096 5).mainBody.encode.length < 2 ^ 32 := by
  have hlength := length_encode_overflow
  omega

/-- The number of functions stands in front of them, and takes one byte more. -/
theorem length_codePayload_overflow :
    (codePayload [(counting 330382096 5).mainBody]).length = 2 ^ 32 := by
  have hlength := length_encode_overflow
  rw [codePayload_singleton, List.length_cons]
  omega

end Program

end TapeLang
