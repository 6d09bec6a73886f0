import TapeLang.Proofs.Grammar.Instr
import TapeLang.Target.Module

/-!
# Reading back instructions

* `Instr.readAll?_encodeAll`: instructions that were written in a row are read back.
* `Code.instrs`: the instructions of nested code. `Code.ofInstrs?_instrs`: nesting them gives
  it back.
* `Program.code`: the instructions of a program with their blocks nested.
  `Program.ofInstrs?_mainInstrs`: nesting the instructions of `main` gives that and the return.
* `Program.length_instrsOnto_le`: how many instructions a program has at most.
-/

namespace TapeLang.Wasm

namespace Instr

/-! ## Bytes -/

theorem encodeAll_cons (i : Instr) (is : List Instr) :
    encodeAll (i :: is) = i.encode ++ encodeAll is := rfl

theorem length_encode_le (i : Instr) : i.encode.length ≤ 7 := by
  cases i with
  | op o =>
    cases o with
    | localGet n | localSet n | load8s n | load8u n | store8 n | call n | brIf n =>
      have := Leb128.length_ofUInt32_le n
      simp only [encode, Op.immediates, List.length_cons]
      omega
    | const v =>
      have := Leb128.length_ofInt32_le v
      simp only [encode, Op.immediates, List.length_cons]
      omega
    | add | eqz | drop | ret => exact Nat.le_add_left _ _
  | block | loop | close => exact Nat.le_add_left _ _

theorem length_encodeAll_le (is : List Instr) : (encodeAll is).length ≤ 7 * is.length := by
  induction is with
  | nil => exact Nat.le_refl 0
  | cons i is ih =>
    have := length_encode_le i
    rw [encodeAll_cons, List.length_append, List.length_cons]
    omega

/-- Instructions in a row are read back. -/
theorem readAll?_encodeAll (is : List Instr) : readAll? (encodeAll is) = some is :=
  readAll?_eq_some_iff.mpr (writesItems_flatMap fun i _ => writesInstr_encode i)

end Instr

/-! ## Nested blocks -/

namespace Code

/-- The instructions of the first code, then the second. -/
def append : Code → Code → Code
  | done, q => q
  | op o p, q => op o (p.append q)
  | block b p, q => block b (p.append q)
  | loop b p, q => loop b (p.append q)

/-- Instructions that open no block, in front of some code. -/
def ofOps (ops : List Op) (next : Code) : Code :=
  ops.foldr op next

@[simp]
theorem append_done (x : Code) : x.append done = x := by
  induction x with
  | done => rfl
  | op o x ih => exact congrArg (op o) ih
  | block b x _ ih => exact congrArg (block b) ih
  | loop b x _ ih => exact congrArg (loop b) ih

theorem reverseOnto_reverseOnto (x y z : Code) :
    (x.reverseOnto y).reverseOnto z = y.reverseOnto (x.append z) := by
  induction x generalizing y z with
  | done => rfl
  | op o x ih => exact ih _ _
  | block b x _ ih => exact ih _ _
  | loop b x _ ih => exact ih _ _

theorem ofOps_ofOps (ops ops' : List Op) (x : Code) :
    ofOps ops (ofOps ops' x) = ofOps (ops ++ ops') x :=
  List.foldr_append.symm

theorem ofOps_append (ops : List Op) (x y : Code) :
    (ofOps ops x).append y = ofOps ops (x.append y) := by
  induction ops with
  | nil => rfl
  | cons o ops ih => exact congrArg (op o) ih

/-- The instructions that code is the nesting of. Every block is closed after what is in it. -/
def instrs : Code → List Instr
  | done => []
  | op o p => .op o :: p.instrs
  | block b p => .block :: (b.instrs ++ .close :: p.instrs)
  | loop b p => .loop :: (b.instrs ++ .close :: p.instrs)

theorem instrs_append (x y : Code) : (x.append y).instrs = x.instrs ++ y.instrs := by
  induction x with
  | done => rfl
  | op o x ih => simp [append, instrs, ih]
  | block b x _ ih => simp [append, instrs, ih]
  | loop b x _ ih => simp [append, instrs, ih]

theorem instrs_ofOps (ops : List Op) (x : Code) :
    (ofOps ops x).instrs = ops.map .op ++ x.instrs := by
  induction ops with
  | nil => rfl
  | cons o ops ih => exact congrArg (Instr.op o :: ·) ih

/-- Nesting the instructions of some code gives the code, inside whatever blocks. -/
theorem nest_instrs (code : Code) (opened : List (Bool × Code)) (body : Code) (is : List Instr) :
    nest opened body (code.instrs ++ is) = nest opened (code.reverseOnto body) is := by
  induction code generalizing opened body is with
  | done => rfl
  | op o p ih => exact ih opened _ is
  | block b p ihb ih | loop b p ihb ih =>
    simp only [instrs, List.cons_append, List.append_assoc, nest, ihb, ih, reverseOnto,
      reverseOnto_reverseOnto, append_done]
    rfl

/-- A function body is nested as its code, which the last instruction closes. -/
theorem ofInstrs?_instrs (code : Code) : ofInstrs? (code.instrs ++ [.close]) = some code := by
  rw [ofInstrs?, nest_instrs]
  simp only [nest, if_true, reverseOnto_reverseOnto, append_done, reverseOnto]

end Code

end TapeLang.Wasm

namespace TapeLang

open Wasm

namespace Program

/-- The instructions of a program with their blocks nested. -/
def code : Program → Code
  | done => .done
  | move d p =>
    .ofOps [.localGet pointerLocal, .const d.toInt32, .add, .localSet pointerLocal] p.code
  | cell a op p => .ofOps (op.ops a) p.code
  | loop b p =>
    .block (.ofOps [.localGet pointerLocal, .load8u 0, .eqz, .brIf 0]
      (.loop (b.code.append (.ofOps [.localGet pointerLocal, .load8u 0, .brIf 0] .done)) .done))
        p.code

theorem instrsOnto_eq (p : Program) (rest : List Instr) :
    p.instrsOnto rest = p.code.instrs ++ rest := by
  induction p generalizing rest with
  | done => rfl
  | move d p ih => simp [instrsOnto, code, Code.instrs_ofOps, ih]
  | cell a op p ih => simp [instrsOnto, code, Code.instrs_ofOps, ih]
  | loop b p ihb ih =>
    simp [instrsOnto, code, Code.instrs, Code.instrs_ofOps, Code.instrs_append, ihb, ih]

/-- The code of `main`: the program, and the return of the pointer. -/
theorem mainInstrs_eq (p : Program) :
    p.mainInstrs = (p.code.append (.op (.localGet pointerLocal) (.op .ret .done))).instrs ++
      [.close] := by
  rw [mainInstrs, instrsOnto_eq, Code.instrs_append, List.append_assoc]
  rfl

/-- Nesting the instructions of `main`. -/
theorem ofInstrs?_mainInstrs (p : Program) :
    Code.ofInstrs? p.mainInstrs =
      some (p.code.append (.op (.localGet pointerLocal) (.op .ret .done))) := by
  rw [mainInstrs_eq, Code.ofInstrs?_instrs]

theorem length_instrsOnto_le (p : Program) (rest : List Instr) :
    (p.instrsOnto rest).length ≤ 11 * p.size + rest.length := by
  induction p generalizing rest with
  | done => simp [instrsOnto]
  | move d p ih =>
    have := ih rest
    simp only [instrsOnto, size, List.length_cons]
    omega
  | cell a op p ih =>
    have := ih rest
    have : (addressOps a).length ≤ 3 := by unfold addressOps; split <;> simp
    cases op <;>
      simp only [instrsOnto, size, CellOp.ops, List.length_map, List.length_append,
        List.length_cons, List.length_nil] <;>
      omega
  | loop b p ihb ih =>
    have := ih rest
    have := ihb (.op (.localGet pointerLocal) :: .op (.load8u 0) :: .op (.brIf 0) :: .close ::
          .close :: p.instrsOnto rest)
    simp only [instrsOnto, size, List.length_cons] at this ⊢
    omega

end Program

end TapeLang
