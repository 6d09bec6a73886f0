import TapeLang.Proofs.Accept
import TapeLang.Proofs.Reach
import TapeLang.Proofs.WordMachine
import TapeLang.Target.Module

/-!
# How large the numbers of a program get

Merging and postponing add up moves and addresses again and again. But they lead no further away
from where a sequence starts, so no sum of them is larger than the source allows.

* `Pass` and `afterPasses`: passes of the optimizer, in any order.
* `deltas` and `addrs`: the moves and the addresses of a program. `StaysWithin.natAbs_le`: they are
  no larger than the room that the program stays within.
* `offsets_le_moves`: so they are no larger than the number of moves in the source, after whatever
  passes. Cut to 32 bits they keep their values, if the source is not too long for that.
-/

namespace TapeLang

/-- A pass of the optimizer. -/
inductive Pass where
  | merge
  | postpone
  deriving DecidableEq, Repr

def Pass.apply : Pass → Program → Program
  | merge => Program.merge
  | postpone => Program.postpone

namespace Symbol

theorem byte_inj {x y : Symbol} (h : x.byte = y.byte) : x = y := by
  rw [← Option.some.injEq, ← ofByte?_byte x, ← ofByte?_byte y, h]

/-- A symbol is in a source as often as its byte is. -/
theorem count_lex (s : Symbol) (source : List UInt8) :
    (lex source).count s = source.count s.byte := by
  have mem : s.byte ∈ bytes := mem_bytes_iff.mpr ⟨s, ofByte?_byte s⟩
  calc (lex source).count s = ((lex source).map byte).count s.byte :=
        (List.count_map_of_injective _ byte (fun _ _ => byte_inj) s).symm
    _ = (source.filter (· ∈ bytes)).count s.byte := by rw [map_byte_lex]
    _ = source.count s.byte := List.count_filter (by simpa using mem)

end Symbol

namespace Program

/-- The program after some passes, the first one first. -/
def afterPasses (p : Program) (passes : List Pass) : Program :=
  passes.foldl (fun q pass => pass.apply q) p

/-- The moves of a program, at every depth. -/
def deltas : Program → List Int64
  | done => []
  | move d p => d :: p.deltas
  | cell _ _ p => p.deltas
  | loop b p => b.deltas ++ p.deltas

/-- The addresses of the operations of a program, at every depth. -/
def addrs : Program → List Int64
  | done => []
  | move _ p => p.addrs
  | cell a _ p => a :: p.addrs
  | loop b p => b.addrs ++ p.addrs

variable {p : Program} {lo hi : Int} {pos : Int64}

theorem afterPasses_rewrites (p : Program) (passes : List Pass) :
    p.RewritesTo (p.afterPasses passes) := by
  induction passes generalizing p with
  | nil => exact .refl p
  | cons pass passes ih =>
    have first : p.RewritesTo (pass.apply p) := by
      cases pass with
      | merge => exact merge_rewrites p
      | postpone => exact postpone_rewrites p
    exact first.trans (ih (pass.apply p))

/-! ## Bounds -/

/-- The way from one place to another is no longer than the room for both. -/
theorem natAbs_le_of_inside {x d : Int64} (hw : hi - lo < 2 ^ 63) (hx : Inside lo hi x)
    (hd : Inside lo hi (x + d)) : d.toInt.natAbs ≤ hi - lo := by
  obtain ⟨hxl, hxh⟩ := hx
  obtain ⟨hdl, hdh⟩ := hd
  have way : d.toInt = (x + d).toInt - x.toInt := by
    have h := Int64.toInt_sub (x + d) x
    rwa [Int64.add_comm, Int64.add_sub_cancel, Int64.add_comm,
      Int.bmod_eq_of_le (by omega) (by omega)] at h
  omega

/-- No move and no address is larger than the room that the program stays within. -/
theorem StaysWithin.natAbs_le (h : p.StaysWithin lo hi pos) (hw : hi - lo < 2 ^ 63) :
    (∀ d ∈ p.deltas, d.toInt.natAbs ≤ hi - lo) ∧ ∀ a ∈ p.addrs, a.toInt.natAbs ≤ hi - lo := by
  induction p generalizing pos with
  | done => simp [deltas, addrs]
  | move d p ih =>
    obtain ⟨hd, ha⟩ := ih h.2
    exact ⟨List.forall_mem_cons.mpr ⟨natAbs_le_of_inside hw h.1 h.2.inside, hd⟩, ha⟩
  | cell a op p ih =>
    obtain ⟨hd, ha⟩ := ih h.2.2
    exact ⟨hd, List.forall_mem_cons.mpr ⟨natAbs_le_of_inside hw h.1 h.2.1.1, ha⟩⟩
  | loop b p ihb ih =>
    obtain ⟨hdb, hab⟩ := ihb h.2.1
    obtain ⟨hd, ha⟩ := ih h.2.2
    exact ⟨List.forall_mem_append.mpr ⟨hdb, hd⟩, List.forall_mem_append.mpr ⟨hab, ha⟩⟩

/-- What comes from a parsed program by rewriting has no larger numbers than there are moves. -/
theorem RewritesTo.natAbs_le_moves {q : Program} {a : List Symbol} (h : q.RewritesTo p)
    (hq : q.Spells a) :
    (∀ d ∈ p.deltas, d.toInt.natAbs ≤ a.count .left + a.count .right) ∧
      ∀ x ∈ p.addrs, x.toInt.natAbs ≤ a.count .left + a.count .right := by
  by_cases hm : a.count .left + a.count .right < 2 ^ 63
  · have h0 : (0 : Int64).toInt = 0 := rfl
    have stays : p.StaysWithin (-(a.count .left)) (a.count .right) 0 :=
      h.staysWithin
        (hq.staysWithin (by omega) (by omega) (by omega) (by omega) (by omega) (by omega))
    obtain ⟨hd, ha⟩ := stays.natAbs_le (by omega)
    exact ⟨fun d hmem => by have := hd d hmem; omega, fun x hmem => by have := ha x hmem; omega⟩
  · -- More moves than a number of 64 bits can count.
    have any (x : Int64) : x.toInt.natAbs ≤ a.count .left + a.count .right := by
      have := x.le_toInt
      have := x.toInt_lt
      omega
    exact ⟨fun d _ => any d, fun x _ => any x⟩

/-! ## Cutting to 32 bits -/

theorem toInt_toInt32_of_lt {x : Int64} (h : x.toInt.natAbs < 2 ^ 31) :
    x.toInt32.toInt = x.toInt := by
  rw [Int64.toInt_toInt32, Int.bmod_eq_of_le (by omega) (by omega)]

theorem addressOffset_of_lt {a : Int64} (h0 : 0 ≤ a) (h : a.toInt.natAbs < 2 ^ 31) :
    (addressOffset a).toNat = a.toInt := by
  have h0' : 0 ≤ a.toInt := Int64.le_iff_toInt_le.mp h0
  rw [addressOffset, if_pos h0, UInt64.toNat_toUInt32, WordMachine.toNat_toUInt64 h0']
  omega

/-- The numbers of an optimized program are bounded by its source. Let a source be balanced: then it
is parsed, and after any merging and postponing passes no move of the program and no address in it
is larger than the number of moves in the source, to either side. So if the source is shorter than
2^31 bytes, what a module makes of them has their values: a move and an address cut to a signed
number of 32 bits, and the offset of an address that is not negative. -/
theorem offsets_le_moves (source : List UInt8) (h : Symbol.Balanced (Symbol.lex source))
    (passes : List Pass) :
    ∃ p, parse source = .ok p ∧
      let q := p.afterPasses passes
      let moves := source.count Symbol.left.byte + source.count Symbol.right.byte
      ((∀ d ∈ q.deltas, d.toInt.natAbs ≤ moves) ∧ ∀ a ∈ q.addrs, a.toInt.natAbs ≤ moves) ∧
      (source.length < 2 ^ 31 →
        (∀ d ∈ q.deltas, d.toInt32.toInt = d.toInt) ∧
        ∀ a ∈ q.addrs, a.toInt32.toInt = a.toInt ∧
          (0 ≤ a → (addressOffset a).toNat = a.toInt)) := by
  obtain ⟨p, hp⟩ := exists_build_of_balanced h
  refine ⟨p, hp, ?_⟩
  intro q moves
  have bounds := (afterPasses_rewrites p passes).natAbs_le_moves (spells_of_parse hp)
  rw [Symbol.count_lex, Symbol.count_lex] at bounds
  refine ⟨bounds, fun hlen => ?_⟩
  have short : moves < 2 ^ 31 := by
    have hmoves := Symbol.count_moves_le (Symbol.lex source)
    rw [Symbol.count_lex, Symbol.count_lex] at hmoves
    have hlex : (Symbol.lex source).length ≤ source.length := List.length_filterMap_le _ _
    omega
  obtain ⟨hd, ha⟩ := bounds
  refine ⟨fun d hmem => toInt_toInt32_of_lt ?_,
    fun a hmem => ⟨toInt_toInt32_of_lt ?_, fun h0 => ?_⟩⟩
  · exact Nat.lt_of_le_of_lt (hd d hmem) short
  · exact Nat.lt_of_le_of_lt (ha a hmem) short
  · exact addressOffset_of_lt h0 (Nat.lt_of_le_of_lt (ha a hmem) short)

/-- In `>>>[-]` the three moves come together in one move and in one address. -/
theorem offsets_le_moves_together :
    ∃ p, parse [0x3e, 0x3e, 0x3e, 0x5b, 0x2d, 0x5d] = .ok p ∧
      p.afterPasses [.merge, .postpone] = .cell 3 (.set 0) (.move 3 .done) ∧
      (∀ d ∈ (p.afterPasses [.merge, .postpone]).deltas, d.toInt.natAbs ≤ 3) ∧
      ∀ a ∈ (p.afterPasses [.merge, .postpone]).addrs, a.toInt.natAbs ≤ 3 := by
  have balanced : Symbol.Balanced (Symbol.lex [0x3e, 0x3e, 0x3e, 0x5b, 0x2d, 0x5d]) :=
    Symbol.balanced_iff_depthAfter.mpr rfl
  obtain ⟨p, hp, bounds, -⟩ := offsets_le_moves _ balanced [.merge, .postpone]
  refine ⟨p, hp, ?_, bounds⟩
  cases hp
  rfl

end Program

end TapeLang
