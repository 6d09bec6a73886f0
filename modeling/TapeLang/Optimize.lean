import TapeLang.Optimize.Merge
import TapeLang.Optimize.Postpone

/-!
# Optimizing a program

Merging and postponing take turns until a round changes nothing.

* `Program.optimize`: the result and the number of rounds, the last one included, or an error if the
  rounds run out.
-/

namespace TapeLang

/-- The round limit in place of one that is not positive. -/
def defaultMaxRounds : Nat := 256

/-- The round limit that a number stands for. -/
def roundLimit (n : Int) : Nat :=
  if n ≤ 0 then defaultMaxRounds else n.toNat

/-- The program still changed in the last of that many rounds. -/
structure NoFixedPoint where
  rounds : Nat
  deriving DecidableEq, Repr

def NoFixedPoint.message (e : NoFixedPoint) : String :=
  "no fixed point reached after " ++ toString e.rounds ++ " rounds"

/-- A program that optimizing leaves as it is. -/
structure Optimized where
  program : Program
  /-- The rounds it took, the last one included, which changed nothing. -/
  rounds : Nat
  deriving DecidableEq, Repr

namespace Program

/-- One round of optimizing. -/
def round (p : Program) : Program :=
  p.merge.postpone

/-- Optimizes `p` in at most `left` rounds more, after `made` rounds. -/
def settle (made : Nat) (p : Program) : (left : Nat) → Except NoFixedPoint Optimized
  | 0 => .error ⟨made⟩
  | left + 1 =>
    let q := p.round
    if p.equal q then .ok ⟨q, made + 1⟩ else settle (made + 1) q left

/-- Optimizes `p` in at most `maxRounds` rounds, or the default number if that is not positive. -/
def optimize (p : Program) (maxRounds : Int) : Except NoFixedPoint Optimized :=
  settle 0 p (roundLimit maxRounds)

end Program

end TapeLang
