import TapeLang.Program

/-!
# Postponing moves

Moves are taken out of straight code: what follows acts at an address that has the move added to it.
The sum of the moves is made up for before a loop, whose condition looks at the pointer, and at the
end. A loop body starts anew.
-/

namespace TapeLang.Program

/-- A move in front of a program, unless it is by zero. -/
def moveBy (delta : Int64) (p : Program) : Program :=
  if delta = 0 then p else move delta p

/-- Postpones moves in a program that has a move by `delta` in front of it. -/
def postponeFrom (delta : Int64) : Program → Program
  | done => moveBy delta done
  | move d p => p.postponeFrom (delta + d)
  | cell a op p => cell (a + delta) op (p.postponeFrom delta)
  | loop b p => moveBy delta (loop (b.postponeFrom 0) (p.postponeFrom 0))

/-- One postponing pass over a program. -/
def postpone (p : Program) : Program :=
  p.postponeFrom 0

end TapeLang.Program
