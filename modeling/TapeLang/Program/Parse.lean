import TapeLang.Program
import TapeLang.Symbol

/-!
# From symbols to programs

Brackets nest into loops and every other symbol becomes one element.

* `Program.build`: the program of a list of symbol numbers. It stops at the first number that is no
  symbol and at the first bracket that closes nothing; at the end it names the last bracket left open.
* `Program.parse`: the program of a source.
* `Program.symbols?`: the symbols of a program made of single steps, the way back.
-/

namespace TapeLang

/-- Why a list of symbols is no program. -/
inductive ParseError where
  | unmatchedEnd (index : Nat)
  | unmatchedStart (index : Nat)
  | invalidSymbol (code : UInt8)
  deriving DecidableEq, Repr

namespace ParseError

def message : ParseError → String
  | unmatchedEnd i => "unbalanced brackets: unmatched ']' at symbol " ++ toString i
  | unmatchedStart i => "unbalanced brackets: unmatched '[' at symbol " ++ toString i
  | invalidSymbol n => "invalid parse token: " ++ toString n.toNat

end ParseError

/-- A loop whose end has not been seen: where it starts, and what stands in front of it in the
program around it, last element first. -/
structure OpenLoop where
  start : Nat
  before : Program
  deriving DecidableEq, Repr

namespace Program

/-- Reads `codes`, the symbols from number `index` on, inside the loops `opened`, the innermost first.
`body` is what has been read in the innermost one, last element first. -/
def buildFrom (index : Nat) (opened : List OpenLoop) (body : Program) :
    List UInt8 → Except ParseError Program
  | [] =>
    match opened with
    | [] => .ok (body.reverseOnto done)
    | o :: _ => .error (.unmatchedStart o.start)
  | n :: codes =>
    match Symbol.ofCode? n with
    | some .right => buildFrom (index + 1) opened (move 1 body) codes
    | some .left => buildFrom (index + 1) opened (move (-1) body) codes
    | some .increment => buildFrom (index + 1) opened (cell 0 (.add 1) body) codes
    | some .decrement => buildFrom (index + 1) opened (cell 0 (.add (-1)) body) codes
    | some .print => buildFrom (index + 1) opened (cell 0 (.print 0) body) codes
    | some .read => buildFrom (index + 1) opened (cell 0 (.read 0) body) codes
    | some .loopStart => buildFrom (index + 1) (⟨index, body⟩ :: opened) done codes
    | some .loopEnd =>
      match opened with
      | [] => .error (.unmatchedEnd index)
      | o :: opened => buildFrom (index + 1) opened (loop (body.reverseOnto done) o.before) codes
    | none => .error (.invalidSymbol n)

/-- The program of a list of symbol numbers. -/
def build (codes : List UInt8) : Except ParseError Program :=
  buildFrom 0 [] done codes

/-- The program of a source. -/
def parse (source : List UInt8) : Except ParseError Program :=
  build ((Symbol.lex source).map Symbol.code)

/-- The symbols of a program whose elements are single steps at the pointer, `none` for any other. -/
def symbols? : Program → Option (List Symbol)
  | done => some []
  | move d p =>
    if d = 1 then p.symbols?.map (.right :: ·)
    else if d = -1 then p.symbols?.map (.left :: ·)
    else none
  | cell a op p =>
    if a ≠ 0 then none
    else if op = .add 1 then p.symbols?.map (.increment :: ·)
    else if op = .add (-1) then p.symbols?.map (.decrement :: ·)
    else if op = .print 0 then p.symbols?.map (.print :: ·)
    else if op = .read 0 then p.symbols?.map (.read :: ·)
    else none
  | loop b p => do
    let inner ← b.symbols?
    let rest ← p.symbols?
    return .loopStart :: inner ++ .loopEnd :: rest

end Program

end TapeLang
