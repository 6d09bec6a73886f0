import TapeLang.Program

/-!
# Programs as C source

The source allocates the tape, runs the program on it with one or two statements per element, and
returns zero. A statement is indented by two spaces for every brace around it.

* `Program.cLines`: the lines of the statements of a program.
* `Program.cSource`: the whole source.
-/

namespace TapeLang

/-- The expression for the cell at `addr` from the pointer. -/
def cCell (addr : Int64) : String :=
  if 0 < addr then "buffer[pointer + " ++ toString addr.toInt ++ "]"
  else if addr < 0 then "buffer[pointer - " ++ toString (-addr).toInt ++ "]"
  else "buffer[pointer]"

/-- The statements of an operation. A kind without meaning has none. -/
def CellOp.cStatements (addr : Int64) : CellOp → List String
  | .add v => [cCell addr ++ " += " ++ toString v.toInt ++ ";"]
  | .set v => [cCell addr ++ " = " ++ toString v.toInt ++ ";"]
  | .print _ => ["putchar(" ++ cCell addr ++ ");"]
  | .read _ => ["c = getchar();", cCell addr ++ " = c == EOF ? 0 : c;"]
  | .unknown _ _ => []

/-- A statement inside `depth` braces. -/
def cIndent (depth : Nat) (statement : String) : String :=
  "".pushn ' ' (2 * depth) ++ statement

namespace Program

/-- The lines of the statements of a program inside `depth` braces, in front of `rest`. -/
def cLinesOnto (depth : Nat) (rest : List String) : Program → List String
  | done => rest
  | move d p => cIndent depth ("pointer += " ++ toString d.toInt ++ ";") :: p.cLinesOnto depth rest
  | cell a op p => (op.cStatements a).map (cIndent depth) ++ p.cLinesOnto depth rest
  | loop b p =>
    cIndent depth "while (buffer[pointer]) \x7b" ::
      b.cLinesOnto (depth + 1) (cIndent depth "\x7d" :: p.cLinesOnto depth rest)

/-- The lines in front of the statements of a program. -/
def cPrologue : List String :=
  ["#include <stdio.h>", "#include <stdlib.h>", "", "int main() \x7b",
    cIndent 1 "unsigned char *buffer = calloc(65536, 1);", cIndent 1 "int pointer = 0;",
    cIndent 1 "int c;"]

/-- The lines after the statements of a program. -/
def cEpilogue : List String :=
  [cIndent 1 "free(buffer);", cIndent 1 "return 0;", "\x7d"]

/-- The lines of the source of a program. -/
def cLines (p : Program) : List String :=
  cPrologue ++ p.cLinesOnto 1 cEpilogue

/-- The source of a program, every line of which ends in a line break. -/
def cSource (p : Program) : String :=
  String.join (p.cLines.map (· ++ "\n"))

end Program

end TapeLang
