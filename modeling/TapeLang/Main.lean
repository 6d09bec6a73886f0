import TapeLang.Cli.Command

/-!
# The program

Runs the command line on the files of the machine.
-/

namespace TapeLang

/-- The fault that an error of the file system tells of. -/
def FileFault.ofError : IO.Error → FileFault
  | .noFileOrDirectory .. => .notFound
  | .inappropriateType .. => .notDirectory
  | e => .other (toString e)

/-- The shell that works on the files of the machine. -/
def diskShell : Shell IO where
  read path := do
    match ← (IO.FS.readBinFile path).toBaseIO with
    | .ok bytes => return .ok bytes.toList
    | .error e => return .error ⟨.opening, path, .ofError e⟩
  isDirectory path := do (← IO.FS.realPath path).isDir
  write path bytes := do
    match ← (IO.FS.writeBinFile path ⟨bytes.toArray⟩).toBaseIO with
    | .ok _ => return .ok ()
    | .error e => return .error ⟨.opening, path, .ofError e⟩
  input := do
    let stdin ← IO.getStdin
    return (← stdin.readBinToEnd).toList
  isTerminal := do
    let stdout ← IO.getStdout
    stdout.isTty

end TapeLang

def main (args : List String) : IO UInt32 := do
  let answer ← TapeLang.Cli.runArguments TapeLang.diskShell args
  let stdout ← IO.getStdout
  stdout.write ⟨answer.stdout.toArray⟩
  stdout.flush
  IO.eprint answer.stderr
  return answer.exit.toUInt32
