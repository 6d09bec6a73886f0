import TapeLang.Files.Path

/-!
# Files

* `Shell`: what a command can do besides computing. The commands are written for any of them.
* `FileTree`: directories and files that are held in memory, and the shell that works on them.
* `FileTree.find`: where a path leads. It is followed name by name, and every name but the last has to
  be that of a directory.
-/

namespace TapeLang

/-- Why a path does not lead to what is wanted. -/
inductive FileFault where
  | notFound
  | notDirectory
  | isDirectory
  | nameTooLong
  | other (reason : String)
  deriving DecidableEq, Repr

def FileFault.message : FileFault → String
  | notFound => "no such file or directory"
  | notDirectory => "not a directory"
  | isDirectory => "is a directory"
  | nameTooLong => "file name too long"
  | other reason => reason

/-- What was being done to a file. -/
inductive FileAction where
  | opening
  | reading
  deriving DecidableEq, Repr

def FileAction.name : FileAction → String
  | opening => "open"
  | reading => "read"

/-- A file that could not be read or written. -/
structure FileError where
  action : FileAction
  path : String
  fault : FileFault
  deriving DecidableEq, Repr

def FileError.message (e : FileError) : String :=
  e.action.name ++ " " ++ e.path ++ ": " ++ e.fault.message

/-- What a command can do besides computing. -/
structure Shell (m : Type → Type) where
  /-- The bytes of a file. -/
  read : String → m (Except FileError (List UInt8))
  isDirectory : String → m Bool
  /-- Makes a file, or replaces what it holds. -/
  write : String → List UInt8 → m (Except FileError Unit)
  /-- All of the standard input. -/
  input : m (List UInt8)
  /-- Whether the standard output is a terminal. -/
  isTerminal : m Bool

/-- What a path may lead to. -/
inductive FileEntry where
  | file (bytes : List UInt8)
  | directory
  deriving DecidableEq, Repr

/-- Directories and files by the names that lead to them from the root, which always exists. -/
structure FileTree where
  entries : List (List String × FileEntry) := []
  /-- The directory that paths start from. -/
  current : List String := []
  deriving DecidableEq, Repr

namespace FileTree

/-- A tree with one directory, which is empty and the current one. -/
def empty : FileTree where
  entries := [(["home"], .directory)]
  current := ["home"]

def get? (t : FileTree) (place : List String) : Option FileEntry :=
  if place = [] then some .directory
  else (t.entries.find? fun e => e.1 = place).map Prod.snd

/-- The tree with an entry at a place. -/
def set (t : FileTree) (place : List String) (e : FileEntry) : FileTree :=
  { t with entries := (place, e) :: t.entries.filter fun e => e.1 ≠ place }

/-- Makes the directory at a place below `above`, and the directories above it. -/
def makeDirectory (t : FileTree) (above : List String) : List String → FileTree
  | [] => t
  | n :: rest =>
    let place := above ++ [n]
    let t := if (t.get? place).isSome then t else t.set place .directory
    t.makeDirectory place rest

/-- Makes a file in the current directory or below, and the directories above it. -/
def addFile (t : FileTree) (path : String) (bytes : List UInt8) : FileTree :=
  let names := Path.names path
  (t.makeDirectory t.current names.dropLast).set (t.current ++ names) (.file bytes)

/-- Makes a directory in the current directory or below. -/
def addDirectory (t : FileTree) (path : String) : FileTree :=
  t.makeDirectory t.current ((Path.names path).filter (· ≠ ""))

/-- The most bytes that a name may have. -/
def maxNameLength : Nat := 255

/-- Follows names from a place. A name may be followed only inside a directory, also if it is empty. -/
def walk (t : FileTree) (place : List String) : List String → Except FileFault (List String)
  | [] => .ok place
  | n :: rest =>
    if t.get? place ≠ some .directory then .error .notDirectory
    else if n = "" ∨ n = "." then t.walk place rest
    else if n = ".." then t.walk place.dropLast rest
    else if maxNameLength < n.utf8ByteSize then .error .nameTooLong
    else if (t.get? (place ++ [n])).isSome then t.walk (place ++ [n]) rest
    else .error .notFound

/-- The place where a path starts. -/
def startOf (t : FileTree) (path : String) : List String :=
  if path.startsWith "/" then [] else t.current

/-- Where a path leads. -/
def find (t : FileTree) (path : String) : Except FileFault (List String) :=
  if path = "" then .error .notFound else t.walk (t.startOf path) (Path.names path)

/-- The bytes of the file that a path leads to. -/
def read (t : FileTree) (path : String) : Except FileError (List UInt8) :=
  match t.find path with
  | .error f => .error ⟨.opening, path, f⟩
  | .ok place =>
    match t.get? place with
    | some (.file bytes) => .ok bytes
    | _ => .error ⟨.reading, path, .isDirectory⟩

def isDirectory (t : FileTree) (path : String) : Bool :=
  match t.find path with
  | .ok place => t.get? place = some .directory
  | .error _ => false

/-- The place of the file that a path leads to, which need not exist, but the directory that it is in
has to. A path that could only be that of a directory leads to no file. -/
def findNew (t : FileTree) (path : String) : Except FileFault (List String) :=
  if path = "" then .error .notFound
  else
    let names := Path.names path
    let ending := (names.reverse.takeWhile (· = "")).length
    let names := names.take (names.length - ending)
    match t.walk (t.startOf path) names.dropLast, names.getLast? with
    | .error f, _ => .error f
    | .ok _, none => .error .isDirectory
    | .ok place, some n =>
      if t.get? place ≠ some .directory then .error .notDirectory
      else if 0 < ending ∨ n = "." ∨ n = ".." then .error .isDirectory
      else if maxNameLength < n.utf8ByteSize then .error .nameTooLong
      else if t.get? (place ++ [n]) = some .directory then .error .isDirectory
      else .ok (place ++ [n])

/-- The tree after writing the file that a path leads to. -/
def write (t : FileTree) (path : String) (bytes : List UInt8) : Except FileError FileTree :=
  match t.findNew path with
  | .error f => .error ⟨.opening, path, f⟩
  | .ok place => .ok (t.set place (.file bytes))

/-- The files in the current directory and below, with their paths from there. -/
def files (t : FileTree) : List (String × List UInt8) :=
  t.entries.filterMap fun (place, e) =>
    match e with
    | .directory => none
    | .file bytes =>
      if place.take t.current.length = t.current then
        some ("/".intercalate (place.drop t.current.length), bytes)
      else none

/-- The shell that works on a tree, with the given standard input, at a terminal or not. -/
def shell (input : List UInt8) (terminal : Bool) : Shell (StateM FileTree) where
  read path := do return (← get).read path
  isDirectory path := do return (← get).isDirectory path
  write path bytes := do
    match (← get).write path bytes with
    | .ok t => modify fun _ => t; return .ok ()
    | .error e => return .error e
  input := return input
  isTerminal := return terminal

end FileTree

end TapeLang
