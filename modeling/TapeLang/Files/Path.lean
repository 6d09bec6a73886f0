/-!
# Names of files

A path is a row of names with slashes between them.

* `Path.clean`: the shortest path that means the same if no name on it is a link.
* `Path.base` and `Path.extension`: the last name of a path, and its ending.
-/

namespace TapeLang.Path

/-- The names on a path, with an empty one for every slash that has no name in front. -/
def names (path : String) : List String :=
  (path.toList.splitOn '/').map String.ofList

/-- Leaves out the names that lead nowhere, after `kept`, last one first. Above the root there is
nothing. -/
def reduceOnto (rooted : Bool) (kept : List String) : List String → List String
  | [] => kept.reverse
  | n :: rest =>
    if n = "" ∨ n = "." then reduceOnto rooted kept rest
    else if n = ".." then
      match kept with
      | [] => reduceOnto rooted (if rooted then [] else [".."]) rest
      | k :: ks =>
        if k = ".." then reduceOnto rooted (".." :: k :: ks) rest else reduceOnto rooted ks rest
    else reduceOnto rooted (n :: kept) rest

/-- The shortest path that means the same. -/
def clean (path : String) : String :=
  let rooted := path.startsWith "/"
  let reduced := "/".intercalate (reduceOnto rooted [] (names path))
  if rooted then "/" ++ reduced else if reduced = "" then "." else reduced

/-- The path of a name inside a directory. -/
def join (directory name : String) : String :=
  clean (directory ++ "/" ++ name)

/-- The last name on a path. -/
def base (path : String) : String :=
  if path = "" then "."
  else ((names path).filter (· ≠ "")).getLast?.getD "/"

/-- The ending of a name, from its last dot on, empty if there is no dot. -/
def extension (name : String) : String :=
  let cs := name.toList.reverse
  let ending := cs.takeWhile (· ≠ '.')
  if ending.length = cs.length then "" else String.ofList ('.' :: ending.reverse)

/-- A name without its ending. -/
def stem (name : String) : String :=
  String.ofList (name.toList.take (name.length - (extension name).length))

end TapeLang.Path
