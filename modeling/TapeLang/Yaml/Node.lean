import TapeLang.Yaml.Token

/-!
# Documents

A document is one node: a scalar, a sequence or a mapping. An alias stands for the node that an anchor
names. Every node has a tag, given or found, and the line where it starts, counted from one.
-/

namespace TapeLang.Yaml

/-- A node of a document. -/
inductive Node where
  | scalar (line : Nat) (tag text : String)
  | sequence (line : Nat) (tag : String) (items : List Node)
  | mapping (line : Nat) (tag : String) (entries : List (Node × Node))
  | reference (line : Nat) (name : String) (target : Node)
  /-- What an alias inside a collection stands for that names the collection itself. -/
  | unfinished (line : Nat) (tag : String) (isMapping : Bool)
  deriving Repr

namespace Node

instance : Inhabited Node := ⟨scalar 0 "" ""⟩

def line : Node → Nat
  | scalar l _ _ | sequence l _ _ | mapping l _ _ | reference l _ _ | unfinished l _ _ => l

/-- The text by which keys are compared: that of a scalar, the name of an alias, and none for a
collection. -/
def keyText : Node → String
  | scalar _ _ text => text
  | reference _ name _ => name
  | _ => ""

/-- The sort of a node, as far as keys are compared. -/
def sort : Node → Nat
  | scalar _ _ _ => 0
  | sequence _ _ _ => 1
  | mapping _ _ _ => 2
  | reference _ _ _ => 3
  | unfinished _ _ isMapping => if isMapping then 2 else 1

end Node

/-! ## Tags -/

namespace Tag

/-- What the standard tags start with in full. -/
def standard : String := "tag:yaml.org,2002:"

/-- The short form of a tag. -/
def short (tag : String) : String :=
  if tag.startsWith standard then "!!" ++ (tag.drop standard.length).copy else tag

def null : String := "!!null"
def bool : String := "!!bool"
def str : String := "!!str"
def int : String := "!!int"
def float : String := "!!float"
def timestamp : String := "!!timestamp"
def seq : String := "!!seq"
def map : String := "!!map"
def merge : String := "!!merge"
def binary : String := "!!binary"

end Tag

end TapeLang.Yaml
