import TapeLang.Config
import TapeLang.Text.Base64
import TapeLang.Text.Cut
import TapeLang.Yaml.Node.Parse

/-!
# Settings in a file

A file of settings is a YAML mapping. Fields that are left out or null keep their defaults, and there
may be no others.

* `Config.ofYaml`: the settings of a text. All that is wrong with the types of its fields is told at
  once; a fault in the text, or in the way that mappings are merged, ends the reading.
-/

namespace TapeLang

/-- A type of field. -/
inductive FieldType where
  | string
  | bool
  | uint32
  | int
  /-- The whole of the settings. -/
  | config
  /-- A field that may be null. -/
  | optional (type : FieldType)
  deriving DecidableEq, Repr

namespace FieldType

def name : FieldType → String
  | string => "string"
  | bool => "bool"
  | uint32 => "uint32"
  | int => "int"
  | config => "bfc.configFile"
  | optional t => "*" ++ t.name

/-- The type that a node with a tag is read as. Only what is called null is for a field that may be null
as a whole. -/
def under (tag : String) : FieldType → FieldType
  | optional t => if tag = Yaml.Tag.null then optional t else t
  | t => t

end FieldType

/-- Something wrong with an entry of a mapping. Lines count from one. -/
inductive EntryError where
  /-- A node whose value is not of the type of its field. -/
  | wrongType (line : Nat) (tag : String) (text : String) (type : FieldType)
  | unknownField (line : Nat) (name : String)
  | repeatedKey (line : Nat) (key : String) (first : Nat)
  /-- A field that an entry further up has set under the name of an alias. -/
  | alreadySet (line : Nat) (name : String)
  deriving DecidableEq, Repr

/-- A value of more than so many bytes is cut to fewer. -/
def shownValue : String → String :=
  Text.cut 10 7

def EntryError.message : EntryError → String
  | wrongType line tag text type =>
    let shown :=
      if tag = Yaml.Tag.seq ∨ tag = Yaml.Tag.map then "" else " `" ++ shownValue text ++ "`"
    "line " ++ toString line ++ ": cannot unmarshal " ++ tag ++ shown ++ " into " ++ type.name
  | unknownField line name =>
    "line " ++ toString line ++ ": field " ++ name ++ " not found in type " ++ FieldType.config.name
  | repeatedKey line key first =>
    "line " ++ toString line ++ ": mapping key " ++ Text.quoted key ++ " already defined at line " ++
      toString first
  | alreadySet line name =>
    "line " ++ toString line ++ ": field " ++ name ++ " already set in type " ++
      FieldType.config.name

/-- Why a text holds no settings. -/
inductive ConfigError where
  | yaml (error : Yaml.Error)
  | mismatch (error : Yaml.TagMismatch)
  | malformedBinary
  | mergeNeedsMap
  | containsItself (anchor : String)
  | tooManyAliases
  | entries (errors : List EntryError)
  | unknownTarget (error : UnknownTarget)
  | noMemory
  deriving DecidableEq, Repr

def ConfigError.message : ConfigError → String
  | yaml e => e.message
  | mismatch e => e.message
  | malformedBinary => "yaml: !!binary value contains invalid base64 data"
  | mergeNeedsMap => "yaml: map merge requires map or sequence of maps as the value"
  | containsItself a => "yaml: anchor '" ++ a ++ "' value contains itself"
  | tooManyAliases => "yaml: document contains excessive aliasing"
  | entries es => "yaml: unmarshal errors:\n  " ++ "\n  ".intercalate (es.map EntryError.message)
  | unknownTarget e => e.message
  | noMemory => "memory_pages must be at least 1"

/-- The fields of a file of settings, as far as they are there. -/
structure ConfigFields where
  target : Option String := none
  optimize : Option Bool := none
  memoryPages : Option UInt32 := none
  importModule : Option String := none
  maxRounds : Option Int := none
  deriving DecidableEq, Repr

/-- How far a document has been read. -/
structure ReadState where
  /-- What is wrong with entries, last first. Reading goes on after it. -/
  errors : List EntryError := []
  /-- The number of nodes that have been read. A node counts again for every alias of it. -/
  nodes : Nat := 0
  /-- The number of nodes among them that were read because of an alias. -/
  viaAlias : Nat := 0
  /-- The number of aliases that led here. -/
  aliases : Nat := 0
  deriving DecidableEq, Repr

/-- Whether too large a part of the nodes was read because of aliases: in a small document a hundredth
must be read without any, and from there on up to nine tenths in a large one. -/
def ReadState.isExcessive (s : ReadState) : Bool :=
  let small := 400000
  let large := 4000000
  100 < s.viaAlias && 1000 < s.nodes &&
    s.nodes * (99 * (large - small) - 89 * (min s.nodes large - small)) <
      s.viaAlias * (100 * (large - small))

abbrev ReadFields := StateT ReadState (Except ConfigError)

namespace ReadFields

open Yaml (Node Value)

def complain (e : EntryError) : ReadFields Unit :=
  modify fun s => { s with errors := e :: s.errors }

/-- Counts a node that is to be read. -/
def count : ReadFields Unit := do
  let s ← get
  let s := { s with
    nodes := s.nodes + 1
    viaAlias := if s.aliases = 0 then s.viaAlias else s.viaAlias + 1 }
  if s.isExcessive then throw .tooManyAliases
  set s

/-- Reads a node, or the one that it is an alias of. -/
def enter {α : Type} (n : Node) (read : Node → ReadFields α) : ReadFields α := do
  count
  match n with
  | .reference _ _ target =>
    modify fun s => { s with aliases := s.aliases + 1 }
    count
    let a ← read target
    modify fun s => { s with aliases := s.aliases - 1 }
    return a
  | n => read n

/-! ## Scalars -/

/-- The value of a scalar. -/
def valueOf (tag text : String) : ReadFields Value :=
  if tag = Yaml.Tag.str then pure (.text text)
  else if tag = Yaml.Tag.binary then
    match Text.Base64.decode? text with
    | some bytes => pure (.text (Text.ofBytes bytes))
    | none => throw .malformedBinary
  else
    match Value.ofTagged tag text with
    | .ok v => pure v
    | .error e => throw (.mismatch e)

/-- A value as a truth value. A few more words than those for the values themselves will do. -/
def asBool? : Value → Option Bool
  | .bool b => some b
  | .text s =>
    if ["y", "Y", "yes", "Yes", "YES", "on", "On", "ON"].contains s then some true
    else if ["n", "N", "no", "No", "NO", "off", "Off", "OFF"].contains s then some false
    else none
  | _ => none

/-- A value as an unsigned number of 32 bits. A fraction is cut off, and `2 ^ 64` wraps to zero. -/
def asUInt32? : Value → Option UInt32
  | .int n => if 0 ≤ n ∧ n < 1 <<< 32 then some n.toNat.toUInt32 else none
  | .float (.finite n) =>
    if 0 ≤ n ∧ n < 1 <<< 32 then some n.toNat.toUInt32
    else if n = 1 <<< 64 then some 0
    else none
  | _ => none

/-- A value as a signed number of 64 bits. A fraction is cut off; what is then too small, and `2 ^ 63`,
stands for the least number. -/
def asInt? : Value → Option Int
  | .int n => if n < 1 <<< 63 then some n else none
  | .float (.finite n) =>
    if n < -(1 <<< 63) ∨ n = 1 <<< 63 then some (-(1 <<< 63)) else if n < 1 <<< 63 then some n else none
  | .float (.infinite true) => some (-(1 <<< 63))
  | _ => none

/-! ## Nodes -/

/-- Whether two keys of a mapping count as the same. -/
def sameKey (a b : Node) : Bool :=
  a.sort = b.sort && a.keyText = b.keyText

/-- The keys of a mapping that an earlier key is the same as, and the lines of the two. The order is
that of the earlier keys. -/
def repeatedKeys : List Node → List EntryError
  | [] => []
  | k :: ks =>
    (ks.filter (sameKey k)).map (fun l => .repeatedKey l.line l.keyText k.line) ++ repeatedKeys ks

/-- Complains about the keys that a mapping repeats, and says whether there are none. -/
def keysUnique (entries : List (Node × Node)) : ReadFields Bool := do
  let errors := repeatedKeys (entries.map Prod.fst)
  errors.forM complain
  return errors.isEmpty

/-- Reads a node as a value that `read?` makes of it, `none` if it is null or of another type. A text
takes any scalar. -/
def field {α : Type} (type : FieldType) (read? : String → Value → Option α) (n : Node) :
    ReadFields (Option α) :=
  enter n fun n => do
    match n with
    | .scalar line tag text =>
      match ← valueOf tag text with
      | .null => return none
      | v =>
        match read? text v with
        | some a => return some a
        | none =>
          complain (.wrongType line tag text (type.under tag))
          return none
    | .sequence line tag _ | .unfinished line tag _ =>
      complain (.wrongType line tag "" (type.under tag))
      return none
    | .mapping line tag entries =>
      if ← keysUnique entries then complain (.wrongType line tag "" (type.under tag))
      return none
    | .reference _ _ _ => return none

/-- A scalar as a text. If it has another value, that is told by the way it is written. -/
def asString (text : String) : Value → String
  | .text s => s
  | _ => text

def stringField (n : Node) : ReadFields (Option String) :=
  field (.optional .string) (fun text v => some (asString text v)) n

def boolField (n : Node) : ReadFields (Option Bool) :=
  field (.optional .bool) (fun _ v => asBool? v) n

def uint32Field (n : Node) : ReadFields (Option UInt32) :=
  field (.optional .uint32) (fun _ v => asUInt32? v) n

def intField (n : Node) : ReadFields (Option Int) :=
  field (.optional .int) (fun _ v => asInt? v) n

/-- The text of a key, `none` if it is null or no scalar. -/
def key (n : Node) : ReadFields (Option String) :=
  field .string (fun text v => some (asString text v)) n

/-! ## Mappings -/

/-- Reads the field with a name into `f`, `none` if there is no such field. -/
def setField (f : ConfigFields) (name : String) (n : Node) : Option (ReadFields ConfigFields) :=
  match name with
  | "target" => some do return { f with target := ← stringField n }
  | "optimize" => some do return { f with optimize := ← boolField n }
  | "memory_pages" => some do return { f with memoryPages := ← uint32Field n }
  | "import_module" => some do return { f with importModule := ← stringField n }
  | "max_rounds" => some do return { f with maxRounds := ← intField n }
  | _ => none

def isMerge : Node → Bool
  | .scalar _ tag text => tag = Yaml.Tag.merge && text = "<<"
  | _ => false

/-- Reads entries one by one. `set` holds the fields of this mapping that are set; of a merged mapping,
`merged` holds the names that count already, whose entries are passed over. -/
def ownEntries (f : ConfigFields) (set : List String) (merged : Option (List String)) :
    List (Node × Node) → ReadFields (ConfigFields × Option (List String))
  | [] => return (f, merged)
  | (k, v) :: rest => do
    if isMerge k then ownEntries f set merged rest
    else
      match ← key k with
      | none => ownEntries f set merged rest
      | some name =>
        if merged.any (·.contains name) then ownEntries f set merged rest
        else
          let merged := merged.map (name :: ·)
          match setField f name v with
          | none =>
            complain (.unknownField k.line name)
            ownEntries f set merged rest
          | some read =>
            if set.contains name then
              complain (.alreadySet k.line name)
              ownEntries f set merged rest
            else ownEntries (← read) (name :: set) merged rest

/-- The name of a key, if it is a text. -/
def keyName? (k : Node) : ReadFields (Option String) :=
  enter k fun k => do
    match k with
    | .scalar _ tag text =>
      match ← valueOf tag text with
      | .text s => return some s
      | _ => return none
    | _ => return none

/-- The names of the keys of a mapping that are texts. -/
def keyNames (entries : List (Node × Node)) : ReadFields (List String) :=
  entries.filterMapM fun e => keyName? e.1

/-- The mapping that is merged last. -/
def mergedNode? (entries : List (Node × Node)) : Option Node :=
  ((entries.filter fun e => isMerge e.1).getLast?).map Prod.snd

/-- Whether a node, or the one that an alias stands for, is a mapping. -/
def isMapping (n : Node) : Bool :=
  match n with
  | .mapping _ _ _ => true
  | .reference _ _ (.mapping _ _ _) => true
  | .reference _ _ (.unfinished _ _ b) => b
  | _ => false

mutual

/-- Reads the entries of a mapping, and then those of the mappings merged into it, which set only the
fields that are not named yet. -/
def mapping : (fuel : Nat) → ConfigFields → (merged : Option (List String)) →
    List (Node × Node) → ReadFields (ConfigFields × Option (List String))
  | 0, f, merged, _ => return (f, merged)
  | fuel + 1, f, merged, entries => do
    if !(← keysUnique entries) then return (f, merged)
    let (f, merged) ← ownEntries f [] merged entries
    match mergedNode? entries with
    | none => return (f, merged)
    | some n =>
      let names ← match merged with
        | some names => pure names
        | none => keyNames entries
      let (f, names) ← mergeNode fuel f names n
      return (f, merged.map fun _ => names)

/-- Reads what is merged into a mapping: a mapping, or a sequence of them. -/
def mergeNode : (fuel : Nat) → ConfigFields → (names : List String) → Node →
    ReadFields (ConfigFields × List String)
  | 0, f, names, _ => return (f, names)
  | fuel + 1, f, names, n =>
    match n with
    | .sequence _ _ items => mergeItems fuel f names items
    | n => mergeItems fuel f names [n]

/-- Reads mappings that are merged one after the other. -/
def mergeItems : (fuel : Nat) → ConfigFields → (names : List String) → List Node →
    ReadFields (ConfigFields × List String)
  | 0, f, names, _ => return (f, names)
  | _ + 1, f, names, [] => return (f, names)
  | fuel + 1, f, names, n :: rest => do
    if !isMapping n then throw .mergeNeedsMap
    if let .reference _ a (.unfinished _ _ _) := n then throw (.containsItself a)
    let (f, names) ← enter n fun n => do
      match n with
      | .mapping _ _ entries =>
        let (f, merged) ← mapping fuel f (some names) entries
        return (f, merged.getD names)
      | _ => return (f, names)
    mergeItems fuel f names rest

end

/-- Reads a document. Merges nest no deeper than the text is long, so that `fuel` can be enough for all
of them. -/
def document (fuel : Nat) (n : Node) : ReadFields ConfigFields := do
  count
  match n with
  | .mapping _ _ entries =>
    count
    let (f, _) ← mapping fuel {} none entries
    return f
  | n =>
    let _ : Option Unit ← field .config (fun _ _ => none) n
    return {}

end ReadFields

namespace Config

/-- The settings with the fields of a file. -/
def withFields (c : Config) (f : ConfigFields) : Except ConfigError Config := do
  let c ← match f.target with
    | none => pure c
    | some t =>
      match Target.ofName t with
      | .ok _ => pure (c.withTarget t)
      | .error e => throw (.unknownTarget e)
  let c := match f.optimize with
    | none => c
    | some b => c.withOptimize b
  let c ← match f.memoryPages with
    | none => pure c
    | some n => if n = 0 then throw .noMemory else pure (c.withMemoryPages n)
  let c := match f.importModule with
    | none => c
    | some m => c.withImportModule m.toUTF8.toList
  return match f.maxRounds with
    | none => c
    | some n => c.withMaxRounds n

/-- The settings in a YAML text. -/
def ofYaml (bytes : List UInt8) : Except ConfigError Config := do
  match Yaml.Node.ofBytes? bytes with
  | .error e => throw (.yaml e)
  | .ok none => return {}
  | .ok (some n) =>
    let (f, s) ← (ReadFields.document (3 * bytes.length + 3) n).run {}
    if s.errors.isEmpty then ({} : Config).withFields f else throw (.entries s.errors.reverse)

end Config

end TapeLang
