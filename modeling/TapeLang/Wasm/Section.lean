import TapeLang.Leb128
import TapeLang.Wasm.Name

/-!
# Contents of sections

What the sections of a module describe, and the bytes that describe it.

* `vector`: a list is written as its length and then its items.
* `localRuns`: the locals of a function are written as runs of one type.
* `Import.toFunc`: only functions can be imported; another kind of import cannot be written.
-/

namespace TapeLang.Wasm

/-- A function signature. -/
structure FuncType where
  params : List ValueType
  results : List ValueType
  deriving DecidableEq, Repr

/-- An imported function: where it comes from, and the index of its type. -/
structure FuncImport where
  module : List UInt8
  name : List UInt8
  typeIndex : UInt32
  deriving DecidableEq, Repr

/-- An import of any kind; what the index means depends on the kind. -/
structure Import where
  module : List UInt8
  name : List UInt8
  kind : ItemKind
  index : UInt32
  deriving DecidableEq, Repr

/-- The size of a memory in pages. -/
structure Limits where
  min : UInt32
  max : Option UInt32 := none
  deriving DecidableEq, Repr

/-- An export: its name, what it stands for, and the index of that among its kind. -/
structure Export where
  name : List UInt8
  kind : ItemKind
  index : UInt32
  deriving DecidableEq, Repr

/-- The locals of a function, and the bytes of its instructions. -/
structure FuncBody where
  locals : List ValueType
  body : List UInt8
  deriving DecidableEq, Repr

/-- The kind of import that cannot be written. -/
structure UnsupportedImport where
  kind : ItemKind
  deriving DecidableEq, Repr

def UnsupportedImport.message (e : UnsupportedImport) : String :=
  "unsupported import type: " ++ ItemKind.name e.kind

/-! ## Bytes -/

/-- The length of a list as an unsigned number of 32 bits. -/
def lengthBytes {α : Type} (items : List α) : List UInt8 :=
  Leb128.ofUInt32 items.length.toUInt32

/-- A list: its length, and then its items. -/
def vector {α : Type} (item : α → List UInt8) (items : List α) : List UInt8 :=
  lengthBytes items ++ items.flatMap item

/-- Bytes, with their number in front. -/
def sized (bytes : List UInt8) : List UInt8 :=
  lengthBytes bytes ++ bytes

def FuncType.encode (t : FuncType) : List UInt8 :=
  0x60 :: sized t.params ++ sized t.results

def FuncImport.encode (i : FuncImport) : List UInt8 :=
  sized i.module ++ sized i.name ++ ItemKind.func :: Leb128.ofUInt32 i.typeIndex

/-- An import as that of a function, which is the only kind there is a form for. -/
def Import.toFunc (i : Import) : Except UnsupportedImport FuncImport :=
  if i.kind = ItemKind.func then .ok ⟨i.module, i.name, i.index⟩ else .error ⟨i.kind⟩

def Limits.encode (l : Limits) : List UInt8 :=
  match l.max with
  | none => 0x00 :: Leb128.ofUInt32 l.min
  | some max => 0x01 :: Leb128.ofUInt32 l.min ++ Leb128.ofUInt32 max

def Export.encode (e : Export) : List UInt8 :=
  sized e.name ++ e.kind :: Leb128.ofUInt32 e.index

/-- The runs of equal neighbours in a list: the length and the item of each. -/
def localRuns : List ValueType → List (Nat × ValueType)
  | [] => []
  | t :: ts =>
    match localRuns ts with
    | (n, t') :: runs => if t = t' then (n + 1, t) :: runs else (1, t) :: (n, t') :: runs
    | [] => [(1, t)]

/-- The locals of a function: the number of runs, and the length and type of each. -/
def localBytes (locals : List ValueType) : List UInt8 :=
  vector (fun (n, t) => Leb128.ofUInt32 n.toUInt32 ++ [t]) (localRuns locals)

def FuncBody.encode (f : FuncBody) : List UInt8 :=
  sized (localBytes f.locals ++ f.body)

/-! ## Payloads -/

def typePayload (types : List FuncType) : List UInt8 :=
  vector FuncType.encode types

def importPayload (imports : List FuncImport) : List UInt8 :=
  vector FuncImport.encode imports

def functionPayload (typeIndices : List UInt32) : List UInt8 :=
  vector Leb128.ofUInt32 typeIndices

def memoryPayload (memories : List Limits) : List UInt8 :=
  vector Limits.encode memories

def exportPayload (exports : List Export) : List UInt8 :=
  vector Export.encode exports

def codePayload (functions : List FuncBody) : List UInt8 :=
  vector FuncBody.encode functions

end TapeLang.Wasm
