import TapeLang.Text.Quoted

/-!
# Codes of the WebAssembly binary format

The bytes that stand for value types, kinds of imports and exports, and sections, and their names.
-/

namespace TapeLang.Wasm

/-- A byte that has no name, as a number in base 16. -/
def nameless (b : UInt8) : String :=
  "0x" ++ Text.hexDigits 1 b.toNat

/-- The type of a value, as it is encoded. -/
abbrev ValueType := UInt8

namespace ValueType

def i32 : ValueType := 0x7f
def i64 : ValueType := 0x7e
def f32 : ValueType := 0x7d
def f64 : ValueType := 0x7c

def name (t : UInt8) : String :=
  if t = i32 then "i32"
  else if t = i64 then "i64"
  else if t = f32 then "f32"
  else if t = f64 then "f64"
  else nameless t

end ValueType

/-- What an import or export stands for, as it is encoded. -/
abbrev ItemKind := UInt8

namespace ItemKind

def func : ItemKind := 0x00
def table : ItemKind := 0x01
def memory : ItemKind := 0x02
def global : ItemKind := 0x03

def name (k : UInt8) : String :=
  if k = func then "func"
  else if k = table then "table"
  else if k = memory then "memory"
  else if k = global then "global"
  else nameless k

end ItemKind

/-- The number of a section. -/
abbrev SectionId := UInt8

namespace SectionId

def custom : SectionId := 0
def type : SectionId := 1
def imports : SectionId := 2
def function : SectionId := 3
def memory : SectionId := 5
def exports : SectionId := 7
def code : SectionId := 10

def names : List String :=
  ["custom", "type", "import", "function", "table", "memory", "global", "export", "start", "element",
    "code", "data"]

def name (id : UInt8) : String :=
  names.getD id.toNat "unknown"

end SectionId

/-- The size of a page of memory in bytes. -/
def pageSize : Nat := 65536

end TapeLang.Wasm
