import TapeLang.Wasm.Section

/-!
# Binary modules

A module is a header and sections, each with its number and size in front.

* `encodeModule`: sections in any order, written in ascending order of their numbers; those with one
  number stay in the order they are in.
* `splitSections`: the sections of a module, in the order they are in.
-/

namespace TapeLang.Wasm

/-- A section: its number, and what it holds. -/
structure Section where
  id : SectionId
  payload : List UInt8
  deriving DecidableEq, Repr

def magic : List UInt8 := [0x00, 0x61, 0x73, 0x6d]

def version : List UInt8 := [0x01, 0x00, 0x00, 0x00]

def Section.encode (s : Section) : List UInt8 :=
  s.id :: sized s.payload

/-- The module that consists of some sections. -/
def encodeModule (sections : List Section) : List UInt8 :=
  magic ++ version ++ (sections.mergeSort fun a b => a.id ≤ b.id).flatMap Section.encode

/-- Why bytes are no module. -/
inductive SplitError where
  | invalidMagic
  | invalidVersion
  | badSize (id : SectionId) (error : Leb128.Error)
  | tooLong (id : SectionId) (size left : Nat)
  deriving DecidableEq, Repr

def SplitError.message : SplitError → String
  | invalidMagic => "invalid magic number"
  | invalidVersion => "invalid version header"
  | badSize id e => "get size of section " ++ toString id.toNat ++ ": " ++ e.message
  | tooLong id size left =>
    "section " ++ toString id.toNat ++ ": size " ++ toString size ++ " exceeds remaining " ++
      toString left ++ " bytes"

/-- The bytes after the header of a module. -/
def dropHeader (bytes : List UInt8) : Except SplitError (List UInt8) :=
  if bytes.take 4 ≠ magic then .error .invalidMagic
  else if (bytes.drop 4).take 4 ≠ version then .error .invalidVersion
  else .ok (bytes.drop 8)

/-- Splits bytes into at most `most` sections, after those of `before`, last one first. -/
def splitOnto (before : List Section) : (most : Nat) → List UInt8 → Except SplitError (List Section)
  | _, [] => .ok before.reverse
  | 0, _ :: _ => .ok before.reverse
  | most + 1, id :: bytes =>
    let r := Leb128.readUInt32 bytes
    match r.result with
    | .error e => .error (.badSize id e)
    | .ok (size, _) =>
      let left := r.rest.length
      if left < size.toNat then .error (.tooLong id size.toNat left)
      else splitOnto (⟨id, r.rest.take size.toNat⟩ :: before) most (r.rest.drop size.toNat)

/-- The sections of a module. A section has at least two bytes, so there are fewer than bytes. -/
def splitSections (bytes : List UInt8) : Except SplitError (List Section) := do
  let rest ← dropHeader bytes
  splitOnto [] rest.length rest

end TapeLang.Wasm
