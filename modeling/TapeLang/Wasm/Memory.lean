import Std.Data.TreeMap

/-!
# Memory

Bytes at addresses below some size, all zero at first.

* `Memory.load?` and `Memory.store?`: look at and change the byte at an address, which has to lie inside.
-/

namespace TapeLang.Wasm

/-- A memory, of which the bytes that were written are kept. -/
structure Memory where
  size : Nat
  written : Std.TreeMap Nat UInt8 := {}

namespace Memory

/-- The byte at an address. -/
def get (m : Memory) (address : Nat) : UInt8 :=
  m.written.getD address 0

/-- The byte at an address inside the memory. -/
def load? (m : Memory) (address : Nat) : Option UInt8 :=
  if address < m.size then some (m.get address) else none

/-- The memory with another byte at an address inside it. -/
def store? (m : Memory) (address : Nat) (b : UInt8) : Option Memory :=
  if address < m.size then some { m with written := m.written.insert address b } else none

/-- The first `n` bytes. -/
def bytes (m : Memory) (n : Nat) : Array UInt8 :=
  Array.ofFn fun i : Fin n => m.get i

@[simp]
theorem get_empty (size address : Nat) : get { size } address = 0 := by
  simp [get]

theorem get_store? {m m' : Memory} {a : Nat} {b : UInt8} (h : m.store? a b = some m') (x : Nat) :
    m'.get x = if a = x then b else m.get x := by
  unfold store? at h
  split at h <;> simp only [Option.some.injEq, reduceCtorEq] at h
  subst h
  simp only [get, Std.TreeMap.getD_insert, Nat.compare_eq_eq]

theorem size_store? {m m' : Memory} {a : Nat} {b : UInt8} (h : m.store? a b = some m') :
    m'.size = m.size := by
  unfold store? at h
  split at h <;> simp only [Option.some.injEq, reduceCtorEq] at h
  subst h
  rfl

end Memory

end TapeLang.Wasm
