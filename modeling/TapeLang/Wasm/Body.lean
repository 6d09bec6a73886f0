import TapeLang.Wasm.Instr
import TapeLang.Wasm.Section

/-!
# Writing a function body

A body grows by one instruction or one local at a time.
-/

namespace TapeLang.Wasm.FuncBody

def empty : FuncBody where
  locals := []
  body := []

/-- Adds an instruction at the end. -/
def push (f : FuncBody) (i : Instr) : FuncBody :=
  { f with body := f.body ++ i.encode }

/-- The handle of the local that is declared next, which is the number of those before it. -/
def nextHandle (f : FuncBody) : UInt32 :=
  f.locals.length.toUInt32

/-- Adds a local, whose index is the handle that it has. -/
def declareLocal (f : FuncBody) (t : ValueType) : FuncBody :=
  { f with locals := f.locals ++ [t] }

@[simp]
theorem body_push (f : FuncBody) (i : Instr) : (f.push i).body = f.body ++ i.encode := rfl

@[simp]
theorem locals_push (f : FuncBody) (i : Instr) : (f.push i).locals = f.locals := rfl

@[simp]
theorem locals_declareLocal (f : FuncBody) (t : ValueType) :
    (f.declareLocal t).locals = f.locals ++ [t] := rfl

@[simp]
theorem body_declareLocal (f : FuncBody) (t : ValueType) : (f.declareLocal t).body = f.body := rfl

end TapeLang.Wasm.FuncBody
