import TapeLang.Proofs.Assemble
import TapeLang.Proofs.Sections

/-!
# Validity of modules

Code is valid if every instruction finds what it takes on the stack of its own block, and what it
refers to exists. The rules are those of WebAssembly 1.0, for the instructions and sections that
there are here.

* `Op.HasType`, `Code.HasType`: what code takes from the stack and leaves there.
* `Module.IsHeldBy`: sections are read to their last byte as the parts of a module, with names that
  are texts.
* `Module.Valid`: the rules for a whole module.
* `Program.code_append_hasType_iff`: the code of a program leaves the stack as it was, whatever
  comes after it. So the code of `main` is valid (`Program.mainFunc_valid`).
* `Program.splitSections_assemble_iff`: the sizes in a module are exact as long as they fit into
  32 bits.
-/

namespace TapeLang.Wasm

/-! ## Typing rules -/

namespace Module

/-- The type of the function with an index; the imported ones come first. -/
def funcType? (m : Module) (index : UInt32) : Option FuncType := do
  let type ← (m.imports.map (·.typeIndex) ++ m.functions)[index.toNat]?
  m.types[type.toNat]?

end Module

/-- What code can refer to. -/
structure Context where
  module : Module
  /-- The locals of the function, its parameters first. -/
  locals : List ValueType
  /-- What the function returns. -/
  results : List ValueType
  /-- What a branch to each block around the code takes along, the innermost first. -/
  labels : List (List ValueType)

/-- The context inside one more block, a branch to which takes nothing along. -/
def Context.inBlock (ctx : Context) : Context :=
  { ctx with labels := [] :: ctx.labels }

@[simp]
theorem Context.labels_inBlock (ctx : Context) : ctx.inBlock.labels = [] :: ctx.labels := rfl

/-- An instruction takes `ins` from the stack and puts `outs` there, the top first. After a return
comes nothing, so it takes whatever there is and can be said to leave anything. -/
def Op.HasType (ctx : Context) (ins outs : List ValueType) : Op → Prop
  | localGet i => ∃ t, ctx.locals[i.toNat]? = some t ∧ ins = [] ∧ outs = [t]
  | localSet i => ∃ t, ctx.locals[i.toNat]? = some t ∧ ins = [t] ∧ outs = []
  | const _ => ins = [] ∧ outs = [ValueType.i32]
  | load8s _ | load8u _ => ctx.module.memories ≠ [] ∧ ins = [ValueType.i32] ∧ outs = [ValueType.i32]
  | store8 _ => ctx.module.memories ≠ [] ∧ ins = [ValueType.i32, ValueType.i32] ∧ outs = []
  | add => ins = [ValueType.i32, ValueType.i32] ∧ outs = [ValueType.i32]
  | eqz => ins = [ValueType.i32] ∧ outs = [ValueType.i32]
  | call i =>
    ∃ f, ctx.module.funcType? i = some f ∧ ins = f.params.reverse ∧ outs = f.results.reverse
  | brIf d =>
    ∃ ts, ctx.labels[d.toNat]? = some ts ∧ ins = ValueType.i32 :: ts.reverse ∧ outs = ts.reverse
  | drop => ∃ t, ins = [t] ∧ outs = []
  | ret => ∃ rest, ins = ctx.results.reverse ++ rest

/-- Code finds one stack and leaves another. What is in a block starts and ends with an empty stack
of its own. -/
inductive Code.HasType : Code → Context → List ValueType → List ValueType → Prop
  | done {ctx : Context} {stack : List ValueType} : HasType .done ctx stack stack
  | op {ctx : Context} {o : Op} {next : Code} {ins outs rest stack : List ValueType}
      (first : o.HasType ctx ins outs) (after : HasType next ctx (outs ++ rest) stack) :
      HasType (.op o next) ctx (ins ++ rest) stack
  | block {ctx : Context} {body next : Code} {stack stack' : List ValueType}
      (inside : HasType body ctx.inBlock [] []) (after : HasType next ctx stack stack') :
      HasType (.block body next) ctx stack stack'
  | loop {ctx : Context} {body next : Code} {stack stack' : List ValueType}
      (inside : HasType body ctx.inBlock [] []) (after : HasType next ctx stack stack') :
      HasType (.loop body next) ctx stack stack'

namespace Code

variable {ctx : Context} {stack stack' : List ValueType}

@[simp]
theorem hasType_done_iff : done.HasType ctx stack stack' ↔ stack' = stack := by
  constructor
  · intro h
    cases h
    rfl
  · rintro rfl
    exact .done

@[simp]
theorem hasType_op_iff {o : Op} {next : Code} : (op o next).HasType ctx stack stack' ↔
    ∃ ins outs rest, o.HasType ctx ins outs ∧ stack = ins ++ rest ∧
      next.HasType ctx (outs ++ rest) stack' := by
  constructor
  · intro h
    cases h with
    | op first after => exact ⟨_, _, _, first, rfl, after⟩
  · rintro ⟨ins, outs, rest, first, rfl, after⟩
    exact .op first after

@[simp]
theorem hasType_block_iff {body next : Code} : (block body next).HasType ctx stack stack' ↔
    body.HasType ctx.inBlock [] [] ∧ next.HasType ctx stack stack' := by
  constructor
  · intro h
    cases h with
    | block inside after => exact ⟨inside, after⟩
  · rintro ⟨inside, after⟩
    exact .block inside after

@[simp]
theorem hasType_loop_iff {body next : Code} : (loop body next).HasType ctx stack stack' ↔
    body.HasType ctx.inBlock [] [] ∧ next.HasType ctx stack stack' := by
  constructor
  · intro h
    cases h with
    | loop inside after => exact ⟨inside, after⟩
  · rintro ⟨inside, after⟩
    exact .loop inside after

end Code

/-! ## Modules -/

/-- What the code of a function can refer to. A branch out of all blocks returns. -/
def Func.context (f : Func) (m : Module) : Context where
  module := m
  locals := f.type.params ++ f.locals
  results := f.type.results
  labels := [f.type.results]

/-- The code of a function starts with an empty stack and ends with the results on it. -/
def Func.Valid (f : Func) (m : Module) : Prop :=
  f.code.HasType (f.context m) [] f.type.results.reverse

namespace Module

/-- What the sections hold, of which there is one of each kind, is read to the last byte as the
parts of the module, and all names in it are texts. -/
structure IsHeldBy (m : Module) (sections : List Section) : Prop where
  types : (payloads SectionId.type sections).map typesOf? = [some m.types]
  imports : (payloads SectionId.imports sections).map importsOf? = [some m.imports]
  functions : (payloads SectionId.function sections).map functionsOf? = [some m.functions]
  memories : (payloads SectionId.memory sections).map memoriesOf? = [some m.memories]
  exports : (payloads SectionId.exports sections).map exportsOf? = [some m.exports]
  bodies : (payloads SectionId.code sections).map bodiesOf? = [some m.bodies]
  importNames : ∀ i ∈ m.imports, IsText i.module ∧ IsText i.name
  exportNames : ∀ e ∈ m.exports, IsText e.name

/-- An export stands for a function or a memory that exists. -/
def Exports (m : Module) (e : Export) : Prop :=
  (e.kind = ItemKind.func ∧ (m.funcType? e.index).isSome) ∨
    (e.kind = ItemKind.memory ∧ e.index.toNat < m.memories.length)

/-- A module whose functions all have types and valid code, with at most one memory of a possible
size, and whose exports exist and have names of their own. -/
structure Valid (m : Module) : Prop where
  imports : ∀ i ∈ m.imports, i.typeIndex.toNat < m.types.length
  functions : m.functions.length = m.bodies.length
  funcs : ∃ funcs, m.funcs? = some funcs ∧ ∀ f ∈ funcs, f.Valid m
  memory : m.memories.length ≤ 1
  limits : ∀ l ∈ m.memories, l.check = .ok ()
  exports : ∀ e ∈ m.exports, m.Exports e
  names : (m.exports.map (·.name)).Nodup

end Module

end TapeLang.Wasm

namespace TapeLang

open Wasm

/-! ## Code of programs -/

/-- The context has what the code of programs refers to. -/
structure Serves (ctx : Context) : Prop where
  pointer : ctx.locals[pointerLocal.toNat]? = some ValueType.i32
  print : ctx.module.funcType? printIndex = some ⟨[ValueType.i32], []⟩
  read : ctx.module.funcType? readIndex = some ⟨[], [ValueType.i32]⟩
  memory : ctx.module.memories ≠ []

theorem Serves.inBlock {ctx : Context} (h : Serves ctx) : Serves ctx.inBlock :=
  ⟨h.pointer, h.print, h.read, h.memory⟩

variable {ctx : Context} {stack stack' : List ValueType}

/-- Either form of an address is one word. -/
theorem address_hasType_iff (h : Serves ctx) (addr : Int64) (next : Code) :
    (Code.ofOps (addressOps addr) next).HasType ctx stack stack' ↔
      next.HasType ctx (ValueType.i32 :: stack) stack' := by
  unfold addressOps
  split <;> simp [Code.ofOps, Op.HasType, h.pointer, and_assoc]

/-- An operation leaves the stack as it was, and an unknown one does nothing to it. -/
theorem cell_hasType_iff (h : Serves ctx) (addr : Int64) (op : CellOp) (next : Code) :
    (Code.ofOps (op.ops addr) next).HasType ctx stack stack' ↔ next.HasType ctx stack stack' := by
  cases op with
  | add v =>
    rw [CellOp.ops, ← Code.ofOps_ofOps, ← Code.ofOps_ofOps, address_hasType_iff h,
      address_hasType_iff h]
    simp [Code.ofOps, Op.HasType, h.memory, and_assoc]
  | set v =>
    rw [CellOp.ops, ← Code.ofOps_ofOps, address_hasType_iff h]
    simp [Code.ofOps, Op.HasType, h.memory, and_assoc]
  | print v =>
    rw [CellOp.ops, ← Code.ofOps_ofOps, address_hasType_iff h]
    simp [Code.ofOps, Op.HasType, h.memory, h.print, and_assoc]
  | read v =>
    rw [CellOp.ops, ← Code.ofOps_ofOps, address_hasType_iff h]
    simp [Code.ofOps, Op.HasType, h.memory, h.read, and_assoc]
  | unknown kind v => rfl

/-- The test in front of a loop branches out of the block around it, where the stack is empty. -/
theorem entry_hasType_iff (h : Serves ctx) (next : Code) :
    (Code.ofOps [.localGet pointerLocal, .load8u 0, .eqz, .brIf 0] next).HasType ctx.inBlock stack
      stack' ↔ next.HasType ctx.inBlock stack stack' := by
  simp [Code.ofOps, Op.HasType, h.inBlock.pointer, h.inBlock.memory, and_assoc]

/-- The test at the end of a loop branches to its start, where the stack is empty. -/
theorem retest_hasType_iff (h : Serves ctx) (next : Code) :
    (Code.ofOps [.localGet pointerLocal, .load8u 0, .brIf 0] next).HasType ctx.inBlock stack
      stack' ↔ next.HasType ctx.inBlock stack stack' := by
  simp [Code.ofOps, Op.HasType, h.inBlock.pointer, h.inBlock.memory, and_assoc]

namespace Program

/-- The code of a program leaves the stack as it was, whatever comes after it. -/
theorem code_append_hasType_iff (p : Program) (h : Serves ctx) (next : Code) :
    (p.code.append next).HasType ctx stack stack' ↔ next.HasType ctx stack stack' := by
  induction p generalizing ctx stack stack' next with
  | done => rfl
  | move d p ih =>
    rw [code, Code.ofOps_append]
    simp [Code.ofOps, Op.HasType, h.pointer, and_assoc, ih h]
  | cell a op p ih => rw [code, Code.ofOps_append, cell_hasType_iff h, ih h]
  | loop b p ihb ih =>
    -- The body stands in two blocks, and starts and ends with the empty stack of the inner one.
    rw [code, Code.append, Code.hasType_block_iff, entry_hasType_iff h, Code.hasType_loop_iff,
      ihb h.inBlock.inBlock, retest_hasType_iff h.inBlock, ih h]
    simp

variable {p : Program} {settings : ModuleSettings}

/-- Inside whatever blocks, `main` finds the pointer, the imported functions and the memory. -/
theorem serves_main (labels : List (List ValueType)) :
    Serves { p.mainFunc.context (p.module settings) with labels } :=
  ⟨rfl, rfl, rfl, List.cons_ne_nil _ _⟩

/-- The code of `main` ends with the pointer, which it returns. -/
theorem mainFunc_valid : p.mainFunc.Valid (p.module settings) := by
  have hserves : Serves (p.mainFunc.context (p.module settings)) := serves_main [[ValueType.i32]]
  show (p.code.append (.op (.localGet pointerLocal) (.op .ret .done))).HasType _ _ _
  rw [code_append_hasType_iff p hserves, Code.hasType_op_iff]
  refine ⟨[], [ValueType.i32], [], ⟨_, hserves.pointer, rfl, rfl⟩, rfl, ?_⟩
  rw [Code.hasType_op_iff]
  exact ⟨[ValueType.i32], [ValueType.i32], [], ⟨[], rfl⟩, rfl, .done⟩

/-! ## Modules of programs -/

/-- The sizes in a module are exact as long as they fit into 32 bits. -/
theorem splitSections_assemble_iff :
    splitSections (p.assemble settings) = .ok (p.sections settings) ↔ SizesFit p settings := by
  refine ⟨fun h => ?_, splitSections_assemble⟩
  have hlt := length_payload_lt_of_splitSections h
  exact ⟨hlt ⟨SectionId.code, codePayload [p.mainBody]⟩ (by simp [sections]),
    hlt ⟨SectionId.imports, importPayload (imports settings.resolve.importModule)⟩
      (by simp [sections])⟩

theorem module_isHeldBy (h : SizesFit p settings) (hname : IsText settings.resolve.importModule) :
    (p.module settings).IsHeldBy (p.sections settings) := by
  obtain ⟨htypes, himports, hfunctions, hmemories, hexports⟩ := payloads_read (p := p) h.imports
  exact ⟨congrArg ([·]) htypes, congrArg ([·]) himports, congrArg ([·]) hfunctions,
    congrArg ([·]) hmemories, congrArg ([·]) hexports, congrArg ([·]) (body_read h.code),
    text_imports_iff.mpr hname, text_exports⟩

/-- The bytes of a module are well formed as long as the sizes in it fit into 32 bits and the name
that it is given is a text. -/
theorem wellFormed_assemble_iff :
    splitSections (p.assemble settings) = .ok (p.sections settings) ∧
      (p.module settings).IsHeldBy (p.sections settings) ↔
        SizesFit p settings ∧ IsText settings.resolve.importModule := by
  constructor
  · rintro ⟨hsplit, held⟩
    exact ⟨splitSections_assemble_iff.mp hsplit, text_imports_iff.mp held.importNames⟩
  · rintro ⟨hsizes, hname⟩
    exact ⟨splitSections_assemble hsizes, module_isHeldBy hsizes hname⟩

theorem module_exports : ∀ e ∈ (p.module settings).exports, (p.module settings).Exports e := by
  intro e he
  simp only [module, List.mem_cons, List.not_mem_nil, or_false] at he
  rcases he with rfl | rfl
  · exact .inl ⟨rfl, rfl⟩
  · exact .inr ⟨rfl, Nat.zero_lt_one⟩

/-- The one thing that can be wrong with the module of a program is that its memory is too large. -/
theorem module_valid_iff :
    (p.module settings).Valid ↔ settings.resolve.memoryPages ≤ maxPages := by
  rw [← check_eq_ok_iff]
  constructor
  · intro h
    exact h.limits _ List.mem_cons_self
  · intro h
    exact {
      imports := by simp [module, imports]
      functions := rfl
      funcs := ⟨[p.mainFunc], funcs?_module, by simpa using mainFunc_valid⟩
      memory := Nat.le_refl 1
      limits := by simpa [module] using h
      exports := module_exports
      names := by
        show ["main".toUTF8.toList, "memory".toUTF8.toList].Nodup
        decide +kernel }

/-- The bytes of the module of a program are well formed exactly if the sizes in it have 32 bits and
its name is a text: they are then a header and six sections in this order, of the sizes in front of
them and each read to its last byte. The code is valid in any case. The body of `main` splits into
instructions, of which each block is closed by its own end. They are typed: whatever they refer to
exists, each finds what it takes on the stack of its own block, and one word is returned. The code
of any program inside it, in whatever blocks, leaves the stack as it was and can be typed in no
other way. And the whole module is valid exactly if its memory is not too large. -/
theorem assemble_is_valid (p : Program) (settings : ModuleSettings) :
    (p.sections settings).map (·.id) = [1, 2, 3, 5, 7, 10] ∧
    (splitSections (p.assemble settings) = .ok (p.sections settings) ∧
      (p.module settings).IsHeldBy (p.sections settings) ↔
        SizesFit p settings ∧ IsText settings.resolve.importModule) ∧
    (p.module settings).funcs? = some [p.mainFunc] ∧
    Instr.readAll? p.mainBody.body = some (p.mainFunc.code.instrs ++ [.close]) ∧
    p.mainFunc.code.HasType (p.mainFunc.context (p.module settings)) [] [ValueType.i32] ∧
    (∀ (q : Program) (labels : List (List ValueType)) (stack stack' : List ValueType),
      q.code.HasType { p.mainFunc.context (p.module settings) with labels } stack stack' ↔
        stack' = stack) ∧
    ((p.module settings).Valid ↔ settings.resolve.memoryPages ≤ maxPages) := by
  refine ⟨rfl, wellFormed_assemble_iff, funcs?_module, ?_, mainFunc_valid, ?_, module_valid_iff⟩
  · show Instr.readAll? (Instr.encodeAll p.mainInstrs) = _
    rw [Instr.readAll?_encodeAll, mainInstrs_eq]
    rfl
  · intro q labels stack stack'
    rw [← q.code.append_done, code_append_hasType_iff q (serves_main labels), Code.hasType_done_iff]

/-- Has a move and a cell that need more than 32 bits, cells on both sides of the pointer, an
unknown operation, and a loop with nothing in it inside another. -/
def farAndNear : Program :=
  .move 0x100000001 (.cell 0x200000000 (.add (-1)) (.cell (-3) (.read 0) (.loop
    (.loop .done (.cell 5 (.set 7) (.cell 0 (.unknown 9 1) .done))) (.cell (-1) (.print 0) .done))))

/-- In the largest memory that there is. -/
theorem assemble_is_valid_farAndNear :
    let settings : ModuleSettings := { importModule := "env".toUTF8.toList, memoryPages := 65536 }
    splitSections (farAndNear.assemble settings) = .ok (farAndNear.sections settings) ∧
    (farAndNear.module settings).IsHeldBy (farAndNear.sections settings) ∧
    farAndNear.mainFunc.code.HasType (farAndNear.mainFunc.context (farAndNear.module settings)) []
      [ValueType.i32] ∧
    (farAndNear.module settings).Valid := by
  intro settings
  have hname : settings.resolve.importModule = "env".toUTF8.toList := by decide +kernel
  have hsizes : SizesFit farAndNear settings := ⟨by decide +kernel, by decide +kernel⟩
  obtain ⟨-, hbytes, -, -, hmain, -, hvalid⟩ := assemble_is_valid farAndNear settings
  obtain ⟨hsplit, held⟩ := hbytes.mpr ⟨hsizes, "env", hname⟩
  exact ⟨hsplit, held, hmain, hvalid.mpr (by decide)⟩

/-- The name that both functions are imported from stands twice in the imports. -/
theorem two_mul_length_le_length_importPayload (name : List UInt8) :
    2 * name.length ≤ (importPayload (imports name)).length := by
  simp [importPayload, vector, imports, FuncImport.encode, sized]
  omega

theorem not_sizesFit_of_length_name {name : List UInt8} (h : 2 ^ 31 ≤ name.length) :
    ¬ SizesFit p { importModule := name } := by
  intro fits
  have ne : name ≠ [] := List.ne_nil_of_length_pos (by omega)
  have hlt := fits.imports
  have htwice := two_mul_length_le_length_importPayload name
  simp only [ModuleSettings.resolve, if_neg ne] at hlt
  omega

/-- Four things can keep a module from being valid where the bytes of the body are fewer than
`2 ^ 32`: that the code section has one more, a name so long that the imports have as many, a name
that is no text, and a memory of more pages than there can be. -/
theorem assemble_not_valid :
    let long := counting 330382096 5
    let short : Program := .cell 0 (.add 1) .done
    let tall : ModuleSettings := { memoryPages := 65537 }
    let garbled : ModuleSettings := { importModule := [0xff] }
    let wordy : ModuleSettings := { importModule := List.replicate (2 ^ 31) 0x61 }
    (long.mainBody.encode.length < 2 ^ 32 ∧
      splitSections (long.assemble {}) ≠ .ok (long.sections {}) ∧
      Module.load (long.assemble {}) = .error (.malformed SectionId.code)) ∧
    (short.mainBody.encode.length < 2 ^ 32 ∧ ¬ (short.module tall).Valid ∧
      Module.load (short.assemble tall) = .error (.limits (.minTooLarge 65537))) ∧
    (¬ (short.module garbled).IsHeldBy (short.sections garbled) ∧
      Module.load (short.assemble garbled) =
        .error (.name SectionId.imports (.importModule 0))) ∧
    splitSections (short.assemble wordy) ≠ .ok (short.sections wordy) := by
  intro long short tall garbled wordy
  have hsplit : splitSections ((counting 330382096 5).assemble {}) ≠
      .ok ((counting 330382096 5).sections {}) := by
    intro same
    have hcode := (splitSections_assemble_iff.mp same).code
    rw [length_codePayload_overflow] at hcode
    exact Nat.lt_irrefl _ hcode
  have hname : ¬ IsText garbled.resolve.importModule := by
    rw [← isText_iff]
    decide +kernel
  refine ⟨⟨length_encode_overflow_lt, hsplit, load_counting⟩, ⟨by decide +kernel, fun hv => ?_, ?_⟩,
    ⟨fun held => ?_, ?_⟩, fun same => ?_⟩
  · exact absurd (module_valid_iff.mp hv) (by decide)
  · exact load_of_maxPages_lt ⟨by decide +kernel, by decide +kernel⟩ ⟨"bfc", rfl⟩ (by decide)
  · exact hname (text_imports_iff.mp held.importNames)
  · exact load_of_not_isText ⟨by decide +kernel, by decide +kernel⟩ hname
  · exact not_sizesFit_of_length_name (Nat.le_of_eq List.length_replicate.symm)
      (splitSections_assemble_iff.mp same)

end Program

end TapeLang
