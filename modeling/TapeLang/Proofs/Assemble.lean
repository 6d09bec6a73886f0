import TapeLang.Proofs.CodeSize
import TapeLang.Proofs.Grammar
import TapeLang.Proofs.Names
import TapeLang.Proofs.Translate

/-!
# The module of a program

The bytes of a module are read back as what they were made from, and running them is running the
program on a machine with a pointer of 32 bits.

* `Program.load_assemble`: reading the bytes gives `Program.module`. `Program.load_overflow`,
  `Program.load_of_not_isText` and `Program.load_of_maxPages_lt`: what is read if something does
  not fit.
* `Program.prepare_assemble`: such a module can be linked, and `main` is the function of
  the program.
* `Program.invoke_main`: what calling `main` does, in a memory of any size.
* `Program.run_assemble`: what running the bytes gives.
-/

namespace TapeLang

open Wasm

/-! ## Loading -/

namespace Program

/-- What the module of a program describes. -/
def module (p : Program) (settings : ModuleSettings) : Module where
  types := [⟨[ValueType.i32], []⟩, ⟨[], [ValueType.i32]⟩, ⟨[], [ValueType.i32]⟩]
  imports := imports settings.resolve.importModule
  functions := [2]
  memories := [{ min := settings.resolve.memoryPages }]
  exports := [⟨"main".toUTF8.toList, ItemKind.func, mainIndex⟩,
    ⟨"memory".toUTF8.toList, ItemKind.memory, 0⟩]
  bodies := [p.mainBody]

variable {p : Program} {settings : ModuleSettings}

/-- The two sections that have no bound of their own have sizes of 32 bits. -/
structure SizesFit (p : Program) (settings : ModuleSettings) : Prop where
  code : (codePayload [p.mainBody]).length < 2 ^ 32
  imports : (importPayload (imports settings.resolve.importModule)).length < 2 ^ 32

/-- What makes a module that can be loaded: sizes of 32 bits, a name that is a text, and no more
pages than a memory can have. -/
structure Fits (p : Program) (settings : ModuleSettings) : Prop extends SizesFit p settings where
  name : IsText settings.resolve.importModule
  pages : settings.resolve.memoryPages ≤ maxPages

theorem length_memoryPayload_lt (pages : UInt32) :
    (memoryPayload [{ min := pages }]).length < 2 ^ 32 := by
  have hl := Leb128.length_ofUInt32_le pages
  have hc := Leb128.length_ofUInt32_le [({ min := pages } : Limits)].length.toUInt32
  simp only [memoryPayload, vector, lengthBytes, Limits.encode, List.flatMap_cons, List.flatMap_nil,
    List.length_append, List.length_cons, List.length_nil] at hc ⊢
  omega

theorem sections_eq (p : Program) (settings : ModuleSettings) : p.sections settings =
    (p.sections settings).dropLast ++ [⟨SectionId.code, codePayload [p.mainBody]⟩] := rfl

/-- Whatever the program, the sections in front of the code have sizes of 32 bits if the
imports have. -/
theorem length_leading_lt
    (himports : (importPayload (imports settings.resolve.importModule)).length < 2 ^ 32) :
    ∀ s ∈ (p.sections settings).dropLast, s.payload.length < 2 ^ 32 := by
  intro s hs
  simp only [sections, List.dropLast, List.mem_cons, List.not_mem_nil, or_false] at hs
  rcases hs with rfl | rfl | rfl | rfl | rfl
  · decide +kernel
  · exact himports
  · decide +kernel
  · exact length_memoryPayload_lt settings.resolve.memoryPages
  · decide +kernel

theorem pairwise_sections : (p.sections settings).Pairwise fun a b => decide (a.id ≤ b.id) := by
  have hids : [SectionId.type, SectionId.imports, SectionId.function, SectionId.memory,
      SectionId.exports, SectionId.code].Pairwise fun a b => decide (a ≤ b) = true := by decide
  exact (List.pairwise_map (f := Section.id) (l := p.sections settings)).mp hids

theorem splitSections_assemble (h : SizesFit p settings) :
    splitSections (p.assemble settings) = .ok (p.sections settings) := by
  apply splitSections_encode _ pairwise_sections
  rw [sections_eq]
  intro s hs
  rcases List.mem_append.mp hs with hs | hs
  · exact length_leading_lt h.imports s hs
  · rw [List.mem_singleton.mp hs]
    exact h.code

theorem check_eq_ok_iff (pages : UInt32) :
    Limits.check { min := pages } = .ok () ↔ pages ≤ maxPages := by
  rw [← UInt32.not_lt]
  by_cases h : maxPages < pages <;> simp [Limits.check, h]

theorem check_of_le {pages : UInt32} (h : pages ≤ maxPages) :
    List.forM [{ min := pages }] (fun l : Limits => l.check) = .ok () := by
  simp [(check_eq_ok_iff pages).mpr h]

/-- Only the name of the module that is imported from can be no text. -/
theorem text_imports_iff :
    (∀ i ∈ (p.module settings).imports, IsText i.module ∧ IsText i.name) ↔
      IsText settings.resolve.importModule := by
  simp [module, imports]

theorem text_exports : ∀ e ∈ (p.module settings).exports, IsText e.name := by
  simp [module]

/-- Every section in front of the code holds a part of the module, and is read back as that to its
last byte. -/
theorem payloads_read
    (himports : (importPayload (imports settings.resolve.importModule)).length < 2 ^ 32) :
    let m := p.module settings
    typesOf? (typePayload m.types) = some m.types ∧
    importsOf? (importPayload m.imports) = some m.imports ∧
    functionsOf? (functionPayload m.functions) = some m.functions ∧
    memoriesOf? (memoryPayload m.memories) = some m.memories ∧
    exportsOf? (exportPayload m.exports) = some m.exports := by
  intro m
  refine ⟨typesOf?_typePayload ?_, importsOf?_importPayload himports,
    functionsOf?_functionPayload ?_,
    memoriesOf?_memoryPayload (length_memoryPayload_lt settings.resolve.memoryPages),
    exportsOf?_exportPayload ?_⟩
  · show (typePayload [_, _, _]).length < _
    decide +kernel
  · show (functionPayload [2]).length < _
    decide +kernel
  · show (exportPayload [_, _]).length < _
    decide +kernel

theorem body_read (h : (codePayload [p.mainBody]).length < 2 ^ 32) :
    bodiesOf? (codePayload [p.mainBody]) = some [p.mainBody] :=
  bodiesOf?_codePayload (by simp [mainBody]) h

/-- What has been loaded when the code is next. -/
theorem foldlM_leading
    (himports : (importPayload (imports settings.resolve.importModule)).length < 2 ^ 32)
    (hname : IsText settings.resolve.importModule)
    (hpages : settings.resolve.memoryPages ≤ maxPages) :
    (p.sections settings).dropLast.foldlM Module.addSection {} =
      (.ok { p.module settings with bodies := [] } : Except LoadError Module) := by
  obtain ⟨htypes, hread, hfunctions, hmemories, hexports⟩ := payloads_read (p := p) himports
  have himported : checkImports 0 (p.module settings).imports = .ok () :=
    checkImports_eq_ok_iff.mpr (text_imports_iff.mpr hname)
  have hexported : checkExports (p.module settings).exports = .ok () :=
    checkExports_eq_ok_iff.mpr text_exports
  simp only [module] at htypes hread hfunctions hmemories hexports himported hexported
  simp only [sections, List.dropLast, List.foldlM_cons, List.foldlM_nil, Module.addSection, htypes,
    hread, hfunctions, hmemories, hexports, Option.elim, himported, hexported, check_of_le hpages]
  rfl

/-- Reading the bytes of a module gives what they were made from. -/
theorem load_assemble (h : Fits p settings) :
    Module.load (p.assemble settings) = .ok (p.module settings) := by
  have hfold : (p.sections settings).foldlM Module.addSection {} =
      (.ok (p.module settings) : Except LoadError Module) := by
    rw [sections_eq, List.foldlM_append, foldlM_leading h.imports h.name h.pages]
    simp only [List.foldlM_cons, List.foldlM_nil, Module.addSection, body_read h.code, Option.elim]
    rfl
  rw [Module.load, splitSections_assemble h.toSizesFit]
  simp only [hfold]
  rfl

/-- A name that is no text is found when the imports are read. -/
theorem load_of_not_isText (h : SizesFit p settings)
    (hname : ¬ IsText settings.resolve.importModule) :
    Module.load (p.assemble settings) = .error (.name SectionId.imports (.importModule 0)) := by
  obtain ⟨htypes, hread, -⟩ := payloads_read (p := p) h.imports
  have hchecked : checkImports 0 (imports settings.resolve.importModule) =
      .error (.importModule 0) := by
    simp [imports, checkImports, Bool.eq_false_iff.mpr (mt isText_iff.mp hname)]
  simp only [module] at htypes hread
  rw [Module.load, splitSections_assemble h]
  simp only [sections, List.foldlM_cons, Module.addSection, htypes, hread, Option.elim, hchecked]
  rfl

/-- A memory that is too large is found when its size is read. -/
theorem load_of_maxPages_lt (h : SizesFit p settings) (hname : IsText settings.resolve.importModule)
    (hpages : maxPages < settings.resolve.memoryPages) : Module.load (p.assemble settings) =
      .error (.limits (.minTooLarge settings.resolve.memoryPages)) := by
  obtain ⟨htypes, hread, hfunctions, hmemories, -⟩ := payloads_read (p := p) h.imports
  have himported : checkImports 0 (p.module settings).imports = .ok () :=
    checkImports_eq_ok_iff.mpr (text_imports_iff.mpr hname)
  have hchecked : List.forM [{ min := settings.resolve.memoryPages }] (fun l : Limits => l.check) =
      .error (.minTooLarge settings.resolve.memoryPages) := by
    simp [Limits.check, hpages]
  simp only [module] at htypes hread hfunctions hmemories himported
  rw [Module.load, splitSections_assemble h]
  simp only [sections, List.foldlM_cons, Module.addSection, htypes, hread, hfunctions, hmemories,
    Option.elim, himported, hchecked]
  rfl

/-! ## Code that is too long -/

/-- What a module with a code section of `2 ^ 32` bytes is split into: that section ends at once,
and its function is taken for types. -/
def misreadSections (p : Program) (settings : ModuleSettings) : List Section :=
  (p.sections settings).dropLast ++
    [⟨SectionId.code, []⟩, ⟨SectionId.type, localBytes p.mainBody.locals ++ p.mainBody.body⟩]

theorem splitSections_overflow (h : (codePayload [p.mainBody]).length = 2 ^ 32)
    (himports : (importPayload (imports settings.resolve.importModule)).length < 2 ^ 32) :
    splitSections (p.assemble settings) = .ok (p.misreadSections settings) := by
  have hsizes : ∀ s ∈ p.misreadSections settings, s.payload.length < 2 ^ 32 := by
    intro s hs
    rcases List.mem_append.mp hs with hs | hs
    · exact length_leading_lt himports s hs
    · rcases List.mem_cons.mp hs with rfl | hs
      · decide
      · rw [List.mem_singleton.mp hs]
        exact length_function_lt h
  have hbytes : p.assemble settings =
      magic ++ version ++ (p.misreadSections settings).flatMap Section.encode := by
    rw [assemble, encodeModule, List.mergeSort_of_pairwise pairwise_sections, sections_eq,
      List.flatMap_append, List.flatMap_singleton, encode_code_overflow h, misreadSections,
      List.flatMap_append, List.flatMap_cons, List.flatMap_singleton]
  rw [hbytes]
  exact SplitsInto.splitSections_eq (.sections (consistsOf_flatMap_encode hsizes))

/-- So there is no module to be read. -/
theorem load_overflow (h : (codePayload [p.mainBody]).length = 2 ^ 32)
    (himports : (importPayload (imports settings.resolve.importModule)).length < 2 ^ 32)
    (hname : IsText settings.resolve.importModule)
    (hpages : settings.resolve.memoryPages ≤ maxPages) :
    Module.load (p.assemble settings) = .error (.malformed SectionId.code) := by
  have none : bodiesOf? [] = none := rfl
  rw [Module.load, splitSections_overflow h himports]
  simp only [misreadSections, List.foldlM_append, foldlM_leading himports hname hpages]
  simp only [List.foldlM_cons, Module.addSection, none, Option.elim]
  rfl

/-- Such a program, with the default settings. -/
theorem load_counting : Module.load ((counting 330382096 5).assemble {}) =
    .error (.malformed SectionId.code) :=
  load_overflow length_codePayload_overflow (by decide +kernel) ⟨"bfc", rfl⟩ (by decide)

/-! ## Linking -/

/-- The function `main` of a program. -/
def mainFunc (p : Program) : Func where
  type := ⟨[], [ValueType.i32]⟩
  locals := [ValueType.i32]
  code := p.code.append (.op (.localGet pointerLocal) (.op .ret .done))

theorem funcs?_module : (p.module settings).funcs? = some [p.mainFunc] := by
  have hread : Instr.readAll? p.mainBody.body = some p.mainInstrs :=
    Instr.readAll?_encodeAll p.mainInstrs
  have htype : (p.module settings).types[(2 : UInt32).toNat]? = some ⟨[], [ValueType.i32]⟩ := rfl
  show List.mapM _ [((2 : UInt32), p.mainBody)] = _
  simp only [List.mapM_cons, List.mapM_nil, htype, hread, Option.bind_eq_bind, Option.bind_some,
    p.ofInstrs?_mainInstrs]
  rfl

theorem link_imports :
    (p.module settings).imports.mapM (Host.link (p.module settings) settings.resolve.importModule) =
      .ok [.print, .read] := by
  simp only [module, imports, List.mapM_cons, List.mapM_nil, Host.link, textOf_toUTF8]
  simp only [ne_eq, not_true_eq_false, if_false]
  rfl

/-- The module of a program can be linked with whatever offers the functions that it imports. -/
theorem prepare_assemble (h : Fits p settings)
    (hn : settings.resolve.importModule ≠ Host.moduleName.toUTF8.toList) :
    Host.prepare (p.assemble settings) settings.resolve.importModule =
      .ok (p.module settings, linked [p.mainFunc]) := by
  simp only [Host.prepare, load_assemble h, funcs?_module, pure_bind, link_imports, if_neg hn]
  rfl

theorem mainOf_module :
    Host.mainOf (p.module settings) (linked [p.mainFunc]) = .ok (2, p.mainFunc) := by
  have he : Host.exported? (p.module settings) ItemKind.func "main" = some 2 := by
    rw [Host.exported?, module, List.find?_cons_of_pos (by simp)]
    rfl
  rw [Host.mainOf, he]
  rfl

end Program

/-! ## Running -/

namespace WordOutcome

/-- What calling `main` gives when the program ends like this. -/
def results (o : WordOutcome) : Except Trap (List UInt32) :=
  match o.fault with
  | none => .ok [o.machine.pointer]
  | some t => .error t

/-- What running the module gives when the program ends like this. -/
def result (o : WordOutcome) : Except Host.Error Host.Result :=
  match o.fault with
  | none => .ok ⟨o.machine.pointer.toInt32, o.machine.memory.bytes tapeSize⟩
  | some t => .error (.trap t)

theorem result_eq_error_iff (o : WordOutcome) (e : Host.Error) :
    o.result = .error e ↔ ∃ t, o.fault = some t ∧ .trap t = e := by
  rcases h : o.fault with _ | t' <;> simp [result, h]

end WordOutcome

/-- A machine whose memory has so many pages, all zero. -/
def WordMachine.fresh (pages : UInt32) (console : Console) : WordMachine where
  memory := { size := pages.toNat * pageSize }
  console := console

namespace Program

/-- Calling `main` runs the program, in whatever memory. -/
theorem invoke_of_ret {m : Instance} {f : Func} {steps left : Nat} {s s' : State}
    (h : exec m f.code steps (s.enter f) = ⟨s', .ret, left⟩) :
    m.invoke f steps s = (s', .ok (s'.stack.take f.type.results.length).reverse) := by
  rw [Instance.invoke, h]

theorem invoke_of_trap {m : Instance} {f : Func} {steps : Nat} {s : State} {t : Trap}
    (h : (exec m f.code steps (s.enter f)).signal = .trap t) :
    m.invoke f steps s = ((exec m f.code steps (s.enter f)).state, .error t) := by
  rcases he : exec m f.code steps (s.enter f) with ⟨s', signal, left⟩
  rw [he] at h
  cases h
  rw [Instance.invoke, he]

theorem invoke_main (p : Program) (memory : Memory) (console : Console) (steps : Nat) :
    let r := (linked [p.mainFunc]).invoke p.mainFunc steps { memory, console }
    let o := WordMachine.run p steps { memory, console }
    r.1.memory = o.machine.memory ∧ r.1.console = o.machine.console ∧ r.2 = o.results := by
  intro r o
  have h : Follows [p.mainFunc] (exec (linked [p.mainFunc]) p.mainFunc.code steps
      (State.enter { memory, console } p.mainFunc)) o []
        (.op (.localGet pointerLocal) (.op .ret .done)) :=
    exec_code p steps { memory, console } #[] [] _
  rcases ht : o.fault with _ | t
  · simp only [Follows, ht] at h
    obtain ⟨calls, h⟩ := h
    rw [exec_localGet, exec_op _ _ rfl] at h
    have hr : r = _ := invoke_of_ret h
    rw [hr, WordOutcome.results, ht]
    exact ⟨rfl, rfl, rfl⟩
  · simp only [Follows, ht] at h
    obtain ⟨hs, hm, hc⟩ := h
    have hr : r = _ := invoke_of_trap hs
    rw [hr, WordOutcome.results, ht]
    exact ⟨hm, hc, rfl⟩

theorem pages_pos (settings : ModuleSettings) : 1 ≤ settings.resolve.memoryPages.toNat := by
  unfold ModuleSettings.resolve
  by_cases h : settings.memoryPages = 0
  · simp [h, defaultMemoryPages]
  · have h0 : settings.memoryPages.toNat ≠ 0 := fun h0 => h (UInt32.toNat.inj h0)
    simp only [if_neg h]
    omega

variable {p : Program} {settings : ModuleSettings}

theorem finish_module {memory : Memory} (h : tapeSize ≤ memory.size) (pointer : UInt32) :
    Host.finish (p.module settings) memory [pointer] =
      .ok ⟨pointer.toInt32, memory.bytes tapeSize⟩ := by
  have hk : ItemKind.func ≠ ItemKind.memory := by decide
  have he : Host.exported? (p.module settings) ItemKind.memory "memory" = some 0 := by
    rw [Host.exported?, module, List.find?_cons_of_neg (by simp [hk]),
      List.find?_cons_of_pos (by simp)]
    rfl
  rw [Host.finish, he]
  simp only [if_neg (Nat.not_lt.mpr h)]

/-- Running the bytes of a module is running the program. -/
theorem run_assemble (h : Fits p settings)
    (hn : settings.resolve.importModule ≠ Host.moduleName.toUTF8.toList) (console : Console)
    (steps : Nat) :
    let r := Host.run (p.assemble settings) settings.resolve.importModule steps console
    let o := WordMachine.run p steps (.fresh settings.resolve.memoryPages console)
    r.console = o.machine.console ∧ r.result = o.result := by
  intro r o
  obtain ⟨hm, hc, hres⟩ := invoke_main p (Host.freshMemory (p.module settings)) console steps
  change _ = o.machine.memory at hm
  change _ = o.machine.console at hc
  change _ = o.results at hres
  have hsize : tapeSize ≤ o.machine.memory.size := by
    have hp := pages_pos settings
    rw [WordMachine.size_run]
    show 65536 ≤ settings.resolve.memoryPages.toNat * 65536
    omega
  simp only [r, Host.run, prepare_assemble h hn, mainOf_module]
  generalize (linked [p.mainFunc]).invoke p.mainFunc steps
    { memory := Host.freshMemory (p.module settings), console } = x at hm hc hres
  obtain ⟨s, res⟩ := x
  simp only at hm hc hres
  rcases ht : o.fault with _ | t
  · rw [WordOutcome.results, ht] at hres
    rw [WordOutcome.result, ht, hres]
    exact ⟨hc, by simp only [hm, finish_module hsize]⟩
  · rw [WordOutcome.results, ht] at hres
    rw [WordOutcome.result, ht, hres]
    exact ⟨hc, rfl⟩

/-- A module that cannot be loaded gives no result of any run. -/
theorem run_of_load_error {bytes host : List UInt8} {e : LoadError}
    (h : Module.load bytes = .error e) (steps : Nat) (console : Console) :
    Host.run bytes host steps console = { console, result := .error (.load e) } := by
  simp only [Host.run, Host.prepare, h]
  rfl

theorem load_ne_result (e : LoadError) (o : WordOutcome) : .error (.load e) ≠ o.result := by
  intro same
  obtain ⟨t, -, trapped⟩ := (o.result_eq_error_iff _).mp same.symm
  cases trapped

/-- The bytes of a module whose parts fit are read back, linked, and give a `main` that does to any
memory and console what the program does. -/
theorem main_of_assemble_runs (p : Program) (settings : ModuleSettings) (h : Fits p settings) :
    ∃ m f, Module.load (p.assemble settings) = .ok m ∧
      m.funcs? = some [f] ∧
      m.imports.mapM (Host.link m settings.resolve.importModule) = .ok [.print, .read] ∧
      Host.mainOf m ⟨[.print, .read], [f]⟩ = .ok (2, f) ∧
      (∀ (memory : Memory) (console : Console) (steps : Nat),
        let r := Instance.invoke ⟨[.print, .read], [f]⟩ f steps { memory, console }
        let o := WordMachine.run p steps { memory, console }
        r.1.memory = o.machine.memory ∧ r.1.console = o.machine.console ∧ r.2 = o.results) ∧
      ∀ (console : Console) (steps : Nat),
        settings.resolve.importModule ≠ Host.moduleName.toUTF8.toList →
          let r := Host.run (p.assemble settings) settings.resolve.importModule steps console
          let o := WordMachine.run p steps (.fresh settings.resolve.memoryPages console)
          r.console = o.machine.console ∧ r.result = o.result :=
  ⟨p.module settings, p.mainFunc, load_assemble h, funcs?_module, link_imports, mainOf_module,
    invoke_main p, fun console steps hn => run_assemble h hn console steps⟩

/-- Prints what it reads until there is a zero, with cells on both sides of the pointer. -/
def echo : Program :=
  .move 3 (.cell 0 (.read 0) (.loop
    (.cell (-2) (.set 7) (.cell 0 (.print 0) (.cell 4 (.add (-1)) (.cell 0 (.read 0) .done))))
      .done))

theorem main_of_assemble_runs_echo :
    Fits echo {} ∧ ∀ (console : Console) (steps : Nat),
      let r := Host.run (echo.assemble {}) defaultImportModule steps console
      let o := WordMachine.run echo steps (.fresh 1 console)
      r.console = o.machine.console ∧ r.result = o.result := by
  have h : Fits echo {} :=
    { code := by decide +kernel, imports := by decide +kernel, name := ⟨"bfc", rfl⟩,
      pages := by decide }
  obtain ⟨m, f, -, -, -, -, -, hrun⟩ := main_of_assemble_runs echo {} h
  exact ⟨h, fun console steps => hrun console steps (by decide +kernel)⟩

/-- That the bytes of the function have a number of 32 bits is not enough: those of the section need
one too, as they do not here. And a memory of one page more than there can be is refused, whatever
the program. Where a module is not loaded, the run has no result that the program could have. -/
theorem assemble_not_loaded :
    let long := counting 330382096 5
    let short : Program := .cell 0 (.add 1) .done
    let settings : ModuleSettings := { memoryPages := 65537 }
    (long.mainBody.encode.length < 2 ^ 32 ∧
      Module.load (long.assemble {}) = .error (.malformed SectionId.code) ∧
      ∀ (console : Console) (steps : Nat),
        (Host.run (long.assemble {}) defaultImportModule steps console).result ≠
          (WordMachine.run long steps (.fresh 1 console)).result) ∧
    short.mainBody.encode.length < 2 ^ 32 ∧
      Module.load (short.assemble settings) = .error (.limits (.minTooLarge 65537)) ∧
      ∀ (console : Console) (steps : Nat),
        (Host.run (short.assemble settings) defaultImportModule steps console).result ≠
          (WordMachine.run short steps (.fresh 65537 console)).result := by
  intro long short settings
  have hshort : Module.load (short.assemble settings) = .error (.limits (.minTooLarge 65537)) :=
    load_of_maxPages_lt ⟨by decide +kernel, by decide +kernel⟩ ⟨"bfc", rfl⟩ (by decide)
  refine ⟨⟨length_encode_overflow_lt, load_counting, fun console steps => ?_⟩, by decide +kernel,
    hshort, fun console steps => ?_⟩
  · rw [run_of_load_error load_counting]
    exact load_ne_result _ _
  · rw [run_of_load_error hshort]
    exact load_ne_result _ _

end Program

end TapeLang
