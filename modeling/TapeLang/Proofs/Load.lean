import TapeLang.Proofs.Leb128
import TapeLang.Wasm.Load

/-!
# Reading back the sections of a module

The grammar of what a section holds, as relations between bytes and what they stand for. A length or
an index may be written in any of its forms (`Leb128.WritesUInt32`).

* `WritesSized`, `WritesVector`, `WritesFuncType`, ... : the grammar.
* `Reads read bytes x`: `read` makes `x` of `bytes`, whatever comes after them, and leaves that.
  `WritesSized.reads`, `WritesVector.reads`, ... : so it is with all bytes that follow the grammar.
* `writesSized_sized`, `writesVector_vector`, ... : what is written follows the grammar, if all
  lengths in it have 32 bits (`FuncType.Fits`, ...).
* `invertible_vector`: so what a section holds can be told from its payload. `typesOf?_typePayload`,
  `importsOf?_importPayload`, ... : it is read back from any payload shorter than 2^32 bytes.
* `expandRuns_localRuns`: the runs of a list of locals stand for the list.
-/

namespace TapeLang.Wasm

open Leb128 (WritesUInt32)

/-! ## Grammar -/

/-- The bytes are some others with their number in front. -/
inductive WritesSized : List UInt8 → List UInt8 → Prop where
  | intro {size bytes : List UInt8} (h : WritesUInt32 size bytes.length) :
    WritesSized (size ++ bytes) bytes

/-- The bytes are some items, one after another. -/
inductive WritesItems {α : Type} (Item : List UInt8 → α → Prop) : List UInt8 → List α → Prop where
  | nil : WritesItems Item [] []
  | cons {bytes items : List UInt8} {x : α} {xs : List α} (h : Item bytes x)
    (hs : WritesItems Item items xs) :
    WritesItems Item (bytes ++ items) (x :: xs)

/-- The bytes are a list: its length, and then its items. -/
inductive WritesVector {α : Type} (Item : List UInt8 → α → Prop) : List UInt8 → List α → Prop where
  | intro {count items : List UInt8} {xs : List α} (h : WritesUInt32 count xs.length)
    (hs : WritesItems Item items xs) : WritesVector Item (count ++ items) xs

inductive WritesFuncType : List UInt8 → FuncType → Prop where
  | intro {ps rs params results : List UInt8} (hp : WritesSized ps params)
    (hr : WritesSized rs results) :
    WritesFuncType (0x60 :: (ps ++ rs)) ⟨params, results⟩

inductive WritesFuncImport : List UInt8 → FuncImport → Prop where
  | intro {ms ns is module name : List UInt8} {index : UInt32} (hm : WritesSized ms module)
    (hn : WritesSized ns name) (hi : WritesUInt32 is index.toNat) :
    WritesFuncImport (ms ++ (ns ++ ItemKind.func :: is)) ⟨module, name, index⟩

inductive WritesLimits : List UInt8 → Limits → Prop where
  | unbounded {bytes : List UInt8} {min : UInt32} (h : WritesUInt32 bytes min.toNat) :
    WritesLimits (0x00 :: bytes) ⟨min, none⟩
  | bounded {ls us : List UInt8} {min max : UInt32} (hl : WritesUInt32 ls min.toNat)
    (hu : WritesUInt32 us max.toNat) : WritesLimits (0x01 :: (ls ++ us)) ⟨min, some max⟩

inductive WritesExport : List UInt8 → Export → Prop where
  | intro {ns is name : List UInt8} {index : UInt32} (hn : WritesSized ns name) (kind : ItemKind)
    (hi : WritesUInt32 is index.toNat) : WritesExport (ns ++ kind :: is) ⟨name, kind, index⟩

/-- The bytes are a run of locals: their number and their type. -/
inductive WritesLocalRun : List UInt8 → Nat × ValueType → Prop where
  | intro {count : List UInt8} {n : Nat} (h : WritesUInt32 count n) (t : ValueType) :
    WritesLocalRun (count ++ [t]) (n, t)

/-- The bytes are a function: the number of those that follow, its locals in runs, and its body.
There are fewer than 2^32 locals. -/
inductive WritesFuncBody : List UInt8 → FuncBody → Prop where
  | intro {bytes locals body : List UInt8} {runs : List (Nat × ValueType)}
    (h : WritesSized bytes (locals ++ body))
    (hruns : WritesVector WritesLocalRun locals runs) (few : (expandRuns runs).length < 2 ^ 32) :
    WritesFuncBody bytes ⟨expandRuns runs, body⟩

/-! ## Reading -/

/-- Reading makes `x` of `bytes`, whatever comes after them, and leaves that. -/
def Reads {α : Type} (read : Reader α) (bytes : List UInt8) (x : α) : Prop :=
  ∀ rest, read (bytes ++ rest) = some (x, rest)

theorem readWhole?_of_reads {α : Type} {read : Reader α} {bytes : List UInt8} {x : α}
    (h : Reads read bytes x) : readWhole? read bytes = some x := by
  have h' := h []
  rw [List.append_nil] at h'
  simp only [readWhole?, h']

/-- A byte that has to be a given one, and is. -/
theorem guard_self (b : UInt8) : (guard (b = b) : Option Unit) = some () := if_pos rfl

theorem toNat_toUInt32_of_lt {n : Nat} (h : n < 2 ^ 32) : n.toUInt32.toNat = n := by
  simpa using Nat.mod_eq_of_lt h

theorem reads_length {bytes : List UInt8} {n : Nat} (h : WritesUInt32 bytes n) :
    Reads readUInt32? bytes n.toUInt32 := by
  intro rest
  simp only [readUInt32?, h.readUInt32_eq]

theorem reads_uint32 {bytes : List UInt8} {n : UInt32} (h : WritesUInt32 bytes n.toNat) :
    Reads readUInt32? bytes n := by
  have := reads_length h
  rwa [Nat.toUInt32_eq, UInt32.ofNat_toNat] at this

theorem WritesSized.reads {bytes data : List UInt8} (h : WritesSized bytes data) :
    Reads readSized? bytes data := by
  obtain ⟨h⟩ := h
  intro rest
  have hn := reads_length h (data ++ rest)
  rw [← List.append_assoc] at hn
  simp only [readSized?, hn, toNat_toUInt32_of_lt h.lt]
  simp

section

variable {α : Type} {item : Reader α} {Item : List UInt8 → α → Prop}

theorem WritesItems.readItems?_eq (reads : ∀ {bytes x}, Item bytes x → Reads item bytes x)
    {items : List UInt8} {xs : List α} (h : WritesItems Item items xs) (before : List α)
    (rest : List UInt8) :
    readItems? item before xs.length (items ++ rest) = some (before.reverse ++ xs, rest) := by
  induction h generalizing before with
  | nil => simp [readItems?]
  | @cons bytes items x xs h _ ih =>
    have hx := reads h (items ++ rest)
    rw [List.length_cons, readItems?, List.append_assoc, hx]
    simp only
    rw [ih (x :: before)]
    simp

/-- A list is read if its items are. -/
theorem WritesVector.reads (reads : ∀ {bytes x}, Item bytes x → Reads item bytes x)
    {bytes : List UInt8} {xs : List α} (h : WritesVector Item bytes xs) :
    Reads (readVector? item) bytes xs := by
  cases h with
  | @intro count items _ h hs =>
    intro rest
    have hn := reads_length h (items ++ rest)
    rw [← List.append_assoc] at hn
    simp only [readVector?, hn, toNat_toUInt32_of_lt h.lt]
    exact hs.readItems?_eq reads [] rest

end

theorem WritesFuncType.reads {bytes : List UInt8} {t : FuncType} (h : WritesFuncType bytes t) :
    Reads readFuncType? bytes t := by
  obtain ⟨hp, hr⟩ := h
  intro rest
  rw [List.cons_append, List.append_assoc, readFuncType?]
  dsimp only [readByte?, Option.bind_eq_bind, Option.bind_some]
  rw [guard_self, hp.reads]
  dsimp only [Option.bind_some]
  rw [hr.reads]
  rfl

theorem WritesFuncImport.reads {bytes : List UInt8} {i : FuncImport}
    (h : WritesFuncImport bytes i) :
    Reads readFuncImport? bytes i := by
  obtain ⟨hm, hn, hi⟩ := h
  intro rest
  rw [List.append_assoc, List.append_assoc, List.cons_append, readFuncImport?, hm.reads]
  dsimp only [Option.bind_eq_bind, Option.bind_some]
  rw [hn.reads]
  dsimp only [Option.bind_some, readByte?]
  rw [guard_self, reads_uint32 hi]
  rfl

theorem WritesLimits.reads {bytes : List UInt8} {l : Limits} (h : WritesLimits bytes l) :
    Reads readLimits? bytes l := by
  intro rest
  cases h with
  | unbounded h =>
    rw [List.cons_append, readLimits?]
    dsimp only [Option.bind_eq_bind, Option.bind_some, readByte?]
    rw [reads_uint32 h]
    rfl
  | bounded hl hu =>
    rw [List.cons_append, List.append_assoc, readLimits?]
    dsimp only [Option.bind_eq_bind, Option.bind_some, readByte?]
    rw [reads_uint32 hl]
    dsimp only [Option.bind_some]
    rw [if_neg (by decide), guard_self, reads_uint32 hu]
    rfl

theorem WritesExport.reads {bytes : List UInt8} {e : Export} (h : WritesExport bytes e) :
    Reads readExport? bytes e := by
  obtain ⟨hn, kind, hi⟩ := h
  intro rest
  rw [List.append_assoc, List.cons_append, readExport?, hn.reads]
  dsimp only [Option.bind_eq_bind, Option.bind_some, readByte?]
  rw [reads_uint32 hi]
  rfl

theorem WritesLocalRun.reads {bytes : List UInt8} {r : Nat × ValueType}
    (h : WritesLocalRun bytes r) :
    Reads readLocalRun? bytes r := by
  obtain ⟨h, t⟩ := h
  intro rest
  rw [List.append_assoc, List.singleton_append, readLocalRun?, reads_length h]
  dsimp only [Option.bind_eq_bind, Option.bind_some, readByte?]
  rw [toNat_toUInt32_of_lt h.lt]
  rfl

theorem WritesFuncBody.reads {bytes : List UInt8} {f : FuncBody} (h : WritesFuncBody bytes f) :
    Reads readFuncBody? bytes f := by
  obtain ⟨h, hruns, -⟩ := h
  intro rest
  rw [readFuncBody?, h.reads]
  dsimp only [Option.bind_eq_bind, Option.bind_some]
  rw [hruns.reads WritesLocalRun.reads]
  rfl

/-! ## Writing

Lengths that have 32 bits do not wrap around. -/

def FuncType.Fits (t : FuncType) : Prop :=
  t.params.length < 2 ^ 32 ∧ t.results.length < 2 ^ 32

def FuncImport.Fits (i : FuncImport) : Prop :=
  i.module.length < 2 ^ 32 ∧ i.name.length < 2 ^ 32

def Export.Fits (e : Export) : Prop :=
  e.name.length < 2 ^ 32

/-- The locals, and the bytes that they are written in together with the body, have lengths of
32 bits. -/
def FuncBody.Fits (f : FuncBody) : Prop :=
  f.locals.length < 2 ^ 32 ∧ (localBytes f.locals ++ f.body).length < 2 ^ 32

theorem writesLength_of_lt {n : Nat} (h : n < 2 ^ 32) :
    WritesUInt32 (Leb128.ofUInt32 n.toUInt32) n := by
  have := Leb128.writesUInt32_ofUInt32 n.toUInt32
  rwa [toNat_toUInt32_of_lt h] at this

theorem writesSized_sized {bytes : List UInt8} (h : bytes.length < 2 ^ 32) :
    WritesSized (sized bytes) bytes :=
  .intro (writesLength_of_lt h)

section

variable {α : Type} {encode : α → List UInt8} {Item : List UInt8 → α → Prop} {xs : List α}

theorem writesItems_flatMap (h : ∀ x ∈ xs, Item (encode x) x) :
    WritesItems Item (xs.flatMap encode) xs := by
  induction xs with
  | nil => exact .nil
  | cons x xs ih =>
    obtain ⟨hx, h⟩ := List.forall_mem_cons.mp h
    exact .cons hx (ih h)

theorem writesVector_vector (hl : xs.length < 2 ^ 32) (h : ∀ x ∈ xs, Item (encode x) x) :
    WritesVector Item (vector encode xs) xs :=
  .intro (writesLength_of_lt hl) (writesItems_flatMap h)

end

theorem writesFuncType_encode {t : FuncType} (h : t.Fits) : WritesFuncType t.encode t :=
  .intro (writesSized_sized h.1) (writesSized_sized h.2)

theorem writesFuncImport_encode {i : FuncImport} (h : i.Fits) : WritesFuncImport i.encode i := by
  have form := WritesFuncImport.intro (writesSized_sized h.1) (writesSized_sized h.2)
    (Leb128.writesUInt32_ofUInt32 i.typeIndex)
  rwa [← List.append_assoc] at form

theorem writesLimits_encode (l : Limits) : WritesLimits l.encode l := by
  rcases l with ⟨min, _ | max⟩
  · exact .unbounded (Leb128.writesUInt32_ofUInt32 min)
  · exact .bounded (Leb128.writesUInt32_ofUInt32 min) (Leb128.writesUInt32_ofUInt32 max)

theorem writesExport_encode {e : Export} (h : e.Fits) : WritesExport e.encode e :=
  .intro (writesSized_sized h) e.kind (Leb128.writesUInt32_ofUInt32 e.index)

/-! ## Locals -/

/-- The runs of a list of locals stand for the list. -/
theorem expandRuns_localRuns (ts : List ValueType) : expandRuns (localRuns ts) = ts := by
  induction ts with
  | nil => rfl
  | cons t ts ih =>
    rw [localRuns]
    split
    · rename_i n t' runs h
      rw [h] at ih
      have hrep : List.replicate n t' ++ expandRuns runs = ts := ih
      split
      · rename_i ht
        subst ht
        show List.replicate (n + 1) t ++ expandRuns runs = t :: ts
        rw [List.replicate_succ, List.cons_append, hrep]
      · show t :: (List.replicate n t' ++ expandRuns runs) = t :: ts
        rw [hrep]
    · rename_i h
      rw [h] at ih
      rw [← ih]; rfl

/-- No run is longer than the list, and there are no more runs than locals. -/
theorem localRuns_le (ts : List ValueType) :
    (localRuns ts).length ≤ ts.length ∧ ∀ r ∈ localRuns ts, r.1 ≤ ts.length := by
  induction ts with
  | nil => simp [localRuns]
  | cons t ts ih =>
    obtain ⟨hl, hr⟩ := ih
    rw [localRuns]
    split
    · rename_i n t' runs h
      rw [h] at hl hr
      simp only [List.length_cons, List.mem_cons, forall_eq_or_imp] at hl hr ⊢
      split
      · refine ⟨by simp only [List.length_cons]; omega, ?_⟩
        intro r hmem
        rcases List.mem_cons.mp hmem with rfl | hmem
        · simp; omega
        · have := hr.2 r hmem; omega
      · refine ⟨by simp only [List.length_cons]; omega, ?_⟩
        intro r hmem
        rcases List.mem_cons.mp hmem with rfl | hmem
        · simp
        · rcases List.mem_cons.mp hmem with rfl | hmem
          · simp; omega
          · have := hr.2 r hmem; omega
    · simp

theorem writesLocals_localBytes {ts : List ValueType} (h : ts.length < 2 ^ 32) :
    WritesVector WritesLocalRun (localBytes ts) (localRuns ts) := by
  obtain ⟨few, short⟩ := localRuns_le ts
  refine writesVector_vector (Nat.lt_of_le_of_lt few h) fun r hr => ?_
  exact .intro (writesLength_of_lt (Nat.lt_of_le_of_lt (short r hr) h)) r.2

theorem writesFuncBody_encode {f : FuncBody} (h : f.Fits) : WritesFuncBody f.encode f := by
  have few : (expandRuns (localRuns f.locals)).length < 2 ^ 32 := by
    rw [expandRuns_localRuns]
    exact h.1
  have form := WritesFuncBody.intro (writesSized_sized h.2) (writesLocals_localBytes h.1) few
  rwa [expandRuns_localRuns] at form

/-! ## What a section holds -/

section

variable {α : Type} {item : Reader α} {encode : α → List UInt8} {Item : List UInt8 → α → Prop}
  {Fits : α → Prop} {xs : List α}

/-- The list has a length of 32 bits, and its items fit. -/
def AllFit (Fits : α → Prop) (xs : List α) : Prop :=
  xs.length < 2 ^ 32 ∧ ∀ x ∈ xs, Fits x

/-- A list that fits can be told from what is written of it: this stands for the list and no
other by the grammar, is read back as the list to its last byte, and is not what is written of
any other list. -/
structure Invertible (Item : List UInt8 → α → Prop) (read? : List UInt8 → Option (List α))
    (write : List α → List UInt8) (Fits : α → Prop) : Prop where
  writes_iff : ∀ {xs}, AllFit Fits xs → ∀ ys, WritesVector Item (write xs) ys ↔ ys = xs
  read_eq : ∀ {xs}, AllFit Fits xs → read? (write xs) = some xs
  inj : ∀ {xs ys}, AllFit Fits xs → AllFit Fits ys → write xs = write ys → xs = ys

theorem invertible_vector (reads : ∀ {bytes x}, Item bytes x → Reads item bytes x)
    (writes : ∀ {x}, Fits x → Item (encode x) x) :
    Invertible Item (readWhole? (readVector? item)) (vector encode) Fits := by
  have written {xs : List α} (h : AllFit Fits xs) : WritesVector Item (vector encode xs) xs :=
    writesVector_vector h.1 fun x hx => writes (h.2 x hx)
  have read {bytes : List UInt8} {xs : List α} (h : WritesVector Item bytes xs) :
      readWhole? (readVector? item) bytes = some xs :=
    readWhole?_of_reads (h.reads reads)
  refine ⟨fun {xs} h ys => ⟨fun form => ?_, ?_⟩, fun h => read (written h),
    fun {xs ys} hx hy same => ?_⟩
  · exact Option.some.inj ((read form).symm.trans (read (written h)))
  · rintro rfl
    exact written h
  · have both := read (written hx)
    rw [same, read (written hy)] at both
    exact (Option.some.inj both).symm

theorem length_le_length_vector {x : α} (h : x ∈ xs) :
    (encode x).length ≤ (vector encode xs).length := by
  obtain ⟨before, after, rfl⟩ := List.append_of_mem h
  simp only [vector, List.flatMap_append, List.flatMap_cons, List.length_append]
  omega

/-- A payload shorter than 2^32 bytes holds no length that wraps around, if no item of that
size does. -/
theorem allFit_of_length_vector (hb : (vector encode xs).length < 2 ^ 32)
    (hpos : ∀ x, encode x ≠ []) (h : ∀ x ∈ xs, (encode x).length < 2 ^ 32 → Fits x) :
    AllFit Fits xs := by
  have hl : xs.length ≤ (vector encode xs).length := by
    have : xs.length ≤ (xs.flatMap encode).length := Leb128.length_le_length_flatMap hpos
    rw [vector, List.length_append]
    omega
  refine ⟨Nat.lt_of_le_of_lt hl hb, fun x hx => ?_⟩
  exact h x hx (Nat.lt_of_le_of_lt (length_le_length_vector hx) hb)

end

theorem length_le_length_sized (bytes : List UInt8) : bytes.length ≤ (sized bytes).length := by
  rw [sized, List.length_append]
  omega

theorem invertible_typePayload : Invertible WritesFuncType typesOf? typePayload FuncType.Fits :=
  invertible_vector WritesFuncType.reads writesFuncType_encode

theorem typesOf?_typePayload {types : List FuncType} (h : (typePayload types).length < 2 ^ 32) :
    typesOf? (typePayload types) = some types := by
  refine invertible_typePayload.read_eq
    (allFit_of_length_vector h (by simp [FuncType.encode]) fun t _ ht => ?_)
  have hp := length_le_length_sized t.params
  have hr := length_le_length_sized t.results
  simp only [FuncType.encode, List.length_append, List.length_cons] at ht
  exact ⟨by omega, by omega⟩

theorem invertible_importPayload :
    Invertible WritesFuncImport importsOf? importPayload FuncImport.Fits :=
  invertible_vector WritesFuncImport.reads writesFuncImport_encode

theorem importsOf?_importPayload {imports : List FuncImport}
    (h : (importPayload imports).length < 2 ^ 32) :
    importsOf? (importPayload imports) = some imports := by
  refine invertible_importPayload.read_eq
    (allFit_of_length_vector h (by simp [FuncImport.encode]) fun i _ hi => ?_)
  have hm := length_le_length_sized i.module
  have hn := length_le_length_sized i.name
  simp only [FuncImport.encode, List.length_append] at hi
  exact ⟨by omega, by omega⟩

theorem invertible_functionPayload :
    Invertible (fun bytes n => WritesUInt32 bytes n.toNat) functionsOf? functionPayload fun _ =>
      True :=
  invertible_vector reads_uint32 fun _ => Leb128.writesUInt32_ofUInt32 _

theorem functionsOf?_functionPayload {typeIndices : List UInt32}
    (h : (functionPayload typeIndices).length < 2 ^ 32) :
    functionsOf? (functionPayload typeIndices) = some typeIndices :=
  invertible_functionPayload.read_eq
    (allFit_of_length_vector h Leb128.ofUInt32_ne_nil fun _ _ _ => trivial)

theorem invertible_memoryPayload :
    Invertible WritesLimits memoriesOf? memoryPayload fun _ => True :=
  invertible_vector WritesLimits.reads fun _ => writesLimits_encode _

theorem memoriesOf?_memoryPayload {memories : List Limits}
    (h : (memoryPayload memories).length < 2 ^ 32) :
    memoriesOf? (memoryPayload memories) = some memories := by
  refine invertible_memoryPayload.read_eq
    (allFit_of_length_vector h (fun l => ?_) fun _ _ _ => trivial)
  rcases l with ⟨_, _ | _⟩ <;> simp [Limits.encode]

theorem invertible_exportPayload : Invertible WritesExport exportsOf? exportPayload Export.Fits :=
  invertible_vector WritesExport.reads writesExport_encode

theorem exportsOf?_exportPayload {exports : List Export}
    (h : (exportPayload exports).length < 2 ^ 32) :
    exportsOf? (exportPayload exports) = some exports := by
  refine invertible_exportPayload.read_eq
    (allFit_of_length_vector h (by simp [Export.encode]) fun e _ he => ?_)
  have hn := length_le_length_sized e.name
  simp only [Export.encode, List.length_append] at he
  show e.name.length < 2 ^ 32
  omega

theorem invertible_codePayload : Invertible WritesFuncBody bodiesOf? codePayload FuncBody.Fits :=
  invertible_vector WritesFuncBody.reads writesFuncBody_encode

-- A run of locals takes few bytes however long it is, so the payload does not bound the locals.
theorem bodiesOf?_codePayload {bodies : List FuncBody} (hl : ∀ f ∈ bodies, f.locals.length < 2 ^ 32)
    (h : (codePayload bodies).length < 2 ^ 32) : bodiesOf? (codePayload bodies) = some bodies := by
  refine invertible_codePayload.read_eq (allFit_of_length_vector h ?_ fun f hf h' => ⟨hl f hf, ?_⟩)
  · simp [FuncBody.encode, sized, lengthBytes, Leb128.ofUInt32_ne_nil]
  · exact Nat.lt_of_le_of_lt (length_le_length_sized _) h'

/-- What any section holds can be told from its payload, if all lengths in it have 32 bits: by the
grammar the payload stands for the list that it was made from and for no other, it is read back to
its last byte, and no other list has the same payload. -/
theorem payloads_are_invertible :
    Invertible WritesFuncType typesOf? typePayload FuncType.Fits ∧
    Invertible WritesFuncImport importsOf? importPayload FuncImport.Fits ∧
    Invertible (fun bytes n => WritesUInt32 bytes n.toNat) functionsOf? functionPayload
      (fun _ => True) ∧
    Invertible WritesLimits memoriesOf? memoryPayload (fun _ => True) ∧
    Invertible WritesExport exportsOf? exportPayload Export.Fits ∧
    Invertible WritesFuncBody bodiesOf? codePayload FuncBody.Fits :=
  ⟨invertible_typePayload, invertible_importPayload, invertible_functionPayload,
    invertible_memoryPayload, invertible_exportPayload, invertible_codePayload⟩

theorem payloads_are_invertible_runs :
    let bodies : List FuncBody := [⟨[0x7f, 0x7f, 0x7e], [0x0b]⟩, ⟨[], [0x41, 0x00, 0x0b]⟩]
    AllFit FuncBody.Fits bodies ∧ bodiesOf? (codePayload bodies) = some bodies := by
  intro bodies
  have fits : AllFit FuncBody.Fits bodies := by
    refine ⟨by decide, fun f hf => ?_⟩
    simp only [bodies, List.mem_cons, List.not_mem_nil, or_false] at hf
    rcases hf with rfl | rfl <;> exact ⟨by decide, by decide +kernel⟩
  exact ⟨fits, payloads_are_invertible.2.2.2.2.2.read_eq fits⟩

end TapeLang.Wasm
