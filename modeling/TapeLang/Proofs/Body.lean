import Mathlib.Data.List.Chain
import TapeLang.Proofs.Instr
import TapeLang.Wasm.Body

/-!
# Writing function bodies

A function is written by calls, each of which adds an instruction or declares a local.

* `written`: what some calls write. `body_written` and `locals_written`: the instructions and the
  locals, each in the order of the calls.
* `written_body_is_uniquely_decodable`: the instructions can be told from the bytes, and nothing
  else can be read there.
* `GroupsAs`: a list in runs that are as long as they can be. `groupsAs_iff`: there is one way to do
  this, and it is how locals are grouped.
* `locals_are_grouped`: the bytes of the locals of a function are those of its runs, and the local
  with a handle has the type that was declared for it.
-/

namespace TapeLang.Wasm

/-! ## Calls -/

namespace FuncBody

/-- What can be asked of a function that is being written. -/
inductive Call where
  | push (i : Instr)
  | declareLocal (t : ValueType)
  deriving DecidableEq, Repr

/-- The function after a call. -/
def after (f : FuncBody) : Call → FuncBody
  | .push i => f.push i
  | .declareLocal t => f.declareLocal t

/-- The function that some calls write, one after another. -/
def written (calls : List Call) : FuncBody :=
  calls.foldl after empty

def Call.instr? : Call → Option Instr
  | push i => some i
  | declareLocal _ => none

def Call.local? : Call → Option ValueType
  | push _ => none
  | declareLocal t => some t

theorem body_foldl_after (f : FuncBody) (calls : List Call) :
    (calls.foldl after f).body = f.body ++ Instr.encodeAll (calls.filterMap Call.instr?) := by
  induction calls generalizing f with
  | nil => simp [Instr.encodeAll]
  | cons call calls ih =>
    rw [List.foldl_cons, ih]
    cases call with
    | push i => exact List.append_assoc f.body i.encode _
    | declareLocal t => rfl

theorem locals_foldl_after (f : FuncBody) (calls : List Call) :
    (calls.foldl after f).locals = f.locals ++ calls.filterMap Call.local? := by
  induction calls generalizing f with
  | nil => simp
  | cons call calls ih =>
    rw [List.foldl_cons, ih]
    cases call with
    | push i => rfl
    | declareLocal t => exact List.append_assoc f.locals [t] _

/-- The body is the instructions in a row, whatever locals are declared between them. -/
theorem body_written (calls : List Call) :
    (written calls).body = Instr.encodeAll (calls.filterMap Call.instr?) :=
  body_foldl_after empty calls

theorem locals_written (calls : List Call) : (written calls).locals = calls.filterMap Call.local? :=
  locals_foldl_after empty calls

/-- A local stands at its handle. -/
theorem locals_written_append (before : List Call) (t : ValueType) (later : List Call) :
    (written (before ++ .declareLocal t :: later)).locals =
      (written before).locals ++ t :: later.filterMap Call.local? := by
  simp [locals_written, Call.local?]

end FuncBody

/-! ## Instructions -/

open FuncBody

/-- The instructions of a function can be told from its bytes. Whatever calls write it, with locals
declared between the instructions or not, its body is split into just the instructions of these
calls, with no byte left over. And by the grammar, in which a number may have forms that are longer
than needed, the body is these instructions and no others. -/
theorem written_body_is_uniquely_decodable (calls : List Call) :
    Instr.readAll? (written calls).body = some (calls.filterMap Call.instr?) ∧
    ∀ is, WritesItems WritesInstr (written calls).body is ↔ is = calls.filterMap Call.instr? := by
  have read : Instr.readAll? (written calls).body = some (calls.filterMap Call.instr?) := by
    rw [body_written]
    exact Instr.readAll?_encodeAll _
  refine ⟨read, fun is => ?_⟩
  rw [← Instr.readAll?_eq_some_iff, read, Option.some.injEq]
  exact eq_comm

-- Operands whose bytes are opcodes: a constant that is written as the end of a block, and an index
-- as a call.
example :
    (written [.push (.op (.const 0x0b)), .push .block, .declareLocal 0x7f,
      .push (.op (.localGet 0x10)), .push .close]).body =
        [0x41, 0x0b, 0x02, 0x40, 0x20, 0x10, 0x0b] := by
  decide +kernel

/-! ## Locals -/

/-- The runs stand for the list, and are as long as they can be: none is empty, and neighbours have
different types. -/
structure GroupsAs (runs : List (Nat × ValueType)) (ts : List ValueType) : Prop where
  expands : expandRuns runs = ts
  pos : ∀ r ∈ runs, 1 ≤ r.1
  differ : runs.IsChain fun r s => r.2 ≠ s.2

theorem expandRuns_cons (n : Nat) (t : ValueType) (runs : List (Nat × ValueType)) :
    expandRuns ((n, t) :: runs) = List.replicate n t ++ expandRuns runs := rfl

/-- One more local either joins the first run or is a run of its own. -/
theorem localRuns_cons_cases (t : ValueType) (ts : List ValueType) :
    (∃ n runs, localRuns ts = (n, t) :: runs ∧ localRuns (t :: ts) = (n + 1, t) :: runs) ∨
    ((∀ r ∈ (localRuns ts).head?, t ≠ r.2) ∧ localRuns (t :: ts) = (1, t) :: localRuns ts) := by
  rw [localRuns]
  rcases localRuns ts with _ | ⟨⟨n, u⟩, runs⟩
  · right
    simp
  · by_cases same : t = u
    · left
      subst same
      exact ⟨n, runs, rfl, if_pos rfl⟩
    · right
      simp [same]

theorem groupsAs_localRuns (ts : List ValueType) : GroupsAs (localRuns ts) ts := by
  refine ⟨expandRuns_localRuns ts, ?_, ?_⟩
  · induction ts with
    | nil => simp [localRuns]
    | cons t ts ih =>
      rcases localRuns_cons_cases t ts with ⟨n, runs, first, joined⟩ | ⟨-, apart⟩
      · rw [first] at ih
        rw [joined]
        exact List.forall_mem_cons.mpr ⟨Nat.le_add_left 1 n, (List.forall_mem_cons.mp ih).2⟩
      · rw [apart]
        exact List.forall_mem_cons.mpr ⟨Nat.le_refl 1, ih⟩
  · induction ts with
    | nil => exact .nil
    | cons t ts ih =>
      rcases localRuns_cons_cases t ts with ⟨n, runs, first, joined⟩ | ⟨differs, apart⟩
      · -- The first run has another length now, but the type that it had.
        rw [first, List.isChain_cons] at ih
        rw [joined, List.isChain_cons]
        exact ih
      · rw [apart, List.isChain_cons]
        exact ⟨differs, ih⟩

/-- Locals of one type are one run, if the next local has another type. -/
theorem localRuns_replicate_append {t : ValueType} {ts : List ValueType}
    (h : ∀ r ∈ (localRuns ts).head?, t ≠ r.2) (n : Nat) :
    localRuns (List.replicate (n + 1) t ++ ts) = (n + 1, t) :: localRuns ts := by
  induction n with
  | zero =>
    rcases localRuns_cons_cases t ts with ⟨k, runs, first, -⟩ | ⟨-, apart⟩
    · exact absurd rfl (h (k, t) (by rw [first]; rfl))
    · exact apart
  | succ n ih =>
    rw [List.replicate_succ, List.cons_append, localRuns, ih]
    exact if_pos rfl

/-- Runs that are as long as they can be are found again. -/
theorem localRuns_expandRuns {runs : List (Nat × ValueType)} (pos : ∀ r ∈ runs, 1 ≤ r.1)
    (differ : runs.IsChain fun r s => r.2 ≠ s.2) : localRuns (expandRuns runs) = runs := by
  induction runs with
  | nil => rfl
  | cons r runs ih =>
    obtain ⟨n, t⟩ := r
    obtain ⟨hn, pos⟩ := List.forall_mem_cons.mp pos
    obtain ⟨next, differ⟩ := List.isChain_cons.mp differ
    have ih := ih pos differ
    obtain ⟨n, rfl⟩ : ∃ k, n = k + 1 := ⟨n - 1, by simp only at hn; omega⟩
    rw [expandRuns_cons, localRuns_replicate_append (by rw [ih]; exact next), ih]

/-- There is one way to group a list in runs that are as long as they can be. -/
theorem groupsAs_iff {runs : List (Nat × ValueType)} {ts : List ValueType} :
    GroupsAs runs ts ↔ runs = localRuns ts := by
  constructor
  · rintro ⟨rfl, pos, differ⟩
    exact (localRuns_expandRuns pos differ).symm
  · rintro rfl
    exact groupsAs_localRuns ts

/-- No number that is written for the locals wraps around. -/
theorem localBytes_eq {ts : List ValueType} (h : ts.length < 2 ^ 32) :
    localBytes ts = Leb128.encodeUnsigned (localRuns ts).length ++
      (localRuns ts).flatMap fun r => Leb128.encodeUnsigned r.1 ++ [r.2] := by
  obtain ⟨few, short⟩ := localRuns_le ts
  have number {n : Nat} (hn : n ≤ ts.length) :
      Leb128.ofUInt32 n.toUInt32 = Leb128.encodeUnsigned n := by
    rw [Leb128.ofUInt32, toNat_toUInt32_of_lt (Nat.lt_of_le_of_lt hn h)]
  have runs : (localRuns ts).flatMap (fun r => Leb128.ofUInt32 r.1.toUInt32 ++ [r.2]) =
      (localRuns ts).flatMap fun r => Leb128.encodeUnsigned r.1 ++ [r.2] :=
    List.flatMap_congr fun r hr => by rw [number (short r hr)]
  rw [← runs, ← number few]
  rfl

/-- The locals of a function are grouped in runs that are as long as they can be, and none is lost.
There is one such list of runs. The bytes are the number of its runs, and then the length of each
one and the byte of its type; lengths and the number are in their shortest form. Reading gives the
runs back and leaves what follows, and expanding them gives the locals. So a local of the function
has the type that was declared when its number was given out as a handle, whatever calls come before
and after that. -/
theorem locals_are_grouped (ts : List ValueType) (h : ts.length < 2 ^ 32) :
    ∃ runs : List (Nat × ValueType),
      (∀ other, GroupsAs other ts ↔ other = runs) ∧
      localBytes ts =
        Leb128.encodeUnsigned runs.length ++
          runs.flatMap (fun r => Leb128.encodeUnsigned r.1 ++ [r.2]) ∧
      (∀ body, readVector? readLocalRun? (localBytes ts ++ body) = some (runs, body)) ∧
      ∀ before t later, (written (before ++ .declareLocal t :: later)).locals = ts →
        (expandRuns runs)[(written before).nextHandle.toNat]? = some t := by
  refine ⟨localRuns ts, fun other => groupsAs_iff, localBytes_eq h, ?_, ?_⟩
  · exact (writesLocals_localBytes h).reads WritesLocalRun.reads
  · rintro before t later rfl
    rw [locals_written_append] at h ⊢
    have handle : (written before).nextHandle.toNat = (written before).locals.length := by
      apply toNat_toUInt32_of_lt
      rw [List.length_append] at h
      omega
    rw [handle, expandRuns_localRuns, List.getElem?_append_right (Nat.le_refl _), Nat.sub_self]
    rfl

/-- Three locals of one type and one of another, which is declared after an instruction and has the
handle 2. -/
theorem locals_are_grouped_mixed :
    let ts : List ValueType := [0x7f, 0x7f, 0x7e, 0x7f]
    let runs : List (Nat × ValueType) := [(2, 0x7f), (1, 0x7e), (1, 0x7f)]
    let before : List Call := [.declareLocal 0x7f, .declareLocal 0x7f, .push .block]
    ts.length < 2 ^ 32 ∧ GroupsAs runs ts ∧
      readVector? readLocalRun? (localBytes ts ++ [0x0b]) = some (runs, [0x0b]) ∧
      (written before).nextHandle = 2 ∧ (expandRuns runs)[(written before).nextHandle.toNat]? =
        some 0x7e := by
  intro ts runs before
  have few : ts.length < 2 ^ 32 := by decide
  have groups : GroupsAs runs ts := ⟨rfl, by decide, by decide⟩
  obtain ⟨found, only, -, read, keeps⟩ := locals_are_grouped ts few
  obtain rfl : runs = found := (only runs).mp groups
  exact ⟨few, groups, read [0x0b], rfl, keeps before 0x7e [.declareLocal 0x7f] rfl⟩

end TapeLang.Wasm
