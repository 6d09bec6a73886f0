import TapeLang.Proofs.Grammar

/-!
# Writing and splitting modules

A module keeps of its sections what each number holds, in order, and nothing else: not the order of
the numbers.

* `payloads id sections`: what the sections with one number hold, in order.
* `payloads_mergeSort`: sorting keeps it, since it moves no section past one with its own number.
* `eq_of_payloads_eq`: it determines sections in ascending order. So sections that agree in it make
  the same module (`encodeModule_congr`).
-/

namespace TapeLang.Wasm

/-- What the sections with number `id` hold, in the order that they are in. -/
def payloads (id : SectionId) (sections : List Section) : List (List UInt8) :=
  (sections.filter (·.id = id)).map (·.payload)

@[simp]
theorem payloads_nil (id : SectionId) : payloads id [] = [] := rfl

theorem payloads_cons_self (s : Section) (sections : List Section) :
    payloads s.id (s :: sections) = s.payload :: payloads s.id sections := by
  simp [payloads]

theorem payloads_cons_of_ne {id : SectionId} {s : Section} (h : s.id ≠ id)
    (sections : List Section) :
    payloads id (s :: sections) = payloads id sections := by
  simp [payloads, h]

theorem exists_mem_of_payloads_ne_nil {id : SectionId} {sections : List Section}
    (h : payloads id sections ≠ []) : ∃ s ∈ sections, s.id = id := by
  simpa [payloads] using h

/-! ## Ascending order -/

theorem id_le_trans (a b c : Section) (hab : decide (a.id ≤ b.id) = true)
    (hbc : decide (b.id ≤ c.id) = true) : decide (a.id ≤ c.id) = true := by
  simp only [decide_eq_true_eq] at hab hbc ⊢
  exact UInt8.le_trans hab hbc

theorem id_le_total (a b : Section) : (decide (a.id ≤ b.id) || decide (b.id ≤ a.id)) = true := by
  simpa using UInt8.le_total a.id b.id

theorem ascending_mergeSort (sections : List Section) :
    (sections.mergeSort fun a b => a.id ≤ b.id).Pairwise fun a b => a.id ≤ b.id := by
  have sorted := List.pairwise_mergeSort id_le_trans id_le_total sections
  simpa using sorted

/-- Sorting moves no section past another with its number. -/
theorem payloads_mergeSort (id : SectionId) (sections : List Section) :
    payloads id (sections.mergeSort fun a b => a.id ≤ b.id) = payloads id sections := by
  have level : (sections.filter (·.id = id)).Pairwise fun a b => decide (a.id ≤ b.id) = true := by
    apply List.pairwise_of_forall_mem_list
    intro a ha b hb
    rw [List.mem_filter, decide_eq_true_eq] at ha hb
    rw [decide_eq_true_eq, ha.2, hb.2]
    exact UInt8.le_refl id
  have kept :=
    (List.sublist_mergeSort id_le_trans id_le_total level List.filter_sublist).filter (·.id = id)
  rw [List.filter_filter] at kept
  simp only [Bool.and_self] at kept
  have perm := (List.mergeSort_perm sections fun a b => a.id ≤ b.id).filter (·.id = id)
  rw [payloads, payloads, kept.eq_of_length perm.length_eq.symm]

/-- The first section of an ascending list has the least number. -/
theorem head_id_le {id : SectionId} {s : Section} {sections : List Section}
    (hs : (s :: sections).Pairwise fun a b => a.id ≤ b.id) (h : payloads id (s :: sections) ≠ []) :
    s.id ≤ id := by
  obtain ⟨t, ht, rfl⟩ := exists_mem_of_payloads_ne_nil h
  rcases List.mem_cons.mp ht with rfl | ht
  · exact UInt8.le_refl _
  · exact List.rel_of_pairwise_cons hs ht

/-- Sections in ascending order are determined by what each number holds. -/
theorem eq_of_payloads_eq {a b : List Section} (ha : a.Pairwise fun s t => s.id ≤ t.id)
    (hb : b.Pairwise fun s t => s.id ≤ t.id) (h : ∀ id, payloads id a = payloads id b) : a = b := by
  induction a generalizing b with
  | nil =>
    cases b with
    | nil => rfl
    | cons t b =>
      have ht := h t.id
      rw [payloads_cons_self] at ht
      simp at ht
  | cons s a ih =>
    cases b with
    | nil =>
      have hs := h s.id
      rw [payloads_cons_self] at hs
      simp at hs
    | cons t b =>
      have hid : s.id = t.id := by
        apply UInt8.le_antisymm
        · exact head_id_le ha (by rw [h, payloads_cons_self]; simp)
        · exact head_id_le hb (by rw [← h, payloads_cons_self]; simp)
      have hfirst := h s.id
      rw [payloads_cons_self, hid, payloads_cons_self, List.cons.injEq] at hfirst
      obtain ⟨hpayload, hrest⟩ := hfirst
      have hst : s = t := by
        cases s; cases t
        simp_all
      subst hst
      rw [ih ha.of_cons hb.of_cons]
      intro id
      by_cases hne : s.id = id
      · rw [← hne]; exact hrest
      · have := h id
        rwa [payloads_cons_of_ne hne, payloads_cons_of_ne hne] at this

/-- Sections that agree in what each number holds make the same module. -/
theorem encodeModule_congr {a b : List Section} (h : ∀ id, payloads id a = payloads id b) :
    encodeModule a = encodeModule b := by
  have sorted : (a.mergeSort fun s t => s.id ≤ t.id) = b.mergeSort fun s t => s.id ≤ t.id := by
    apply eq_of_payloads_eq (ascending_mergeSort a) (ascending_mergeSort b)
    intro id
    rw [payloads_mergeSort, payloads_mergeSort, h]
  rw [encodeModule, encodeModule, sorted]

/-! ## Splitting what was written -/

/-- Sections of any numbers and in any order, each shorter than 2^32 bytes, are written to a module
that splits into just these sections: each of them once and unchanged, in ascending order of their
numbers, and those with one number in the order that they were in. And a module does not depend on
the order of its sections beyond that. -/
theorem splitSections_of_encodeModule (sections others : List Section) :
    ((∀ s ∈ sections, s.payload.length < 2 ^ 32) →
      ∃ split, splitSections (encodeModule sections) = .ok split ∧
        split.Perm sections ∧
        (split.Pairwise fun a b => a.id ≤ b.id) ∧
        ∀ id, payloads id split = payloads id sections) ∧
    ((∀ id, payloads id others = payloads id sections) →
      encodeModule others = encodeModule sections) := by
  refine ⟨fun h => ?_, encodeModule_congr⟩
  exact ⟨_, splitSections_mergeSort h, List.mergeSort_perm _ _, ascending_mergeSort sections,
    fun id => payloads_mergeSort id sections⟩

/-- Two sections with one number around one with a lesser number, and an order with that one
in front. -/
theorem splitSections_of_encodeModule_swapped :
    (∃ split, splitSections (encodeModule [⟨10, [0x0a]⟩, ⟨0, []⟩, ⟨10, [0x00, 0x0a]⟩]) = .ok split ∧
      payloads 10 split = [[0x0a], [0x00, 0x0a]]) ∧
    encodeModule [⟨0, []⟩, ⟨10, [0x0a]⟩, ⟨10, [0x00, 0x0a]⟩] =
      encodeModule [⟨10, [0x0a]⟩, ⟨0, []⟩, ⟨10, [0x00, 0x0a]⟩] := by
  obtain ⟨reading, writing⟩ := splitSections_of_encodeModule
    [⟨10, [0x0a]⟩, ⟨0, []⟩, ⟨10, [0x00, 0x0a]⟩] [⟨0, []⟩, ⟨10, [0x0a]⟩, ⟨10, [0x00, 0x0a]⟩]
  obtain ⟨split, hsplit, -, -, hpayloads⟩ := reading (by simp)
  refine ⟨⟨split, hsplit, hpayloads 10⟩, writing fun id => ?_⟩
  by_cases h : (10 : SectionId) = id
  · subst h; rfl
  · simp [payloads, List.filter_cons, h]

end TapeLang.Wasm
