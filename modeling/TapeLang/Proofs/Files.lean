import Mathlib.Data.List.Basic
import TapeLang.Files

/-!
# Paths and trees

What following a path comes to, and what writing a file changes.

* `Path.names_append`, `Path.names_intercalate`: the names on a path and how paths are put together.
* `FileTree.walk_cons_iff`: what one name on a path does. `FileTree.walk_reduceOnto`: leaving out
  names that lead nowhere does not change where a path leads.
* `FileTree.get?_set`: writing a file changes one place. `FileTree.find_set`: the path that was
  written leads to it afterwards.
* `FileTree.findNew_join`: the path of a name inside a directory leads to that name in
  that directory.
-/

namespace TapeLang

namespace Path

/-- A name that is that of an entry, and not a way to say where to go. -/
def IsOrdinary (n : String) : Prop :=
  n ≠ "" ∧ n ≠ "." ∧ n ≠ ".."

/-! ## Names -/

theorem names_append (a b : String) : names (a ++ "/" ++ b) = names a ++ names b := by
  have chars : (a ++ "/" ++ b).toList = a.toList ++ '/' :: b.toList := by simp
  rw [names, chars, List.splitOn_append_cons_self, List.map_append, names, names]

theorem names_of_noSlash {n : String} (h : '/' ∉ n.toList) : names n = [n] := by
  rw [names, List.splitOn_eq_singleton h, List.map_singleton, String.ofList_toList]

theorem noSlash_of_mem_splitOn {cs piece : List Char} (h : piece ∈ cs.splitOn '/') :
    '/' ∉ piece := by
  induction hk : cs.length using Nat.strongRecOn generalizing cs with
  | ind k ih =>
    by_cases mem : '/' ∈ cs
    · -- The characters up to the first slash are one piece, and the others are those of the rest.
      obtain ⟨first, rest, rfl, apart⟩ := List.eq_append_cons_of_mem mem
      rw [List.splitOn_append_cons_self_of_not_mem apart] at h
      rcases List.mem_cons.1 h with rfl | later
      · exact apart
      · exact ih rest.length (by simp at hk; omega) later rfl
    · rw [List.splitOn_eq_singleton mem] at h
      rwa [List.mem_singleton.1 h]

theorem noSlash_of_mem_names {path n : String} (h : n ∈ names path) : '/' ∉ n.toList := by
  obtain ⟨piece, mem, rfl⟩ := List.mem_map.1 h
  rw [String.toList_ofList]
  exact noSlash_of_mem_splitOn mem

theorem names_intercalate {ns : List String} (ne : ns ≠ []) (h : ∀ n ∈ ns, '/' ∉ n.toList) :
    names ("/".intercalate ns) = ns := by
  have apart : ∀ l ∈ ns.map String.toList, '/' ∉ l := List.forall_mem_map.2 h
  have back : String.ofList ∘ String.toList = id := by
    funext s
    exact String.ofList_toList
  have slash : "/".toList = ['/'] := rfl
  rw [names, String.toList_intercalate, slash,
    List.splitOn_intercalate '/' apart (by simpa using ne), List.map_map, back, List.map_id]

section Reduce

variable {n : String} (rooted : Bool) (kept rest : List String)

theorem reduceOnto_skip (h : n = "" ∨ n = ".") :
    reduceOnto rooted kept (n :: rest) = reduceOnto rooted kept rest := by
  rw [reduceOnto.eq_def]
  simp only [if_pos h]

theorem reduceOnto_ordinary (h : IsOrdinary n) :
    reduceOnto rooted kept (n :: rest) = reduceOnto rooted (n :: kept) rest := by
  obtain ⟨empty, here, up⟩ := h
  rw [reduceOnto.eq_def]
  simp [empty, here, up]

/-- Leaving out names adds none. -/
theorem mem_reduceOnto {rooted : Bool} {kept ns : List String} (h : n ∈ reduceOnto rooted kept ns) :
    n ∈ kept ∨ n ∈ ns := by
  fun_induction reduceOnto rooted kept ns with
  | case1 kept => exact .inl (List.mem_reverse.1 h)
  | case2 kept m rest skipped ih => exact (ih h).imp_right (List.mem_cons_of_mem m)
  | case3 | case4 | case5 | case6 => grind

/-- An ordinary name at the end stays. -/
theorem reduceOnto_concat (h : IsOrdinary n) (ns : List String) :
    reduceOnto rooted kept (ns ++ [n]) = reduceOnto rooted kept ns ++ [n] := by
  fun_induction reduceOnto rooted kept ns with
  | case1 kept => simp [reduceOnto_ordinary rooted kept [] h, reduceOnto]
  | case2 kept m rest skip ih => rw [List.cons_append, reduceOnto_skip rooted kept _ skip, ih]
  | case3 rest | case4 rest | case5 rest => simp_all [reduceOnto]
  | case6 kept m rest skip up ih =>
    have ordinary : IsOrdinary m := ⟨fun e => skip (.inl e), fun e => skip (.inr e), up⟩
    rw [List.cons_append, reduceOnto_ordinary rooted kept _ ordinary, ih]

/-- No name that is kept is empty. -/
theorem ne_empty_of_mem_reduceOnto {rooted : Bool} {kept ns : List String} (real : "" ∉ kept) :
    "" ∉ reduceOnto rooted kept ns := by
  fun_induction reduceOnto rooted kept ns with
  | case1 | case2 | case3 | case4 | case5 | case6 => grind

end Reduce

/-! ## Putting paths together -/

theorem names_ne_nil (path : String) : names path ≠ [] := by
  simp [names, List.splitOn_ne_nil]

theorem names_of_startsWith {path : String} (h : path.startsWith "/" = true) :
    ∃ rest, path = "/" ++ rest ∧ names path = "" :: names rest := by
  obtain ⟨rest, chars⟩ := String.startsWith_string_iff.1 h
  have eq : path = "/" ++ String.ofList rest := String.toList_injective (by simpa using chars.symm)
  refine ⟨String.ofList rest, eq, ?_⟩
  rw [eq]
  exact names_append "" (String.ofList rest)

theorem startsWith_append_slash {directory : String} (ne : directory ≠ "") (n : String) :
    (directory ++ "/" ++ n).startsWith "/" = directory.startsWith "/" := by
  have slash : "/".toList = ['/'] := rfl
  rw [Bool.eq_iff_iff, String.startsWith_string_iff, String.startsWith_string_iff, slash,
    String.append_assoc, String.toList_append]
  cases chars : directory.toList with
  | nil => exact absurd (String.toList_injective chars) ne
  | cons c cs => simp [List.cons_prefix_cons]

/-- The names on the path of a name inside a directory: those of the directory that lead somewhere,
and the name. -/
theorem names_join {directory n : String} (ne : directory ≠ "") (ordinary : IsOrdinary n)
    (plain : '/' ∉ n.toList) :
    (join directory n).startsWith "/" = directory.startsWith "/" ∧
      names (join directory n) = ((if directory.startsWith "/" then [""] else []) ++
        reduceOnto (directory.startsWith "/") [] (names directory)) ++ [n] := by
  let kept := reduceOnto (directory.startsWith "/") [] (names directory)
  have reduced :
      reduceOnto (directory.startsWith "/") [] (names (directory ++ "/" ++ n)) = kept ++ [n] := by
    rw [names_append, names_of_noSlash plain, reduceOnto_concat _ _ ordinary]
  have noSlash : ∀ m ∈ kept ++ [n], '/' ∉ m.toList := by
    intro m mem
    rcases List.mem_append.1 mem with mem | mem
    · exact noSlash_of_mem_names ((mem_reduceOnto mem).resolve_left List.not_mem_nil)
    · exact List.mem_singleton.1 mem ▸ plain
  have real : "" ∉ kept ++ [n] := by
    simpa [ordinary.1.symm] using ne_empty_of_mem_reduceOnto List.not_mem_nil
  have back : names ("/".intercalate (kept ++ [n])) = kept ++ [n] :=
    names_intercalate (by simp) noSlash
  rw [join, clean]
  simp only [startsWith_append_slash ne, reduced]
  by_cases rooted : directory.startsWith "/" = true
  · simp only [if_pos rooted, List.append_assoc]
    refine ⟨?_, ?_⟩
    · rw [rooted, String.startsWith_string_iff, String.toList_append]
      exact List.prefix_append _ _
    · exact (names_append "" _).trans (congrArg _ back)
  · have nonempty : "/".intercalate (kept ++ [n]) ≠ "" := by
      intro empty
      rw [empty] at back
      exact real (back ▸ List.mem_singleton_self "")
    simp only [if_neg rooted, if_neg nonempty]
    refine ⟨?_, back⟩
    rw [Bool.eq_false_iff.2 rooted, Bool.eq_false_iff]
    intro slash
    obtain ⟨rest, -, empty⟩ := names_of_startsWith slash
    exact real (back ▸ empty ▸ List.mem_cons_self)

theorem noSlash_base {path : String} (ne : path ≠ "") (h : ∃ n ∈ names path, n ≠ "") :
    '/' ∉ (base path).toList := by
  obtain ⟨n, mem, real⟩ := h
  have some : (names path).filter (· ≠ "") ≠ [] :=
    List.ne_nil_of_mem (List.mem_filter.2 ⟨mem, decide_eq_true real⟩)
  rw [base, if_neg ne, List.getLast?_eq_some_getLast some, Option.getD_some]
  exact noSlash_of_mem_names (List.mem_of_mem_filter (List.getLast_mem some))

theorem noSlash_stem {name : String} (h : '/' ∉ name.toList) : '/' ∉ (stem name).toList := by
  rw [stem, String.toList_ofList]
  exact fun mem => h (List.mem_of_mem_take mem)

end Path

namespace FileTree

variable {t : FileTree} {place q : List String} {n : String} {rest : List String}

/-! ## Following names -/

/-- What the next name on a path does. It is looked at inside a directory only. -/
theorem walk_cons_iff : t.walk place (n :: rest) = .ok q ↔ t.get? place = some .directory ∧
    ((n = "" ∨ n = ".") ∧ t.walk place rest = .ok q ∨
      n = ".." ∧ t.walk place.dropLast rest = .ok q ∨
      Path.IsOrdinary n ∧ n.utf8ByteSize ≤ maxNameLength ∧ (t.get? (place ++ [n])).isSome ∧
        t.walk (place ++ [n]) rest = .ok q) := by
  rw [walk]
  by_cases dir : t.get? place = some .directory
  · rw [if_neg (not_not_intro dir)]
    by_cases skip : n = "" ∨ n = "."
    · have notUp : n ≠ ".." := by
        rcases skip with rfl | rfl <;> decide
      have notOrdinary : ¬ Path.IsOrdinary n := fun h => skip.elim h.1 h.2.1
      simp [dir, skip, notUp, notOrdinary]
    · rw [if_neg skip]
      by_cases up : n = ".."
      · have notOrdinary : ¬ Path.IsOrdinary n := fun h => h.2.2 up
        simp [dir, up, up ▸ notOrdinary]
      · have ordinary : Path.IsOrdinary n := ⟨fun h => skip (.inl h), fun h => skip (.inr h), up⟩
        simp only [dir, skip, up, ordinary, if_false, false_and, false_or, true_and]
        by_cases long : maxNameLength < n.utf8ByteSize
        · simp [long, Nat.not_le.2 long]
        · by_cases found : (t.get? (place ++ [n])).isSome
          · simp [long, found, Nat.not_lt.1 long]
          · simp [long, found]
  · simp [dir]

theorem walk_append_iff {xs ys : List String} :
    t.walk place (xs ++ ys) = .ok q ↔ ∃ mid, t.walk place xs = .ok mid ∧ t.walk mid ys = .ok q := by
  induction xs generalizing place with
  | nil => simp [walk]
  | cons x xs ih =>
    rw [List.cons_append, walk_cons_iff]
    simp only [walk_cons_iff, ih]
    grind

/-- Leaving out names that lead nowhere does not change where a path leads. The induction carries
the names that are kept, none of which leads nowhere; a name that is taken back was a directory, so
its own is still there. -/
theorem walk_reduceOnto {start kept ns : List String} {rooted : Bool}
    (root : rooted = true → start = []) (real : ∀ k ∈ kept, k ≠ "" ∧ k ≠ ".")
    (h : t.walk start (kept.reverse ++ ns) = .ok q) :
    t.walk start (Path.reduceOnto rooted kept ns) = .ok q := by
  fun_induction Path.reduceOnto rooted kept ns with
  | case1 kept => simpa using h
  | case2 kept m rest skip ih =>
    obtain ⟨mid, first, last⟩ := walk_append_iff.1 h
    obtain ⟨-, ⟨-, last⟩ | ⟨rfl, -⟩ | ⟨ordinary, -⟩⟩ := walk_cons_iff.1 last
    · exact ih real (walk_append_iff.2 ⟨mid, first, last⟩)
    · simp at skip
    · exact absurd skip (not_or.2 ⟨ordinary.1, ordinary.2.1⟩)
  | case3 rest skip ih =>
    cases rooted with
    | false => exact ih (by simp) h
    | true =>
      obtain rfl := root rfl
      obtain ⟨-, ⟨back, -⟩ | ⟨-, last⟩ | ⟨ordinary, -⟩⟩ := walk_cons_iff.1 h
      · exact absurd back skip
      · exact ih (by simp) last
      · exact absurd rfl ordinary.2.2
  | case4 rest ks skip ih => exact ih (by simpa using real) (by simpa using h)
  | case5 rest k ks name skip ih =>
    obtain ⟨⟨empty, here⟩, real⟩ := List.forall_mem_cons.1 real
    rw [List.reverse_cons, List.append_assoc] at h
    obtain ⟨mid, first, last⟩ := walk_append_iff.1 h
    obtain ⟨-, ⟨stays, -⟩ | ⟨up, -⟩ | ⟨-, -, -, inside⟩⟩ := walk_cons_iff.1 last
    · exact absurd stays (not_or.2 ⟨empty, here⟩)
    · exact absurd up name
    obtain ⟨-, ⟨back, -⟩ | ⟨-, last⟩ | ⟨ordinary, -⟩⟩ := walk_cons_iff.1 inside
    · exact absurd back skip
    · rw [List.dropLast_concat] at last
      exact ih real (walk_append_iff.2 ⟨mid, first, last⟩)
    · exact absurd rfl ordinary.2.2
  | case6 kept m rest skip up ih =>
    refine ih ?_ (by simpa using h)
    exact List.forall_mem_cons.2 ⟨not_or.1 skip, real⟩

/-! ## Changing a place -/

theorem get?_set {other : List String} (root : place ≠ []) (e : FileEntry) :
    (t.set place e).get? other = if other = place then some e else t.get? other := by
  unfold get? set
  by_cases same : other = place
  · subst same
    simp [root]
  · have others : (t.entries.filter fun x => x.1 ≠ place).find? (fun x => x.1 = other) =
        t.entries.find? fun x => x.1 = other := by
      rw [List.find?_filter]
      congr 1
      funext x
      by_cases hx : x.1 = other
      · simp [hx, same]
      · simp [hx]
    simp only [if_neg same]
    rw [List.find?_cons_of_neg (by simpa using fun h => same h.symm), others]

/-- A path goes on leading where it did if a file is put where no directory was. -/
theorem walk_set {ns : List String} {bytes : List UInt8} (root : place ≠ [])
    (free : t.get? place ≠ some .directory) {start : List String} (h : t.walk start ns = .ok q) :
    (t.set place (.file bytes)).walk start ns = .ok q := by
  have dir {x : List String} (hx : t.get? x = some .directory) :
      (t.set place (.file bytes)).get? x = some .directory := by
    have ne : x ≠ place := fun e => free (e ▸ hx)
    rw [get?_set root, if_neg ne, hx]
  have found {x : List String} (hx : (t.get? x).isSome) :
      ((t.set place (.file bytes)).get? x).isSome := by
    rw [get?_set root]
    split
    · rfl
    · exact hx
  induction ns generalizing start with
  | nil => exact h
  | cons n ns ih =>
    obtain ⟨inside, ⟨skip, last⟩ | ⟨up, last⟩ | ⟨ordinary, short, there, last⟩⟩ := walk_cons_iff.1 h
    · exact walk_cons_iff.2 ⟨dir inside, .inl ⟨skip, ih last⟩⟩
    · exact walk_cons_iff.2 ⟨dir inside, .inr (.inl ⟨up, ih last⟩)⟩
    · exact walk_cons_iff.2 ⟨dir inside, .inr (.inr ⟨ordinary, short, found there, ih last⟩)⟩

/-! ## Where files are written -/

/-- The path of a file that can be written leads through a directory and has an ordinary
name last. -/
structure LeadsToFile (t : FileTree) (path : String) (above : List String) (n : String) : Prop where
  names_eq : ∃ before, Path.names path = before ++ [n] ∧ t.walk (t.startOf path) before = .ok above
  ordinary : Path.IsOrdinary n
  short : n.utf8ByteSize ≤ maxNameLength
  inside : t.get? above = some .directory
  free : t.get? (above ++ [n]) ≠ some .directory

theorem leadsToFile_of_findNew {path : String} (h : t.findNew path = .ok place) :
    ∃ above n, t.LeadsToFile path above n ∧ place = above ++ [n] := by
  unfold findNew at h
  split at h
  · cases h
  simp only at h
  split at h
  · cases h
  · cases h
  rename_i above n walked last
  split at h
  · cases h
  rename_i inside
  split at h
  · cases h
  rename_i plain
  split at h
  · cases h
  rename_i short
  split at h
  · cases h
  rename_i free
  obtain ⟨noEnding, here, up⟩ :
      (Path.names path).reverse.takeWhile (· = "") = [] ∧ n ≠ "." ∧ n ≠ ".." := by
    simpa [not_or] using plain
  rw [noEnding, List.length_nil, Nat.sub_zero, List.take_length] at walked last
  have split := List.dropLast_append_getLast? n last
  have nonempty : n ≠ "" := by
    rintro rfl
    rw [← split, List.reverse_concat] at noEnding
    simp at noEnding
  have leads : t.LeadsToFile path above n :=
    ⟨⟨_, split.symm, walked⟩, ⟨nonempty, here, up⟩, Nat.not_lt.1 short, not_not.1 inside, free⟩
  exact ⟨above, n, leads, (Except.ok.inj h).symm⟩

/-- The path of a file that was written leads to it afterwards. -/
theorem find_set {path : String} (h : t.findNew path = .ok place) (bytes : List UInt8) :
    (t.set place (.file bytes)).find path = .ok place := by
  obtain ⟨above, n, leads, rfl⟩ := leadsToFile_of_findNew h
  obtain ⟨before, names, walked⟩ := leads.names_eq
  have root : above ++ [n] ≠ [] := List.append_ne_nil_of_right_ne_nil _ (List.cons_ne_nil _ _)
  have nonempty : path ≠ "" := by
    rintro rfl
    obtain ⟨-, last⟩ := List.append_inj' (show [] ++ [""] = before ++ [n] from names) rfl
    exact leads.ordinary.1 (List.singleton_inj.1 last).symm
  have inside : (t.set (above ++ [n]) (.file bytes)).get? above = some .directory := by
    rw [get?_set root, if_neg (by simp), leads.inside]
  have there : ((t.set (above ++ [n]) (.file bytes)).get? (above ++ [n])).isSome := by
    rw [get?_set root, if_pos rfl]
    rfl
  rw [find, if_neg nonempty, names]
  refine walk_append_iff.2 ⟨above, walk_set root leads.free walked, ?_⟩
  exact walk_cons_iff.2 ⟨inside, .inr (.inr ⟨leads.ordinary, leads.short, there, rfl⟩)⟩

/-- The path of a name inside a directory leads to that name there. -/
theorem findNew_join {out : String} {dir : List String} (found : t.find out = .ok dir)
    (ordinary : Path.IsOrdinary n) (plain : '/' ∉ n.toList)
    (h : t.findNew (Path.join out n) = .ok place) : place = dir ++ [n] := by
  have nonempty : out ≠ "" := by
    rintro rfl
    simp [find] at found
  rw [find, if_neg nonempty] at found
  obtain ⟨start, names⟩ := Path.names_join nonempty ordinary plain
  obtain ⟨above, m, leads, rfl⟩ := leadsToFile_of_findNew h
  obtain ⟨before, names', walked⟩ := leads.names_eq
  obtain ⟨rfl, last⟩ := List.append_inj' (names.symm.trans names') rfl
  obtain rfl := List.singleton_inj.1 last
  have reduced :
      t.walk (t.startOf out) (Path.reduceOnto (out.startsWith "/") [] (Path.names out)) = .ok dir :=
    walk_reduceOnto (by simp +contextual [startOf]) (by simp) found
  rw [startOf, start, ← startOf] at walked
  by_cases rooted : out.startsWith "/" = true
  · rw [if_pos rooted] at walked
    obtain ⟨-, ⟨-, walked⟩ | ⟨up, -⟩ | ⟨ordinary, -⟩⟩ := walk_cons_iff.1 walked
    · rw [Except.ok.inj (walked.symm.trans reduced)]
    · exact absurd up (by decide)
    · exact absurd rfl ordinary.1
  · rw [if_neg rooted] at walked
    rw [Except.ok.inj (walked.symm.trans reduced)]

/-! ## Files and directories that exist -/

theorem isDirectory_iff {path : String} :
    t.isDirectory path = true ↔ ∃ dir, t.find path = .ok dir ∧ t.get? dir = some .directory := by
  unfold isDirectory
  cases t.find path <;> simp

/-- Empty names lead nowhere, and only from a directory. -/
theorem walk_of_forall_empty {ns : List String} (empty : ∀ n ∈ ns, n = "") (ne : ns ≠ [])
    (h : t.walk place ns = .ok q) : t.get? q = some .directory := by
  induction ns with
  | nil => exact absurd rfl ne
  | cons n ns ih =>
    obtain ⟨rfl, rest⟩ := List.forall_mem_cons.1 empty
    obtain ⟨inside, ⟨-, last⟩ | ⟨up, -⟩ | ⟨ordinary, -⟩⟩ := walk_cons_iff.1 h
    · by_cases more : ns = []
      · subst more
        rw [walk] at last
        rwa [← Except.ok.inj last]
      · exact ih rest more last
    · exact absurd up (by decide)
    · exact absurd rfl ordinary.1

/-- The last name of the path of a file is a name, and not the root. -/
theorem noSlash_base_of_read {path : String} {bytes : List UInt8} (h : t.read path = .ok bytes) :
    '/' ∉ (Path.base path).toList := by
  unfold read at h
  split at h
  · cases h
  rename_i place found
  unfold find at found
  split at found
  · cases found
  rename_i nonempty
  by_cases empty : ∀ n ∈ Path.names path, n = ""
  · rw [walk_of_forall_empty empty (Path.names_ne_nil path) found] at h
    cases h
  · exact Path.noSlash_base nonempty (by simpa using empty)

end FileTree

end TapeLang
