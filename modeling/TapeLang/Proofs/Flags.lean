import Mathlib.Data.List.Forall2
import Mathlib.Data.List.TakeWhile
import TapeLang.Cli.Flag

/-!
# Flags and how they are given

Which arguments give which flags, said without reading them from left to right.

* `SetsFlag`: the one or two arguments that give a flag a value. `FlagsGiven`: arguments that are
  such pieces one after the other, up to the operands.
* `parseFlags_eq_ok_iff`: reading arguments gives flags exactly if the arguments give them, so they
  give no two.
* `parseFlags_eq_help_iff`: reading stops for help exactly if help is asked for.
-/

namespace TapeLang.Cli

/-! ## Single arguments -/

/-- A name that can be told apart from the dashes in front of it and from the value after it. -/
def IsFlagName (name : String) : Prop :=
  name ≠ "" ∧ '=' ∉ name.toList ∧ name.toList.head? ≠ some '-'

instance (name : String) : Decidable (IsFlagName name) :=
  inferInstanceAs (Decidable (_ ∧ _))

/-- What stands in front of the name of a flag. -/
def IsDashes (dashes : String) : Prop :=
  dashes = "-" ∨ dashes = "--"

/-- What stands after the name of a flag in the same argument. -/
def valueText : Option String → String
  | none => ""
  | some text => "=" ++ text

namespace Argument

theorem toList_ne_nil {name : String} (h : IsFlagName name) : name.toList ≠ [] :=
  fun empty => h.1 (String.toList_injective empty)

theorem ofBody_of_isFlagName {name : String} (h : IsFlagName name) (value : Option String) :
    ofBody (name.toList ++ (valueText value).toList) = .flag name value := by
  cases chars : name.toList with
  | nil => exact absurd chars (toList_ne_nil h)
  | cons c cs =>
    obtain ⟨-, noEquals, noDash⟩ := h
    rw [chars] at noEquals noDash
    have first : ¬ (c = '-' ∨ c = '=') := by
      rintro (rfl | rfl)
      · exact noDash rfl
      · exact noEquals List.mem_cons_self
    have rest : ∀ x ∈ cs, decide (x ≠ '=') = true := by
      intro x mem
      exact decide_eq_true fun e => noEquals (List.mem_cons_of_mem c (e ▸ mem))
    have back : String.ofList (c :: cs) = name := by rw [← chars, String.ofList_toList]
    rw [List.cons_append, ofBody, if_neg first]
    cases value with
    | none =>
      have nothing : (valueText none).toList = [] := rfl
      simp only [nothing, List.append_nil, List.takeWhile_eq_self_iff.2 rest,
        List.dropWhile_eq_nil_iff.2 rest, back]
    | some text =>
      have equals : (valueText (some text)).toList = '=' :: text.toList := by simp [valueText]
      have stops : decide ('=' ≠ '=') = false := by decide
      simp only [equals, List.takeWhile_append_of_pos rest, List.dropWhile_append_of_pos rest,
        List.takeWhile_cons_of_neg, List.dropWhile_cons_of_neg, stops, Bool.false_eq_true,
        not_false_eq_true, List.append_nil, back, String.ofList_toList]

theorem ofBody_eq_flag_iff {cs : List Char} {name : String} {value : Option String} :
    ofBody cs = .flag name value ↔
      IsFlagName name ∧ cs = name.toList ++ (valueText value).toList := by
  refine ⟨fun h => ?_, fun ⟨isName, eq⟩ => eq ▸ ofBody_of_isFlagName isName value⟩
  unfold ofBody at h
  split at h
  · cases h
  rename_i c cs
  split at h
  · cases h
  rename_i first
  have isName : IsFlagName (String.ofList (c :: cs.takeWhile (· ≠ '='))) := by
    refine ⟨by simp, ?_, by simpa using fun e => first (.inl e)⟩
    rw [String.toList_ofList, List.mem_cons]
    rintro (rfl | mem)
    · exact first (.inr rfl)
    · simpa using List.mem_takeWhile_imp mem
  have split := List.takeWhile_append_dropWhile (p := (· ≠ '=')) (l := cs)
  simp only at h
  split at h
  · rename_i last
    obtain ⟨rfl, rfl⟩ := Argument.flag.inj h
    refine ⟨isName, ?_⟩
    rw [last, List.append_nil] at split
    rw [String.toList_ofList, split]
    exact (List.append_nil _).symm
  · rename_i x text last
    obtain ⟨rfl, rfl⟩ := Argument.flag.inj h
    refine ⟨isName, ?_⟩
    have equals : x = '=' := by
      have stops := List.head?_dropWhile_not (· ≠ '=') cs
      rw [last] at stops
      simpa using stops
    have after : (valueText (some (String.ofList text))).toList = '=' :: text := by simp [valueText]
    rw [equals] at last
    rw [String.toList_ofList, after, List.cons_append, ← last, split]

theorem ofString_eq_flag_iff {arg name : String} {value : Option String} :
    ofString arg = .flag name value ↔
      IsFlagName name ∧ ∃ dashes, IsDashes dashes ∧ arg = dashes ++ name ++ valueText value := by
  constructor
  · intro h
    unfold ofString at h
    split at h
    · cases h
    · rename_i body chars
      obtain ⟨isName, rfl⟩ := ofBody_eq_flag_iff.1 h
      exact ⟨isName, "--", .inr rfl, String.toList_injective (by simp [chars])⟩
    · rename_i c body _ chars
      obtain ⟨isName, eq⟩ := ofBody_eq_flag_iff.1 h
      exact ⟨isName, "-", .inl rfl, String.toList_injective (by simp [chars, eq])⟩
    · cases h
  · rintro ⟨isName, dashes, dash, rfl⟩
    have read := ofBody_of_isFlagName isName value
    cases chars : name.toList with
    | nil => exact absurd chars (toList_ne_nil isName)
    | cons c cs =>
      have noDash : c ≠ '-' := by
        rintro rfl
        exact isName.2.2 (by rw [chars]; rfl)
      rw [chars, List.cons_append] at read
      rcases dash with rfl | rfl
      · simp [ofString, chars, noDash, read]
      · simp [ofString, chars, read]

/-- What starts with a dash and goes on is a flag, or would be one. -/
theorem ofBody_eq_malformed_or_flag (cs : List Char) :
    ofBody cs = .malformed ∨ ∃ name value, ofBody cs = .flag name value := by
  unfold ofBody
  split
  · exact .inl rfl
  · split
    · exact .inl rfl
    · split
      · exact .inr ⟨_, _, rfl⟩
      · exact .inr ⟨_, _, rfl⟩

theorem ofString_eq_operand_iff {arg : String} :
    ofString arg = .operand ↔ arg = "-" ∨ arg.toList.head? ≠ some '-' := by
  rw [← String.toList_inj]
  unfold ofString
  split
  · simp [*]
  · rename_i body more chars
    rcases ofBody_eq_malformed_or_flag body with h | ⟨_, _, h⟩ <;> simp [h, chars]
  · rename_i c body _ _ chars
    rcases ofBody_eq_malformed_or_flag (c :: body) with h | ⟨_, _, h⟩ <;> simp [h, chars]
  · rename_i noDash
    cases chars : arg.toList with
    | nil => simp
    | cons c cs =>
      cases cs with
      | nil => simp [Decidable.em]
      | cons d ds =>
        have : c ≠ '-' := fun e => noDash d ds (e ▸ chars)
        simp [this]

theorem ofString_eq_endOfFlags_iff {arg : String} : ofString arg = .endOfFlags ↔ arg = "--" := by
  rw [← String.toList_inj]
  unfold ofString
  split
  · simp [*]
  · rename_i body more chars
    rcases ofBody_eq_malformed_or_flag body with h | ⟨_, _, h⟩ <;> simp_all
  · rename_i c body _ _ chars
    rcases ofBody_eq_malformed_or_flag (c :: body) with h | ⟨_, _, h⟩ <;> simp_all
  · simp_all

end Argument

/-! ## Rows of arguments -/

/-- The one or two arguments that give a flag a value. Only a switch needs none. -/
inductive SetsFlag (flags : List Flag) : List String → String × FlagValue → Prop
  | joined {f : Flag} {dashes text : String} {v : FlagValue} (known : f ∈ flags)
      (dash : IsDashes dashes) (value : f.valueOf text = .ok v) :
      SetsFlag flags [dashes ++ f.name ++ "=" ++ text] (f.name, v)
  | switch {f : Flag} {dashes : String} (known : f ∈ flags) (dash : IsDashes dashes)
      (switch : f.isSwitch = true) :
      SetsFlag flags [dashes ++ f.name] (f.name, .bool true)
  | apart {f : Flag} {dashes text : String} {v : FlagValue} (known : f ∈ flags)
      (dash : IsDashes dashes) (noSwitch : f.isSwitch = false) (value : f.valueOf text = .ok v) :
      SetsFlag flags [dashes ++ f.name, text] (f.name, v)

/-- The arguments after the flags, and what of them is left for the command. -/
inductive EndsFlags : List String → List String → Prop
  | nothing : EndsFlags [] []
  | operand {arg : String} (plain : arg = "-" ∨ arg.toList.head? ≠ some '-') (rest : List String) :
      EndsFlags (arg :: rest) (arg :: rest)
  | dashes (rest : List String) : EndsFlags ("--" :: rest) rest

/-- Arguments that give flags, the last one first in `given.values`, and then the operands. -/
def FlagsGiven (flags : List Flag) (args : List String) (given : Flags) : Prop :=
  ∃ pieces tail, List.Forall₂ (SetsFlag flags) pieces given.values.reverse ∧
    EndsFlags tail given.operands ∧ args = pieces.flatten ++ tail

/-- Arguments that ask for help after some flags, by a name that no flag has. -/
def AsksForHelp (flags : List Flag) (args : List String) : Prop :=
  ∃ pieces settings name dashes value rest, List.Forall₂ (SetsFlag flags) pieces settings ∧
    (name = "help" ∨ name = "h") ∧ (∀ f ∈ flags, f.name ≠ name) ∧ IsDashes dashes ∧
      args = pieces.flatten ++ (dashes ++ name ++ valueText value) :: rest

/-- Flags whose names can be told apart. -/
structure WellNamed (flags : List Flag) : Prop where
  names : ∀ f ∈ flags, IsFlagName f.name
  distinct : (flags.map Flag.name).Nodup

variable {flags : List Flag} {f : Flag} {arg name : String} {value : Option String} {v : FlagValue}
  {piece args rest : List String} {setting : String × FlagValue}
  {values : List (String × FlagValue)}

/-! ## What reading accepts -/

theorem mem_and_name_of_find? (h : flags.find? (fun f => f.name = name) = some f) :
    f ∈ flags ∧ f.name = name :=
  ⟨List.mem_of_find?_eq_some h, by simpa using List.find?_some h⟩

theorem Flag.valueOf_true (h : f.isSwitch = true) : f.valueOf "true" = .ok (.bool true) := by
  unfold isSwitch at h
  unfold valueOf
  split at h
  · simp [*, parseBool?]
  · cases h

theorem setsFlag_one {text : String} (form : Argument.ofString arg = .flag name value)
    (found : flags.find? (fun f => f.name = name) = some f)
    (h : (value <|> if f.isSwitch then some "true" else none) = some text)
    (ok : f.valueOf text = .ok v) :
    SetsFlag flags [arg] (name, v) := by
  obtain ⟨known, rfl⟩ := mem_and_name_of_find? found
  obtain ⟨-, dashes, dash, rfl⟩ := Argument.ofString_eq_flag_iff.1 form
  cases value with
  | some text' =>
    obtain rfl : text' = text := by simpa using h
    simpa [valueText, String.append_assoc] using SetsFlag.joined known dash ok
  | none =>
    obtain ⟨switch, rfl⟩ : f.isSwitch = true ∧ "true" = text := by simpa using h
    obtain rfl : .bool true = v := Except.ok.inj ((Flag.valueOf_true switch).symm.trans ok)
    simpa [valueText] using SetsFlag.switch known dash switch

theorem setsFlag_two {text : String} (form : Argument.ofString arg = .flag name value)
    (found : flags.find? (fun f => f.name = name) = some f)
    (h : (value <|> if f.isSwitch then some "true" else none) = none)
    (ok : f.valueOf text = .ok v) :
    SetsFlag flags [arg, text] (name, v) := by
  obtain ⟨known, rfl⟩ := mem_and_name_of_find? found
  obtain ⟨-, dashes, dash, rfl⟩ := Argument.ofString_eq_flag_iff.1 form
  obtain ⟨rfl, noSwitch⟩ : value = none ∧ f.isSwitch = false := by
    cases value with
    | none => simpa using h
    | some text => simp at h
  simpa [valueText] using SetsFlag.apart known dash noSwitch ok

theorem FlagsGiven.cons {operands : List String} (sets : SetsFlag flags piece setting)
    (h : FlagsGiven flags rest { values, operands }) :
    FlagsGiven flags (piece ++ rest) { values := values ++ [setting], operands } := by
  obtain ⟨pieces, tail, all, ends, rfl⟩ := h
  refine ⟨piece :: pieces, tail, ?_, ends, ?_⟩
  · rw [List.reverse_concat]
    exact .cons sets all
  · rw [List.flatten_cons, List.append_assoc]

theorem AsksForHelp.cons (sets : SetsFlag flags piece setting) (h : AsksForHelp flags rest) :
    AsksForHelp flags (piece ++ rest) := by
  obtain ⟨pieces, settings, name, dashes, value, last, all, help, unknown, dash, rfl⟩ := h
  refine ⟨piece :: pieces, setting :: settings, name, dashes, value, last, .cons sets all, help,
    unknown, dash, ?_⟩
  rw [List.flatten_cons, List.append_assoc]

/-- Reading adds flags that are given to those it has, and stops for help only where it is
asked for. -/
theorem parseFlagsFrom_sound (flags : List Flag) (before : List (String × FlagValue))
    (args : List String) :
    (∀ given, parseFlagsFrom flags before args = .ok given →
      ∃ values, given.values = values ++ before ∧ FlagsGiven flags args { given with values }) ∧
      (parseFlagsFrom flags before args = .error .help → AsksForHelp flags args) := by
  fun_induction parseFlagsFrom flags before args with
  | case1 before =>
    refine ⟨?_, by simp⟩
    rintro _ ⟨⟩
    exact ⟨[], rfl, [], [], .nil, .nothing, rfl⟩
  | case2 before arg rest operand =>
    refine ⟨?_, by simp⟩
    rintro _ ⟨⟩
    exact ⟨[], rfl, [], _, .nil, .operand (Argument.ofString_eq_operand_iff.1 operand) rest, rfl⟩
  | case3 before arg rest dashes =>
    refine ⟨?_, by simp⟩
    rintro _ ⟨⟩
    obtain rfl := Argument.ofString_eq_endOfFlags_iff.1 dashes
    exact ⟨[], rfl, [], _, .nil, .dashes rest, rfl⟩
  | case5 before arg rest name value form unknown help =>
    refine ⟨by simp, fun _ => ?_⟩
    obtain ⟨-, dashes, dash, rfl⟩ := Argument.ofString_eq_flag_iff.1 form
    exact ⟨[], [], name, dashes, value, rest, .nil, help, by simpa using unknown, dash, rfl⟩
  | case8 before arg rest name value form f found text h v ok ih =>
    have sets := setsFlag_one form found h ok
    refine ⟨fun given read => ?_, fun read => (ih.2 read).cons sets⟩
    obtain ⟨values, eq, all⟩ := ih.1 given read
    exact ⟨values ++ [(name, v)], by simp [eq], all.cons sets⟩
  | case11 before arg name value form f found h text rest v ok ih =>
    have sets := setsFlag_two form found h ok
    refine ⟨fun given read => ?_, fun read => (ih.2 read).cons sets⟩
    obtain ⟨values, eq, all⟩ := ih.1 given read
    exact ⟨values ++ [(name, v)], by simp [eq], all.cons sets⟩
  | case4 | case6 | case7 | case9 | case10 => simp

theorem flagsGiven_of_parseFlags {given : Flags} (h : parseFlags flags args = .ok given) :
    FlagsGiven flags args given := by
  obtain ⟨values, eq, all⟩ := (parseFlagsFrom_sound flags [] args).1 given h
  rw [List.append_nil] at eq
  subst eq
  exact all

theorem asksForHelp_of_parseFlags (h : parseFlags flags args = .error .help) :
    AsksForHelp flags args :=
  (parseFlagsFrom_sound flags [] args).2 h

/-! ## What reading does not miss -/

theorem WellNamed.find?_eq (h : WellNamed flags) (known : f ∈ flags) :
    flags.find? (fun g => g.name = f.name) = some f := by
  obtain ⟨-, distinct⟩ := h
  induction flags with
  | nil => cases known
  | cons g gs ih =>
    rw [List.map_cons, List.nodup_cons] at distinct
    rcases List.mem_cons.1 known with rfl | later
    · exact List.find?_cons_of_pos (by simp)
    · have ne : g.name ≠ f.name := fun e => distinct.1 (e ▸ List.mem_map_of_mem later)
      rw [List.find?_cons_of_neg (by simpa using ne)]
      exact ih later distinct.2

/-- Reading takes the arguments that give one flag in one step. -/
theorem parseFlagsFrom_piece (h : WellNamed flags) (sets : SetsFlag flags piece setting)
    (values : List (String × FlagValue)) (rest : List String) :
    parseFlagsFrom flags values (piece ++ rest) =
      parseFlagsFrom flags (setting :: values) rest := by
  have form {f : Flag} {dashes : String} (known : f ∈ flags) (dash : IsDashes dashes)
      (value : Option String) :
      Argument.ofString (dashes ++ f.name ++ valueText value) = .flag f.name value :=
    Argument.ofString_eq_flag_iff.2 ⟨h.names f known, dashes, dash, rfl⟩
  cases sets with
  | joined known dash ok =>
    rename_i text _
    have form := form known dash (some text)
    rw [valueText, ← String.append_assoc] at form
    rw [List.singleton_append, parseFlagsFrom]
    simp [form, h.find?_eq known, ok]
  | switch known dash switch =>
    have form := form known dash none
    rw [valueText, String.append_empty] at form
    rw [List.singleton_append, parseFlagsFrom]
    simp [form, h.find?_eq known, switch, Flag.valueOf_true switch]
  | apart known dash noSwitch ok =>
    have form := form known dash none
    rw [valueText, String.append_empty] at form
    rw [List.cons_append, List.singleton_append, parseFlagsFrom]
    simp [form, h.find?_eq known, noSwitch, ok]

theorem parseFlagsFrom_of_endsFlags {tail operands : List String} (h : EndsFlags tail operands)
    (values : List (String × FlagValue)) :
    parseFlagsFrom flags values tail = .ok { values, operands } := by
  cases h with
  | nothing => rfl
  | operand plain rest => simp [parseFlagsFrom, Argument.ofString_eq_operand_iff.2 plain]
  | dashes rest => simp [parseFlagsFrom, Argument.ofString_eq_endOfFlags_iff.2 rfl]

theorem parseFlagsFrom_pieces (h : WellNamed flags) {pieces : List (List String)}
    {settings : List (String × FlagValue)} (all : List.Forall₂ (SetsFlag flags) pieces settings)
    (values : List (String × FlagValue)) (rest : List String) :
    parseFlagsFrom flags values (pieces.flatten ++ rest) =
      parseFlagsFrom flags (settings.reverse ++ values) rest := by
  induction all generalizing values with
  | nil => rfl
  | cons sets all ih =>
    rw [List.flatten_cons, List.append_assoc, parseFlagsFrom_piece h sets, ih, List.reverse_cons,
      List.append_assoc, List.singleton_append]

/-- Reading arguments gives flags exactly if the arguments give them. -/
theorem parseFlags_eq_ok_iff (h : WellNamed flags) {given : Flags} :
    parseFlags flags args = .ok given ↔ FlagsGiven flags args given := by
  refine ⟨flagsGiven_of_parseFlags, ?_⟩
  rintro ⟨pieces, tail, all, ends, rfl⟩
  rw [parseFlags, parseFlagsFrom_pieces h all, parseFlagsFrom_of_endsFlags ends,
    List.reverse_reverse, List.append_nil]

/-- Reading stops for help exactly if it is asked for. -/
theorem parseFlags_eq_help_iff (h : WellNamed flags) :
    parseFlags flags args = .error .help ↔ AsksForHelp flags args := by
  refine ⟨asksForHelp_of_parseFlags, ?_⟩
  rintro ⟨pieces, settings, name, dashes, value, rest, all, help, unknown, dash, rfl⟩
  have isName : IsFlagName name := by
    rcases help with rfl | rfl <;> decide
  have form : Argument.ofString (dashes ++ name ++ valueText value) = .flag name value :=
    Argument.ofString_eq_flag_iff.2 ⟨isName, dashes, dash, rfl⟩
  have none : flags.find? (fun f => f.name = name) = none := by simpa using unknown
  rw [parseFlags, parseFlagsFrom_pieces h all, parseFlagsFrom]
  simp [form, none, help]

end TapeLang.Cli
