import Mathlib.Data.List.Chain
import TapeLang.Proofs.Settle

/-!
# Normal programs

A program is normal if no element of it, and no two neighbours, are left for optimizing to work on.
This is said of each of its sequences: its own elements, and those of every loop body.

* `MovesLate`: a move goes somewhere, and only a loop comes after it. `movesLate_postponeFrom`:
  postponing leaves no other moves, and `postpone_of_movesLate`: it does not change such programs.
* `WritesApart`, `LoopsMatter`: neighbours do not write to one cell, and no loop only clears its
  cell. `unfused_of_merge_eq`: so it is in every program that merging does not change.
* `IsNormal`: all of it. `stays_of_isNormal`: merging does not change such programs.
  `round_eq_self_iff`: the normal programs are those that a round does not change.
-/

namespace TapeLang

/-- Whether the operation puts a value into its cell that does not come from the console. -/
def CellOp.writes : CellOp → Bool
  | .add _ | .set _ => true
  | .print _ | .read _ | .unknown _ _ => false

/-- Two operations on one cell fuse if both write. -/
theorem CellOp.fuse?_eq_none_iff (x y : CellOp) : x.fuse? y = none ↔ ¬ (x.writes ∧ y.writes) := by
  cases x <;> cases y <;> simp [fuse?, writes]

namespace Token

def isMove : Token → Bool
  | move _ => true
  | cell _ _ | loop _ => false

def isLoop : Token → Bool
  | loop _ => true
  | move _ | cell _ _ => false

/-- Whether both elements write, and to the same cell. -/
def writesWith : Token → Token → Bool
  | cell a x, cell b y => a = b ∧ x.writes ∧ y.writes
  | _, _ => false

/-- Neither merging nor postponing does anything to these two as neighbours. -/
def Apart (t u : Token) : Prop :=
  (t.isMove → u.isLoop) ∧ ¬ t.writesWith u

/-- Whether the element is a loop that does nothing but change its own cell. -/
def isClearLoop : Token → Bool
  | loop (.cell a (.add v) .done) => a = 0 ∧ v ≠ 0
  | _ => false

end Token

namespace Program

/-! ## Normal sequences -/

/-- Every move goes somewhere, and is the last element or has a loop right after it. -/
def MovesLate (ts : List Token) : Prop :=
  Token.move 0 ∉ ts ∧ ts.IsChain fun t u => t.isMove → u.isLoop

/-- No two neighbours write to one cell. -/
def WritesApart (ts : List Token) : Prop :=
  ts.IsChain fun t u => ¬ t.writesWith u

/-- No loop only changes its own cell. -/
def LoopsMatter (ts : List Token) : Prop :=
  ∀ t ∈ ts, ¬ t.isClearLoop

/-- Every sequence of the program is like this: its own elements, and those of each loop body. -/
def Throughout (like : List Token → Prop) (p : Program) : Prop :=
  like p.tokens ∧ ∀ b ∈ p.bodies, like b.tokens

/-- The program leaves nothing for optimizing to do. -/
structure IsNormal (p : Program) : Prop where
  moves : p.Throughout MovesLate
  writes : p.Throughout WritesApart
  loops : p.Throughout LoopsMatter

instance (ts : List Token) : Decidable (MovesLate ts) :=
  inferInstanceAs (Decidable (_ ∧ _))

instance (ts : List Token) : Decidable (WritesApart ts) :=
  inferInstanceAs (Decidable (ts.IsChain _))

instance (ts : List Token) : Decidable (LoopsMatter ts) :=
  inferInstanceAs (Decidable (∀ t ∈ ts, _))

instance (like : List Token → Prop) [DecidablePred like] (p : Program) :
    Decidable (p.Throughout like) :=
  inferInstanceAs (Decidable (_ ∧ _))

instance (p : Program) : Decidable p.IsNormal :=
  decidable_of_iff (p.Throughout MovesLate ∧ p.Throughout WritesApart ∧ p.Throughout LoopsMatter)
    ⟨fun ⟨moves, writes, loops⟩ => ⟨moves, writes, loops⟩, fun h => ⟨h.moves, h.writes, h.loops⟩⟩

@[simp]
theorem tokens_cons (t : Token) (p : Program) : (cons t p).tokens = t :: p.tokens := by
  cases t <;> rfl

@[simp]
theorem tokens_append (p q : Program) : (p ++ q).tokens = p.tokens ++ q.tokens := by
  induction p <;> simp_all [tokens]

@[simp]
theorem tokens_consAll (ts : List Token) (p : Program) :
    (consAll ts p).tokens = ts ++ p.tokens := by
  induction ts with
  | nil => rfl
  | cons t ts ih => exact (tokens_cons t _).trans (congrArg (t :: ·) ih)

theorem tokens_inj {p q : Program} (h : p.tokens = q.tokens) : p = q := by
  rw [← ofTokens_tokens p, h, ofTokens_tokens]

theorem movesLate_cons (t : Token) (ts : List Token) :
    MovesLate (t :: ts) ↔ t ≠ .move 0 ∧ (∀ u ∈ ts.head?, t.isMove → u.isLoop) ∧ MovesLate ts := by
  rw [MovesLate, MovesLate, List.isChain_cons, List.mem_cons, not_or]
  constructor
  · rintro ⟨⟨h0, hts⟩, hu, hc⟩
    exact ⟨fun h => h0 h.symm, hu, hts, hc⟩
  · rintro ⟨h0, hu, hts, hc⟩
    exact ⟨⟨fun h => h0 h.symm, hts⟩, hu, hc⟩

theorem writesApart_cons (t : Token) (ts : List Token) :
    WritesApart (t :: ts) ↔ (∀ u ∈ ts.head?, ¬ t.writesWith u) ∧ WritesApart ts :=
  List.isChain_cons

theorem loopsMatter_cons (t : Token) (ts : List Token) :
    LoopsMatter (t :: ts) ↔ ¬ t.isClearLoop ∧ LoopsMatter ts :=
  List.forall_mem_cons

/-- What holds throughout a program whose first element is a loop. -/
theorem throughout_loop {like : List Token → Prop} (b p : Program) :
    (loop b p).Throughout like ↔
      like (.loop b :: p.tokens) ∧ b.Throughout like ∧ ∀ q ∈ p.bodies, like q.tokens := by
  simp only [Throughout, tokens, bodies, List.mem_cons, List.mem_append]
  constructor
  · rintro ⟨h, hb⟩
    exact ⟨h, ⟨hb b (.inl rfl), fun q hq => hb q (.inr (.inl hq))⟩,
      fun q hq => hb q (.inr (.inr hq))⟩
  · rintro ⟨h, ⟨hb, hbs⟩, hp⟩
    refine ⟨h, fun q hq => ?_⟩
    rcases hq with rfl | hq | hq
    · exact hb
    · exact hbs q hq
    · exact hp q hq

/-! ## Postponing -/

/-- A move in front of the end or of a loop. -/
theorem movesLate_moveBy (d : Int64) {p : Program} (hp : ∀ u ∈ p.tokens.head?, u.isLoop)
    (h : p.Throughout MovesLate) : (moveBy d p).Throughout MovesLate := by
  unfold moveBy
  split
  · exact h
  · rename_i hd
    refine ⟨(movesLate_cons _ _).mpr ⟨?_, fun u hu _ => hp u hu, h.1⟩, h.2⟩
    intro h0
    exact hd (Token.move.inj h0)

/-- Postponing leaves moves at the end and in front of loops only. -/
theorem movesLate_postponeFrom (p : Program) (d : Int64) :
    (p.postponeFrom d).Throughout MovesLate := by
  induction p generalizing d with
  | done => exact movesLate_moveBy d (by simp [tokens]) ⟨⟨by simp [tokens], .nil⟩, by simp [bodies]⟩
  | move e p ih => exact ih (d + e)
  | cell a op p ih =>
    refine ⟨(movesLate_cons _ _).mpr ⟨by simp, fun u _ h => ?_, (ih d).1⟩, (ih d).2⟩
    cases h
  | loop b p ihb ih =>
    refine movesLate_moveBy d (by simp [tokens, Token.isLoop])
      ((throughout_loop _ _).mpr ⟨?_, ihb 0, (ih 0).2⟩)
    refine (movesLate_cons _ _).mpr ⟨by simp, fun u _ h => ?_, (ih 0).1⟩
    cases h

/-- A program whose moves are at the end and in front of loops is not changed by postponing. -/
theorem postpone_of_movesLate {p : Program} (h : p.Throughout MovesLate) : p.postpone = p := by
  unfold postpone
  induction p with
  | done => rfl
  | move d p ih =>
    obtain ⟨hd, hnext, hp⟩ := (movesLate_cons _ _).mp h.1
    have hp := ih ⟨hp, h.2⟩
    have hd : d ≠ 0 := fun h0 => hd (congrArg Token.move h0)
    rw [postponeFrom, Int64.zero_add]
    -- The move is made up for right where it stood.
    cases p with
    | done => rw [postponeFrom, moveBy, if_neg hd]
    | move e q => exact absurd (hnext _ rfl rfl) (by simp [Token.isLoop])
    | cell a op q => exact absurd (hnext _ rfl rfl) (by simp [Token.isLoop])
    | loop b q =>
      rw [postponeFrom, moveBy, if_pos rfl] at hp
      rw [postponeFrom, moveBy, if_neg hd, hp]
  | cell a op p ih =>
    obtain ⟨-, -, hp⟩ := (movesLate_cons _ _).mp h.1
    rw [postponeFrom, Int64.add_zero, ih ⟨hp, h.2⟩]
  | loop b p ihb ih =>
    obtain ⟨hts, hb, hbs⟩ := (throughout_loop _ _).mp h
    obtain ⟨-, -, hp⟩ := (movesLate_cons _ _).mp hts
    rw [postponeFrom, moveBy, if_pos rfl, ihb hb, ih ⟨hp, hbs⟩]

/-! ## Merging -/

open Merge

theorem writesApart_flush (held : Held) : WritesApart held.flush.tokens := by
  cases held with
  | nothing => exact .nil
  | token t =>
    rw [Held.flush, tokens_cons]
    exact .singleton t
  | moved d a op => exact .cons_cons (by simp [Token.writesWith]) (.singleton _)

/-- What is let go and what is held after one more element do not write to one cell. -/
theorem writesApart_follow (last t : Token) :
    WritesApart ((Held.follow last t).1 ++ (Held.follow last t).2.flush.tokens) := by
  unfold Held.follow
  split
  · exact writesApart_flush _
  · exact writesApart_flush _
  · rename_i a op a' op'
    split
    · exact writesApart_flush _
    · rename_i h
      refine .cons_cons ?_ (.singleton _)
      intro both
      simp only [Token.writesWith, decide_eq_true_eq] at both
      rw [if_pos both.1.symm] at h
      exact (CellOp.fuse?_eq_none_iff op op').mp h both.2
  · rename_i hcell
    simp only [Held.flush, tokens_cons]
    refine .cons_cons ?_ (.singleton _)
    unfold Token.writesWith
    split
    · exact absurd rfl (hcell _ _ _ _ rfl)
    · simp

theorem writesApart_put (held : Held) (t : Token) :
    WritesApart ((held.put t).1 ++ (held.put t).2.flush.tokens) := by
  unfold Held.put
  split
  · exact writesApart_flush _
  · exact writesApart_follow _ t
  · split
    · exact writesApart_flush _
    · exact .cons_cons (by simp [Token.writesWith])
        (.cons_cons (by simp [Token.writesWith]) (.singleton _))
  · rename_i d a op _
    refine (writesApart_cons _ _).mpr ⟨fun u _ => ?_, writesApart_follow (.cell a op) t⟩
    simp [Token.writesWith]

theorem length_follow_le (last t : Token) : (Held.follow last t).1.length ≤ 1 := by
  unfold Held.follow
  split
  · simp
  · simp
  · split <;> simp
  · simp

/-- The element that comes last is never let go at once. -/
theorem length_put_le (held : Held) (t : Token) :
    (held.put t).1.length ≤ held.flush.tokens.length := by
  unfold Held.put
  split
  · simp
  · rename_i last
    simpa [Held.flush, tokens] using length_follow_le last t
  · split <;> simp [Held.flush, tokens]
  · rename_i d a op _
    simpa [Held.flush, tokens] using length_follow_le (.cell a op) t

section Unfused

variable {held : Held} {t : Token} {p : Program}

/-- Where merging ends with what it started from, it has not changed anything on the way. -/
theorem of_letGo_eq (h : letGo (held.put t) (fun h => p.mergeAfter h) = held.flush ++ cons t p) :
    (held.put t).1 ++ (held.put t).2.flush.tokens = held.flush.tokens ++ [t] ∧
      p.mergeAfter (held.put t).2 = (held.put t).2.flush ++ p := by
  have first : (held.flush ++ cons t p).MergesTo (fun _ => True)
      (consAll (held.put t).1 (held.put t).2.flush ++ p) := by
    rw [cons_eq_append, ← append_assoc]
    exact (put_merges held t).append_right p
  have second : (consAll (held.put t).1 (held.put t).2.flush ++ p).MergesTo (fun _ => True)
      (consAll (held.put t).1 (p.mergeAfter (held.put t).2)) := by
    rw [consAll_append]
    exact consAll_merges _ (mergeAfter_merges (fun _ _ _ _ _ => trivial) _)
  rw [letGo_eq] at h
  rw [h] at second
  have same := congrArg tokens (first.antisymm second)
  have whole := congrArg tokens h
  simp only [tokens_append, tokens_consAll, tokens_cons] at same whole
  constructor
  · have around : (held.put t).1 ++ (held.put t).2.flush.tokens ++ p.tokens =
        held.flush.tokens ++ [t] ++ p.tokens := by simpa using same
    exact List.append_cancel_right around
  · have after : (held.put t).1 ++ (p.mergeAfter (held.put t).2).tokens =
        (held.put t).1 ++ ((held.put t).2.flush ++ p).tokens := by
      rw [whole, ← same, List.append_assoc, tokens_append]
    exact tokens_inj (List.append_cancel_left after)

theorem writesApart_step
    (hput : (held.put t).1 ++ (held.put t).2.flush.tokens = held.flush.tokens ++ [t])
    (hp : WritesApart ((held.put t).2.flush ++ p).tokens) :
    WritesApart (held.flush ++ cons t p).tokens := by
  have hne : (held.put t).2.flush.tokens ≠ [] := by
    intro hnil
    have hlen := congrArg List.length hput
    have hle := length_put_le held t
    simp only [hnil, List.length_append, List.length_cons, List.length_nil] at hlen
    omega
  rw [tokens_append] at hp
  have whole := (writesApart_put held t).append_overlap hp hne
  rw [hput] at whole
  simpa [WritesApart] using whole

/-- What is known of a program that merging does not change, after what is held. -/
def Unfused (held : Held) (p : Program) : Prop :=
  (WritesApart (held.flush ++ p).tokens ∧ LoopsMatter p.tokens) ∧
    ∀ b ∈ p.bodies, WritesApart b.tokens ∧ LoopsMatter b.tokens

/-- One more element in front, which merging does not fuse. -/
theorem unfused_cons (h : letGo (held.put t) (fun h => p.mergeAfter h) = held.flush ++ cons t p)
    (hloop : ¬ t.isClearLoop)
    (ih : ∀ h : Held, p.mergeAfter h = h.flush ++ p → Unfused h p) :
    WritesApart (held.flush ++ cons t p).tokens ∧ LoopsMatter (t :: p.tokens) ∧
      ∀ b ∈ p.bodies, WritesApart b.tokens ∧ LoopsMatter b.tokens := by
  obtain ⟨hput, hp⟩ := of_letGo_eq h
  obtain ⟨⟨hwrites, hloops⟩, hbodies⟩ := ih _ hp
  exact ⟨writesApart_step hput hwrites, (loopsMatter_cons _ _).mpr ⟨hloop, hloops⟩, hbodies⟩

end Unfused

/-- A loop that stays has the merged body, and does more than change its own cell. -/
theorem eq_of_loopToken_eq {b c : Program} (h : loopToken c = .loop b) :
    c = b ∧ ¬ (Token.loop b).isClearLoop := by
  unfold loopToken at h
  split at h
  · split at h
    · cases h
    · rename_i hne
      cases h
      exact ⟨rfl, by simpa [Token.isClearLoop] using hne⟩
  · rename_i hne
    cases h
    refine ⟨rfl, ?_⟩
    unfold Token.isClearLoop
    split
    · rename_i heq
      exact absurd (Token.loop.inj heq) (hne _ _)
    · simp

theorem unfused_of_mergeAfter_eq {p : Program} (held : Held)
    (h : p.mergeAfter held = held.flush ++ p) :
    Unfused held p := by
  induction p generalizing held with
  | done =>
    rw [Unfused, append_done]
    exact ⟨⟨writesApart_flush held, by simp [LoopsMatter, tokens]⟩, by simp [bodies]⟩
  | move d p ih =>
    obtain ⟨hw, hl, hb⟩ := unfused_cons (t := .move d) h (by simp [Token.isClearLoop]) ih
    exact ⟨⟨hw, hl⟩, hb⟩
  | cell a op p ih =>
    obtain ⟨hw, hl, hb⟩ := unfused_cons (t := .cell a op) h (by simp [Token.isClearLoop]) ih
    exact ⟨⟨hw, hl⟩, hb⟩
  | loop b p ihb ih =>
    have stays : loopToken (b.mergeAfter .nothing) = .loop b := by
      have first : (held.flush ++ loop b p).MergesTo (fun _ => True)
          (held.flush ++ cons (loopToken (b.mergeAfter .nothing)) p) := by
        refine .append_left _ ?_
        rw [cons_eq_append]
        exact ((merge_merges b).loop.trans (loopToken_merges fun _ _ _ => trivial)).append_right p
      have second :
          (held.flush ++ cons (loopToken (b.mergeAfter .nothing)) p).MergesTo (fun _ => True)
          ((loop b p).mergeAfter held) :=
        mergeStep_merges fun _ => mergeAfter_merges (fun _ _ _ _ _ => trivial) _
      rw [h] at second
      have same := congrArg tokens (first.antisymm second)
      simp only [tokens_append, tokens_cons, tokens] at same
      exact (List.cons.inj (List.append_cancel_left same)).1
    obtain ⟨hsame, hclear⟩ := eq_of_loopToken_eq stays
    rw [mergeAfter, stays] at h
    obtain ⟨hw, hl, hp⟩ := unfused_cons (t := .loop b) h hclear ih
    obtain ⟨hb, hbs⟩ := ihb .nothing hsame
    refine ⟨⟨hw, hl⟩, fun q hq => ?_⟩
    rcases List.mem_cons.mp hq with rfl | hq
    · exact hb
    · rcases List.mem_append.mp hq with hq | hq
      · exact hbs q hq
      · exact hp q hq

/-- In a program that merging does not change, neighbours write apart and no loop only clears
its cell. -/
theorem unfused_of_merge_eq {p : Program} (h : p.merge = p) :
    p.Throughout WritesApart ∧ p.Throughout LoopsMatter := by
  obtain ⟨⟨hw, hl⟩, hb⟩ := unfused_of_mergeAfter_eq .nothing h
  exact ⟨⟨hw, fun b m => (hb b m).1⟩, hl, fun b m => (hb b m).2⟩

/-- Elements that are left apart are let go one after the other. -/
theorem follow_of_apart {last t : Token} (h : last.Apart t) :
    Held.follow last t = ([last], .token t) := by
  obtain ⟨hm, hw⟩ := h
  cases last with
  | move d =>
    cases t with
    | move e => exact absurd (hm rfl) (by simp [Token.isLoop])
    | cell a op => exact absurd (hm rfl) (by simp [Token.isLoop])
    | loop b => rfl
  | cell a op =>
    cases t with
    | move e => rfl
    | cell a' op' =>
      have hnone : (if a' = a then op.fuse? op' else none) = none := by
        split
        · rename_i ha
          rw [CellOp.fuse?_eq_none_iff]
          intro both
          exact hw (by simp [Token.writesWith, ha, both])
        · rfl
      simp only [Held.follow, hnone]
    | loop b => rfl
  | loop b => cases t <;> rfl

/-- What is known of the first element of a normal program, and of the rest of it. -/
theorem IsNormal.of_cons {t : Token} {p : Program} (h : (cons t p).IsNormal) :
    p.IsNormal ∧ ∀ u ∈ p.tokens.head?, t.Apart u := by
  have hbodies : ∀ b ∈ p.bodies, b ∈ (cons t p).bodies := by
    intro b hb
    cases t with
    | move d => exact hb
    | cell a op => exact hb
    | loop c => exact List.mem_cons_of_mem c (List.mem_append_right _ hb)
  obtain ⟨⟨hm, hms⟩, ⟨hw, hws⟩, hl, hls⟩ := h
  rw [tokens_cons] at hm hw hl
  obtain ⟨-, hmove, hm⟩ := (movesLate_cons _ _).mp hm
  obtain ⟨hwrite, hw⟩ := (writesApart_cons _ _).mp hw
  obtain ⟨-, hl⟩ := (loopsMatter_cons _ _).mp hl
  refine ⟨⟨⟨hm, ?_⟩, ⟨hw, ?_⟩, hl, ?_⟩, fun u hu => ⟨hmove u hu, hwrite u hu⟩⟩
  · exact fun b hb => hms b (hbodies b hb)
  · exact fun b hb => hws b (hbodies b hb)
  · exact fun b hb => hls b (hbodies b hb)

/-- What is known of a loop in a normal program. -/
theorem IsNormal.of_loop {b p : Program} (h : (loop b p).IsNormal) :
    b.IsNormal ∧ ¬ (Token.loop b).isClearLoop := by
  obtain ⟨-, hm, -⟩ := (throughout_loop b p).mp h.moves
  obtain ⟨-, hw, -⟩ := (throughout_loop b p).mp h.writes
  obtain ⟨hl, hls, -⟩ := (throughout_loop b p).mp h.loops
  exact ⟨⟨hm, hw, hls⟩, ((loopsMatter_cons _ _).mp hl).1⟩

theorem loopToken_of_not_clear {b : Program} (h : ¬ (Token.loop b).isClearLoop) :
    loopToken b = .loop b := by
  unfold loopToken
  split
  · exact if_neg (by simpa [Token.isClearLoop] using h)
  · rfl

/-- Merging leaves `p` as it is, also after an element that is apart from it. -/
def Stays (p : Program) : Prop :=
  p.mergeAfter .nothing = p ∧
    ∀ last : Token, (∀ u ∈ p.tokens.head?, last.Apart u) → p.mergeAfter (.token last) = cons last p

/-- One element, where the rest of the program is known to stay as it is after it. -/
theorem letGo_of_mergeAfter_eq {t : Token} {p : Program} (h : p.mergeAfter (.token t) = cons t p) :
    letGo (Held.nothing.put t) (fun h => p.mergeAfter h) = cons t p ∧
      ∀ last : Token, (∀ u ∈ (t :: p.tokens).head?, last.Apart u) →
        letGo ((Held.token last).put t) (fun h => p.mergeAfter h) = cons last (cons t p) := by
  refine ⟨h, fun last apart => ?_⟩
  rw [Held.put, follow_of_apart (apart t rfl), letGo_eq]
  exact congrArg (cons last) h

/-- Merging does not change what is normal. -/
theorem stays_of_isNormal {p : Program} (h : p.IsNormal) : p.Stays := by
  induction p with
  | done => exact ⟨rfl, fun last _ => rfl⟩
  | move d p ih =>
    obtain ⟨hp, hnext⟩ := IsNormal.of_cons (t := .move d) h
    exact letGo_of_mergeAfter_eq (t := .move d) ((ih hp).2 _ hnext)
  | cell a op p ih =>
    obtain ⟨hp, hnext⟩ := IsNormal.of_cons (t := .cell a op) h
    exact letGo_of_mergeAfter_eq (t := .cell a op) ((ih hp).2 _ hnext)
  | loop b p ihb ih =>
    obtain ⟨hp, hnext⟩ := IsNormal.of_cons (t := .loop b) h
    obtain ⟨hb, hclear⟩ := h.of_loop
    have stays : loopToken (b.mergeAfter .nothing) = .loop b := by
      rw [(ihb hb).1, loopToken_of_not_clear hclear]
    simp only [Stays, mergeAfter, stays]
    exact letGo_of_mergeAfter_eq (t := .loop b) ((ih hp).2 _ hnext)

/-! ## Rounds -/

/-- The normal programs are those that a round does not change. -/
theorem round_eq_self_iff (p : Program) : p.round = p ↔ p.IsNormal := by
  constructor
  · intro h
    have postponed : p.IsPostponed := h ▸ round_isPostponed p
    have merged : p.merge = p := by
      -- Postponing does not make up for what merging takes away.
      rcases (merge_merges p).eq_or_size_lt with same | shorter
      · exact same
      · have le := (postpone_rewrites p.merge).size_le
        rw [show p.merge.postpone = p from h] at le
        omega
    obtain ⟨writes, loops⟩ := unfused_of_merge_eq merged
    refine ⟨?_, writes, loops⟩
    have late := movesLate_postponeFrom p 0
    rwa [show p.postponeFrom 0 = p from postponed] at late
  · intro h
    rw [round, show p.merge = p from (stays_of_isNormal h).1]
    exact postpone_of_movesLate h.moves

theorem Settles.round_eq {p q : Program} {r : Nat} (h : p.Settles r q) : q.round = q := by
  induction h with
  | rest fixed => exact fixed
  | again _ _ ih => exact ih

theorem roundLimit_pos (n : Int) : 1 ≤ roundLimit n := by
  unfold roundLimit defaultMaxRounds
  split <;> omega

/-- A normal program is optimized in one round, with any limit. -/
theorem optimize_of_isNormal {p : Program} (h : p.IsNormal) (n : Int) :
    p.optimize n = .ok ⟨p, 1⟩ := by
  have rests : p.Settles 1 p := .rest ((round_eq_self_iff p).mpr h)
  rw [optimize, rests.settle_eq, if_pos (roundLimit_pos n)]

theorem isNormal_of_optimize {p : Program} {n : Int} {r : Optimized} (h : p.optimize n = .ok r) :
    r.program.IsNormal := by
  obtain ⟨rounds, q, settles, -⟩ := exists_settles p
  rw [optimize, settles.settle_eq] at h
  split at h
  · cases h
    exact (round_eq_self_iff q).mp settles.round_eq
  · cases h

/-- Optimizing leaves a program as it is, and says so after one round, exactly if the program is
normal. Whatever optimizing gives is normal, so it does not change when it is optimized again. The
limit may be any number: one that is not positive stands for the default. -/
theorem optimize_settles_on_normal (p : Program) :
    (∀ n : Int, p.optimize n = .ok ⟨p, 1⟩ ↔ p.IsNormal) ∧
      ∀ (n : Int) (r : Optimized), p.optimize n = .ok r →
        r.program.IsNormal ∧ ∀ k : Int, r.program.optimize k = .ok ⟨r.program, 1⟩ := by
  refine ⟨fun n => ⟨fun h => ?_, fun h => optimize_of_isNormal h n⟩, fun n r h => ?_⟩
  · exact isNormal_of_optimize h
  · have normal := isNormal_of_optimize h
    exact ⟨normal, optimize_of_isNormal normal⟩

/-- A loop whose body comes down to one step, which is seen in the second round, and an operation in
front of it that is overridden then. -/
def drain : Program :=
  .move 2 (.cell 0 (.add 1) (.loop
    (.cell 1 (.add 1) (.move 1 (.cell 0 (.add (-1)) (.move (-1) (.cell 0 (.add (-1)) .done)))))
      .done))

theorem optimize_settles_on_normal_drain :
    ¬ drain.IsNormal ∧ ∃ q : Program, drain.optimize 4 = .ok ⟨q, 4⟩ ∧ q.IsNormal ∧
      q.optimize 1 = .ok ⟨q, 1⟩ := by
  have h : drain.optimize 4 = .ok ⟨.cell 2 (.set 0) (.move 2 .done), 4⟩ := by rfl
  obtain ⟨normal, again⟩ := (optimize_settles_on_normal drain).2 4 _ h
  exact ⟨by decide, _, h, normal, again 1⟩

end Program

end TapeLang
