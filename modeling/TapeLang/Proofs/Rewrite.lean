import TapeLang.Optimize

/-!
# Optimizing as rewriting

`p.RewritesTo q` says that `q` comes from `p` by rewriting neighbours, anywhere and any number of
times. Whatever each rule keeps, every optimized program has kept.

* `merge_rewrites` and `postpone_rewrites`: each pass is made of the rules.
* `optimize_rewrites`: so is any number of rounds.
* `RewritesTo.size_le`: no rule makes a program longer.

Merging gets by with `MergesTo`, whose rules all make a program shorter (`merge_merges`). So
it is known of merging that it changes a program only to shorten it
(`MergesTo.eq_or_size_lt`). The relation also tells by how much the loops changed their cells
that it replaces (`merge_merges_of_clearsBy`).
-/

namespace TapeLang.Program

/-- Rewriting of neighbours. The first four rules say that it goes on, and that it
happens anywhere. -/
inductive RewritesTo : Program → Program → Prop where
  | refl (p : Program) : RewritesTo p p
  | trans {p q r : Program} : RewritesTo p q → RewritesTo q r → RewritesTo p r
  | append {p p' q q' : Program} :
    RewritesTo p p' → RewritesTo q q' → RewritesTo (p ++ q) (p' ++ q')
  | loop {b b' : Program} : RewritesTo b b' → RewritesTo (.loop b .done) (.loop b' .done)
  | moveMove (d e : Int64) : RewritesTo (.move d (.move e .done)) (.move (d + e) .done)
  | moveZero : RewritesTo (.move 0 .done) .done
  | cellCell (a : Int64) {x y both : CellOp} (h : x.fuse? y = some both) :
    RewritesTo (.cell a x (.cell a y .done)) (.cell a both .done)
  | addZero (a : Int64) : RewritesTo (.cell a (.add 0) .done) .done
  /-- An operation goes past the move in front of it. -/
  | moveCell (d a : Int64) (op : CellOp) :
    RewritesTo (.move d (.cell a op .done)) (.cell (d + a) op (.move d .done))
  /-- A loop that only changes its own cell ends with zero there. -/
  | clearLoop (v : Int8) :
    RewritesTo (.loop (.cell 0 (.add v) .done) .done) (.cell 0 (.set 0) .done)

namespace RewritesTo

variable {p p' q q' : Program}

theorem append_left (p : Program) (h : q.RewritesTo q') : (p ++ q).RewritesTo (p ++ q') :=
  (refl p).append h

theorem append_right (h : p.RewritesTo p') (q : Program) : (p ++ q).RewritesTo (p' ++ q) :=
  h.append (refl q)

/-- A move and the move back meet when the first goes past the operation between them. -/
theorem moveBack {d back : Int64} (a : Int64) (op : CellOp) (h : d + back = 0) :
    (move d (cell a op (move back .done))).RewritesTo (cell (d + a) op .done) := by
  have past : (move d (cell a op (move back .done))).RewritesTo
      (cell (d + a) op (move d (move back .done))) :=
    (moveCell d a op).append_right (move back .done)
  have meet : (cell (d + a) op (move d (move back .done))).RewritesTo
      (cell (d + a) op (move (d + back) .done)) :=
    (moveMove d back).append_left (cell (d + a) op .done)
  have vanish : (cell (d + a) op (move 0 .done)).RewritesTo (cell (d + a) op .done) :=
    moveZero.append_left (cell (d + a) op .done)
  rw [h] at meet
  exact (past.trans meet).trans vanish

/-- No rule makes a program longer. -/
theorem size_le (h : p.RewritesTo q) : q.size ≤ p.size := by
  induction h with
  | refl p => exact Nat.le_refl _
  | trans _ _ ih ih' => exact Nat.le_trans ih' ih
  | append _ _ ih ih' => rw [size_append, size_append]; exact Nat.add_le_add ih ih'
  | loop _ ih => exact Nat.add_le_add_left ih 1
  | moveMove | moveZero | cellCell | addZero | moveCell | clearLoop => simp [size]

end RewritesTo

/-- Rewriting of neighbours by rules that all make a program shorter. A loop that becomes an
assignment changes its cell by one of `steps`. -/
inductive MergesTo (steps : Int8 → Prop) : Program → Program → Prop where
  | refl (p : Program) : MergesTo steps p p
  | trans {p q r : Program} : MergesTo steps p q → MergesTo steps q r → MergesTo steps p r
  | append {p p' q q' : Program} :
    MergesTo steps p p' → MergesTo steps q q' → MergesTo steps (p ++ q) (p' ++ q')
  | loop {b b' : Program} : MergesTo steps b b' → MergesTo steps (.loop b .done) (.loop b' .done)
  | moveMove (d e : Int64) : MergesTo steps (.move d (.move e .done)) (.move (d + e) .done)
  | moveZero : MergesTo steps (.move 0 .done) .done
  | cellCell (a : Int64) {x y both : CellOp} (h : x.fuse? y = some both) :
    MergesTo steps (.cell a x (.cell a y .done)) (.cell a both .done)
  | addZero (a : Int64) : MergesTo steps (.cell a (.add 0) .done) .done
  /-- A move and the move back around an operation go into its address. -/
  | moveBack {d back : Int64} (a : Int64) (op : CellOp) (h : d + back = 0) :
    MergesTo steps (.move d (.cell a op (.move back .done))) (.cell (d + a) op .done)
  | clearLoop {v : Int8} (h : steps v) :
    MergesTo steps (.loop (.cell 0 (.add v) .done) .done) (.cell 0 (.set 0) .done)

namespace MergesTo

variable {steps : Int8 → Prop} {p p' q q' : Program}

theorem append_left (p : Program) (h : q.MergesTo steps q') : (p ++ q).MergesTo steps (p ++ q') :=
  (refl p).append h

theorem append_right (h : p.MergesTo steps p') (q : Program) : (p ++ q).MergesTo steps (p' ++ q) :=
  h.append (refl q)

theorem rewritesTo (h : p.MergesTo steps q) : p.RewritesTo q := by
  induction h with
  | refl p => exact .refl p
  | trans _ _ ih ih' => exact ih.trans ih'
  | append _ _ ih ih' => exact ih.append ih'
  | loop _ ih => exact ih.loop
  | moveMove d e => exact .moveMove d e
  | moveZero => exact .moveZero
  | cellCell a h => exact .cellCell a h
  | addZero a => exact .addZero a
  | moveBack a op h => exact .moveBack a op h
  | clearLoop _ => exact .clearLoop _

/-- What merging changes it makes shorter. -/
theorem eq_or_size_lt (h : p.MergesTo steps q) : q = p ∨ q.size < p.size := by
  induction h with
  | refl p => exact .inl rfl
  | @trans p q r _ _ ih ih' =>
    rcases ih with rfl | lt
    · exact ih'
    · rcases ih' with rfl | lt'
      · exact .inr lt
      · exact .inr (Nat.lt_trans lt' lt)
  | append h h' ih ih' =>
    have le := h.rewritesTo.size_le
    have le' := h'.rewritesTo.size_le
    rcases ih with rfl | lt
    · rcases ih' with rfl | lt'
      · exact .inl rfl
      · right; rw [size_append, size_append]; omega
    · right; rw [size_append, size_append]; omega
  | loop _ ih =>
    rcases ih with rfl | lt
    · exact .inl rfl
    · exact .inr (Nat.add_lt_add_left lt 1)
  | moveMove | moveZero | cellCell | addZero | moveBack | clearLoop => right; simp [size]

/-- Merging does not go back and forth. -/
theorem antisymm (h : p.MergesTo steps q) (h' : q.MergesTo steps p) : q = p := by
  rcases h.eq_or_size_lt with same | shorter
  · exact same
  · exact absurd h'.rewritesTo.size_le (Nat.not_le.mpr shorter)

end MergesTo

/-! ## Merging -/

theorem cons_eq_append (t : Token) (p : Program) : cons t p = cons t .done ++ p := by
  cases t <;> rfl

theorem consAll_append (ts : List Token) (p q : Program) :
    consAll ts p ++ q = consAll ts (p ++ q) := by
  induction ts with
  | nil => rfl
  | cons t ts ih =>
    show cons t (consAll ts p) ++ q = cons t (consAll ts (p ++ q))
    rw [cons_eq_append, append_assoc, ih, ← cons_eq_append]

section Merging

variable {steps : Int8 → Prop}

theorem consAll_merges (ts : List Token) {p q : Program} (h : p.MergesTo steps q) :
    (consAll ts p).MergesTo steps (consAll ts q) := by
  have hp := consAll_append ts .done p
  have hq := consAll_append ts .done q
  rw [done_append] at hp hq
  rw [← hp, ← hq]
  exact h.append_left _

theorem ofMove_merges (d : Int64) : (move d .done).MergesTo steps (Merge.Held.ofMove d).flush := by
  unfold Merge.Held.ofMove
  split
  · rename_i h; subst h; exact .moveZero
  · exact .refl _

theorem ofCell_merges (a : Int64) (op : CellOp) :
    (cell a op .done).MergesTo steps (Merge.Held.ofCell a op).flush := by
  unfold Merge.Held.ofCell
  split
  · rename_i h; subst h; exact .addZero a
  · exact .refl _

/-- Holding back `t` after a single element. -/
theorem follow_merges (last t : Token) :
    (cons last (cons t .done)).MergesTo steps
      (consAll (Merge.Held.follow last t).1 (Merge.Held.follow last t).2.flush) := by
  unfold Merge.Held.follow
  split
  · exact (MergesTo.moveMove _ _).trans (ofMove_merges _)
  · exact .refl _
  · rename_i a op a' op'
    split
    · rename_i both h
      split at h
      · rename_i ha
        subst ha
        exact (MergesTo.cellCell _ h).trans (ofCell_merges _ _)
      · simp at h
    · exact .refl _
  · exact .refl _

/-- Holding back `t` after what is held. -/
theorem put_merges (held : Merge.Held) (t : Token) :
    (held.flush ++ cons t .done).MergesTo steps (consAll (held.put t).1 (held.put t).2.flush) := by
  unfold Merge.Held.put
  split
  · exact .refl _
  · rename_i last
    show (cons last .done ++ cons t .done).MergesTo steps _
    rw [← cons_eq_append]
    exact follow_merges last t
  · rename_i d a op back
    split
    · rename_i h
      exact .moveBack a op h
    · exact .refl _
  · rename_i d a op _
    exact (follow_merges (.cell a op) t).append_left (move d .done)

theorem loopToken_merges {b : Program} (h : ∀ v, v ≠ 0 → b = .cell 0 (.add v) .done → steps v) :
    (loop b .done).MergesTo steps (cons (Merge.loopToken b) .done) := by
  unfold Merge.loopToken
  split
  · split
    · rename_i a v hv
      obtain ⟨rfl, hv⟩ := hv
      exact .clearLoop (h v hv rfl)
    · exact .refl _
  · exact .refl _

/-- One more element after what is held: the step that merging repeats. -/
theorem mergeStep_merges {held : Merge.Held} {t : Token} {p : Program}
    (ih : ∀ h : Merge.Held, (h.flush ++ p).MergesTo steps (p.mergeAfter h)) :
    (held.flush ++ cons t p).MergesTo steps (letGo (held.put t) fun h => p.mergeAfter h) := by
  rw [letGo_eq, cons_eq_append, ← append_assoc]
  refine ((put_merges held t).append_right p).trans ?_
  rw [consAll_append]
  exact consAll_merges _ (ih _)

/-- The bodies of the loops of a program, at every depth. -/
def bodies : Program → List Program
  | done => []
  | move _ p | cell _ _ p => p.bodies
  | loop b p => b :: (b.bodies ++ p.bodies)

/-- The loops that merging replaces by an assignment change their cells by one of `steps`. -/
def ClearsBy (steps : Int8 → Prop) (p : Program) : Prop :=
  ∀ b ∈ p.bodies, ∀ v, v ≠ 0 → b.merge = .cell 0 (.add v) .done → steps v

theorem clearsBy_loop {b p : Program} (h : (loop b p).ClearsBy steps) :
    b.ClearsBy steps ∧ p.ClearsBy steps ∧
      ∀ v, v ≠ 0 → b.merge = .cell 0 (.add v) .done → steps v := by
  refine ⟨fun q hq => h q ?_, fun q hq => h q ?_, h b List.mem_cons_self⟩
  · exact List.mem_cons_of_mem b (List.mem_append_left _ hq)
  · exact List.mem_cons_of_mem b (List.mem_append_right _ hq)

theorem mergeAfter_merges {p : Program} (h : p.ClearsBy steps) (held : Merge.Held) :
    (held.flush ++ p).MergesTo steps (p.mergeAfter held) := by
  induction p generalizing held with
  | done => rw [append_done]; exact .refl _
  | move d p ih => exact mergeStep_merges (t := .move d) (ih h)
  | cell a op p ih => exact mergeStep_merges (t := .cell a op) (ih h)
  | loop b p ihb ih =>
    obtain ⟨hb, hp, hv⟩ := clearsBy_loop h
    refine .trans ?_ (mergeStep_merges (t := Merge.loopToken (b.mergeAfter .nothing)) (ih hp))
    refine .append_left _ ?_
    rw [cons_eq_append]
    exact (((ihb hb .nothing).loop).trans (loopToken_merges hv)).append_right p

theorem merge_merges_of_clearsBy {p : Program} (h : p.ClearsBy steps) : p.MergesTo steps p.merge :=
  mergeAfter_merges h .nothing

end Merging

theorem merge_merges (p : Program) : p.MergesTo (fun _ => True) p.merge :=
  merge_merges_of_clearsBy fun _ _ _ _ _ => trivial

theorem merge_rewrites (p : Program) : p.RewritesTo p.merge :=
  (merge_merges p).rewritesTo

/-! ## Postponing -/

theorem move_rewrites (d : Int64) (p : Program) : (move d p).RewritesTo (moveBy d p) := by
  unfold moveBy
  split
  · rename_i h; subst h; exact RewritesTo.moveZero.append_right p
  · exact .refl _

theorem moveBy_rewrites (d : Int64) {p q : Program} (h : p.RewritesTo q) :
    (moveBy d p).RewritesTo (moveBy d q) := by
  unfold moveBy
  split
  · exact h
  · exact h.append_left (move d .done)

/-- A move joins the one in front of it. -/
theorem moveBy_move_rewrites (d e : Int64) (p : Program) :
    (moveBy d (move e p)).RewritesTo (moveBy (d + e) p) := by
  rw [moveBy]
  split
  · rename_i h; subst h
    rw [Int64.zero_add]
    exact move_rewrites e p
  · exact ((RewritesTo.moveMove d e).append_right p).trans (move_rewrites (d + e) p)

/-- An operation goes past the move in front of it, if there is one. -/
theorem moveBy_cell_rewrites (d a : Int64) (op : CellOp) (p : Program) :
    (moveBy d (cell a op p)).RewritesTo (cell (a + d) op (moveBy d p)) := by
  unfold moveBy
  split
  · rename_i h; subst h
    rw [Int64.add_zero]
    exact .refl _
  · rw [Int64.add_comm a d]
    exact (RewritesTo.moveCell d a op).append_right p

theorem postponeFrom_rewrites (p : Program) (d : Int64) :
    (moveBy d p).RewritesTo (p.postponeFrom d) := by
  induction p generalizing d with
  | done => exact .refl _
  | move e p ih => exact (moveBy_move_rewrites d e p).trans (ih (d + e))
  | cell a op p ih =>
    exact (moveBy_cell_rewrites d a op p).trans ((ih d).append_left (cell (a + d) op .done))
  | loop b p ihb ih => exact moveBy_rewrites d ((ihb 0).loop.append (ih 0))

theorem postpone_rewrites (p : Program) : p.RewritesTo p.postpone :=
  postponeFrom_rewrites p 0

/-! ## Rounds -/

theorem round_rewrites (p : Program) : p.RewritesTo p.round :=
  (merge_rewrites p).trans (postpone_rewrites p.merge)

/-- What optimizing gives is the result of a round, on what the program was rewritten to. -/
theorem settle_eq_round {made left : Nat} {p : Program} {r : Optimized}
    (h : settle made p left = .ok r) : ∃ q, p.RewritesTo q ∧ r.program = q.round := by
  induction left generalizing made p with
  | zero => simp [settle] at h
  | succ left ih =>
    simp only [settle] at h
    split at h
    · rw [Except.ok.injEq] at h
      subst h
      exact ⟨p, .refl p, rfl⟩
    · obtain ⟨q, hq, hr⟩ := ih h
      exact ⟨q, (round_rewrites p).trans hq, hr⟩

theorem optimize_rewrites {p : Program} {n : Int} {r : Optimized} (h : p.optimize n = .ok r) :
    p.RewritesTo r.program := by
  obtain ⟨q, hq, hr⟩ := settle_eq_round h
  rw [hr]
  exact hq.trans (round_rewrites q)

end TapeLang.Program
