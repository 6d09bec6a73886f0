import TapeLang.Proofs.Accept
import TapeLang.Proofs.Run

/-!
# Walking along the symbols

The language without programs: a walker has a place among the symbols and a machine, does what the
symbol at its place says, and goes on to the next one. A bracket looks at the cell and may send the
walker to its partner (`Symbol.closing?`, `Symbol.opening?`).

* `Walker.step` and `walk`: one step and a number of steps. `Halts` and `RunsForever`: how walks
  end, or do not.
* `Tracks syms w next c o`: the walk from `w` does what a run with `c` checks and the outcome `o`
  does. It comes to `next` with the same machine, or halts with the same fault; and it makes at
  least one step for every check that the run spends, so that a canceled run stands for a long walk.
* `tracks_run`: the walk along the symbols of a program tracks its run. A loop is tracked by
  induction on the checks, since every test spends one (`tracks_loop`).
* `walk_agrees_with_run`: walking along the symbols of a balanced source is running its program.
-/

namespace TapeLang

/-- A place among symbols, and the machine that they work on. -/
structure Walker where
  next : Nat
  machine : Machine

/-- What a step leads to. -/
inductive Stride where
  | on (w : Walker)
  | halted (machine : Machine) (fault : Option Fault)

namespace Walker

/-- Goes on to the next symbol with another machine. -/
def advance (w : Walker) (m : Machine) : Stride :=
  .on ⟨w.next + 1, m⟩

/-- Goes on with the position of the cell at the pointer, and halts if that is outside the tape. -/
def atCell (w : Walker) (go : Nat → Stride) : Stride :=
  match w.machine.index? 0 with
  | none => .halted w.machine (some (.pointerOutOfRange w.machine.pointer))
  | some i => go i

/-- Goes to one place if the cell is zero, and to another if it is not. -/
def branch (w : Walker) (ifZero ifNot : Nat) : Stride :=
  w.atCell fun i => .on ⟨if w.machine.cellAt i = 0 then ifZero else ifNot, w.machine⟩

/-- Does what the symbol at the walker's place says, and halts behind the last one. A bracket
without a partner stands for its own partner. -/
def step (syms : List Symbol) (w : Walker) : Stride :=
  let m := w.machine
  match syms[w.next]? with
  | none => .halted m none
  | some .right => w.advance (m.moved 1)
  | some .left => w.advance (m.moved (-1))
  | some .increment => w.atCell fun i => w.advance (m.setCell i (m.cellAt i + 1))
  | some .decrement => w.atCell fun i => w.advance (m.setCell i (m.cellAt i - 1))
  | some .print => w.atCell fun i =>
    match m.console.write (m.cellAt i) with
    | .ok c => w.advance { m with console := c }
    | .error e => .halted m (some (.console e))
  | some .read => w.atCell fun i =>
    match m.console.read with
    | .ok (b, c) => w.advance ({ m with console := c }.setCell i b)
    | .error e => .halted m (some (.console e))
  | some .loopStart => w.branch ((Symbol.closing? syms w.next).getD w.next + 1) (w.next + 1)
  | some .loopEnd => w.branch (w.next + 1) ((Symbol.opening? syms w.next).getD w.next)

end Walker

/-- Makes `n` steps, fewer if the walk halts before. -/
def walk (syms : List Symbol) : Nat → Walker → Stride
  | 0, w => .on w
  | n + 1, w =>
    match w.step syms with
    | .on w' => walk syms n w'
    | .halted m f => .halted m f

/-- The walk from `w` halts with this machine and this fault. At the end of the symbols there
is none. -/
def Halts (syms : List Symbol) (w : Walker) (m : Machine) (f : Option Fault) : Prop :=
  ∃ n, walk syms n w = .halted m f

def RunsForever (syms : List Symbol) (w : Walker) : Prop :=
  ∀ n, ∃ w', walk syms n w = .on w'

/-! ## Walks -/

section Walk

variable {syms : List Symbol} {w w' : Walker} {n : Nat} {m : Machine} {f : Option Fault}

theorem walk_add (h : walk syms n w = .on w') (k : Nat) : walk syms (n + k) w = walk syms k w' := by
  induction n generalizing w with
  | zero =>
    cases h
    rw [Nat.zero_add]
  | succ n ih =>
    rw [Nat.succ_add]
    simp only [walk] at h ⊢
    rcases hs : w.step syms with u | ⟨m, f⟩
    · rw [hs] at h
      exact ih h
    · rw [hs] at h
      cases h

theorem walk_add_of_halted (h : walk syms n w = .halted m f) (k : Nat) :
    walk syms (n + k) w = .halted m f := by
  induction n generalizing w with
  | zero => cases h
  | succ n ih =>
    rw [Nat.succ_add]
    simp only [walk] at h ⊢
    rcases hs : w.step syms with u | ⟨m', f'⟩
    · rw [hs] at h
      exact ih h
    · rw [hs] at h
      exact h

theorem walk_one (w : Walker) : walk syms 1 w = w.step syms := by
  simp only [walk]
  rcases w.step syms with u | ⟨m, f⟩ <;> rfl

/-- A walk that goes on has gone on all the time. -/
theorem exists_walk_of_le {k : Nat} (h : walk syms n w = .on w') (hk : k ≤ n) :
    ∃ u, walk syms k w = .on u := by
  rcases hs : walk syms k w with u | ⟨m, f⟩
  · exact ⟨u, rfl⟩
  · obtain ⟨d, rfl⟩ := Nat.exists_eq_add_of_le hk
    rw [walk_add_of_halted hs] at h
    cases h

theorem Halts.unique {m' : Machine} {f' : Option Fault} (h : Halts syms w m f)
    (h' : Halts syms w m' f') :
    m = m' ∧ f = f' := by
  obtain ⟨n, hn⟩ := h
  obtain ⟨n', hn'⟩ := h'
  have e := walk_add_of_halted hn n'
  rw [Nat.add_comm, walk_add_of_halted hn', Stride.halted.injEq] at e
  exact ⟨e.1.symm, e.2.symm⟩

end Walk

/-! ## Steps -/

namespace Walker

/-- A symbol that works on the cell is its operation. -/
theorem step_cell {syms : List Symbol} {s : Symbol} {op : CellOp} {i : Nat} (hi : syms[i]? = some s)
    (hs : s.token? = some (.cell 0 op)) (m : Machine) :
    step syms ⟨i, m⟩ =
      match (m.step 0 op).2 with
      | none => .on ⟨i + 1, (m.step 0 op).1⟩
      | some f => .halted (m.step 0 op).1 (some f) := by
  rcases hx : m.index? 0 with _ | x
  · rw [Machine.step_outside hx, Machine.target, Int64.add_zero]
    cases s with
    | right | left | loopStart | loopEnd => simp [Symbol.token?] at hs
    | increment | decrement | print | read => simp only [step, hi, atCell, hx]
  · rw [Machine.step_inside hx]
    cases s with
    | right | left | loopStart | loopEnd => simp [Symbol.token?] at hs
    | increment | decrement =>
      cases hs
      simp only [step, hi, atCell, hx, Machine.perform, advance, UInt8.sub_eq_add_neg]
      rfl
    | print =>
      cases hs
      simp only [step, hi, atCell, hx, Machine.perform]
      rcases m.console.write (m.cellAt x) with e | c <;> rfl
    | read =>
      cases hs
      simp only [step, hi, atCell, hx, Machine.perform]
      rcases m.console.read with e | ⟨b, c⟩ <;> rfl

section Branch

variable {w : Walker} (ifZero ifNot : Nat)

theorem branch_outside (h : w.machine.test = .outside) :
    w.branch ifZero ifNot = .halted w.machine (some (.pointerOutOfRange (w.machine.target 0))) := by
  rw [Machine.target, Int64.add_zero, branch, atCell]
  rcases hi : w.machine.index? 0 with _ | i
  · rfl
  · simp only [Machine.test, hi] at h
    split at h <;> cases h

theorem branch_zero (h : w.machine.test = .zero) :
    w.branch ifZero ifNot = .on ⟨ifZero, w.machine⟩ := by
  rw [branch, atCell]
  rcases hi : w.machine.index? 0 with _ | i
  · simp [Machine.test, hi] at h
  · by_cases hz : w.machine.cellAt i = 0
    · simp only [if_pos hz]
    · simp [Machine.test, hi, hz] at h

theorem branch_nonzero (h : w.machine.test = .nonzero) :
    w.branch ifZero ifNot = .on ⟨ifNot, w.machine⟩ := by
  rw [branch, atCell]
  rcases hi : w.machine.index? 0 with _ | i
  · simp [Machine.test, hi] at h
  · by_cases hz : w.machine.cellAt i = 0
    · simp [Machine.test, hi, hz] at h
    · simp only [if_neg hz]

end Branch

end Walker

/-! ## Walks that do what a run does -/

/-- The walk from `w` does what a run with `c` checks does, and is at `next` where the run ends. -/
inductive Tracks (syms : List Symbol) (w : Walker) (next c : Nat) : Outcome → Prop where
  | arrives {n left : Nat} {m : Machine} (hn : c ≤ n + left) (h : walk syms n w = .on ⟨next, m⟩) :
    Tracks syms w next c ⟨m, left, none⟩
  | goesOn {n left : Nat} {m : Machine} {w' : Walker} (hn : c ≤ n) (h : walk syms n w = .on w') :
    Tracks syms w next c ⟨m, left, some .canceled⟩
  | halts {n left : Nat} {m : Machine} {f : Fault} (hf : f ≠ .canceled)
    (h : walk syms n w = .halted m (some f)) : Tracks syms w next c ⟨m, left, some f⟩

namespace Tracks

variable {syms : List Symbol} {w w' : Walker} {next next' c : Nat} {o : Outcome}

/-- Some steps before, with as many checks more to spend at most. -/
theorem after {n c' : Nat} (hw : walk syms n w = .on w') (hc : c' ≤ n + c)
    (h : Tracks syms w' next c o) :
    Tracks syms w next c' o := by
  cases h with
  | @arrives k left m hn h =>
    rw [← walk_add hw] at h
    exact .arrives (by omega) h
  | @goesOn k left m u hn h =>
    rw [← walk_add hw] at h
    exact .goesOn (by omega) h
  | @halts k left m f hf h =>
    rw [← walk_add hw] at h
    exact .halts hf h

/-- Two walks in a row track two runs in a row. -/
theorem andThen {go : Nat → Machine → Outcome} (h : Tracks syms w next c o)
    (hgo : o.fault = none → Tracks syms ⟨next, o.machine⟩ next' o.checks (go o.checks o.machine)) :
    Tracks syms w next' c (o.andThen go) := by
  cases h with
  | arrives hn h => exact .after h hn (hgo rfl)
  | goesOn hn h => exact .goesOn hn h
  | halts hf h => exact .halts hf h

end Tracks

namespace Machine

section Loop

variable {syms : List Symbol} {next : Nat} {b p : Program}

/-- What either bracket of a loop makes of a run of the loop that has a check left: behind the
loop is the rest of the program, and what is left to show is where the bracket leads if the cell
is not zero. -/
theorem tracks_branch {j ifNot : Nat} {w : Walker} (hw : w.step syms = w.branch (j + 1) ifNot)
    (c : Nat) (hp : Tracks syms ⟨j + 1, w.machine⟩ next c (run p c w.machine))
    (hn : w.machine.test = .nonzero →
      Tracks syms ⟨ifNot, w.machine⟩ next c (run (.loop b p) (c + 1) w.machine)) :
    Tracks syms w next (c + 1) (run (.loop b p) (c + 1) w.machine) := by
  rw [← walk_one] at hw
  rcases ht : w.machine.test with _ | _ | _
  · rw [w.branch_outside _ _ ht] at hw
    rw [run_loop_outside b p c ht]
    exact .halts (by simp) hw
  · rw [w.branch_zero _ _ ht] at hw
    rw [run_loop_exit b p c ht]
    exact .after hw (by omega) hp
  · rw [w.branch_nonzero _ _ ht] at hw
    exact .after hw (by omega) (hn ht)

/-- A loop is tracked if its body and the rest of the program are. -/
theorem tracks_loop {i j : Nat} (hi : syms[i]? = some .loopStart) (hj : syms[j]? = some .loopEnd)
    (hclose : Symbol.closing? syms i = some j) (hopen : Symbol.opening? syms j = some i)
    (hb : ∀ c m, Tracks syms ⟨i + 1, m⟩ j c (run b c m))
    (hp : ∀ c m, Tracks syms ⟨j + 1, m⟩ next c (run p c m)) (c : Nat) (m : Machine) :
    Tracks syms ⟨i, m⟩ next c (run (.loop b p) c m) := by
  have hstart (m : Machine) :
      (⟨i, m⟩ : Walker).step syms = Walker.branch ⟨i, m⟩ (j + 1) (i + 1) := by
    simp only [Walker.step, hi, hclose, Option.getD_some]
  have hend (m : Machine) : (⟨j, m⟩ : Walker).step syms = Walker.branch ⟨j, m⟩ (j + 1) i := by
    simp only [Walker.step, hj, hopen, Option.getD_some]
  induction c using Nat.strongRecOn generalizing m with
  | _ c again =>
    cases c with
    | zero =>
      rw [run_loop_zero]
      exact .goesOn (Nat.le_refl 0) rfl
    | succ c =>
      refine tracks_branch (hstart m) c (hp c m) fun ht => ?_
      rw [run_loop_again b p c ht]
      refine (hb c m).andThen fun _ => ?_
      -- The body has come to the end of the loop, which tests the cell before the start does so
      -- again.
      have hle := run_checks_le b c m
      rcases hl : (run b c m).checks with _ | left
      · rw [run_loop_zero]
        exact .goesOn (Nat.le_refl 0) rfl
      · refine tracks_branch (hend _) left (hp left _) fun _ => ?_
        exact .after (n := 0) rfl (by omega) (again (left + 1) (by omega) _)

end Loop

section Symbol

variable {syms : List Symbol} {s : Symbol} {i : Nat}

theorem tracks_move {m : Machine} {d : Int64} (h : Walker.step syms ⟨i, m⟩ = .on ⟨i + 1, m.moved d⟩)
    (c : Nat) : Tracks syms ⟨i, m⟩ (i + 1) c (run (.move d .done) c m) := by
  rw [run_move, run_done]
  exact .arrives (Nat.le_add_left c 1) ((walk_one _).trans h)

theorem tracks_cell {op : CellOp} (hi : syms[i]? = some s) (hs : s.token? = some (.cell 0 op))
    (c : Nat) (m : Machine) : Tracks syms ⟨i, m⟩ (i + 1) c (run (.cell 0 op .done) c m) := by
  have hw := Walker.step_cell hi hs m
  rw [← walk_one] at hw
  have hne := fault_step_ne m 0 op
  rw [run_cell, stepOutcome]
  rcases hf : (m.step 0 op).2 with _ | f
  · rw [hf] at hw
    rw [RunEnd.andThen_of_none rfl, run_done]
    exact .arrives (Nat.le_add_left c 1) hw
  · rw [hf] at hw hne
    rw [RunEnd.andThen_of_some rfl]
    exact .halts (fun e => hne (congrArg some e)) hw

/-- A symbol that is no bracket is tracked by one step. -/
theorem tracks_symbol {t : Token} (hi : syms[i]? = some s) (ht : s.token? = some t) (c : Nat)
    (m : Machine) : Tracks syms ⟨i, m⟩ (i + 1) c (run (.cons t .done) c m) := by
  cases s with
  | loopStart | loopEnd => cases ht
  | right | left =>
    cases ht
    exact tracks_move (by simp only [Walker.step, hi, Walker.advance]) c
  | increment | decrement | print | read =>
    cases ht
    exact tracks_cell hi rfl c m

end Symbol

/-- The walk along the symbols of a program tracks its run, wherever they stand. -/
theorem tracks_run {p : Program} {a : List Symbol} (hp : p.Spells a) (before rest : List Symbol)
    (c : Nat) (m : Machine) :
    Tracks (before ++ (a ++ rest)) ⟨before.length, m⟩ (before.length + a.length) c (run p c m) := by
  induction hp generalizing before rest c m with
  | done =>
    rw [run_done]
    exact .arrives (n := 0) (Nat.le_add_left c 0) rfl
  | @step s t p a ht _ ih =>
    have hrun : run (.cons t p) c m = (run (.cons t .done) c m).andThen (run p) := by
      rw [← run_append, Program.cons_append, Program.done_append]
    rw [hrun]
    refine (tracks_symbol (by simp) ht c m).andThen fun _ => ?_
    have h :=
      ih (before ++ [s]) rest (run (.cons t .done) c m).checks (run (.cons t .done) c m).machine
    simp only [List.append_assoc, List.cons_append, List.nil_append, List.length_append,
      List.length_cons, List.length_nil] at h ⊢
    rw [Nat.add_comm a.length, ← Nat.add_assoc]
    exact h
  | @loop b p a c' hb _ ihb ih =>
    have hdepth := hb.depthAfter_eq 0
    have hsyms : before ++ (.loopStart :: (a ++ .loopEnd :: c') ++ rest) =
        before ++ .loopStart :: (a ++ .loopEnd :: (c' ++ rest)) := by simp
    rw [hsyms]
    refine tracks_loop (j := before.length + 1 + a.length) (by simp)
      (Symbol.getElem?_behind before a _ _ _)
      (Symbol.closing?_eq hdepth before _) (Symbol.opening?_eq hdepth before _) (fun c m => ?_)
      (fun c m => ?_) c m
    · have h := ihb (before ++ [.loopStart]) (.loopEnd :: (c' ++ rest)) c m
      simpa using h
    · have h := ih (before ++ .loopStart :: (a ++ [.loopEnd])) rest c m
      simp only [List.append_assoc, List.cons_append, List.nil_append, List.length_append,
        List.length_cons, List.length_nil] at h ⊢
      have hnext :
          before.length + 1 + a.length + 1 = before.length + (a.length + (0 + 1) + 1) := by omega
      have hend : before.length + (a.length + (c'.length + 1) + 1) =
          before.length + (a.length + (0 + 1) + 1) + c'.length := by omega
      rw [hnext, hend]
      exact h

end Machine

/-! ## The whole walk -/

section Whole

variable {syms : List Symbol} {w : Walker} {c : Nat} {o : Outcome}

/-- A run that is not canceled says how the walk ends. -/
theorem Tracks.halts_of_ne (h : Tracks syms w syms.length c o) (hf : o.fault ≠ some .canceled) :
    Halts syms w o.machine o.fault := by
  cases h with
  | @arrives n left m hn h =>
    refine ⟨n + 1, ?_⟩
    rw [walk_add h, walk_one, Walker.step, List.getElem?_eq_none (Nat.le_refl _)]
  | goesOn hn h => exact absurd rfl hf
  | @halts n left m f hf h => exact ⟨n, h⟩

/-- A canceled run says that the walk goes on for as many steps as there were checks. -/
theorem Tracks.exists_walk {next : Nat} (h : Tracks syms w next c o)
    (hf : o.fault = some .canceled) :
    ∃ w', walk syms c w = .on w' := by
  cases h with
  | arrives hn h => cases hf
  | goesOn hn h => exact exists_walk_of_le h hn
  | halts hne h => exact absurd (Option.some.inj hf) hne

end Whole

section Agree

open Machine (run)

variable {syms : List Symbol} {p : Program} {m : Machine}

/-- A walk halts in the way in which all runs with enough checks end. -/
theorem halts_iff (tracks : ∀ c, Tracks syms ⟨0, m⟩ syms.length c (run p c m)) (m' : Machine)
    (f : Option Fault) :
    Halts syms ⟨0, m⟩ m' f ↔
      f ≠ some .canceled ∧ ∃ c₀, ∀ c, c₀ ≤ c →
        (run p c m).machine = m' ∧ (run p c m).fault = f := by
  constructor
  · rintro ⟨n, hn⟩
    -- With as many checks as the walk has steps, canceling the run would let the walk go on.
    have ends (c : Nat) (hc : n ≤ c) : (run p c m).fault ≠ some .canceled := by
      intro hf
      obtain ⟨w', hw⟩ := (tracks c).exists_walk hf
      obtain ⟨u, hu⟩ := exists_walk_of_le hw hc
      rw [hn] at hu
      cases hu
    have same (c : Nat) (hc : n ≤ c) : (run p c m).machine = m' ∧ (run p c m).fault = f :=
      ((tracks c).halts_of_ne (ends c hc)).unique ⟨n, hn⟩
    refine ⟨?_, n, same⟩
    rw [← (same n (Nat.le_refl n)).2]
    exact ends n (Nat.le_refl n)
  · rintro ⟨hf, c₀, h⟩
    obtain ⟨rfl, rfl⟩ := h c₀ (Nat.le_refl c₀)
    exact (tracks c₀).halts_of_ne hf

/-- A walk runs forever if every run is canceled. -/
theorem runsForever_iff (tracks : ∀ c, Tracks syms ⟨0, m⟩ syms.length c (run p c m)) :
    RunsForever syms ⟨0, m⟩ ↔ ∀ c, (run p c m).fault = some .canceled := by
  constructor
  · intro forever c
    by_contra hf
    obtain ⟨n, hn⟩ := (tracks c).halts_of_ne hf
    obtain ⟨w', hw⟩ := forever n
    rw [hn] at hw
    cases hw
  · intro canceled n
    exact (tracks n).exists_walk (canceled n)

/-- Walking along the symbols of a balanced source is running its program, from every machine and
with every console. The walk halts with a machine and a fault, or without one, exactly if all runs
with enough checks end with that machine and that fault; and it runs forever exactly if every run
is canceled. -/
theorem walk_agrees_with_run (source : List UInt8) (h : Symbol.Balanced (Symbol.lex source)) :
    ∃ p, Program.parse source = .ok p ∧ ∀ m : Machine,
      (∀ m' f, Halts (Symbol.lex source) ⟨0, m⟩ m' f ↔
        f ≠ some .canceled ∧
          ∃ c₀, ∀ c, c₀ ≤ c → (run p c m).machine = m' ∧ (run p c m).fault = f) ∧
      (RunsForever (Symbol.lex source) ⟨0, m⟩ ↔ ∀ c, (run p c m).fault = some .canceled) := by
  obtain ⟨p, hp⟩ := Program.exists_build_of_balanced h
  have hparse : Program.parse source = .ok p := hp
  refine ⟨p, hparse, fun m => ?_⟩
  have tracks (c : Nat) :
      Tracks (Symbol.lex source) ⟨0, m⟩ (Symbol.lex source).length c (run p c m) := by
    have ht := Machine.tracks_run (Program.spells_of_parse hparse) [] [] c m
    rw [List.append_nil, List.nil_append, List.length_nil, Nat.zero_add] at ht
    exact ht
  exact ⟨halts_iff tracks, runsForever_iff tracks⟩

/-- One loop in another, on a tape of one cell: `+[[-]]` sets the cell, and the inner loop
clears it. -/
theorem walk_agrees_with_run_nested :
    Symbol.Balanced (Symbol.lex [0x2b, 0x5b, 0x5b, 0x2d, 0x5d, 0x5d]) ∧
      ∃ p, Program.parse [0x2b, 0x5b, 0x5b, 0x2d, 0x5d, 0x5d] = .ok p ∧
        ∃ c₀, ∀ c, c₀ ≤ c →
          (run p c ⟨#[0], 0, {}⟩).machine = ⟨#[0], 0, {}⟩ ∧
            (run p c ⟨#[0], 0, {}⟩).fault = none := by
  have balanced : Symbol.Balanced (Symbol.lex [0x2b, 0x5b, 0x5b, 0x2d, 0x5d, 0x5d]) :=
    Symbol.balanced_iff_depthAfter.mpr rfl
  refine ⟨balanced, ?_⟩
  obtain ⟨p, hp, agrees⟩ := walk_agrees_with_run _ balanced
  exact ⟨p, hp, (((agrees ⟨#[0], 0, {}⟩).1 _ none).mp ⟨7, rfl⟩).2⟩

end Agree

end TapeLang
