import TapeLang.Compile
import TapeLang.Proofs.Accept
import TapeLang.Proofs.Normal

/-!
# Programs that need many rounds

Merging looks at neighbours. Where two of them cancel out, it does not look again at what stood in
front of them. So changes that are taken back in reverse order go away from the inside, one pair in
each round.

* `pairs`: cells in a row are changed, and the changes are taken back in reverse order.
  `round_pairs`: a round takes away the innermost pair.
* `layers`: the same with moves between the cells, as in a source. `round_layers`: the first round
  makes pairs of it. So it takes two rounds more than it has layers (`settles_layers`).
* `no_round_limit_suffices`: for every limit there is a source that needs one round more.
-/

namespace TapeLang

namespace Program

/-! ## Pairs -/

/-- Changes `n` cells from `a` on, and takes the changes back in reverse order before `rest`. -/
def pairs (a : Int64) : Nat → Program → Program
  | 0, rest => rest
  | n + 1, rest => cell a (.add 1) (pairs (a + 1) n (cell a (.add (-1)) rest))

theorem size_pairs (a : Int64) (n : Nat) (rest : Program) :
    (pairs a n rest).size = 2 * n + rest.size := by
  induction n generalizing a rest with
  | zero => simp [pairs]
  | succ n ih =>
    rw [pairs, size, ih, size]
    omega

theorem postponeFrom_pairs (a : Int64) (n : Nat) (rest : Program) :
    (pairs a n rest).postponeFrom 0 = pairs a n (rest.postponeFrom 0) := by
  induction n generalizing a rest with
  | zero => rfl
  | succ n ih => rw [pairs, postponeFrom, ih, postponeFrom, Int64.add_zero, pairs]

/-- One more change is taken back in front of changes of other cells. -/
theorem isNormal_takeBack {a : Int64} {rest : Program} (h : (cell a (.add (-1)) rest).IsNormal) :
    (cell (a + 1) (.add (-1)) (cell a (.add (-1)) rest)).IsNormal := by
  obtain ⟨⟨hm, hms⟩, ⟨hw, hws⟩, hl, hls⟩ := h
  refine ⟨⟨(movesLate_cons _ _).mpr ⟨by simp, by simp [Token.isMove], hm⟩, hms⟩,
    ⟨(writesApart_cons _ _).mpr ⟨?_, hw⟩, hws⟩,
    (loopsMatter_cons _ _).mpr ⟨by simp [Token.isClearLoop], hl⟩, hls⟩
  intro u hu
  obtain rfl : Token.cell a (.add (-1)) = u := by simpa [tokens] using hu
  simp [Token.writesWith]

/-- Merging takes away the innermost pair, and looks at the pairs around it no more. -/
theorem mergeAfter_pairs (a : Int64) (n : Nat) {rest : Program}
    (h : (cell a (.add (-1)) rest).IsNormal) :
    (pairs (a + 1) n (cell a (.add (-1)) rest)).mergeAfter (.token (.cell a (.add 1))) =
      pairs a n rest := by
  induction n generalizing a rest with
  | zero =>
    have hput :
        (Merge.Held.token (.cell a (.add 1))).put (.cell a (.add (-1))) = ([], .nothing) := by
      simp [Merge.Held.put, Merge.Held.follow, CellOp.fuse?, Merge.Held.ofCell]
    rw [pairs, mergeAfter, hput]
    exact (stays_of_isNormal (IsNormal.of_cons (t := .cell a (.add (-1))) h).1).1
  | succ n ih =>
    have hput : (Merge.Held.token (.cell a (.add 1))).put (.cell (a + 1) (.add 1)) =
        ([.cell a (.add 1)], .token (.cell (a + 1) (.add 1))) := by
      rw [Merge.Held.put]
      exact follow_of_apart ⟨by simp [Token.isMove], by simp [Token.writesWith]⟩
    rw [pairs, mergeAfter, hput, letGo_eq]
    exact congrArg (cell a (.add 1)) (ih (a + 1) (isNormal_takeBack h))

theorem round_pairs (a : Int64) (n : Nat) : (pairs a (n + 1) done).round = pairs a n done := by
  have merged : (pairs a (n + 1) done).merge = pairs a n done :=
    mergeAfter_pairs a n (by
      refine ⟨⟨?_, by simp [bodies]⟩, ⟨?_, by simp [bodies]⟩, ?_, by simp [bodies]⟩
      · exact ⟨by simp [tokens], .singleton _⟩
      · exact .singleton _
      · simp [LoopsMatter, tokens, Token.isClearLoop])
  rw [round, merged]
  exact postponeFrom_pairs a n done

theorem settles_pairs (a : Int64) (n : Nat) : (pairs a n done).Settles (n + 1) done := by
  induction n with
  | zero => exact .rest rfl
  | succ n ih =>
    have rounds := round_pairs a n
    refine .again ?_ (rounds ▸ ih)
    intro same
    have sizes := congrArg size (rounds.symm.trans same)
    rw [size_pairs, size_pairs] at sizes
    omega

/-! ## Layers -/

/-- Changes the cell and goes to the next one `n` times, does `core`, and then goes back and takes
the changes back, before `rest`. -/
def layers (core : Program) : Nat → Program → Program
  | 0, rest => core ++ rest
  | n + 1, rest => cell 0 (.add 1) (move 1 (layers core n (move (-1) (cell 0 (.add (-1)) rest))))

/-- A change that is taken back at once. -/
def blip : Program :=
  cell 0 (.add 1) (cell 0 (.add (-1)) done)

/-- Goes back and takes a change back, `n` times. -/
def takeBack : Nat → Program
  | 0 => done
  | n + 1 => move (-1) (cell 0 (.add (-1)) (takeBack n))

theorem mergeAfter_takeBack (n : Nat) :
    (takeBack n).mergeAfter (.moved (-1) 0 (.add (-1))) = takeBack (n + 1) := by
  induction n with
  | zero => rfl
  | succ n ih => exact congrArg (fun p => move (-1) (cell 0 (.add (-1)) p)) ih

theorem merge_takeBack (n : Nat) : (takeBack n).mergeAfter .nothing = takeBack n := by
  cases n with
  | zero => rfl
  | succ n => exact mergeAfter_takeBack n

theorem mergeAfter_layers (n k : Nat) :
    (layers blip n (takeBack k)).mergeAfter (.token (.move 1)) =
      move 1 (layers done n (takeBack k)) := by
  induction n generalizing k with
  | zero => exact congrArg (move 1) (merge_takeBack k)
  | succ n ih => exact congrArg (fun p => move 1 (cell 0 (.add 1) p)) (ih (k + 1))

theorem merge_layers (n : Nat) : (layers blip n done).merge = layers done n done := by
  cases n with
  | zero => rfl
  | succ n => exact congrArg (cell 0 (.add 1)) (mergeAfter_layers n 1)

/-- Postponing makes pairs of layers. -/
theorem postponeFrom_layers (n : Nat) (a : Int64) (rest : Program) :
    (layers done n rest).postponeFrom a = pairs a n (rest.postponeFrom a) := by
  induction n generalizing a rest with
  | zero => rfl
  | succ n ih =>
    have back : a + 1 + -1 = a := by rw [Int64.add_assoc]; exact Int64.add_zero a
    rw [layers, postponeFrom, postponeFrom, ih, postponeFrom, postponeFrom, back, Int64.zero_add,
      pairs]

theorem round_layers (n : Nat) : (layers blip n done).round = pairs 0 n done := by
  rw [round, merge_layers, postpone, postponeFrom_layers]
  rfl

theorem size_layers (core : Program) (n : Nat) (rest : Program) :
    (layers core n rest).size = core.size + 4 * n + rest.size := by
  induction n generalizing rest with
  | zero => simp [layers]
  | succ n ih =>
    simp only [layers, size, ih]
    omega

theorem settles_layers (n : Nat) : (layers blip n done).Settles (n + 2) done := by
  refine .again ?_ (round_layers n ▸ settles_pairs 0 n)
  intro same
  have sizes := congrArg size ((round_layers n).symm.trans same)
  rw [size_pairs, size_layers, blip, size, size] at sizes
  omega

/-! ## Sources -/

/-- The symbols of `n` layers around a change that is taken back at once. -/
def layeredSymbols (n : Nat) : List Symbol :=
  (List.replicate n [.increment, .right]).flatten ++ [.increment, .decrement] ++
    (List.replicate n [.left, .decrement]).flatten

/-- The same as a source. -/
def layeredSource (n : Nat) : List UInt8 :=
  (layeredSymbols n).map Symbol.byte

theorem length_layeredSource (n : Nat) : (layeredSource n).length = 4 * n + 2 := by
  simp [layeredSource, layeredSymbols]
  omega

theorem Spells.layers {rest : Program} {a : List Symbol} (h : rest.Spells a) (n : Nat) :
    (layers blip n rest).Spells (layeredSymbols n ++ a) := by
  induction n generalizing rest a with
  | zero => exact .step (s := .increment) rfl (.step (s := .decrement) rfl h)
  | succ n ih =>
    have back : (move (-1) (cell 0 (.add (-1)) rest)).Spells (.left :: .decrement :: a) :=
      .step (s := .left) (t := .move (-1)) rfl
        (.step (s := .decrement) (t := .cell 0 (.add (-1))) rfl h)
    have last : (List.replicate (n + 1) [Symbol.left, .decrement]).flatten =
        (List.replicate n [Symbol.left, .decrement]).flatten ++ [.left, .decrement] := by
      rw [List.replicate_succ', List.flatten_append]
      rfl
    have around : layeredSymbols (n + 1) ++ a =
        .increment :: .right :: (layeredSymbols n ++ .left :: .decrement :: a) := by
      rw [layeredSymbols, last]
      simp [layeredSymbols, List.replicate_succ]
    rw [around]
    exact .step (s := .increment) (t := .cell 0 (.add 1)) rfl
      (.step (s := .right) (t := .move 1) rfl (ih back))

theorem spells_layers (n : Nat) : (layers blip n done).Spells (layeredSymbols n) := by
  have h := Spells.done.layers n
  rwa [List.append_nil] at h

theorem parse_layeredSource (n : Nat) : parse (layeredSource n) = .ok (layers blip n done) := by
  rw [parse, layeredSource, Symbol.lex_map_byte]
  exact build_of_spells (spells_layers n)

end Program

theorem buildSource_eq_noFixedPoint {source : List UInt8} {cfg : Config} {p : Program}
    {e : NoFixedPoint} (hp : Program.parse source = .ok p) (ho : cfg.optimize = true)
    (h : p.optimize cfg.maxRounds = .error e) :
    buildSource source cfg = .error (.noFixedPoint e) := by
  simp only [buildSource, hp, ho, if_true, h]

theorem compile_eq_build {source : List UInt8} {cfg : Config} {t : Target} {e : BuildError}
    (ht : Target.ofName cfg.target = .ok t) (h : buildSource source cfg = .error e)
    (room : Option Nat) :
    compile source cfg room = .error (.build e) := by
  simp only [compile, ht, h]

open Program in
/-- No limit on the rounds is enough for all sources. The source of `n` layers is optimized to
nothing, in exactly `n + 2` rounds. So for every limit there is a source for which it is not enough
by one round, and the compiler rejects such a source as it stands. -/
theorem no_round_limit_suffices :
    (∀ n : Nat, Symbol.Balanced (Symbol.lex (layeredSource n)) ∧
      ∃ p, parse (layeredSource n) = .ok p ∧ ∀ limit : Nat, 1 ≤ limit →
        p.optimize limit = if n + 2 ≤ limit then .ok ⟨done, n + 2⟩ else .error ⟨limit⟩) ∧
    (∀ m : Nat, 1 ≤ m → ∃ source : List UInt8, source.length = 4 * m - 2 ∧
      ∃ p, parse source = .ok p ∧ p.optimize m = .error ⟨m⟩ ∧ ∃ r, p.optimize (m + 1) = .ok r) ∧
    ∀ room : Option Nat, compile (layeredSource 255) {} room =
      .error (.build (.noFixedPoint ⟨256⟩)) := by
  have optimized (n limit : Nat) (h : 1 ≤ limit) : (layers blip n done).optimize limit =
      if n + 2 ≤ limit then .ok ⟨done, n + 2⟩ else .error ⟨limit⟩ := by
    rw [optimize, roundLimit, if_neg (by omega), Int.toNat_natCast, (settles_layers n).settle_eq,
      Nat.zero_add, Nat.zero_add]
  refine ⟨fun n => ⟨?_, _, parse_layeredSource n, optimized n⟩, fun m hm => ?_, fun room => ?_⟩
  · rw [layeredSource, Symbol.lex_map_byte]
    exact Symbol.balanced_iff_depthAfter.mpr ((spells_layers n).depthAfter_eq 0)
  · refine ⟨layeredSource (m - 1), ?_, _, parse_layeredSource (m - 1), ?_, ⟨done, m - 1 + 2⟩, ?_⟩
    · rw [length_layeredSource]
      omega
    · rw [optimized _ _ hm, if_neg (by omega)]
    · exact (optimized (m - 1) (m + 1) (by omega)).trans (if_pos (by omega))
  · have rejected := optimized 255 ({} : Config).maxRounds (by decide)
    rw [if_neg (by decide)] at rejected
    have built := buildSource_eq_noFixedPoint (parse_layeredSource 255) rfl rejected
    exact compile_eq_build (t := .wasm) (by decide) built room

/-- Two layers need four rounds. -/
theorem no_round_limit_suffices_two :
    ∃ p, Program.parse (Program.layeredSource 2) = .ok p ∧ p.optimize 3 = .error ⟨3⟩ ∧
      p.optimize 4 = .ok ⟨.done, 4⟩ := by
  obtain ⟨-, p, hp, h⟩ := no_round_limit_suffices.1 2
  exact ⟨p, hp, h 3 (by decide), h 4 (by decide)⟩

end TapeLang
