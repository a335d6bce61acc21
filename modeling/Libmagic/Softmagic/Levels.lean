import Libmagic.LevelTree
import Libmagic.Softmagic.Trace

/-!
# Continuation levels

The counter `cont_level` of `match` against the tree that the levels of the lines
stand for.
-/
namespace Libmagic.Softmagic

variable {recur : Recur} {env : Env} {call : Call}

/-- The level of a line in the tree: a line at the head of the loop of `match` is a root. -/
def Row.level (r : Row) : Nat := if r.phase = .top then 0 else r.line.contLevel

theorem level_of_cont {r : Row} (cont : r.phase = .cont) : r.level = r.line.contLevel := by
  rw [Row.level, if_neg]
  rw [cont]
  nofun

/-- The nearest row of a history, the latest first, that is below `k`. -/
def parentAt (history : List Row) (k : Nat) : Option Row :=
  history.find? (fun r => decide (r.level < k))

/-- The lines at `k` are under a line one below that opened them. -/
def IsOpen (history : List Row) (k : Nat) : Prop :=
  ∃ p, parentAt history k = some p ∧ p.level + 1 = k ∧ p.event.opens = true

theorem isOpen_cons_of_le {r : Row} {history : List Row} {k : Nat} (le : k ≤ r.level) :
    IsOpen (r :: history) k ↔ IsOpen history k := by
  have passed : decide (r.level < k) = false := by simpa using le
  rw [IsOpen, IsOpen, parentAt, List.find?_cons, passed]
  rfl

theorem isOpen_cons_of_lt {r : Row} {history : List Row} {k : Nat} (lt : r.level < k) :
    IsOpen (r :: history) k ↔ r.level + 1 = k ∧ r.event.opens = true := by
  rw [IsOpen, parentAt, List.find?_cons, decide_eq_true lt]
  constructor
  · rintro ⟨p, found, h⟩
    obtain rfl : r = p := Option.some.inj found
    exact h
  · exact fun h => ⟨r, rfl, h⟩

/-- The counter after a line at `n`, if it was the counter of the history before it. -/
theorem isOpen_step {r : Row} {history : List Row} {cur next : Nat}
    (before : ∀ k, 1 ≤ k → (k ≤ cur ↔ IsOpen history k))
    (step : (cur < r.level ∧ r.event.opens = false ∧ next = cur) ∨
      (r.level ≤ cur ∧ next = if r.event.opens then r.level + 1 else r.level)) :
    ∀ k, 1 ≤ k → (k ≤ next ↔ IsOpen (r :: history) k) := by
  intro k positive
  by_cases le : k ≤ r.level
  · rw [isOpen_cons_of_le le, ← before k positive]
    rcases step with ⟨above, -, rfl⟩ | ⟨below, rfl⟩
    · rfl
    · split <;> omega
  · rw [isOpen_cons_of_lt (Nat.lt_of_not_le le)]
    rcases step with ⟨above, closed, rfl⟩ | ⟨below, rfl⟩
    · simp only [closed, Bool.false_eq_true, and_false, iff_false]
      omega
    · cases r.event.opens <;> simp <;> omega

/-- The counter says which levels are open. -/
theorem Reached.le_contLevel_iff {init st : St} {history : List Row} {phase : Phase}
    (reached : Reached recur env call init history phase st) (zero : init.contLevel = 0)
    (cont : phase = .cont) : ∀ k, 1 ≤ k → (k ≤ st.contLevel ↔ IsOpen history k) := by
  induction reached with
  | start => cases cont
  | @line history phase phase' phase'' st st' m reached arrived goes ih =>
      subst cont
      cases phase' with
      | top =>
          obtain ⟨mid, headed, -⟩ := topStep_headed recur env call m st'
          have opens : (topStep recur env call m st').event.opens = true := by
            by_contra closed
            exact (headed.closed (Bool.not_eq_true _ ▸ closed)).1 goes
          have level := (headed.opened opens).2.1
          rw [reached.top_contLevel zero arrived] at level
          intro k positive
          rw [isOpen_cons_of_lt positive]
          change k ≤ (topStep recur env call m st').st.contLevel ↔
            0 + 1 = k ∧ (topStep recur env call m st').event.opens = true
          rw [level, opens, and_iff_left rfl]
          omega
      | cont =>
          rcases arrive_cases arrived with ⟨-, h, -⟩ | ⟨rfl, -, -, rfl⟩ | ⟨-, h, -⟩ | ⟨-, h, -⟩ |
            ⟨-, h, -⟩
          · cases h
          · refine isOpen_step (ih rfl) ?_
            rcases contStep_cases goes with ⟨h, -⟩ | ⟨-, above, event, level, -⟩ | ⟨-, walked⟩
            · cases h
            · exact .inl ⟨above, congrArg Event.opens event, level⟩
            · obtain ⟨mid, evaluated, -⟩ := walked.evaluated
              exact .inr ⟨walked.level, evaluated.level⟩
          all_goals cases h
      | flush => cases goes

section
variable {m : Magic} {st : St}

theorem contLine_ne_above : (contLine recur env call m st).event ≠ .above := by
  rcases contLine_event recur env call m st with inner | ⟨unset, -⟩
  · intro above
    rw [above] at inner
    cases inner
  · rw [unset]
    nofun

theorem contStep_ne_above_iff :
    (contStep recur env call m st).event ≠ .above ↔ m.contLevel ≤ st.contLevel := by
  simp only [contStep]
  split_ifs with above
  · exact iff_of_false (fun h => h rfl) (Nat.not_le.mpr above)
  · exact iff_of_true contLine_ne_above (Nat.le_of_not_lt above)

end

/-- Whether a continuation was handed to evaluation. -/
def Row.evaluated (r : Row) : Bool := decide (r.event ≠ .above)

/-- A continuation is evaluated if and only if its level is open. -/
theorem Comes.evaluated_iff {init : St} {history : List Row} {r : Row}
    (comes : Comes recur env call init history r) (zero : init.contLevel = 0)
    (cont : r.phase = .cont) : r.evaluated = true ↔ IsOpen history r.line.contLevel := by
  obtain ⟨⟨phase, st, reached, arrived⟩, row⟩ := comes
  rw [cont] at arrived
  rcases arrive_cases arrived with ⟨-, h, -⟩ | ⟨rfl, -, deeper, before⟩ | ⟨-, h, -⟩ | ⟨-, h, -⟩ |
    ⟨-, h, -⟩
  · cases h
  · rw [← reached.le_contLevel_iff zero rfl _ (Nat.one_le_iff_ne_zero.mpr deeper), ← before, row,
      rowOf, cont]
    exact decide_eq_true_iff.trans contStep_ne_above_iff
  all_goals cases h

/-- Behind a top-level line that opened its continuations the walk is among them. -/
theorem Comes.top_opens {init : St} {history : List Row} {r : Row}
    (comes : Comes recur env call init history r) (zero : init.contLevel = 0) (top : r.phase = .top)
    (opens : r.event.opens = true) :
    (lineStep recur env call r.line r.phase r.before).next = .go .cont ∧ r.after.contLevel = 1 := by
  obtain ⟨⟨phase, st, reached, arrived⟩, row⟩ := comes
  rw [top] at arrived row ⊢
  obtain ⟨mid, headed, -⟩ := topStep_headed recur env call r.line r.before
  have opened := headed.opened (by rw [row] at opens; exact opens)
  rw [reached.top_contLevel zero arrived] at opened
  refine ⟨opened.1, ?_⟩
  rw [row]
  exact opened.2.1

/-! ## The tree -/

/-- One test of the recursive evaluator: a line is tested at its own level, and `none` is
a test that leaves the loop over continuations. -/
def contEval (recur : Recur) (env : Env) (call : Call) (m : Magic) (st : St) : Option (Bool × St) :=
  let o := contLine recur env call m ((st.setLine m).setLevel m.contLevel)
  match o.next with
  | .go .cont => some (o.event.opens, o.st)
  | _ => none

/-- Two states that the next evaluated line does not tell apart. -/
def St.Alike (st st' : St) : Prop :=
  ∀ m : Magic, (st.setLine m).setLevel 0 = (st'.setLine m).setLevel 0

theorem St.Alike.place {st st' : St} (alike : st.Alike st') (m : Magic) (level : Nat) :
    (st.setLine m).setLevel level = (st'.setLine m).setLevel level := by
  have same := congrArg (St.setLevel level) (alike m)
  exact same

section
variable {m : Magic} {magic : List Magic} {phase : Phase} {st st' : St}

/-- No row is in the loop over continuations when the walk is not in it. -/
theorem takeWhile_walk_eq_nil
    (leaves : ∀ m ∈ magic.head?, ∀ phase' st', arrive env m phase st = some (phase', st') →
      phase' ≠ .cont) :
    (walk recur env call magic phase st).rows.takeWhile (fun r => decide (r.phase = .cont)) = [] := by
  cases magic with
  | nil => rfl
  | cons m magic =>
      cases arrived : arrive env m phase st with
      | none =>
          rw [walk_cons_none arrived]
          rfl
      | some at' =>
          have outside := leaves m rfl at'.1 at'.2 arrived
          have first : decide ((rowOf recur env call m at'.1 at'.2).phase = .cont) = false :=
            decide_eq_false outside
          cases next : (lineStep recur env call m at'.1 at'.2).next with
          | ret rv => rw [walk_cons_ret arrived next, List.takeWhile_cons, first]; rfl
          | go phase'' => rw [walk_cons_go arrived next, List.takeWhile_cons, first]; rfl

theorem contStep_above (above : st.contLevel < m.contLevel) :
    contStep recur env call m st = ⟨.above, st.setLine m, .go .cont, []⟩ := by
  simp only [contStep]
  exact if_pos above

theorem contStep_below (below : m.contLevel ≤ st.contLevel) :
    contStep recur env call m st = contLine recur env call m ((st.setLine m).setLevel m.contLevel) := by
  simp only [contStep]
  exact if_neg (Nat.not_lt.mpr below)

/-- The lines of the loop over continuations are tested as `LevelTree.scan` tests them. -/
theorem walk_cont_scan (magic rest : List Magic) (deeper : ∀ m ∈ magic, m.contLevel ≠ 0)
    (ends : ∀ m ∈ rest.head?, m.contLevel = 0) (alike : st.Alike st') :
    (((walk recur env call (magic ++ rest) .cont st).rows.takeWhile
        (fun r => decide (r.phase = .cont))).filter Row.evaluated).map Row.line =
      (LevelTree.scan Magic.contLevel (contEval recur env call) st.contLevel magic st').1 := by
  induction magic generalizing st st' with
  | nil =>
      rw [List.nil_append, takeWhile_walk_eq_nil]
      · rfl
      · intro m head phase' st'' arrived
        rcases arrive_cases arrived with ⟨-, rfl, -⟩ | ⟨-, -, h, -⟩ | ⟨-, rfl, -⟩ | ⟨-, rfl, -⟩ |
          ⟨-, rfl, -⟩
        · nofun
        · exact absurd (ends m head) h
        all_goals nofun
  | cons m magic ih =>
      have later : ∀ m ∈ magic, m.contLevel ≠ 0 := fun m member => deeper m (List.mem_cons_of_mem _ member)
      have arrived : arrive env m .cont st = some (.cont, st) := if_pos (deeper m List.mem_cons_self)
      have here : decide ((rowOf recur env call m .cont st).phase = .cont) = true := rfl
      rw [List.cons_append, LevelTree.scan]
      by_cases above : st.contLevel < m.contLevel
      · have step : lineStep recur env call m .cont st = ⟨.above, st.setLine m, .go .cont, []⟩ :=
          contStep_above above
        have row : rowOf recur env call m .cont st = ⟨m, .cont, .above, st, st.setLine m, []⟩ := by
          rw [rowOf, step]
        rw [if_pos above, walk_cons_go arrived (congrArg Outcome.next step), row]
        simp only [List.takeWhile_cons, decide_true, ↓reduceIte]
        rw [List.filter_cons_of_neg (by simp [Row.evaluated])]
        exact ih later alike
      · have step : lineStep recur env call m .cont st =
            contLine recur env call m ((st'.setLine m).setLevel m.contLevel) := by
          rw [← alike.place m m.contLevel]
          exact contStep_below (Nat.le_of_not_lt above)
        have evaluated : Row.evaluated (rowOf recur env call m .cont st) = true := by
          refine decide_eq_true ?_
          rw [rowOf, step]
          exact contLine_ne_above
        rw [if_neg above, contEval]
        cases next : (contLine recur env call m ((st'.setLine m).setLevel m.contLevel)).next with
        | ret rv =>
            rw [walk_cons_ret arrived ((congrArg Outcome.next step).trans next)]
            simp only [List.takeWhile_cons, here, ↓reduceIte, List.takeWhile_nil, List.filter_cons,
              evaluated, List.filter_nil, List.map_cons, List.map_nil]
            rfl
        | go phase =>
            rw [walk_cons_go arrived ((congrArg Outcome.next step).trans next)]
            simp only [List.takeWhile_cons, here, ↓reduceIte, List.filter_cons, evaluated,
              List.map_cons]
            rcases contLine_cases rfl next with ⟨rfl, -, -⟩ | ⟨rfl, walked⟩
            · rw [takeWhile_walk_eq_nil]
              · rfl
              · intro m head phase' st'' arrived
                rcases arrive_cases arrived with ⟨h, -⟩ | ⟨h, -⟩ | ⟨h, -⟩ | ⟨-, rfl, -⟩ | ⟨-, rfl, -⟩
                · cases h
                · cases h
                · cases h
                all_goals nofun
            · obtain ⟨mid, spec, -⟩ := walked.evaluated
              have after : (rowOf recur env call m .cont st).after =
                  (contLine recur env call m ((st'.setLine m).setLevel m.contLevel)).st :=
                congrArg Outcome.st step
              rw [after]
              refine congrArg (List.cons m) ?_
              rw [ih later fun _ => rfl, spec.level]

end

/-- The lines that the loop over continuations evaluates before it is left. -/
def evaluatedLines (rows : List Row) : List Magic :=
  ((rows.takeWhile (fun r => decide (r.phase = .cont))).filter Row.evaluated).map Row.line

/-- The continuations at the front of a list of entries. -/
def continuations (magic : List Magic) : List Magic := magic.takeWhile (fun m => decide (m.contLevel ≠ 0))

/-- The flat scan of `match` implements the tree of the levels. There is one row for each
line. A continuation is evaluated if and only if the nearest line before it with a smaller
level is one below it and opened its level. The lines evaluated under a top-level line
are those of a recursive evaluator over the forest of its continuations, in the same order. -/
theorem match_follows_tree (recur : Recur) (env : Env) (call : Call) (magic : List Magic) (s : Scan)
    (pre post : List Row) (r : Row)
    (rows : (matchWith recur env call magic s).rows = pre ++ r :: post) :
    (pre ++ r :: post).map Row.line <+: magic ∧
      (r.phase = .cont → (r.evaluated = true ↔ IsOpen pre.reverse r.line.contLevel)) ∧
      (r.phase = .top → r.event.opens = true →
        evaluatedLines post =
          (LevelTree.eval Magic.contLevel (contEval recur env call) 1
            (LevelTree.forest Magic.contLevel (continuations (magic.drop (pre.length + 1)))) r.after).1) := by
  have comes := matchWith_comes rows
  obtain ⟨rest, lines, tail⟩ := matchWith_split rows
  refine ⟨rows ▸ matchWith_lines recur env call magic s, comes.evaluated_iff rfl, ?_⟩
  intro top opens
  obtain ⟨goes, level⟩ := comes.top_opens rfl top opens
  have behind : magic.drop (pre.length + 1) = rest := by
    rw [lines, ← List.length_map Row.line, List.drop_append]
    simp
  have split : continuations rest ++ rest.dropWhile (fun m => decide (m.contLevel ≠ 0)) = rest :=
    List.takeWhile_append_dropWhile
  have deeper : ∀ m ∈ continuations rest, m.contLevel ≠ 0 :=
    fun m member => by simpa using List.mem_takeWhile_imp member
  have ends : ∀ m ∈ (rest.dropWhile (fun m => decide (m.contLevel ≠ 0))).head?, m.contLevel = 0 := by
    intro m head
    have stops := List.head?_dropWhile_not (fun m : Magic => decide (m.contLevel ≠ 0)) rest
    rw [Option.mem_def.mp head] at stops
    simpa using stops
  have scanned : evaluatedLines (walk recur env call rest .cont r.after).rows =
      (LevelTree.scan Magic.contLevel (contEval recur env call) r.after.contLevel
        (continuations rest) r.after).1 := by
    conv_lhs => rw [← split]
    exact walk_cont_scan (continuations rest) _ deeper ends fun _ => rfl
  rw [goes] at tail
  rw [tail, behind, scanned, level]
  exact (LevelTree.scan_eq_eval 1 _
    (fun m member => Nat.one_le_iff_ne_zero.mpr (deeper m member)) r.after).1

/-- `0 byte x A`, `>0 byte x B` and, with a gap, `>>>0 byte x C`. -/
def gapLines : List Magic :=
  [{ plainLine with desc := asc "A" }, { plainLine with contLevel := 1, desc := asc "B" },
    { plainLine with contLevel := 3, desc := asc "C" }]

theorem match_follows_tree_gap :
    ∃ pre r post, (matchWith (matchN (plainEnv [gapLines] []) 0) (plainEnv [gapLines] []) plainCall
        gapLines (plainScan [1, 2])).rows = pre ++ r :: post ∧
      r.phase = .cont ∧ r.evaluated = false ∧ ¬IsOpen pre.reverse r.line.contLevel := by
  have views : (matchWith (matchN (plainEnv [gapLines] []) 0) (plainEnv [gapLines] []) plainCall
      gapLines (plainScan [1, 2])).rows.map (fun r => (r.phase, r.evaluated)) =
        [(.top, true), (.cont, true), (.cont, false)] := by decide +kernel
  obtain ⟨a, b, c, rows⟩ := List.length_eq_three.mp
    ((List.length_map _).symm.trans (congrArg List.length views))
  rw [rows] at views
  simp only [List.map_cons, List.map_nil, List.cons.injEq, Prod.mk.injEq, and_true] at views
  obtain ⟨-, -, phase, skipped⟩ := views
  refine ⟨[a, b], c, [], rows, phase, skipped, ?_⟩
  rw [← (match_follows_tree _ _ _ _ _ [a, b] [] c rows).2.1 phase, skipped]
  nofun

end Libmagic.Softmagic
