import Libmagic.Softmagic.Siblings

/-!
# `default` and `clear` lines

A `default` line takes effect when no other line of its level matched before it.
`match` keeps that in `got_match`. A line that matches sets the bit, and so does one
whose offset cannot be recorded; but `file_check_mem` then clears it again, because
the level that it opens is the one of the line itself.
-/
namespace Libmagic.Softmagic
open LevelTree (siblings)

variable {recur : Recur} {env : Env} {call : Call}

/-! ## The rule -/

/-- A line that matched. A suppressed `default` line did not. -/
def Row.isMatch (r : Row) : Bool :=
  match r.event with
  | .matched .. => true
  | _ => false

/-- Whether a line other than `clear` matched since the last matched `clear` line, among
the lines of a level, the latest first. -/
def gotMatch (rows : List Row) : Bool :=
  (rows.takeWhile (fun q => !(q.isMatch && q.line.type == .clear))).any
    (fun q => q.isMatch && q.line.type != .clear)

/-- A `default` line that was tested, with the rows before it. -/
structure TestsDefault (rows pre : List Row) (r : Row) : Prop where
  split : ∃ post, rows = pre ++ r :: post
  cont : r.phase = .cont
  default : r.line.type = .default
  test : r.event.isTest = true

/-- Every `default` line that is tested takes effect, which is to say that it prints and
opens its level, or is passed over, as the lines of its level before it say. -/
def DefaultRule (rows : List Row) : Prop :=
  ∀ pre r, TestsDefault rows pre r →
    if gotMatch (siblings Row.level r.level pre.reverse) then r.event = .suppressed
    else r.event.opens = true

/-! ## Where it holds -/

/-- The last line that matched is not `clear`, and its offset was not recorded. -/
def lostMatch (rows : List Row) : Bool :=
  match rows.find? Row.isMatch with
  | some q => q.line.type != .clear && !q.event.opens
  | none => false

/-- Every `default` line that is tested could be read, its own offset is recorded, and so
was that of the line that matched last at its level, unless it is `clear`. -/
def KeepsGotMatch (rows : List Row) : Prop :=
  ∀ pre r, TestsDefault rows pre r →
    r.event ≠ .unread ∧ (∀ read, r.event ≠ .matched read false) ∧
      lostMatch (siblings Row.level r.level pre.reverse) = false

theorem gotMatch_cons_of_not {r : Row} (rows : List Row) (unmatched : r.isMatch = false) :
    gotMatch (r :: rows) = gotMatch rows := by
  simp [gotMatch, unmatched]

theorem lostMatch_cons_of_not {r : Row} (rows : List Row) (unmatched : r.isMatch = false) :
    lostMatch (r :: rows) = lostMatch rows := by
  simp [lostMatch, unmatched]

theorem gotMatch_cons_of_isMatch {r : Row} (rows : List Row) (matched : r.isMatch = true) :
    gotMatch (r :: rows) = (r.line.type != .clear) := by
  cases clear : r.line.type == MType.clear <;> simp_all [gotMatch]

theorem lostMatch_cons_of_isMatch {r : Row} (rows : List Row) (matched : r.isMatch = true) :
    lostMatch (r :: rows) = (r.line.type != .clear && !r.event.opens) := by
  simp [lostMatch, matched]

/-- What the lines of a level leave in `got_match`. -/
theorem marksOf_got (rows : List Row) : (marksOf rows).1 = (gotMatch rows && !lostMatch rows) := by
  induction rows with
  | nil => rfl
  | cons r rows ih =>
      cases event : r.event with
      | matched read ok =>
          have matched : r.isMatch = true := by rw [Row.isMatch, event]
          rw [gotMatch_cons_of_isMatch rows matched, lostMatch_cons_of_isMatch rows matched, marksOf, event]
          cases ok <;> cases clear : r.line.type == MType.clear <;> simp_all [Event.mark, Event.opens]
      | _ =>
          have unmatched : r.isMatch = false := by rw [Row.isMatch, event]
          rw [gotMatch_cons_of_not rows unmatched, lostMatch_cons_of_not rows unmatched, ← ih, marksOf, event]
          rfl

theorem gotMatch_of_lostMatch {rows : List Row} (lost : lostMatch rows = true) :
    gotMatch rows = true := by
  induction rows with
  | nil => cases lost
  | cons r rows ih =>
      cases matched : r.isMatch with
      | false =>
          rw [lostMatch_cons_of_not rows matched] at lost
          rw [gotMatch_cons_of_not rows matched, ih lost]
      | true =>
          rw [lostMatch_cons_of_isMatch rows matched] at lost
          rw [gotMatch_cons_of_isMatch rows matched]
          exact (Bool.and_eq_true_iff.mp lost).1

/-! ## One `default` line -/

section
variable {m : Magic}

/-- The test `x` of a `default` line is always true. -/
theorem check_default (env : Env) (st : St) (default : m.type = .default) (any : m.reln = .any) :
    (st.check env m).1 = some true := by
  simp only [St.check, magiccheck, default, any, compareInt]

theorem contStep_ne_failed (recur : Recur) (env : Env) (call : Call) (st : St)
    (default : m.type = .default) (any : m.reln = .any) :
    (contStep recur env call m st).event ≠ .failed := by
  have matched (read : Bool) (nested : List Row) (st : St) :
      (contMatched env call m read nested st).event ≠ .failed := by
    rcases contMatched_event with event | ⟨event | ⟨ok, event⟩, -⟩
    all_goals
      rw [event]
      simp
  have tested (st : St) : (contTest recur env call m st).event ≠ .failed := by
    unfold contTest
    split_ifs
    · simp
    · unfold contRead
      rcases st.get recur env call m with ⟨_ | _ | _, st₁, nested⟩
      · simp [St.stop]
      · dsimp only
        split_ifs
        · simp
        · exact matched _ _ _
      · have check := check_default env st₁ default any
        rcases eq : st₁.check env m with ⟨rv, st₂⟩
        rw [eq] at check
        obtain rfl : rv = some true := check
        dsimp only
        rw [eq]
        exact matched _ _ _
  simp only [contStep]
  split_ifs
  · simp
  · unfold contLine
    split
    · split_ifs <;> simp [St.flushFrom]
    · split_ifs
      · exact tested _
      · simp [St.stop]
      · exact tested _

end

/-- A `default` line that is tested goes by the bit that its level has. -/
theorem Comes.default_cases {init : St} {history : List Row} {r : Row} (keeps : KeepsMarks recur)
    (comes : Comes recur env call init history r) (zero : init.contLevel = 0)
    (framed : ∀ q ∈ history, q.IsFramed) (cont : r.phase = .cont) (default : r.line.type = .default)
    (any : r.line.reln = .any) (test : r.event.isTest = true) :
    r.event = .unread ∨
      (r.event = .suppressed ∧ (marksOf (siblings Row.level r.level history)).1 = true) ∨
      ∃ read ok, r.event = .matched read ok ∧ (marksOf (siblings Row.level r.level history)).1 = false := by
  have positive := comes.deeper cont
  have marks := comes.marks_eq keeps zero framed cont
  have event : r.event = (contStep recur env call r.line r.before).event := by
    rw [comes.event, cont]
    rfl
  have level := level_of_cont cont
  rw [event] at test
  obtain ⟨phase, goes⟩ : ∃ phase, (contStep recur env call r.line r.before).next = .go phase := by
    refine contStep_goes fun stopped => ?_
    rw [stopped] at test
    cases test
  have notFailed := contStep_ne_failed recur env call r.before default any
  rcases contStep_cases goes with ⟨-, unset, -⟩ | ⟨-, -, above, -⟩ | ⟨-, within, mid, evaluated, tested⟩
  · rw [unset] at test
    cases test
  · rw [above] at test
    cases test
  · have got : mid r.line.contLevel = marksOf (siblings Row.level r.level history) := by
      rw [level, ← marks _ positive within]
      exact tested.marks keeps (fun h => MType.noConfusion (default.symm.trans h)) _ positive
    rw [event, ← got]
    cases made : (contStep recur env call r.line r.before).event with
    | unread => exact .inl rfl
    | failed => exact absurd made notFailed
    | suppressed => exact .inr (.inl ⟨rfl, (evaluated.suppressed made).2⟩)
    | matched read ok => exact .inr (.inr ⟨read, ok, rfl, evaluated.matched read ok made default⟩)
    | _ =>
        rw [made] at test
        cases test

/-! ## One call of `match` -/

/-- Unless an `indirect` line made a nested call that opened levels, the `default` lines
of a call of `match` follow the rule if and only if no line before them that should count
had its match cleared again, and they can be read and opened themselves. -/
theorem defaultRule_iff (env : Env) (n : Nat) (call : Call) (magic : List Magic) (s : Scan)
    (always : ∀ m ∈ magic, m.type = .default → m.reln = .any)
    (framed : ∀ r ∈ (matchN env n call magic s).rows, r.IsFramed) :
    DefaultRule (matchN env n call magic s).rows ↔ KeepsGotMatch (matchN env n call magic s).rows := by
  refine forall_congr' fun pre => forall_congr' fun r => forall_congr' fun tests => ?_
  obtain ⟨post, rows⟩ := tests.split
  rw [rows] at framed
  obtain ⟨n', comes⟩ := matchN_comes rows
  have member : r.line ∈ magic := (matchN_lines env n call magic s).subset (by simp [rows])
  have outcome := comes.default_cases (matchN_keepsMarks env n') rfl
    (fun q member => framed q (List.mem_append_left _ (List.mem_reverse.mp member))) tests.cont
    tests.default (always _ member tests.default) tests.test
  have counted : lostMatch (siblings Row.level r.level pre.reverse) = true →
      gotMatch (siblings Row.level r.level pre.reverse) = true := gotMatch_of_lostMatch
  rw [marksOf_got] at outcome
  generalize gotMatch (siblings Row.level r.level pre.reverse) = got at outcome counted ⊢
  generalize lostMatch (siblings Row.level r.level pre.reverse) = lost at outcome counted ⊢
  rcases outcome with event | ⟨event, bit⟩ | ⟨read, ok, event, bit⟩
  · simp [event, Event.opens]
  · simp_all
  · cases got <;> cases lost <;> cases ok <;> simp_all [Event.opens]

/-- `0 byte x A`, `>0 byte x B` and `>0 default x C`. -/
def defaultLines : List Magic :=
  [{ plainLine with desc := asc "A" }, { plainLine with contLevel := 1, desc := asc "B" },
    { plainLine with contLevel := 1, type := .default, desc := asc "C" }]

theorem defaultRule_iff_plain :
    (∀ m ∈ defaultLines, m.type = .default → m.reln = .any) ∧
      (DefaultRule (matchN (plainEnv [defaultLines] []) 1 plainCall defaultLines (plainScan [1, 2])).rows ↔
        KeepsGotMatch
          (matchN (plainEnv [defaultLines] []) 1 plainCall defaultLines (plainScan [1, 2])).rows) := by
  have always : ∀ m ∈ defaultLines, m.type = .default → m.reln = .any := by decide
  have direct : ∀ m ∈ defaultLines, m.type ≠ .indirect := by decide
  exact ⟨always, defaultRule_iff _ _ _ _ _ always (matchN_isFramed direct)⟩

/-- `0 byte x A`, `>100 byte !5 B` and `>0 default x C`: on a short file the second line
matches because its byte cannot be read, and its offset cannot be recorded. -/
def lostLines : List Magic :=
  [{ plainLine with desc := asc "A" },
    { plainLine with
      contLevel := 1, offset := 100, reln := .ne, value := Value.zero.write 0 [5], desc := asc "B" },
    { plainLine with contLevel := 1, type := .default, desc := asc "C" }]

theorem defaultRule_fails :
    ¬∀ (env : Env) (call : Call) (magic : List Magic) (s : Scan),
      (∀ m ∈ magic, m.type = .default → m.reln = .any) →
      DefaultRule (matchMagic env call magic s).rows := by
  intro rule
  have views : (matchMagic (plainEnv [lostLines] []) plainCall lostLines (plainScan [1, 2])).rows.map
      (fun r => (r.phase, r.event, r.line.type, r.level)) =
        [(.top, .matched true true, .byte, 0), (.cont, .matched false false, .byte, 1),
          (.cont, .matched true true, .default, 1)] := by decide +kernel
  obtain ⟨a, b, c, rows⟩ := List.length_eq_three.mp
    ((List.length_map _).symm.trans (congrArg List.length views))
  rw [rows] at views
  simp only [List.map_cons, List.map_nil, List.cons.injEq, Prod.mk.injEq, and_true] at views
  obtain ⟨⟨-, -, -, levelA⟩, ⟨-, eventB, typeB, levelB⟩, phaseC, eventC, typeC, levelC⟩ := views
  have tests : TestsDefault [a, b, c] [a, b] c := ⟨⟨[], rfl⟩, phaseC, typeC, by rw [eventC]; rfl⟩
  have effect := rule _ plainCall lostLines (plainScan [1, 2]) (by decide) [a, b] c (rows ▸ tests)
  have sibs : siblings Row.level c.level [a, b].reverse = [b] := by simp [siblings, levelA, levelB, levelC]
  have got : gotMatch [b] = true := by simp [gotMatch, Row.isMatch, eventB, typeB]
  rw [sibs, got, if_pos rfl, eventC] at effect
  cases effect

end Libmagic.Softmagic
