import Libmagic.Softmagic.Levels
import Libmagic.Softmagic.Mget

/-!
# The marks of a level, read off a history

`got_match` and `last_match` of an open level are what the lines of that level left
since it was opened, unless an `indirect` line of the entry made a nested call that
opened levels of its own: `mget` keeps the table over the call of a `use` line only.
-/
namespace Libmagic.Softmagic
open LevelTree (siblings siblings_cons_lt siblings_cons_gt siblings_cons_self)

variable {recur : Recur} {env : Env} {call : Call}

/-! ## Nested calls that leave the marks alone -/

/-- The line opened no level, and neither did a line of its nested calls that shares its
table. -/
inductive Quiet : Row → Prop
  | intro {r : Row} (closed : r.event.opens = false)
      (nested : r.line.type = .indirect → ∀ q ∈ r.nested, Quiet q) : Quiet r

/-- A nested call whose lines are quiet keeps the marks above level 0. -/
def KeepsMarks (recur : Recur) : Prop :=
  ∀ call magic s, (∀ q ∈ (recur call magic s).rows, Quiet q) →
    ∀ k, 1 ≤ k → (recur call magic s).scan.c.marks k = s.c.marks k

theorem indirectLoop_marks (keeps : KeepsMarks recur) (mlist : List (List Magic)) (rv : Option Bool)
    (s : Scan) (quiet : ∀ q ∈ (indirectLoop recur call mlist rv s).rows, Quiet q) (k : Nat) (positive : 1 ≤ k) :
    (indirectLoop recur call mlist rv s).scan.c.marks k = s.c.marks k := by
  induction mlist generalizing rv s with
  | nil => rfl
  | cons magic mlist ih =>
      have kept := keeps call magic { s with returnval := false, foundMatch := false }
      rw [indirectLoop] at quiet ⊢
      dsimp only at quiet ⊢
      split_ifs at quiet ⊢ with found
      · exact kept quiet k positive
      · rw [ih _ _ fun q member => quiet q (List.mem_append_right _ member)]
        exact kept (fun q member => quiet q (List.mem_append_left _ member)) k positive

theorem Fetched.marks {m : Magic} {bb : Window} {s : Scan} {r : Result} (keeps : KeepsMarks recur)
    (h : Fetched recur env call m bb s r) (quiet : m.type = .indirect → ∀ q ∈ r.rows, Quiet q)
    (k : Nat) (positive : 1 ≤ k) : r.scan.c.marks k = s.c.marks k := by
  cases h with
  | plain => rfl
  | indirect _ _ _ _ _ _ _ _ type _ _ nested _ =>
      subst nested
      exact indirectLoop_marks keeps _ _ _ (quiet type) k positive
  | use => rfl

theorem get_marks (keeps : KeepsMarks recur) {m : Magic} {st : St}
    (quiet : m.type = .indirect → ∀ q ∈ (st.get recur env call m).2.2, Quiet q) (k : Nat)
    (positive : 1 ≤ k) : (st.get recur env call m).2.1.c.marks k = st.c.marks k := by
  have same : (st.get recur env call m).2.1.c =
      (mget recur env m st.bb call st.contLevel st.toScan).scan.c := by
    simp only [St.get]
    split <;> rfl
  rw [same]
  exact (mget_fetched recur env m st.bb call st.contLevel st.toScan).marks keeps quiet k positive

theorem TestedWith.marks {m : Magic} {st : St} {nested : List Row} {mid : Nat → Bool × Bool}
    (keeps : KeepsMarks recur) (h : TestedWith recur env call m st nested mid)
    (quiet : m.type = .indirect → ∀ q ∈ nested, Quiet q) (k : Nat) (positive : 1 ≤ k) :
    mid k = st.c.marks k := by
  rcases h with ⟨rfl, -⟩ | ⟨st₁, same, rfl, rfl⟩
  · rfl
  · rw [get_marks keeps quiet k positive, same]

/-- A walk that is not among continuations and whose lines are quiet. -/
theorem walk_marks (keeps : KeepsMarks recur) (magic : List Magic) {phase : Phase} {st : St}
    (outside : phase ≠ .cont) (quiet : ∀ q ∈ (walk recur env call magic phase st).rows, Quiet q)
    (k : Nat) (positive : 1 ≤ k) :
    (walk recur env call magic phase st).scan.c.marks k = st.c.marks k := by
  induction magic generalizing phase st with
  | nil =>
      rw [walk, St.finish, if_neg outside]
  | cons m magic ih =>
      cases arrived : arrive env m phase st with
      | none =>
          rw [walk_cons_none arrived, St.finish, if_neg outside]
      | some at' =>
          obtain ⟨phase', st'⟩ := at'
          have same : st' = st ∧ phase' ≠ .cont := by
            rcases arrive_cases arrived with ⟨-, rfl, h⟩ | ⟨h, -⟩ | ⟨h, -⟩ | ⟨-, rfl, -, h⟩ |
              ⟨-, rfl, -, h⟩
            · exact ⟨h, by simp⟩
            · exact absurd h outside
            · exact absurd h outside
            · exact ⟨h, by simp⟩
            · exact ⟨h, by simp⟩
          obtain ⟨rfl, outside'⟩ := same
          have first := quiet _ (rowOf_mem_walk arrived)
          obtain ⟨closed, nested⟩ := first
          -- the line itself
          have line : (rowOf recur env call m phase' st').after.c.marks k = st'.c.marks k ∧
              (lineStep recur env call m phase' st').next ≠ .go .cont := by
            cases phase' with
            | top =>
                obtain ⟨mid, headed, tested⟩ := topStep_headed recur env call m st'
                obtain ⟨leaves, marks⟩ := headed.closed closed
                refine ⟨?_, leaves⟩
                rw [← tested.marks keeps nested k positive]
                exact congrFun marks k
            | cont => exact absurd rfl outside'
            | flush => exact ⟨rfl, by simp [lineStep]⟩
          cases next : (lineStep recur env call m phase' st').next with
          | ret rv =>
              rw [walk_cons_ret arrived next]
              exact line.1
          | go phase'' =>
              rw [walk_cons_go arrived next] at quiet ⊢
              refine (ih ?_ fun q member => quiet q (List.mem_cons_of_mem _ member)).trans line.1
              rintro rfl
              exact line.2 next

theorem matchN_keepsMarks (env : Env) (n : Nat) : KeepsMarks (matchN env n) := by
  induction n with
  | zero => exact fun _ _ _ _ _ _ => rfl
  | succ n ih =>
      intro call magic s quiet k positive
      have above : k ≠ 0 := Nat.one_le_iff_ne_zero.mp positive
      simp only [matchN, matchWith] at quiet ⊢
      rcases opened : St.open' env { toScan := s, bb := none, contLevel := 0 } with ⟨_ | _, st⟩
      all_goals
        rw [opened] at quiet
        dsimp only at quiet ⊢
      · have marks := open_marks_failed (congrArg Prod.fst opened)
        rw [opened] at marks
        exact congrFun marks k
      · have marks := open_marks (congrArg Prod.fst opened) k
        rw [opened, if_neg above] at marks
        have outside : Phase.top ≠ .cont := by simp
        exact (walk_marks ih magic outside quiet k positive).trans marks

/-! ## Siblings -/

/-- The marks that the lines of a level leave at it, from those of the level when it was
opened. -/
def marksOf : List Row → Bool × Bool
  | [] => (false, false)
  | r :: rs => r.event.mark (r.line.type == MType.clear) 0 (fun _ => marksOf rs) 0

theorem mark_self (event : Event) (clear : Bool) (level : Nat) (marks : Nat → Bool × Bool) :
    event.mark clear level marks level = event.mark clear 0 (fun _ => marks level) 0 := by
  cases event with
  | matched read ok => cases ok <;> simp [Event.mark]
  | _ => simp [Event.mark]

theorem mark_lt {event : Event} {clear : Bool} {level k : Nat} {marks : Nat → Bool × Bool}
    (lt : k < level) : event.mark clear level marks k = marks k := by
  have : k ≠ level + 1 := by omega
  cases event with
  | matched read ok => cases ok <;> simp [Event.mark, lt.ne, this]
  | _ => simp [Event.mark, lt.ne]

theorem mark_succ_of_opens {event : Event} {clear : Bool} {level : Nat} {marks : Nat → Bool × Bool}
    (opens : event.opens = true) : event.mark clear level marks (level + 1) = (false, false) := by
  cases event with
  | matched read ok =>
      cases ok with
      | false => cases opens
      | true => simp [Event.mark]
  | _ => cases opens

/-- The nested calls of an `indirect` continuation open no level. -/
def Row.IsFramed (r : Row) : Prop :=
  r.phase = .cont → r.line.type = .indirect → ∀ q ∈ r.nested, Quiet q

theorem matchN_isFramed {n : Nat} {magic : List Magic} {s : Scan}
    (direct : ∀ m ∈ magic, m.type ≠ .indirect) :
    ∀ r ∈ (matchN env n call magic s).rows, r.IsFramed := by
  intro r member _ type
  have line := (matchN_lines env n call magic s).subset (List.mem_map_of_mem member)
  exact absurd type (direct r.line line)

/-- The marks of the open levels are those that the history left. -/
theorem Reached.marks_eq {init st : St} {history : List Row} {phase : Phase}
    (keeps : KeepsMarks recur) (reached : Reached recur env call init history phase st)
    (zero : init.contLevel = 0) (framed : ∀ r ∈ history, r.IsFramed) (cont : phase = .cont) :
    ∀ k, 1 ≤ k → k ≤ st.contLevel → st.c.marks k = marksOf (siblings Row.level k history) := by
  induction reached with
  | start => cases cont
  | @line history phase phase' phase'' st st' m reached arrived goes ih =>
      subst cont
      intro k positive within
      cases phase' with
      | top =>
          obtain ⟨mid, headed, -⟩ := topStep_headed recur env call m st'
          have opens : (topStep recur env call m st').event.opens = true := by
            by_contra closed
            exact (headed.closed (Bool.not_eq_true _ ▸ closed)).1 goes
          obtain ⟨-, level, marks⟩ := headed.opened opens
          rw [reached.top_contLevel zero arrived] at level marks
          obtain rfl : k = 1 := by
            have : k ≤ (topStep recur env call m st').st.contLevel := within
            omega
          have root : (rowOf recur env call m .top st').level < 1 := positive
          rw [siblings_cons_lt root]
          exact (marks 1).trans (if_pos rfl)
      | cont =>
          rcases arrive_cases arrived with ⟨-, h, -⟩ | ⟨rfl, -, -, rfl⟩ | ⟨-, h, -⟩ | ⟨-, h, -⟩ |
            ⟨-, h, -⟩
          · cases h
          · have before := ih (fun r member => framed r (List.mem_cons_of_mem _ member)) rfl k positive
            let row := rowOf recur env call m .cont st'
            rcases contStep_cases goes with ⟨h, -⟩ | ⟨-, above, -, stays, same⟩ | ⟨-, walked⟩
            · cases h
            · have low : k ≤ st'.contLevel := within.trans_eq stays
              have deeper : k < row.level := low.trans_lt above
              rw [siblings_cons_gt deeper, ← before low]
              exact congrArg (Cont.marks · k) same
            · obtain ⟨mid, evaluated, tested⟩ := walked.evaluated
              have kept := tested.marks keeps (framed _ List.mem_cons_self rfl) k positive
              refine (evaluated.marks k).trans ?_
              have top : k ≤ if (contStep recur env call m st').event.opens then m.contLevel + 1
                  else m.contLevel := within.trans_eq evaluated.level
              rcases Nat.lt_trichotomy k m.contLevel with lt | rfl | gt
              · have deeper : k < row.level := lt
                rw [mark_lt lt, siblings_cons_gt deeper, kept, before (lt.le.trans walked.level)]
              · rw [mark_self, kept, before walked.level]
                exact (congrArg marksOf (siblings_cons_self row history)).symm
              · have opens : (contStep recur env call m st').event.opens = true := by
                  by_contra closed
                  rw [if_neg closed] at top
                  omega
                rw [if_pos opens] at top
                obtain rfl : k = m.contLevel + 1 := by omega
                have parent : row.level < m.contLevel + 1 := gt
                rw [mark_succ_of_opens opens, siblings_cons_lt parent]
                rfl
          all_goals cases h
      | flush => cases goes

/-- The marks with which a continuation comes. -/
theorem Comes.marks_eq {init : St} {history : List Row} {r : Row} (keeps : KeepsMarks recur)
    (comes : Comes recur env call init history r) (zero : init.contLevel = 0)
    (framed : ∀ q ∈ history, q.IsFramed) (cont : r.phase = .cont) :
    ∀ k, 1 ≤ k → k ≤ r.before.contLevel →
      r.before.c.marks k = marksOf (siblings Row.level k history) := by
  obtain ⟨⟨phase, st, reached, arrived⟩, -⟩ := comes
  rw [cont] at arrived
  rcases arrive_cases arrived with ⟨-, h, -⟩ | ⟨rfl, -, -, before⟩ | ⟨-, h, -⟩ | ⟨-, h, -⟩ |
    ⟨-, h, -⟩
  · cases h
  · rw [before]
    exact reached.marks_eq keeps zero framed rfl
  all_goals cases h

end Libmagic.Softmagic
