import Libmagic.Softmagic.Siblings

/-!
# `if`, `elif` and `else` lines

`check_cond` of the parser refuses an `elif` or `else` without a branch before it.
`match` decides about the lines that are left with `last_match`, one bit for each
level. A line whose data cannot be read does not write it, so the bit may be that of
a line before the chain.
-/
namespace Libmagic.Softmagic
open LevelTree (siblings siblings_cons_lt siblings_cons_gt siblings_cons_self siblings_split)

variable {recur : Recur} {env : Env} {call : Call}

/-! ## `check_cond` -/

/-- What `check_cond` leaves in `last_cond`; `none` is a syntax error. -/
def checkCond (cond last : Cond) : Option Cond :=
  match cond with
  | .if' => if last ≠ .none ∧ last ≠ .elif then none else some .if'
  | .elif => if last ≠ .if' ∧ last ≠ .elif then none else some .elif
  | .else' => if last ≠ .if' ∧ last ≠ .elif then none else some .none
  | .none => some .none

/-- The `last_cond` of the levels, and `last_cont_level`. -/
structure ParseState where
  lastCond : Nat → Cond
  lastLevel : Nat

/-- `parse`, as far as the conditions go: `file_check_mem` on a new level, and `check_cond`. -/
def parseCond (m : Magic) (p : ParseState) : Option ParseState :=
  let last := if m.contLevel = 0 ∨ p.lastLevel < m.contLevel then .none else p.lastCond m.contLevel
  (checkCond m.cond last).map fun cond =>
    { lastCond := fun k => if k = m.contLevel then cond else p.lastCond k, lastLevel := m.contLevel }

/-- The parser took every line of the list. The entries of a list are sorted after they
were parsed, so the parser may have come to a top-level line in any state. -/
inductive Accepted : ParseState → List Magic → Prop
  | nil (p : ParseState) : Accepted p []
  | line {p p' : ParseState} {m : Magic} {magic : List Magic} (parsed : parseCond m p = some p')
      (rest : Accepted p' magic) : Accepted p (m :: magic)
  | entry {p p' p'' : ParseState} {m : Magic} {magic : List Magic} (top : m.contLevel = 0)
      (parsed : parseCond m p' = some p'') (rest : Accepted p'' magic) : Accepted p (m :: magic)

/-- A line of a chain that another branch may follow. -/
def Cond.isBranch (cond : Cond) : Bool := decide (cond = .if' ∨ cond = .elif)

theorem checkCond_cases {cond last cond' : Cond} (checked : checkCond cond last = some cond') :
    (cond'.isBranch = true → cond.isBranch = true) ∧
      (cond = .elif ∨ cond = .else' → last.isBranch = true) := by
  cases cond <;> cases last <;> cases cond' <;> revert checked <;> decide

/-- A chain that may go on at a level goes on behind its latest line. -/
def ParseState.Follows (p : ParseState) (history : List Magic) : Prop :=
  ∀ k, 1 ≤ k →
    (k ≤ p.lastLevel → (p.lastCond k).isBranch = true →
      ∀ q ∈ (siblings Magic.contLevel k history).head?, q.cond.isBranch = true) ∧
    (p.lastLevel < k → siblings Magic.contLevel k history = [])

theorem parseCond_follows {m : Magic} {p p' : ParseState} {history : List Magic}
    (parsed : parseCond m p = some p') (follows : p.Follows history) : p'.Follows (m :: history) := by
  obtain ⟨cond, checked, rfl⟩ := Option.map_eq_some_iff.mp parsed
  obtain ⟨branch, -⟩ := checkCond_cases checked
  intro k positive
  constructor
  · intro within open'
    dsimp only at within open'
    rcases Nat.lt_or_eq_of_le within with lt | rfl
    · rw [if_neg lt.ne] at open'
      rw [siblings_cons_gt lt]
      obtain ⟨known, fresh⟩ := follows k positive
      by_cases below : k ≤ p.lastLevel
      · exact known below open'
      · intro q member
        simp [fresh (Nat.lt_of_not_le below)] at member
    · rw [if_pos rfl] at open'
      rw [siblings_cons_self]
      intro q member
      obtain rfl := Option.mem_some_iff.mp member
      exact branch open'
  · intro above
    have root : m.contLevel < k := above
    exact siblings_cons_lt root history

theorem parseCond_top {m : Magic} {p p' : ParseState} (history : List Magic) (top : m.contLevel = 0)
    (parsed : parseCond m p = some p') : p'.Follows (m :: history) := by
  obtain ⟨cond, -, rfl⟩ := Option.map_eq_some_iff.mp parsed
  intro k positive
  have above : m.contLevel < k := top ▸ positive
  constructor
  · intro within
    exact absurd above (Nat.not_lt.mpr within)
  · intro _
    exact siblings_cons_lt above history

/-- An accepted `elif` or `else` continuation comes behind a branch of its level, unless it
is the first line of its level. -/
theorem Accepted.branch {p : ParseState} {history magic : List Magic} {pre post : List Magic} {m : Magic}
    (accepted : Accepted p magic) (follows : p.Follows history) (lines : magic = pre ++ m :: post)
    (deeper : 1 ≤ m.contLevel) (cond : m.cond = .elif ∨ m.cond = .else') :
    ∀ q ∈ (siblings Magic.contLevel m.contLevel (pre.reverse ++ history)).head?,
      q.cond.isBranch = true := by
  induction accepted generalizing history pre with
  | nil p => simp at lines
  | @line p p' first magic parsed rest ih =>
      cases pre with
      | nil =>
          obtain ⟨rfl, rfl⟩ := List.cons.inj lines
          obtain ⟨cond', checked, rfl⟩ := Option.map_eq_some_iff.mp parsed
          have last := (checkCond_cases checked).2 cond
          split_ifs at last with fresh
          · cases last
          · rw [not_or] at fresh
            exact (follows _ deeper).1 (Nat.le_of_not_lt fresh.2) last
      | cons first' pre =>
          obtain ⟨rfl, tail⟩ := List.cons.inj lines
          have later := ih (parseCond_follows parsed follows) tail
          simpa using later
  | @entry p p' p'' first magic top parsed rest ih =>
      cases pre with
      | nil =>
          obtain ⟨rfl, rfl⟩ := List.cons.inj lines
          omega
      | cons first' pre =>
          obtain ⟨rfl, tail⟩ := List.cons.inj lines
          have later := ih (parseCond_top history top parsed) tail
          simpa using later

/-! ## The rule -/

/-- The branches of a chain before a line, among the lines of its level, the latest first. -/
def branches : List Row → List Row
  | [] => []
  | q :: rows =>
      match q.line.cond with
      | .elif => q :: branches rows
      | .if' => [q]
      | _ => []

/-- Whether a branch matched. `match` also takes a line with the relation `!` that cannot be
read for a match; `unread` says whether such a branch counts. -/
def Row.holds (unread : Bool) (r : Row) : Bool :=
  match r.event with
  | .suppressed => true
  | .matched read _ => read || unread
  | _ => false

/-- An `elif` or `else` continuation that was reached, with the rows before it. -/
structure ReachesElse (rows pre : List Row) (r : Row) : Prop where
  split : ∃ post, rows = pre ++ r :: post
  cont : r.phase = .cont
  cond : r.line.cond = .elif ∨ r.line.cond = .else'
  level : r.event ≠ .above
  placed : r.event ≠ .unset

/-- Every `elif` and `else` line that is reached is tested if and only if no branch of its
chain before it matched. -/
def ElseRule (unread : Bool) (rows : List Row) : Prop :=
  ∀ pre r, ReachesElse rows pre r →
    (r.event ≠ .chained ↔
      ∀ q ∈ branches (siblings Row.level r.level pre.reverse), q.holds unread = false)

/-! ## Where it holds -/

/-- A line that writes `last_match`. -/
def Row.writesLast (r : Row) : Bool :=
  match r.event with
  | .failed | .suppressed | .matched .. => true
  | _ => false

/-- A line that leaves `last_match` set. -/
def Row.leavesLast (r : Row) : Bool := r.event == .suppressed || r.event.opens

/-- The bit of a level is that of the chain: the latest branch that wrote it was no match whose
offset was not recorded, and if no branch wrote it then no line before the chain left it set. -/
def LastIsOurs (unread : Bool) (rows : List Row) : Prop :=
  match (branches rows).find? Row.writesLast with
  | some q => ∀ read ok, q.event = .matched read ok → ok = (read || unread)
  | none => branches rows ≠ [] → ∀ q ∈ rows.find? Row.writesLast, q.leavesLast = false

def KeepsLastMatch (unread : Bool) (rows : List Row) : Prop :=
  ∀ pre r, ReachesElse rows pre r → LastIsOurs unread (siblings Row.level r.level pre.reverse)

section
variable {unread : Bool} {q : Row} {rows : List Row}

theorem branches_elif (elif : q.line.cond = .elif) : branches (q :: rows) = q :: branches rows := by
  rw [branches, elif]

theorem branches_if (if' : q.line.cond = .if') : branches (q :: rows) = [q] := by
  rw [branches, if']

theorem branches_eq_nil (other : q.line.cond.isBranch = false) : branches (q :: rows) = [] := by
  rw [branches]
  cases cond : q.line.cond <;> simp_all [Cond.isBranch]

theorem holds_of_not_writes (silent : q.writesLast = false) : q.holds unread = false := by
  simp only [Row.writesLast, Row.holds] at silent ⊢
  cases event : q.event <;> simp_all

/-- What the lines of a level leave in `last_match`. -/
theorem marksOf_last (rows : List Row) :
    (marksOf rows).2 = (rows.find? Row.writesLast).any Row.leavesLast := by
  induction rows with
  | nil => rfl
  | cons r rows ih =>
      rw [marksOf, List.find?_cons]
      cases event : r.event with
      | matched read ok => cases ok <;> simp [Row.writesLast, Row.leavesLast, Event.mark, Event.opens, event]
      | failed => simp [Row.writesLast, Row.leavesLast, Event.mark, Event.opens, event]
      | suppressed => simp [Row.writesLast, Row.leavesLast, Event.mark, event]
      | _ => simp [Row.writesLast, Event.mark, event, ih]

theorem leavesLast_iff_holds (writes : q.writesLast = true) :
    (q.leavesLast = false ↔ q.holds unread = false) ↔
      ∀ read ok, q.event = .matched read ok → ok = (read || unread) := by
  simp only [Row.writesLast, Row.leavesLast, Row.holds] at writes ⊢
  cases event : q.event with
  | matched read ok =>
      simp only [Event.opens, Event.matched.injEq]
      cases ok <;> cases read <;> cases unread <;> simp
  | failed => simp [Event.opens]
  | suppressed => simp
  | _ =>
      rw [event] at writes
      cases writes

theorem find_any_eq_false {found : Option Row} :
    found.any Row.leavesLast = false ↔ ∀ q ∈ found, q.leavesLast = false := by
  cases found <;> simp

/-- The bit of a level says whether a branch matched if and only if it is that of the chain,
when the branches that were tested followed the rule. -/
theorem last_iff (rows : List Row)
    (earlier : ∀ later q before, rows = later ++ q :: before → q.line.cond = .elif →
      q.writesLast = true → ∀ p ∈ branches before, p.holds unread = false) :
    ((marksOf rows).2 = false ↔ ∀ q ∈ branches rows, q.holds unread = false) ↔
      match (branches rows).find? Row.writesLast with
      | some q => ∀ read ok, q.event = .matched read ok → ok = (read || unread)
      | none => ∀ q ∈ rows.find? Row.writesLast, q.leavesLast = false := by
  induction rows with
  | nil => simp [branches, marksOf]
  | cons q rows ih =>
      rw [marksOf_last] at ih ⊢
      cases writes : q.writesLast with
      | true =>
          have found : (q :: rows).find? Row.writesLast = some q := by rw [List.find?_cons, writes]
          rw [found, Option.any_some]
          cases cond : q.line.cond with
          | elif =>
              have none_before := earlier [] q rows rfl cond writes
              rw [branches_elif cond, List.forall_mem_cons, and_iff_left none_before, List.find?_cons, writes]
              exact leavesLast_iff_holds writes
          | if' =>
              rw [branches_if cond, List.forall_mem_singleton, List.find?_cons, writes]
              exact leavesLast_iff_holds writes
          | _ =>
              rw [branches_eq_nil (by rw [cond]; rfl)]
              simp
      | false =>
          have passed : (q :: rows).find? Row.writesLast = rows.find? Row.writesLast := by
            rw [List.find?_cons, writes]
          have silent : q.holds unread = false := holds_of_not_writes writes
          rw [passed]
          cases cond : q.line.cond with
          | elif =>
              rw [branches_elif cond, List.forall_mem_cons, and_iff_right silent, List.find?_cons, writes]
              apply ih
              intro later p before split
              exact earlier (q :: later) p before (congrArg (List.cons q) split)
          | if' =>
              rw [branches_if cond, List.forall_mem_singleton, List.find?_cons, writes, find_any_eq_false]
              simp [silent]
          | _ =>
              rw [branches_eq_nil (by rw [cond]; rfl), find_any_eq_false]
              simp

theorem lastIsOurs_iff (follows : ∀ q ∈ rows.head?, q.line.cond.isBranch = true) :
    LastIsOurs unread rows ↔
      match (branches rows).find? Row.writesLast with
      | some q => ∀ read ok, q.event = .matched read ok → ok = (read || unread)
      | none => ∀ q ∈ rows.find? Row.writesLast, q.leavesLast = false := by
  rw [LastIsOurs]
  split
  · rfl
  · constructor
    · intro ours
      cases rows with
      | nil => simp
      | cons q rows =>
          apply ours
          have branch := follows q rfl
          cases cond : q.line.cond with
          | elif => simp [branches_elif cond]
          | if' => simp [branches_if cond]
          | _ =>
              rw [cond] at branch
              cases branch
    · intro clean _
      exact clean

end

/-! ## One `elif` or `else` line -/

theorem head_siblings_line {k : Nat} (positive : 1 ≤ k) (history : List Row) :
    ∀ q ∈ (siblings Row.level k history).head?,
      q.line ∈ (siblings Magic.contLevel k (history.map Row.line)).head? := by
  induction history with
  | nil => simp [siblings]
  | cons r history ih =>
      rw [List.map_cons]
      by_cases top : r.phase = .top
      · have root : r.level < k := by rwa [Row.level, if_pos top]
        intro q member
        simp [siblings_cons_lt root] at member
      · have level : r.level = r.line.contLevel := by rw [Row.level, if_neg top]
        rcases Nat.lt_trichotomy r.level k with lt | rfl | gt
        · intro q member
          simp [siblings_cons_lt lt] at member
        · rw [siblings_cons_self, level, siblings_cons_self]
          intro q member
          cases member
          exact Option.mem_some_self r.line
        · have gt' : k < r.line.contLevel := level ▸ gt
          rw [siblings_cons_gt gt, siblings_cons_gt gt']
          exact ih

section
variable {unread : Bool} {n : Nat} {magic : List Magic} {s : Scan} {pre : List Row} {r : Row} {p : ParseState}

/-- An `elif` or `else` line that is reached goes by the bit that its level has. -/
theorem ReachesElse.tested_iff (framed : ∀ r ∈ (matchN env n call magic s).rows, r.IsFramed)
    (reaches : ReachesElse (matchN env n call magic s).rows pre r) :
    r.event ≠ .chained ↔ (marksOf (siblings Row.level r.level pre.reverse)).2 = false := by
  obtain ⟨post, rows⟩ := reaches.split
  obtain ⟨n', comes⟩ := matchN_comes rows
  have history : ∀ q ∈ pre.reverse, q.IsFramed := by
    intro q member
    apply framed
    rw [rows]
    exact List.mem_append_left _ (List.mem_reverse.mp member)
  have positive := comes.deeper reaches.cont
  have marks := comes.marks_eq (matchN_keepsMarks env n') rfl history reaches.cont
  have event : r.event = (contStep (matchN env n') env call r.line r.before).event := by
    rw [comes.event, reaches.cont]
    rfl
  have level := reaches.level
  have placed := reaches.placed
  rw [event] at level placed ⊢
  have within := contStep_ne_above_iff.mp level
  rw [ne_eq, contStep_chained_iff (Nat.one_le_iff_ne_zero.mp positive) level placed,
    and_iff_right reaches.cond.symm, marks _ positive within, level_of_cont reaches.cont,
    Bool.not_eq_true]

theorem ReachesElse.follows (accepted : Accepted p magic)
    (reaches : ReachesElse (matchN env n call magic s).rows pre r) :
    ∀ q ∈ (siblings Row.level r.level pre.reverse).head?, q.line.cond.isBranch = true := by
  obtain ⟨post, rows⟩ := reaches.split
  obtain ⟨n', comes⟩ := matchN_comes rows
  have positive := comes.deeper reaches.cont
  obtain ⟨rest, lines⟩ := matchN_lines env n call magic s
  have start : p.Follows [] := by
    intro k _
    constructor <;> simp [siblings]
  have split : magic = pre.map Row.line ++ r.line :: (post.map Row.line ++ rest) := by
    rw [← lines, rows]
    simp
  intro q member
  apply accepted.branch start split positive reaches.cond
  rw [List.append_nil, ← List.map_reverse]
  apply head_siblings_line positive
  rwa [← level_of_cont reaches.cont]

/-- A branch that was tested was reached. -/
theorem ReachesElse.earlier (reaches : ReachesElse (matchN env n call magic s).rows pre r)
    {later before : List Row} {q : Row}
    (split : siblings Row.level r.level pre.reverse = later ++ q :: before)
    (elif : q.line.cond = .elif) (writes : q.writesLast = true) :
    ∃ pre', pre'.length < pre.length ∧ ReachesElse (matchN env n call magic s).rows pre' q ∧
      siblings Row.level q.level pre'.reverse = before := by
  obtain ⟨post, rows⟩ := reaches.split
  obtain ⟨level, newer, older, history, rest⟩ := siblings_split split
  have pre_eq : pre = older.reverse ++ q :: newer.reverse := by
    rw [← List.reverse_reverse pre, history]
    simp
  have rows' : (matchN env n call magic s).rows = older.reverse ++ q :: (newer.reverse ++ r :: post) := by
    rw [rows, pre_eq]
    simp
  refine ⟨older.reverse, ?_, ⟨⟨_, rows'⟩, ?_, .inl elif, ?_, ?_⟩, ?_⟩
  · rw [pre_eq]
    simp
  · obtain ⟨n', comes⟩ := matchN_comes rows
    obtain ⟨n'', comes'⟩ := matchN_comes rows'
    have positive := comes.deeper reaches.cont
    cases phase : q.phase with
    | cont => rfl
    | top =>
        rw [Row.level, if_pos phase, level_of_cont reaches.cont] at level
        omega
    | flush =>
        have event := comes'.event
        rw [phase] at event
        have flushed : q.event = .flushed := event
        simp [Row.writesLast, flushed] at writes
  · intro above
    simp [Row.writesLast, above] at writes
  · intro unset
    simp [Row.writesLast, unset] at writes
  · rw [List.reverse_reverse, level, rest]

end

/-! ## One call of `match` -/

/-- Unless an `indirect` line made a nested call that opened levels, the `elif` and `else`
lines of an accepted list follow the rule if and only if the bit they go by is that of
their chain. -/
theorem elseRule_iff (unread : Bool) (env : Env) (n : Nat) (call : Call) (magic : List Magic) (s : Scan)
    (p : ParseState) (accepted : Accepted p magic)
    (framed : ∀ r ∈ (matchN env n call magic s).rows, r.IsFramed) :
    ElseRule unread (matchN env n call magic s).rows ↔
      KeepsLastMatch unread (matchN env n call magic s).rows := by
  -- one line, from the lines before it
  have line (pre : List Row) (r : Row) (reaches : ReachesElse (matchN env n call magic s).rows pre r)
      (before : ∀ pre' q, pre'.length < pre.length →
        ReachesElse (matchN env n call magic s).rows pre' q →
        (q.event ≠ .chained ↔
          ∀ p ∈ branches (siblings Row.level q.level pre'.reverse), p.holds unread = false)) :
      (r.event ≠ .chained ↔
          ∀ q ∈ branches (siblings Row.level r.level pre.reverse), q.holds unread = false) ↔
        LastIsOurs unread (siblings Row.level r.level pre.reverse) := by
    rw [reaches.tested_iff framed, lastIsOurs_iff (reaches.follows accepted)]
    apply last_iff
    intro later q older split elif writes
    obtain ⟨pre', shorter, reaches', rfl⟩ := reaches.earlier split elif writes
    apply (before pre' q shorter reaches').mp
    intro chained
    simp [Row.writesLast, chained] at writes
  constructor
  · intro rule pre r reaches
    apply (line pre r reaches _).mp (rule pre r reaches)
    intro pre' q _ reaches'
    exact rule pre' q reaches'
  · intro keeps pre r reaches
    induction bound : pre.length using Nat.strong_induction_on generalizing pre r with
    | _ length ih =>
        apply (line pre r reaches _).mpr (keeps pre r reaches)
        intro pre' q shorter reaches'
        exact ih pre'.length (bound ▸ shorter) pre' q reaches' rfl

/-- `0 byte x A`, `>0 if byte x B` and `>0 else byte x C`. -/
def elseLines : List Magic :=
  [{ plainLine with desc := asc "A" }, { plainLine with contLevel := 1, cond := .if', desc := asc "B" },
    { plainLine with contLevel := 1, cond := .else', desc := asc "C" }]

/-- The parser before its first line. -/
def plainParse : ParseState where
  lastCond := fun _ => .none
  lastLevel := 0

theorem elseRule_iff_plain :
    Accepted plainParse elseLines ∧
      (ElseRule false (matchN (plainEnv [elseLines] []) 1 plainCall elseLines (plainScan [1, 2])).rows ↔
        KeepsLastMatch false
          (matchN (plainEnv [elseLines] []) 1 plainCall elseLines (plainScan [1, 2])).rows) := by
  have accepted : Accepted plainParse elseLines := .line rfl (.line rfl (.line rfl (.nil _)))
  have direct : ∀ m ∈ elseLines, m.type ≠ .indirect := by decide
  exact ⟨accepted, elseRule_iff _ _ _ _ _ _ _ accepted (matchN_isFramed direct)⟩

/-- `0 byte x A`, `>0 byte x B`, `>100 if byte 5 C` and `>0 else byte x D`: on a short file
the byte of the third line cannot be read. -/
def staleLines : List Magic :=
  [{ plainLine with desc := asc "A" }, { plainLine with contLevel := 1, desc := asc "B" },
    { plainLine with
      contLevel := 1, offset := 100, reln := .eq, value := Value.zero.write 0 [5], cond := .if'
      desc := asc "C" },
    { plainLine with contLevel := 1, cond := .else', desc := asc "D" }]

/-- The rule fails however a branch that cannot be read is counted under the relation `!`. -/
theorem elseRule_fails :
    ¬∃ unread, ∀ (env : Env) (call : Call) (magic : List Magic) (s : Scan) (p : ParseState),
      Accepted p magic → ElseRule unread (matchMagic env call magic s).rows := by
  rintro ⟨unread, rule⟩
  have accepted : Accepted plainParse staleLines := .line rfl (.line rfl (.line rfl (.line rfl (.nil _))))
  have views : (matchMagic (plainEnv [staleLines] []) plainCall staleLines (plainScan [1, 2])).rows.map
      (fun r => (r.phase, r.event, r.line.cond, r.level)) =
        [(.top, .matched true true, .none, 0), (.cont, .matched true true, .none, 1),
          (.cont, .unread, .if', 1), (.cont, .chained, .else', 1)] := by decide +kernel
  obtain ⟨a, b, c, d, rows⟩ : ∃ a b c d, (matchMagic (plainEnv [staleLines] []) plainCall staleLines
      (plainScan [1, 2])).rows = [a, b, c, d] := by
    have length := (List.length_map _).symm.trans (congrArg List.length views)
    match (matchMagic (plainEnv [staleLines] []) plainCall staleLines (plainScan [1, 2])).rows, length with
    | [a, b, c, d], _ => exact ⟨a, b, c, d, rfl⟩
  rw [rows] at views
  simp only [List.map_cons, List.map_nil, List.cons.injEq, Prod.mk.injEq, and_true] at views
  obtain ⟨⟨-, -, -, levelA⟩, ⟨-, -, -, levelB⟩, ⟨-, eventC, condC, levelC⟩, phaseD, eventD, condD, levelD⟩ :=
    views
  have reaches : ReachesElse [a, b, c, d] [a, b, c] d :=
    ⟨⟨[], rfl⟩, phaseD, .inr condD, by simp [eventD], by simp [eventD]⟩
  have tested := rule _ plainCall staleLines (plainScan [1, 2]) plainParse accepted [a, b, c] d
    (rows ▸ reaches)
  have chain : branches (siblings Row.level d.level [a, b, c].reverse) = [c] := by
    simp [siblings, levelA, levelB, levelC, levelD, branches_if condC]
  rw [chain] at tested
  apply tested.mpr _ eventD
  simp [Row.holds, eventC]

end Libmagic.Softmagic
