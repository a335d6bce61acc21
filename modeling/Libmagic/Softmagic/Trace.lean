import Libmagic.Softmagic.Match

/-!
# What one line of a walk changes

`Reached` says where a walk is after the rows of a history. The other results
are about one line: its level and its marks, the two bits of the level table
that decide about `default` and `else` lines.
-/
namespace Libmagic.Softmagic

variable {recur : Recur} {env : Env} {call : Call}

/-! ## Reaching a line -/

section
variable {m : Magic} {magic : List Magic} {phase phase' phase'' : Phase} {st st' : St}

theorem walk_cons_none (arrived : arrive env m phase st = none) :
    walk recur env call (m :: magic) phase st = st.finish env phase := by
  rw [walk, arrived]

theorem walk_cons_ret {rv : Option Bool} (arrived : arrive env m phase st = some (phase', st'))
    (returns : (lineStep recur env call m phase' st').next = .ret rv) :
    walk recur env call (m :: magic) phase st =
      ⟨rv, (rowOf recur env call m phase' st').after.toScan, [rowOf recur env call m phase' st']⟩ := by
  rw [walk, arrived]
  simp only [returns]

theorem walk_cons_go (arrived : arrive env m phase st = some (phase', st'))
    (goes : (lineStep recur env call m phase' st').next = .go phase'') :
    walk recur env call (m :: magic) phase st =
      let r := walk recur env call magic phase'' (rowOf recur env call m phase' st').after
      { r with rows := rowOf recur env call m phase' st' :: r.rows } := by
  rw [walk, arrived]
  simp only [goes]

theorem rowOf_mem_walk (arrived : arrive env m phase st = some (phase', st')) :
    rowOf recur env call m phase' st' ∈ (walk recur env call (m :: magic) phase st).rows := by
  cases next : (lineStep recur env call m phase' st').next with
  | ret rv =>
      rw [walk_cons_ret arrived next]
      exact List.mem_singleton_self _
  | go phase'' =>
      rw [walk_cons_go arrived next]
      exact List.mem_cons_self

end

/-- The ways to come to a line. -/
theorem arrive_cases {m : Magic} {phase phase' : Phase} {st st' : St}
    (arrived : arrive env m phase st = some (phase', st')) :
    (phase = .top ∧ phase' = .top ∧ st' = st) ∨
    (phase = .cont ∧ phase' = .cont ∧ m.contLevel ≠ 0 ∧ st' = st) ∨
    (phase = .cont ∧ phase' = .top ∧ m.contLevel = 0 ∧ st.isDone env = false ∧
      st' = st.endEntry env) ∨
    (phase = .flush ∧ phase' = .flush ∧ m.contLevel ≠ 0 ∧ st' = st) ∨
    (phase = .flush ∧ phase' = .top ∧ m.contLevel = 0 ∧ st' = st) := by
  cases phase with
  | top =>
      obtain ⟨rfl, rfl⟩ := Prod.mk.inj (Option.some.inj arrived)
      exact .inl ⟨rfl, rfl, rfl⟩
  | cont =>
      simp only [arrive] at arrived
      split_ifs at arrived with deeper done
      · obtain ⟨rfl, rfl⟩ := Prod.mk.inj (Option.some.inj arrived)
        exact .inr (.inl ⟨rfl, rfl, deeper, rfl⟩)
      · obtain ⟨rfl, rfl⟩ := Prod.mk.inj (Option.some.inj arrived)
        exact .inr (.inr (.inl ⟨rfl, rfl, not_not.mp deeper, Bool.not_eq_true _ ▸ done, rfl⟩))
  | flush =>
      obtain ⟨rfl, rfl⟩ := Prod.mk.inj (Option.some.inj arrived)
      by_cases deeper : m.contLevel ≠ 0
      · exact .inr (.inr (.inr (.inl ⟨rfl, if_pos deeper, deeper, rfl⟩)))
      · exact .inr (.inr (.inr (.inr ⟨rfl, if_neg deeper, not_not.mp deeper, rfl⟩)))

/-- The walk that starts in `init` has left the rows of a history, the latest
first, and is where `phase` says. -/
inductive Reached (recur : Recur) (env : Env) (call : Call) (init : St) :
    List Row → Phase → St → Prop
  | start : Reached recur env call init [] .top init
  | line {history : List Row} {phase phase' phase'' : Phase} {st st' : St} (m : Magic)
      (before : Reached recur env call init history phase st)
      (arrived : arrive env m phase st = some (phase', st'))
      (goes : (lineStep recur env call m phase' st').next = .go phase'') :
      Reached recur env call init (rowOf recur env call m phase' st' :: history) phase''
        (rowOf recur env call m phase' st').after

/-- The walk has left the rows of `history` when it comes to `r`. -/
structure Comes (recur : Recur) (env : Env) (call : Call) (init : St) (history : List Row) (r : Row) :
    Prop where
  reached : ∃ phase st, Reached recur env call init history phase st ∧
    arrive env r.line phase st = some (r.phase, r.before)
  row : r = rowOf recur env call r.line r.phase r.before

section
variable {init : St} {history : List Row} {r : Row} (comes : Comes recur env call init history r)
include comes

theorem Comes.event : r.event = (lineStep recur env call r.line r.phase r.before).event :=
  congrArg Row.event comes.row

theorem Comes.after : r.after = (lineStep recur env call r.line r.phase r.before).st :=
  congrArg Row.after comes.row

theorem Comes.nested : r.nested = (lineStep recur env call r.line r.phase r.before).nested :=
  congrArg Row.nested comes.row

end

/-- The loop over continuations comes to continuations only. -/
theorem Comes.deeper {init : St} {history : List Row} {r : Row}
    (comes : Comes recur env call init history r) (cont : r.phase = .cont) : 1 ≤ r.line.contLevel := by
  obtain ⟨⟨phase, st, -, arrived⟩, -⟩ := comes
  rw [cont] at arrived
  rcases arrive_cases arrived with ⟨-, h, -⟩ | ⟨-, -, deeper, -⟩ | ⟨-, h, -⟩ | ⟨-, h, -⟩ | ⟨-, h, -⟩
  · cases h
  · exact Nat.one_le_iff_ne_zero.mpr deeper
  all_goals cases h

theorem walk_comes {init : St} (magic : List Magic) {history pre post : List Row} {phase : Phase}
    {st : St} {r : Row} (reached : Reached recur env call init history phase st)
    (rows : (walk recur env call magic phase st).rows = pre ++ r :: post) :
    Comes recur env call init (pre.reverse ++ history) r := by
  induction magic generalizing history pre phase st with
  | nil => simp [walk, St.finish] at rows
  | cons m magic ih =>
      cases arrived : arrive env m phase st with
      | none => simp [walk_cons_none arrived, St.finish] at rows
      | some at' =>
          obtain ⟨phase', st'⟩ := at'
          have here : Comes recur env call init history (rowOf recur env call m phase' st') :=
            ⟨⟨phase, st, reached, arrived⟩, rfl⟩
          cases next : (lineStep recur env call m phase' st').next with
          | ret rv =>
              rw [walk_cons_ret arrived next] at rows
              obtain ⟨rfl, rfl, -⟩ : pre = [] ∧ r = rowOf recur env call m phase' st' ∧ post = [] := by
                cases pre <;> simp_all
              exact here
          | go phase'' =>
              rw [walk_cons_go arrived next] at rows
              cases pre with
              | nil =>
                  obtain ⟨rfl, -⟩ := List.cons.inj rows
                  exact here
              | cons p pre =>
                  obtain ⟨rfl, tail⟩ := List.cons.inj rows
                  simpa using ih (.line m reached arrived next) tail

/-- The rows behind `r` are those of the walk that goes on from it. -/
theorem walk_split (magic : List Magic) {pre post : List Row} {phase : Phase} {st : St} {r : Row}
    (rows : (walk recur env call magic phase st).rows = pre ++ r :: post) :
    ∃ rest, magic = pre.map Row.line ++ r.line :: rest ∧
      post = match (lineStep recur env call r.line r.phase r.before).next with
        | .ret _ => []
        | .go phase' => (walk recur env call rest phase' r.after).rows := by
  induction magic generalizing pre phase st with
  | nil => simp [walk, St.finish] at rows
  | cons m magic ih =>
      cases arrived : arrive env m phase st with
      | none => simp [walk_cons_none arrived, St.finish] at rows
      | some at' =>
          obtain ⟨phase', st'⟩ := at'
          cases next : (lineStep recur env call m phase' st').next with
          | ret rv =>
              rw [walk_cons_ret arrived next] at rows
              obtain ⟨rfl, rfl, rfl⟩ : pre = [] ∧ r = rowOf recur env call m phase' st' ∧ post = [] := by
                cases pre <;> simp_all
              refine ⟨magic, rfl, ?_⟩
              simp [rowOf, next]
          | go phase'' =>
              rw [walk_cons_go arrived next] at rows
              cases pre with
              | nil =>
                  obtain ⟨rfl, rfl⟩ := List.cons.inj rows
                  refine ⟨magic, rfl, ?_⟩
                  simp [rowOf, next]
              | cons p pre =>
                  obtain ⟨rfl, tail⟩ := List.cons.inj rows
                  obtain ⟨rest, rfl, eq⟩ := ih tail
                  exact ⟨rest, rfl, eq⟩

/-- The state in which the loop of `match` starts. -/
def matchInit (env : Env) (s : Scan) : St :=
  (St.open' env { toScan := s, bb := none, contLevel := 0 }).2

theorem matchWith_comes {magic : List Magic} {s : Scan} {pre post : List Row} {r : Row}
    (rows : (matchWith recur env call magic s).rows = pre ++ r :: post) :
    Comes recur env call (matchInit env s) pre.reverse r := by
  rw [matchWith] at rows
  split at rows
  · simp at rows
  · rename_i st opened
    have init : st = matchInit env s := by rw [matchInit, opened]
    subst init
    simpa using walk_comes magic .start rows

theorem walk_lines (recur : Recur) (env : Env) (call : Call) (magic : List Magic) (phase : Phase)
    (st : St) : (walk recur env call magic phase st).rows.map Row.line <+: magic := by
  induction magic generalizing phase st with
  | nil => exact List.nil_prefix
  | cons m magic ih =>
      cases arrived : arrive env m phase st with
      | none =>
          rw [walk_cons_none arrived]
          exact List.nil_prefix
      | some at' =>
          cases next : (lineStep recur env call m at'.1 at'.2).next with
          | ret rv =>
              rw [walk_cons_ret arrived next]
              exact ⟨magic, rfl⟩
          | go phase' =>
              rw [walk_cons_go arrived next]
              exact List.prefix_cons_inj m |>.mpr (ih phase' _)

theorem matchWith_lines (recur : Recur) (env : Env) (call : Call) (magic : List Magic) (s : Scan) :
    (matchWith recur env call magic s).rows.map Row.line <+: magic := by
  rw [matchWith]
  split
  · exact List.nil_prefix
  · exact walk_lines recur env call magic .top _

theorem matchWith_split {magic : List Magic} {s : Scan} {pre post : List Row} {r : Row}
    (rows : (matchWith recur env call magic s).rows = pre ++ r :: post) :
    ∃ rest, magic = pre.map Row.line ++ r.line :: rest ∧
      post = match (lineStep recur env call r.line r.phase r.before).next with
        | .ret _ => []
        | .go phase' => (walk recur env call rest phase' r.after).rows := by
  rw [matchWith] at rows
  split at rows
  · simp at rows
  · exact walk_split magic rows

theorem matchN_comes {n : Nat} {magic : List Magic} {s : Scan} {pre post : List Row} {r : Row}
    (rows : (matchN env n call magic s).rows = pre ++ r :: post) :
    ∃ n', Comes (matchN env n') env call (matchInit env s) pre.reverse r := by
  cases n with
  | zero => simp [matchN] at rows
  | succ n => exact ⟨n, matchWith_comes rows⟩

theorem matchN_lines (env : Env) (n : Nat) (call : Call) (magic : List Magic) (s : Scan) :
    (matchN env n call magic s).rows.map Row.line <+: magic := by
  cases n with
  | zero => exact List.nil_prefix
  | succ n => exact matchWith_lines (matchN env n) env call magic s

/-! ## What the parts of a line leave alone -/

/-- The part of the state, the level table aside, that testing and printing a value
leave alone. -/
structure Frame where
  offset : Nat
  eoffset : Nat
  b : Buffer
  bb : Window
  contLevel : Nat
  indirCount : Nat
  nameCount : Nat
  overrun : Bool

def St.frame (st : St) : Frame :=
  { offset := st.offset, eoffset := st.eoffset, b := st.b, bb := st.bb, contLevel := st.contLevel
    indirCount := st.indirCount, nameCount := st.nameCount, overrun := st.overrun }

/-- `st'` differs from `st` in the output, the value and the flags only. -/
structure Printed (st st' : St) : Prop where
  frame : st'.frame = st.frame
  c : st'.c = st.c
  found : st.foundMatch = true → st'.foundMatch = true

theorem Printed.contLevel {st st' : St} (h : Printed st st') : st'.contLevel = st.contLevel :=
  congrArg Frame.contLevel h.frame

theorem Printed.trans {st st' st'' : St} (first : Printed st st') (second : Printed st' st'') :
    Printed st st'' :=
  ⟨second.frame.trans first.frame, second.c.trans first.c, fun h => second.found (first.found h)⟩

section
variable (env : Env) (call : Call) (m : Magic) (st : St)

theorem check_printed : Printed st (st.check env m).2 := ⟨rfl, rfl, id⟩

theorem get_contLevel (recur : Recur) :
    (st.get recur env call m).2.1.contLevel = st.contLevel := by
  simp only [St.get]
  split <;> rfl

theorem annotate_printed : Printed st (st.annotate env m).2 := by
  simp only [St.annotate]
  split
  · exact ⟨rfl, rfl, id⟩
  · exact ⟨rfl, rfl, fun _ => rfl⟩

theorem describeTop_printed : Printed st (st.describeTop env m).2 := by
  simp only [St.describeTop]
  split_ifs
  · exact ⟨rfl, rfl, id⟩
  all_goals exact ⟨rfl, rfl, fun _ => rfl⟩

theorem describeCont_printed : Printed st (st.describeCont env m).2 := by
  simp only [St.describeCont]
  split_ifs
  · exact ⟨rfl, rfl, id⟩
  all_goals exact ⟨rfl, rfl, fun _ => rfl⟩

theorem record_frame : (st.record env call m).2.frame = st.frame := rfl

theorem open_frame : (st.open' env).2.frame = st.frame := rfl

end

@[simp] theorem setCont_c (c : Cont) (st : St) : (st.setCont c).c = c := rfl

@[simp] theorem setCont_contLevel (c : Cont) (st : St) : (st.setCont c).contLevel = st.contLevel := rfl

/-! ## Marks -/

/-- `got_match` and `last_match` of a level. -/
def Cont.marks (c : Cont) (k : Nat) : Bool × Bool := ((c.li k).gotMatch, (c.li k).lastMatch)

section
variable (c : Cont) (level : Nat)

@[simp] theorem marks_setOff (off : Int) : (c.setOff level off).marks = c.marks := by
  funext k
  simp only [Cont.marks, Cont.setOff, Cont.update]
  split <;> rfl

@[simp] theorem marks_setGot (got : Bool) (k : Nat) :
    (c.setGot level got).marks k = if k = level then (got, (c.marks k).2) else c.marks k := by
  simp only [Cont.marks, Cont.setGot, Cont.update]
  split <;> rfl

@[simp] theorem marks_setLast (last : Bool) (k : Nat) :
    (c.setLast level last).marks k = if k = level then ((c.marks k).1, last) else c.marks k := by
  simp only [Cont.marks, Cont.setLast, Cont.update]
  split <;> rfl

@[simp] theorem marks_reset (k : Nat) :
    (c.reset level).marks k = if k = level then (false, false) else c.marks k := by
  simp only [Cont.marks, Cont.reset, Cont.update]
  split <;> rfl

end

theorem record_marks (env : Env) (call : Call) (m : Magic) (st : St) :
    (st.record env call m).2.c.marks = st.c.marks := by
  simp only [St.record]
  split <;> split <;> simp

theorem open_marks {st : St} (opened : (st.open' env).1 = true) (k : Nat) :
    (st.open' env).2.c.marks k = if k = st.contLevel then (false, false) else st.c.marks k := by
  simp only [St.open', fileCheckMem] at opened ⊢
  split_ifs at opened ⊢ with inside allocated
  all_goals simp_all [Cont.marks, Cont.reset, Cont.update]

/-- Without memory `file_check_mem` sets no mark. -/
theorem open_marks_failed {st : St} (failed : (st.open' env).1 = false) :
    (st.open' env).2.c.marks = st.c.marks := by
  simp only [St.open', fileCheckMem] at failed ⊢
  split_ifs at failed ⊢ with inside allocated
  rfl

/-! ## Events -/

/-- Whether the levels above a line with this event are opened. -/
def Event.opens : Event → Bool
  | .matched _ true => true
  | _ => false

/-- The event of a line whose test was made. -/
def Event.isTest : Event → Bool
  | .unread | .failed | .suppressed | .matched .. => true
  | _ => false

/-- The marks that an evaluated continuation at `level` leaves. -/
def Event.mark (event : Event) (clear : Bool) (level : Nat) (marks : Nat → Bool × Bool) (k : Nat) :
    Bool × Bool :=
  match event with
  | .failed => if k = level then ((marks k).1, false) else marks k
  | .suppressed => if k = level then ((marks k).1, true) else marks k
  | .matched _ true =>
      if k = level + 1 then (false, false) else if k = level then (!clear, true) else marks k
  -- `file_check_mem` comes back to the level of the line itself
  | .matched _ false => if k = level then (false, false) else marks k
  | _ => marks k

/-- A continuation that was evaluated, with the marks `mid` when it was tested. -/
structure Evaluated (m : Magic) (mid : Nat → Bool × Bool) (o : Outcome) : Prop where
  level : o.st.contLevel = if o.event.opens then m.contLevel + 1 else m.contLevel
  marks : ∀ k, o.st.c.marks k = o.event.mark (m.type == MType.clear) m.contLevel mid k
  suppressed : o.event = .suppressed → m.type = .default ∧ (mid m.contLevel).1 = true
  matched : ∀ read ok, o.event = .matched read ok → m.type = .default → (mid m.contLevel).1 = false

section
variable {m : Magic} {st : St} {phase : Phase} {read : Bool} {nested : List Row}

theorem contTakes_goes (goes : (contTakes env call m read nested st).next = .go phase) :
    ∃ ok, (contTakes env call m read nested st).event = .matched read ok ∧ phase = .cont ∧
      (contTakes env call m read nested st).st.contLevel =
        (if ok then st.contLevel + 1 else st.contLevel) ∧
      ∀ k, (contTakes env call m read nested st).st.c.marks k =
        if k = (if ok then st.contLevel + 1 else st.contLevel) then (false, false)
        else st.c.marks k := by
  have annotated := annotate_printed env m st
  unfold contTakes at goes ⊢
  split at goes
  · cases goes
  rename_i st₁ eq₁
  rw [eq₁] at annotated
  have described := describeCont_printed env m st₁
  split at goes
  · cases goes
  rename_i st₂ eq₂
  rw [eq₂] at described
  have printed := annotated.trans described
  simp only at goes ⊢
  split at goes
  · cases goes
  rename_i st₃ eq₃
  have opened := open_marks (congrArg Prod.fst eq₃)
  have kept := open_frame env ((st₂.record env call m).2.setLevel
    (if (st₂.record env call m).1 then st₂.contLevel + 1 else st₂.contLevel))
  rw [eq₃] at opened kept
  cases goes
  refine ⟨_, rfl, rfl, ?_, ?_⟩
  · rw [← printed.contLevel]
    exact congrArg Frame.contLevel kept
  · intro k
    rw [opened k, ← printed.contLevel, ← printed.c, ← record_marks env call m st₂]
    rfl

theorem contTakes_nested : (contTakes env call m read nested st).nested = nested := by
  unfold contTakes
  split
  · rfl
  · split
    · rfl
    · dsimp only
      split <;> rfl

theorem contMatched_nested : (contMatched env call m read nested st).nested = nested := by
  simp only [contMatched]
  split_ifs
  · rfl
  · exact contTakes_nested

theorem contMatched_evaluated (level : st.contLevel = m.contLevel)
    (goes : (contMatched env call m read nested st).next = .go phase) :
    phase = .cont ∧ Evaluated m st.c.marks (contMatched env call m read nested st) := by
  have got : ((st.c.setLast st.contLevel true).li st.contLevel).gotMatch =
      (st.c.marks m.contLevel).1 := by
    rw [← level]
    exact congrArg Prod.fst ((marks_setLast st.c st.contLevel true st.contLevel).trans (if_pos rfl))
  unfold contMatched at goes ⊢
  simp only [got] at goes ⊢
  split_ifs at goes ⊢ with suppressed
  · cases goes
    refine ⟨rfl, level, ?_, fun _ => suppressed, nofun⟩
    intro k
    rw [← level]
    exact marks_setLast st.c st.contLevel true k
  · obtain ⟨ok, event, rfl, contLevel, marks⟩ := contTakes_goes goes
    refine ⟨rfl, ?_, ?_, ?_, ?_⟩
    · rw [contLevel, event, ← level]
      cases ok <;> rfl
    · intro k
      rw [marks, event, ← level]
      cases ok <;> simp only [Event.mark, setCont_c, setCont_contLevel, marks_setGot, marks_setLast,
        Bool.false_eq_true, ↓reduceIte] <;> split_ifs <;> rfl
    · rw [event]
      nofun
    · intro read' ok' _ default
      simpa [default] using suppressed

theorem contRead_evaluated (level : st.contLevel = m.contLevel)
    (goes : (contRead recur env call m st).next = .go phase) :
    phase = .cont ∧
      Evaluated m (st.get recur env call m).2.1.c.marks (contRead recur env call m st) ∧
      (contRead recur env call m st).nested = (st.get recur env call m).2.2 := by
  have got := get_contLevel env call m st recur
  unfold contRead at goes ⊢
  rcases read : st.get recur env call m with ⟨rv, st₁, nested⟩
  simp only [read] at goes got ⊢
  rcases rv with _ | _ | _
  · cases goes
  · simp only at goes ⊢
    split_ifs at goes ⊢ with reln
    · cases goes
      exact ⟨rfl, ⟨got.trans level, fun _ => rfl, nofun, nofun⟩, rfl⟩
    · obtain ⟨rfl, evaluated⟩ := contMatched_evaluated (got.trans level) goes
      exact ⟨rfl, evaluated, contMatched_nested⟩
  · have printed := check_printed env m st₁
    rcases checked : st₁.check env m with ⟨matched, st₂⟩
    simp only [checked] at goes printed ⊢
    have level₂ := (printed.contLevel.trans got).trans level
    rcases matched with _ | _ | _
    · cases goes
    · cases goes
      refine ⟨rfl, ⟨level₂, ?_, nofun, nofun⟩, rfl⟩
      intro k
      rw [← level₂, ← printed.c]
      exact marks_setLast st₂.c st₂.contLevel false k
    · obtain ⟨rfl, evaluated⟩ := contMatched_evaluated level₂ goes
      rw [printed.c] at evaluated
      exact ⟨rfl, evaluated, contMatched_nested⟩

end

/-! ## One continuation -/

/-- The events of a line whose test was begun. -/
def Event.isBegun : Event → Bool
  | .flushed | .filtered | .above | .unset | .chained => false
  | _ => true

/-- The events of a line whose offset was set. -/
def Event.isInner (event : Event) : Bool := event.isBegun || decide (event = .chained)

section
variable {m : Magic} {st : St} {read : Bool} {nested : List Row}

theorem contTakes_event :
    (contTakes env call m read nested st).event = .stopped ∨
      ∃ ok, (contTakes env call m read nested st).event = .matched read ok ∧
        (contTakes env call m read nested st).next = .go .cont := by
  unfold contTakes
  split
  · exact .inl rfl
  · split
    · exact .inl rfl
    · dsimp only
      split
      · exact .inl rfl
      · exact .inr ⟨_, rfl, rfl⟩

theorem contMatched_event :
    (contMatched env call m read nested st).event = .stopped ∨
      (((contMatched env call m read nested st).event = .suppressed ∨
          ∃ ok, (contMatched env call m read nested st).event = .matched read ok) ∧
        (contMatched env call m read nested st).next = .go .cont) := by
  simp only [contMatched]
  split_ifs
  · exact .inr ⟨.inl rfl, rfl⟩
  · rcases contTakes_event with stopped | ⟨ok, event, next⟩
    · exact .inl stopped
    · exact .inr ⟨.inr ⟨ok, event⟩, next⟩

theorem contRead_event :
    (contRead recur env call m st).event = .stopped ∨
      ((contRead recur env call m st).event.isTest = true ∧
        (contRead recur env call m st).next = .go .cont) := by
  have matched (read : Bool) (nested : List Row) (st : St) :
      (contMatched env call m read nested st).event = .stopped ∨
        ((contMatched env call m read nested st).event.isTest = true ∧
          (contMatched env call m read nested st).next = .go .cont) := by
    rcases contMatched_event with stopped | ⟨suppressed | ⟨ok, event⟩, next⟩
    · exact .inl stopped
    · exact .inr ⟨congrArg Event.isTest suppressed, next⟩
    · exact .inr ⟨congrArg Event.isTest event, next⟩
  unfold contRead
  split
  · exact .inl rfl
  · split_ifs
    · exact .inr ⟨rfl, rfl⟩
    · exact matched _ _ _
  · split
    · exact .inl rfl
    · exact .inr ⟨rfl, rfl⟩
    · exact matched _ _ _

theorem isBegun_of_isTest {event : Event} (test : event.isTest = true) : event.isBegun = true := by
  cases event <;> first | rfl | cases test

theorem contRead_begun : (contRead recur env call m st).event.isBegun = true := by
  rcases contRead_event with stopped | ⟨test, -⟩
  · rw [stopped]
    rfl
  · exact isBegun_of_isTest test

theorem contTest_inner : (contTest recur env call m st).event.isInner = true := by
  unfold contTest
  split_ifs
  · rfl
  · exact Bool.or_eq_true_iff.mpr (.inl contRead_begun)

theorem topMatched_begun : (topMatched env call m read nested st).event.isBegun = true := by
  unfold topMatched
  split
  · rfl
  · split
    · rfl
    · split
      · rfl
      · split <;> rfl

theorem topRead_begun : (topRead recur env call m st).event.isBegun = true := by
  unfold topRead
  split
  · rfl
  · split_ifs
    · rfl
    · exact topMatched_begun
  · split
    · rfl
    · rfl
    · exact topMatched_begun

end

/-- A continuation at the current level: its offset was set, or the size of the file says
how the walk goes on. -/
theorem contLine_event (recur : Recur) (env : Env) (call : Call) (m : Magic) (st : St) :
    let o := contLine recur env call m st
    o.event.isInner = true ∨ (o.event = .unset ∧
      ((o.st.b.elen = FILE_BADSIZE ∧ o.next = .go .cont) ∨
        (o.st.b.elen ≠ FILE_BADSIZE ∧ o.next = .go .flush))) := by
  unfold contLine
  split
  · rename_i st₁ _
    by_cases bad : st₁.b.elen = FILE_BADSIZE
    · rw [if_pos bad]
      exact .inr ⟨rfl, .inl ⟨bad, rfl⟩⟩
    · rw [if_neg bad]
      exact .inr ⟨rfl, .inr ⟨bad, rfl⟩⟩
  · left
    split_ifs
    · exact contTest_inner
    · rfl
    · exact contTest_inner

/-- The marks `mid` with which a line that comes with the marks of `st` is tested: the
nested calls may have changed them. -/
def TestedWith (recur : Recur) (env : Env) (call : Call) (m : Magic) (st : St) (nested : List Row)
    (mid : Nat → Bool × Bool) : Prop :=
  (mid = st.c.marks ∧ nested = []) ∨
    ∃ st₁ : St, st₁.c = st.c ∧ mid = (st₁.get recur env call m).2.1.c.marks ∧
      nested = (st₁.get recur env call m).2.2

/-- A continuation that was evaluated. -/
structure Walked (recur : Recur) (env : Env) (call : Call) (m : Magic) (st : St) (o : Outcome) :
    Prop where
  level : m.contLevel ≤ st.contLevel
  evaluated : ∃ mid, Evaluated m mid o ∧ TestedWith recur env call m st o.nested mid

section
variable {m : Magic} {st : St} {phase : Phase}

theorem contTest_walked (level : st.contLevel = m.contLevel)
    (goes : (contTest recur env call m st).next = .go phase) :
    phase = .cont ∧ Walked recur env call m st (contTest recur env call m st) := by
  unfold contTest at goes ⊢
  split_ifs at goes ⊢ with chained
  · cases goes
    exact ⟨rfl, level.ge, _, ⟨level, fun _ => rfl, nofun, nofun⟩, .inl ⟨rfl, rfl⟩⟩
  · obtain ⟨rfl, evaluated, nested⟩ := contRead_evaluated level goes
    exact ⟨rfl, level.ge, _, evaluated, .inr ⟨st, rfl, rfl, nested⟩⟩

theorem contLine_cases (level : st.contLevel = m.contLevel)
    (goes : (contLine recur env call m st).next = .go phase) :
    (phase = .flush ∧ (contLine recur env call m st).event = .unset ∧
        (contLine recur env call m st).st.contLevel = 0) ∨
      (phase = .cont ∧ Walked recur env call m st (contLine recur env call m st)) := by
  unfold contLine at goes ⊢
  rcases placed : st.place env call m with ⟨ok, st₁⟩
  have c₁ : st₁.c = st.c := congrArg (fun r : Bool × St => r.2.c) placed.symm
  have level₁ : st₁.contLevel = st.contLevel := congrArg (fun r : Bool × St => r.2.contLevel) placed.symm
  simp only [placed] at goes ⊢
  cases ok with
  | false =>
      simp only at goes ⊢
      split_ifs at goes ⊢ with bad
      · cases goes
        refine .inr ⟨rfl, level.ge, _, ⟨level₁.trans level, ?_, nofun, nofun⟩, .inl ⟨rfl, rfl⟩⟩
        intro k
        rw [c₁]
        rfl
      · cases goes
        exact .inl ⟨rfl, rfl, rfl⟩
  | true =>
      -- the sum with the offset of the level below changes neither the table nor the level
      have walked (st₂ : St) (c₂ : st₂.c = st₁.c) (level₂ : st₂.contLevel = st₁.contLevel)
          (goes : (contTest recur env call m st₂).next = .go phase) :
          phase = .cont ∧ Walked recur env call m st (contTest recur env call m st₂) := by
        obtain ⟨rfl, h⟩ := contTest_walked (level₂.trans (level₁.trans level)) goes
        exact ⟨rfl, level.ge, by simpa only [TestedWith, c₂, c₁] using h.evaluated⟩
      simp only at goes ⊢
      split_ifs at goes ⊢ with offadd zero
      · exact .inr (walked st₁ rfl rfl goes)
      · cases goes
      · exact .inr (walked st₁.addOff rfl rfl goes)

/-- The way of a continuation that does not end the walk. -/
theorem contStep_cases (goes : (contStep recur env call m st).next = .go phase) :
    (phase = .flush ∧ (contStep recur env call m st).event = .unset ∧
      (contStep recur env call m st).st.contLevel = 0) ∨
    (phase = .cont ∧ st.contLevel < m.contLevel ∧ (contStep recur env call m st).event = .above ∧
      (contStep recur env call m st).st.contLevel = st.contLevel ∧
      (contStep recur env call m st).st.c = st.c) ∨
    (phase = .cont ∧ Walked recur env call m st (contStep recur env call m st)) := by
  simp only [contStep] at goes ⊢
  split_ifs at goes ⊢ with above
  · cases goes
    exact .inr (.inl ⟨rfl, above, rfl, rfl, rfl⟩)
  · rcases contLine_cases rfl goes with flushed | ⟨rfl, h⟩
    · exact .inl flushed
    · exact .inr (.inr ⟨rfl, Nat.le_of_not_lt above, h.evaluated⟩)

/-- A continuation that stops the walk says so. -/
theorem contStep_goes (running : (contStep recur env call m st).event ≠ .stopped) :
    ∃ phase, (contStep recur env call m st).next = .go phase := by
  have tested (st : St) (running : (contTest recur env call m st).event ≠ .stopped) :
      ∃ phase, (contTest recur env call m st).next = .go phase := by
    unfold contTest at running ⊢
    split_ifs at running ⊢
    · exact ⟨_, rfl⟩
    · rcases contRead_event with stopped | ⟨-, next⟩
      · exact absurd stopped running
      · exact ⟨_, next⟩
  simp only [contStep] at running ⊢
  split_ifs at running ⊢
  · exact ⟨_, rfl⟩
  · unfold contLine at running ⊢
    split at running
    · split <;> exact ⟨_, rfl⟩
    · split_ifs at running ⊢
      · exact tested _ running
      · exact absurd rfl running
      · exact tested _ running

/-- A continuation whose offset is set is skipped for its condition if and only if it is
an `elif` or `else` and the level has a last match. -/
theorem contStep_chained_iff (deeper : m.contLevel ≠ 0)
    (below : (contStep recur env call m st).event ≠ .above)
    (placed : (contStep recur env call m st).event ≠ .unset) :
    (contStep recur env call m st).event = .chained ↔
      (m.cond = .else' ∨ m.cond = .elif) ∧ (st.c.marks m.contLevel).2 = true := by
  have tested (st₁ : St) (c : st₁.c = st.c) (level : st₁.contLevel = m.contLevel) :
      (contTest recur env call m st₁).event = .chained ↔
        (m.cond = .else' ∨ m.cond = .elif) ∧ (st.c.marks m.contLevel).2 = true := by
    have chained : st₁.isChained m = true ↔
        (m.cond = .else' ∨ m.cond = .elif) ∧ (st.c.marks m.contLevel).2 = true := by
      simp [St.isChained, Cont.marks, level, c]
    rw [← chained]
    unfold contTest
    split_ifs with skipped
    · exact iff_of_true rfl skipped
    · refine iff_of_false ?_ skipped
      intro event
      exact absurd ((congrArg Event.isBegun event).symm.trans contRead_begun) nofun
  simp only [contStep] at below placed ⊢
  split_ifs at below placed ⊢
  · exact absurd rfl below
  · unfold contLine at placed ⊢
    rcases eq : ((st.setLine m).setLevel m.contLevel).place env call m with ⟨_ | _, st₁⟩
    all_goals
      have c : st₁.c = st.c := congrArg (fun r : Bool × St => r.2.c) eq.symm
      have level : st₁.contLevel = m.contLevel := congrArg (fun r : Bool × St => r.2.contLevel) eq.symm
      rw [eq] at placed
      dsimp only at placed ⊢
    · split_ifs at placed <;> exact absurd rfl placed
    · split_ifs with offadd zero
      · exact tested st₁ c level
      · exact absurd (level.symm.trans zero) deeper
      · exact tested st₁.addOff c level

end

/-! ## One top-level line -/

/-- The top-level line `m` at `level`, with the marks `mid` when it was tested. -/
structure Headed (m : Magic) (level : Nat) (mid : Nat → Bool × Bool) (o : Outcome) : Prop where
  opened : o.event.opens = true → o.next = .go .cont ∧ o.st.contLevel = level + 1 ∧
    ∀ k, o.st.c.marks k = if k = level + 1 then (false, false) else mid k
  closed : o.event.opens = false → o.next ≠ .go .cont ∧ o.st.c.marks = mid
  level : ∀ phase, o.next = .go phase → phase ≠ .cont → o.st.contLevel = level ∨ o.st.contLevel = 0
  flushed : ∀ read, o.event = .matched read false → o.next = .go .flush
  found : ∀ read ok, o.event = .matched read ok → m.desc ≠ [] → o.st.foundMatch = true

theorem Headed.stop {m : Magic} {st st₁ : St} {rv : Option Bool} {nested : List Row} {level : Nat}
    (marks : st₁.c.marks = st.c.marks) : Headed m level st.c.marks (st₁.stop rv nested) :=
  ⟨nofun, fun _ => ⟨nofun, marks⟩, nofun, nofun, nofun⟩

theorem Headed.flushFrom {m : Magic} {st st₁ : St} {event : Event} {nested : List Row} {level : Nat}
    (closed : event.opens = false) (marks : st₁.c.marks = st.c.marks)
    (found : ∀ read ok, event = .matched read ok → m.desc ≠ [] → st₁.foundMatch = true) :
    Headed m level st.c.marks (st₁.flushFrom event nested) := by
  refine ⟨fun opened => ?_, fun _ => ⟨nofun, marks⟩, fun _ _ _ => .inr rfl, fun _ _ => rfl, found⟩
  exact absurd (closed.symm.trans opened) nofun

theorem describeTop_found {m : Magic} (env : Env) (st : St) (described : m.desc ≠ []) :
    (st.describeTop env m).2.foundMatch = true := by
  simp only [St.describeTop, if_neg described]
  split_ifs <;> rfl

theorem topMatched_headed (env : Env) (call : Call) (m : Magic) (read : Bool) (nested : List Row)
    (st : St) :
    Headed m st.contLevel st.c.marks (topMatched env call m read nested st) ∧
      (topMatched env call m read nested st).nested = nested := by
  have annotated := annotate_printed env m st
  unfold topMatched
  rcases eq₁ : st.annotate env m with ⟨rv, st₁⟩
  rw [eq₁] at annotated
  rcases rv with _ | rv
  swap
  · exact ⟨.stop (congrArg Cont.marks annotated.c), rfl⟩
  have printed := annotated.trans (describeTop_printed env m st₁)
  dsimp only
  rcases eq₂ : st₁.describeTop env m with ⟨_ | _, st₂⟩
  · rw [eq₂] at printed
    exact ⟨.stop (congrArg Cont.marks printed.c), rfl⟩
  rw [eq₂] at printed
  have found (described : m.desc ≠ []) : (st₂.record env call m).2.foundMatch = true := by
    have found := describeTop_found env st₁ described
    rw [eq₂] at found
    exact found
  have marks := (record_marks env call m st₂).trans (congrArg Cont.marks printed.c)
  have level := (congrArg Frame.contLevel (record_frame env call m st₂)).trans printed.contLevel
  dsimp only
  rcases eq₃ : st₂.record env call m with ⟨_ | _, st₃⟩
  · rw [eq₃] at marks found
    exact ⟨.flushFrom rfl marks fun _ _ _ => found, rfl⟩
  rw [eq₃] at marks level found
  dsimp only at level marks ⊢
  rcases eq₄ : (st₃.setLevel (st₃.contLevel + 1)).open' env with ⟨_ | _, st₄⟩
  · have failed := open_marks_failed (congrArg Prod.fst eq₄)
    rw [eq₄] at failed
    exact ⟨.stop (failed.trans marks), rfl⟩
  · have opened := open_marks (congrArg Prod.fst eq₄)
    have kept := congrArg Frame.contLevel (open_frame env (st₃.setLevel (st₃.contLevel + 1)))
    rw [eq₄] at opened kept
    refine ⟨⟨fun _ => ⟨rfl, ?_, ?_⟩, nofun, ?_, nofun, ?_⟩, rfl⟩
    · rw [← level]
      exact kept
    · intro k
      rw [← level, ← marks]
      exact opened k
    · rintro phase ⟨⟩ cont
      exact absurd rfl cont
    · intro _ _ _ described
      have kept : (st₃.setLevel (st₃.contLevel + 1) |>.open' env).2.foundMatch = true := found described
      rw [eq₄] at kept
      exact kept

theorem topRead_headed (recur : Recur) (env : Env) (call : Call) (m : Magic) (st : St) :
    Headed m st.contLevel (st.get recur env call m).2.1.c.marks (topRead recur env call m st) ∧
      (topRead recur env call m st).nested = (st.get recur env call m).2.2 := by
  have got := get_contLevel env call m st recur
  unfold topRead
  rcases read : st.get recur env call m with ⟨rv, st₁, nested⟩
  rw [read] at got
  dsimp only at got ⊢
  rcases rv with _ | _ | _
  · exact ⟨.stop rfl, rfl⟩
  · dsimp only
    split_ifs with reln
    · exact ⟨.flushFrom rfl rfl nofun, rfl⟩
    · rw [← got]
      exact topMatched_headed env call m false nested st₁
  · have printed := check_printed env m st₁
    dsimp only
    rcases checked : st₁.check env m with ⟨_ | _ | _, st₂⟩
    all_goals
      rw [checked] at printed
      dsimp only at printed ⊢
    · exact ⟨.stop (congrArg Cont.marks printed.c), rfl⟩
    · exact ⟨.flushFrom rfl (congrArg Cont.marks printed.c) nofun, rfl⟩
    · rw [← got, ← printed.contLevel, ← printed.c]
      exact topMatched_headed env call m true nested st₂

theorem topStep_headed (recur : Recur) (env : Env) (call : Call) (m : Magic) (st : St) :
    ∃ mid, Headed m st.contLevel mid (topStep recur env call m st) ∧
      TestedWith recur env call m st (topStep recur env call m st).nested mid := by
  by_cases filtered : isFiltered call m = true
  · rw [topStep, if_pos filtered]
    exact ⟨_, .flushFrom rfl rfl nofun, .inl ⟨rfl, rfl⟩⟩
  rw [topStep, if_neg filtered]
  rcases placed : st.place env call m with ⟨ok, st₁⟩
  have c₁ : st₁.c = st.c := congrArg (fun r : Bool × St => r.2.c) placed.symm
  have level₁ : st₁.contLevel = st.contLevel := congrArg (fun r : Bool × St => r.2.contLevel) placed.symm
  cases ok with
  | false =>
      dsimp only
      split_ifs with bad
      · refine ⟨_, ⟨nofun, fun _ => ⟨nofun, rfl⟩, fun _ _ _ => .inl level₁, nofun, nofun⟩, .inl ⟨?_, rfl⟩⟩
        exact congrArg Cont.marks c₁
      · exact ⟨_, .flushFrom rfl rfl nofun, .inl ⟨congrArg Cont.marks c₁, rfl⟩⟩
  | true =>
      obtain ⟨headed, nested⟩ := topRead_headed recur env call m (st₁.setLine m)
      refine ⟨_, ?_, .inr ⟨st₁.setLine m, c₁, rfl, nested⟩⟩
      rw [← level₁]
      exact headed

/-! ## Counters and `found_match`

Only the nested calls change the counters, and nothing takes `found_match` back. -/

/-- `s'` has the counters of `s` and keeps its match. -/
structure Later (s s' : Scan) : Prop where
  indirs : s'.indirCount = s.indirCount
  names : s'.nameCount = s.nameCount
  overrun : s'.overrun = s.overrun
  found : s.foundMatch = true → s'.foundMatch = true

theorem Later.refl (s : Scan) : Later s s := ⟨rfl, rfl, rfl, id⟩

theorem Later.trans {s s' s'' : Scan} (first : Later s s') (second : Later s' s'') : Later s s'' :=
  ⟨second.indirs.trans first.indirs, second.names.trans first.names,
    second.overrun.trans first.overrun, fun h => second.found (first.found h)⟩

theorem Printed.later {st st' : St} (h : Printed st st') : Later st.toScan st'.toScan :=
  ⟨congrArg Frame.indirCount h.frame, congrArg Frame.nameCount h.frame,
    congrArg Frame.overrun h.frame, h.found⟩

theorem record_later (env : Env) (call : Call) (m : Magic) (st : St) :
    Later st.toScan (st.record env call m).2.toScan := ⟨rfl, rfl, rfl, id⟩

theorem open_later (env : Env) (st : St) : Later st.toScan (st.open' env).2.toScan :=
  ⟨rfl, rfl, rfl, id⟩

theorem setCont_later (st : St) (c : Cont) : Later st.toScan (st.setCont c).toScan :=
  ⟨rfl, rfl, rfl, id⟩

theorem setLevel_later (st : St) (level : Nat) : Later st.toScan (st.setLevel level).toScan :=
  .refl _

section
variable {m : Magic} {st : St} {read : Bool} {nested : List Row}

theorem contTakes_later : Later st.toScan (contTakes env call m read nested st).st.toScan := by
  have annotated := annotate_printed env m st
  unfold contTakes
  rcases eq₁ : st.annotate env m with ⟨_ | rv, st₁⟩
  all_goals rw [eq₁] at annotated
  · have printed := annotated.trans (describeCont_printed env m st₁)
    dsimp only
    rcases eq₂ : st₁.describeCont env m with ⟨_ | _, st₂⟩
    all_goals rw [eq₂] at printed
    · exact printed.later
    · have recorded := record_later env call m st₂
      have opened := open_later env ((st₂.record env call m).2.setLevel
        (if (st₂.record env call m).1 then st₂.contLevel + 1 else st₂.contLevel))
      dsimp only
      split
      all_goals
        rename_i st₃ eq₃
        rw [eq₃] at opened
        exact printed.later.trans (recorded.trans opened)
  · exact annotated.later

theorem contMatched_later : Later st.toScan (contMatched env call m read nested st).st.toScan := by
  simp only [contMatched]
  split_ifs
  · exact setCont_later st _
  · exact (setCont_later st _).trans contTakes_later

theorem contRead_later :
    Later (st.get recur env call m).2.1.toScan (contRead recur env call m st).st.toScan := by
  unfold contRead
  rcases read : st.get recur env call m with ⟨_ | _ | _, st₁, nested⟩
  · exact .refl _
  · dsimp only
    split_ifs
    · exact .refl _
    · exact contMatched_later
  · have checked := (check_printed env m st₁).later
    dsimp only
    rcases eq : st₁.check env m with ⟨_ | _ | _, st₂⟩
    all_goals rw [eq] at checked
    · exact checked
    · exact checked.trans (setCont_later st₂ _)
    · exact checked.trans contMatched_later

theorem topMatched_later : Later st.toScan (topMatched env call m read nested st).st.toScan := by
  have annotated := annotate_printed env m st
  unfold topMatched
  rcases eq₁ : st.annotate env m with ⟨_ | rv, st₁⟩
  all_goals rw [eq₁] at annotated
  · have printed := annotated.trans (describeTop_printed env m st₁)
    dsimp only
    rcases eq₂ : st₁.describeTop env m with ⟨_ | _, st₂⟩
    all_goals rw [eq₂] at printed
    · exact printed.later
    · have recorded := record_later env call m st₂
      dsimp only
      rcases eq₃ : st₂.record env call m with ⟨_ | _, st₃⟩
      all_goals rw [eq₃] at recorded
      · exact printed.later.trans (recorded.trans (setLevel_later st₃ 0))
      · have opened := (setLevel_later st₃ (st₃.contLevel + 1)).trans (open_later env _)
        dsimp only
        split
        all_goals
          rename_i st₄ eq₄
          rw [eq₄] at opened
          exact printed.later.trans (recorded.trans opened)
  · exact annotated.later

theorem topRead_later :
    Later (st.get recur env call m).2.1.toScan (topRead recur env call m st).st.toScan := by
  unfold topRead
  rcases read : st.get recur env call m with ⟨_ | _ | _, st₁, nested⟩
  · exact .refl _
  · dsimp only
    split_ifs
    · exact setLevel_later st₁ 0
    · exact topMatched_later
  · have checked := (check_printed env m st₁).later
    dsimp only
    rcases eq : st₁.check env m with ⟨_ | _ | _, st₂⟩
    all_goals rw [eq] at checked
    · exact checked
    · exact checked.trans (setLevel_later st₂ 0)
    · exact checked.trans topMatched_later

theorem place_later (env : Env) (call : Call) (m : Magic) (st : St) :
    Later st.toScan (st.place env call m).2.toScan := ⟨rfl, rfl, rfl, id⟩

theorem setLine_later (m : Magic) (st : St) : Later st.toScan (st.setLine m).toScan :=
  ⟨rfl, rfl, rfl, id⟩

theorem addOff_later (st : St) : Later st.toScan st.addOff.toScan := ⟨rfl, rfl, rfl, id⟩

/-- A line changes the counters through its test only. -/
def LaterBut (recur : Recur) (env : Env) (call : Call) (m : Magic) (st : St) (o : Outcome) : Prop :=
  (Later st.toScan o.st.toScan ∧ o.nested = []) ∨
    ∃ st₁ : St, Later st.toScan st₁.toScan ∧
      Later (st₁.get recur env call m).2.1.toScan o.st.toScan ∧
      o.nested = (st₁.get recur env call m).2.2

theorem LaterBut.of_later {st st' : St} {o : Outcome} (first : Later st.toScan st'.toScan)
    (h : LaterBut recur env call m st' o) : LaterBut recur env call m st o := by
  rcases h with ⟨last, nested⟩ | ⟨st₁, last, rest⟩
  · exact .inl ⟨first.trans last, nested⟩
  · exact .inr ⟨st₁, first.trans last, rest⟩

theorem contRead_nested : (contRead recur env call m st).nested = (st.get recur env call m).2.2 := by
  unfold contRead
  rcases st.get recur env call m with ⟨_ | _ | _, st₁, nested⟩
  · rfl
  · dsimp only
    split_ifs
    · rfl
    · exact contMatched_nested
  · dsimp only
    split
    · rfl
    · rfl
    · exact contMatched_nested

theorem contTest_laterBut : LaterBut recur env call m st (contTest recur env call m st) := by
  unfold contTest
  split_ifs
  · exact .inl ⟨.refl _, rfl⟩
  · exact .inr ⟨st, .refl _, contRead_later, contRead_nested⟩

theorem contStep_laterBut : LaterBut recur env call m st (contStep recur env call m st) := by
  have lined := setLine_later m st
  simp only [contStep]
  split_ifs
  · exact .inl ⟨lined, rfl⟩
  · refine .of_later (lined.trans (setLevel_later _ m.contLevel)) ?_
    have placed := place_later env call m ((st.setLine m).setLevel m.contLevel)
    unfold contLine
    rcases eq : ((st.setLine m).setLevel m.contLevel).place env call m with ⟨_ | _, st₁⟩
    all_goals
      rw [eq] at placed
      dsimp only
    · split_ifs
      · exact .inl ⟨placed, rfl⟩
      · exact .inl ⟨placed.trans (setLevel_later st₁ 0), rfl⟩
    · split_ifs
      · exact contTest_laterBut.of_later placed
      · exact .inl ⟨placed, rfl⟩
      · exact contTest_laterBut.of_later (placed.trans (addOff_later st₁))

theorem topStep_laterBut : LaterBut recur env call m st (topStep recur env call m st) := by
  by_cases filtered : isFiltered call m = true
  · rw [topStep, if_pos filtered]
    exact .inl ⟨setLevel_later st 0, rfl⟩
  rw [topStep, if_neg filtered]
  have placed := place_later env call m st
  rcases eq : st.place env call m with ⟨_ | _, st₁⟩
  all_goals
    rw [eq] at placed
    dsimp only
  · split_ifs
    · exact .inl ⟨placed, rfl⟩
    · exact .inl ⟨placed.trans (setLevel_later st₁ 0), rfl⟩
  · exact .inr ⟨st₁.setLine m, placed.trans (setLine_later m st₁), topRead_later,
      (topRead_headed recur env call m (st₁.setLine m)).2⟩

end

theorem lineStep_laterBut (recur : Recur) (env : Env) (call : Call) (m : Magic) (phase : Phase)
    (st : St) : LaterBut recur env call m st (lineStep recur env call m phase st) := by
  cases phase with
  | top => exact topStep_laterBut
  | cont => exact contStep_laterBut
  | flush => exact .inl ⟨.refl _, rfl⟩

theorem endEntry_later (env : Env) (st : St) : Later st.toScan (st.endEntry env).toScan := by
  simp only [St.endEntry]
  split_ifs <;> exact ⟨rfl, rfl, rfl, id⟩

/-! ## Whole walks -/

theorem topStep_contLevel {m : Magic} {st : St} {phase : Phase} (zero : st.contLevel = 0)
    (goes : (topStep recur env call m st).next = .go phase) (outside : phase ≠ .cont) :
    (topStep recur env call m st).st.contLevel = 0 := by
  obtain ⟨mid, headed, -⟩ := topStep_headed recur env call m st
  rcases headed.level phase goes outside with same | zero'
  · exact same.trans zero
  · exact zero'

theorem endEntry_contLevel (env : Env) (st : St) : (st.endEntry env).contLevel = 0 := by
  simp only [St.endEntry]
  split_ifs <;> rfl

theorem Reached.contLevel_eq_zero {init st : St} {history : List Row} {phase : Phase}
    (reached : Reached recur env call init history phase st) (zero : init.contLevel = 0)
    (outside : phase ≠ .cont) : st.contLevel = 0 := by
  induction reached with
  | start => exact zero
  | @line history phase phase' phase'' st st' m _ arrived goes ih =>
      rcases arrive_cases arrived with ⟨rfl, rfl, rfl⟩ | ⟨rfl, rfl, deeper, rfl⟩ |
        ⟨rfl, rfl, -, -, rfl⟩ | ⟨rfl, rfl, deeper, rfl⟩ | ⟨rfl, rfl, -, rfl⟩
      · exact topStep_contLevel (ih nofun) goes outside
      · rcases contStep_cases goes with ⟨-, -, zero⟩ | ⟨cont, -⟩ | ⟨cont, -⟩
        · exact zero
        · exact absurd cont outside
        · exact absurd cont outside
      · exact topStep_contLevel (endEntry_contLevel env st) goes outside
      · exact ih nofun
      · exact topStep_contLevel (ih nofun) goes outside

theorem Reached.top_contLevel {init st st' : St} {history : List Row} {phase : Phase} {m : Magic}
    (reached : Reached recur env call init history phase st) (zero : init.contLevel = 0)
    (arrived : arrive env m phase st = some (.top, st')) : st'.contLevel = 0 := by
  rcases arrive_cases arrived with ⟨rfl, -, rfl⟩ | ⟨-, cont, -⟩ | ⟨rfl, -, -, -, rfl⟩ |
    ⟨-, flush, -⟩ | ⟨rfl, -, -, rfl⟩
  · exact reached.contLevel_eq_zero zero nofun
  · cases cont
  · exact endEntry_contLevel env st
  · cases flush
  · exact reached.contLevel_eq_zero zero nofun

end Libmagic.Softmagic
