import Libmagic.Softmagic.Mget
import Libmagic.Softmagic.Trace

/-!
# The nesting of `match`

`mget` makes no nested call when one of its counters is at its limit, and each nested
call adds one to a counter. `name_count` is taken back behind the call; `indir_count`
is not, and so bounds the number of all `indirect` calls together.
-/
namespace Libmagic.Softmagic

variable {recur recur' : Recur} {env : Env} {call : Call}

/-! ## Counters -/

/-- The limits are those of 16-bit counters. -/
structure Limited (env : Env) : Prop where
  indirs : env.indirMax < 2 ^ 16
  names : env.nameMax < 2 ^ 16

structure Counters where
  indirs : Nat
  names : Nat
  overrun : Bool

def Scan.counters (s : Scan) : Counters :=
  { indirs := s.indirCount, names := s.nameCount, overrun := s.overrun }

/-- The counters are within their limits, and fewer than `n` nested calls are left. -/
structure Ready (env : Env) (n : Nat) (c : Counters) : Prop where
  indirs : c.indirs ≤ env.indirMax
  names : c.names ≤ env.nameMax
  left : env.indirMax - c.indirs + (env.nameMax - c.names) < n

/-- The counters are `c'` after they were `c`. -/
structure Counts (env : Env) (c c' : Counters) : Prop where
  names : c'.names = c.names
  grows : c.indirs ≤ c'.indirs
  indirs : c'.indirs ≤ env.indirMax
  overrun : c'.overrun = c.overrun

theorem Counts.ready {n : Nat} {c c' : Counters} (counts : Counts env c c') (ready : Ready env n c) :
    Ready env n c' := by
  obtain ⟨names, grows, indirs, -⟩ := counts
  obtain ⟨-, names', left⟩ := ready
  constructor <;> omega

theorem Counts.trans {c c' c'' : Counters} (first : Counts env c c') (second : Counts env c' c'') :
    Counts env c c'' := by
  constructor
  · exact second.names.trans first.names
  · exact first.grows.trans second.grows
  · exact second.indirs
  · exact second.overrun.trans first.overrun

theorem Later.counts {s s' : Scan} (later : Later s s') (indirs : s.indirCount ≤ env.indirMax) :
    Counts env s.counters s'.counters := by
  constructor
  · exact later.names
  · exact later.indirs.ge
  · exact later.indirs.trans_le indirs
  · exact later.overrun

/-- The counters of a row, and of the rows of its nested calls: each call adds one to
`name_count` or to `indir_count`. -/
inductive Counted (env : Env) : Row → Prop
  | intro {r : Row} (counts : Counts env r.before.counters r.after.counters)
      (names : r.before.nameCount ≤ env.nameMax)
      (use : ∀ q ∈ r.nested, r.line.type = .use →
        q.before.nameCount = r.before.nameCount + 1 ∧ r.before.indirCount ≤ q.before.indirCount)
      (indirect : ∀ q ∈ r.nested, r.line.type ≠ .use → r.line.type = .indirect ∧
        q.before.nameCount = r.before.nameCount ∧ r.before.indirCount + 1 ≤ q.before.indirCount)
      (nested : ∀ q ∈ r.nested, Counted env q) : Counted env r

/-- The rows of a call that starts with the counters `c`. -/
def CountedFrom (env : Env) (c : Counters) (rows : List Row) : Prop :=
  ∀ q ∈ rows, Counts env c q.before.counters ∧ Counted env q

theorem CountedFrom.append {c c' : Counters} {rows rows' : List Row} (first : CountedFrom env c rows)
    (counts : Counts env c c') (second : CountedFrom env c' rows') :
    CountedFrom env c (rows ++ rows') := by
  intro q member
  rcases List.mem_append.mp member with member | member
  · exact first q member
  · obtain ⟨counts', counted⟩ := second q member
    exact ⟨counts.trans counts', counted⟩

/-- With fewer than `n` nested calls left, `recur` counts them. -/
def Counting (env : Env) (n : Nat) (recur : Recur) : Prop :=
  ∀ call magic s, Ready env n s.counters →
    Counts env s.counters (recur call magic s).scan.counters ∧
      CountedFrom env s.counters (recur call magic s).rows

section
variable {n : Nat} {m : Magic} {bb : Window} {s : Scan}

theorem indirectEnter_ready (bb : Window) (limited : Limited env) (ready : Ready env (n + 1) s.counters) (target : Nat)
    (below : s.indirCount < env.indirMax) :
    (indirectEnter bb target s).indirCount = s.indirCount + 1 ∧
      Ready env n (indirectEnter bb target s).counters := by
  obtain ⟨-, names, left⟩ := ready
  have small := limited.indirs
  have entered : (indirectEnter bb target s).indirCount = s.indirCount + 1 := by
    apply Nat.mod_eq_of_lt
    omega
  have counters : (indirectEnter bb target s).counters =
      { s.counters with indirs := s.indirCount + 1 } := by
    rw [← entered]
    rfl
  refine ⟨entered, ?_⟩
  rw [counters]
  simp only [Scan.counters] at names left ⊢
  constructor <;> dsimp only <;> omega

theorem useEnter_ready (m : Magic) (limited : Limited env) (ready : Ready env (n + 1) s.counters)
    (below : s.nameCount < env.nameMax) :
    (useEnter m s).nameCount = s.nameCount + 1 ∧ Ready env n (useEnter m s).counters := by
  obtain ⟨indirs, -, left⟩ := ready
  have small := limited.names
  have entered : (useEnter m s).nameCount = s.nameCount + 1 := by
    apply Nat.mod_eq_of_lt
    omega
  have counters : (useEnter m s).counters = { s.counters with names := s.nameCount + 1 } := by
    rw [← entered]
    rfl
  refine ⟨entered, ?_⟩
  rw [counters]
  simp only [Scan.counters] at indirs left ⊢
  constructor <;> dsimp only <;> omega

theorem indirectLoop_counts (call : Call) (counting : Counting env n recur) (mlist : List (List Magic))
    (rv : Option Bool) (ready : Ready env n s.counters) :
    Counts env s.counters (indirectLoop recur call mlist rv s).scan.counters ∧
      CountedFrom env s.counters (indirectLoop recur call mlist rv s).rows := by
  induction mlist generalizing rv s with
  | nil => exact ⟨(Later.refl s).counts ready.indirs, List.forall_mem_nil _⟩
  | cons magic mlist ih =>
      obtain ⟨first, rows⟩ := counting call magic { s with returnval := false, foundMatch := false } ready
      rw [indirectLoop]
      dsimp only
      split_ifs
      · exact ⟨first, rows⟩
      · obtain ⟨rest, rows'⟩ := ih (recur call magic { s with returnval := false, foundMatch := false }).rv
          (first.ready ready)
        exact ⟨Counts.trans first rest, rows.append first rows'⟩

/-- The rows of the nested calls of `mget`, when its counters were `c`. -/
structure NestedFrom (env : Env) (m : Magic) (c : Counters) (rows : List Row) : Prop where
  use : ∀ q ∈ rows, m.type = .use → q.before.nameCount = c.names + 1 ∧ c.indirs ≤ q.before.indirCount
  indirect : ∀ q ∈ rows, m.type ≠ .use → m.type = .indirect ∧ q.before.nameCount = c.names ∧
    c.indirs + 1 ≤ q.before.indirCount
  counted : ∀ q ∈ rows, Counted env q

theorem NestedFrom.nil (m : Magic) (c : Counters) : NestedFrom env m c [] := by
  constructor <;> simp

theorem Fetched.counts {r : Result} (limited : Limited env) (counting : Counting env n recur)
    (fetched : Fetched recur env call m bb s r) (ready : Ready env (n + 1) s.counters) :
    Counts env s.counters r.scan.counters ∧ NestedFrom env m s.counters r.rows := by
  have loaded (value : Value) (search : Search) (offset : Nat) :
      Ready env (n + 1) (s.loaded value search offset).counters := ready
  cases fetched with
  | plain => exact ⟨⟨rfl, le_rfl, ready.indirs, rfl⟩, .nil m s.counters⟩
  | indirect rv value search offset target offset' io r type indirs names nested back =>
      obtain ⟨entered, inside⟩ := indirectEnter_ready bb limited (loaded value search offset) target indirs
      subst nested
      obtain ⟨counts, rows⟩ := indirectLoop_counts call.indirect counting env.mlist none inside
      constructor
      · refine ⟨counts.names, ?_, counts.indirs, counts.overrun⟩
        exact (Nat.le_succ _).trans (entered.symm.trans_le counts.grows)
      · constructor
        · intro q _ use
          rw [type] at use
          cases use
        · intro q member _
          obtain ⟨before, -⟩ := rows q member
          exact ⟨type, before.names, entered.symm.trans_le before.grows⟩
        · intro q member
          exact (rows q member).2
  | use rv value search offset magic flipped r type indirs names nested =>
      obtain ⟨entered, inside⟩ := useEnter_ready m limited (loaded value search offset) names
      obtain ⟨counts, rows⟩ := counting (call.use flipped offset) magic _ inside
      rw [← nested] at counts rows
      constructor
      · refine ⟨?_, counts.grows, counts.indirs, counts.overrun⟩
        have back : r.scan.nameCount = s.nameCount + 1 := counts.names.trans entered
        have small := limited.names
        change (r.scan.nameCount + (2 ^ 16 - 1)) % 2 ^ 16 = s.nameCount
        rw [back]
        omega
      · constructor
        · intro q member _
          obtain ⟨before, -⟩ := rows q member
          exact ⟨before.names.trans entered, before.grows⟩
        · intro q _ other
          exact absurd type other
        · intro q member
          exact (rows q member).2

theorem get_counts {st : St} (call : Call) (m : Magic) (limited : Limited env) (counting : Counting env n recur)
    (ready : Ready env (n + 1) st.counters) :
    Counts env st.counters (st.get recur env call m).2.1.counters ∧
      NestedFrom env m st.counters (st.get recur env call m).2.2 := by
  have same : (st.get recur env call m).2.1.counters =
      (mget recur env m st.bb call st.contLevel st.toScan).scan.counters := by
    simp only [St.get]
    split <;> rfl
  rw [same]
  exact (mget_fetched recur env m st.bb call st.contLevel st.toScan).counts limited counting ready

theorem lineStep_counts {st : St} (call : Call) (m : Magic) (limited : Limited env) (counting : Counting env n recur)
    (phase : Phase) (ready : Ready env (n + 1) st.counters) :
    Counts env st.counters (lineStep recur env call m phase st).st.counters ∧
      NestedFrom env m st.counters (lineStep recur env call m phase st).nested := by
  rcases lineStep_laterBut recur env call m phase st with ⟨later, nested⟩ | ⟨st₁, before, after, nested⟩
  · rw [nested]
    exact ⟨later.counts ready.indirs, .nil m st.counters⟩
  · have first : Counts env st.counters st₁.counters := before.counts ready.indirs
    have same : st₁.counters = st.counters := by
      simp only [Scan.counters, before.indirs, before.names, before.overrun]
    obtain ⟨second, rows⟩ := get_counts call m limited counting (first.ready ready)
    rw [nested, ← same]
    exact ⟨second.trans (after.counts second.indirs), rows⟩

theorem rowOf_counted {st : St} (limited : Limited env) (counting : Counting env n recur)
    (phase : Phase) (ready : Ready env (n + 1) st.counters) :
    Counted env (rowOf recur env call m phase st) := by
  obtain ⟨counts, nested⟩ := lineStep_counts call m limited counting phase ready
  exact .intro counts ready.names nested.use nested.indirect nested.counted

theorem arrive_counters {phase phase' : Phase} {st st' : St}
    (arrived : arrive env m phase st = some (phase', st')) : st'.counters = st.counters := by
  rcases arrive_cases arrived with ⟨-, -, rfl⟩ | ⟨-, -, -, rfl⟩ | ⟨-, -, -, -, rfl⟩ | ⟨-, -, -, rfl⟩ |
    ⟨-, -, -, rfl⟩
  · rfl
  · rfl
  · obtain ⟨indirs, names, overrun, -⟩ := endEntry_later env st
    simp only [Scan.counters, indirs, names, overrun]
  · rfl
  · rfl

theorem finish_counters (env : Env) (phase : Phase) (st : St) :
    (st.finish env phase).scan.counters = st.counters := by
  obtain ⟨indirs, names, overrun, -⟩ := endEntry_later env st
  simp only [St.finish]
  split
  · simp only [Scan.counters, indirs, names, overrun]
  · rfl

theorem walk_counts (limited : Limited env) (counting : Counting env n recur) (magic : List Magic)
    (phase : Phase) {st : St} (ready : Ready env (n + 1) st.counters) :
    Counts env st.counters (walk recur env call magic phase st).scan.counters ∧
      CountedFrom env st.counters (walk recur env call magic phase st).rows := by
  have done (phase : Phase) : Counts env st.counters (st.finish env phase).scan.counters := by
    rw [finish_counters]
    exact ⟨rfl, le_rfl, ready.indirs, rfl⟩
  induction magic generalizing phase st with
  | nil => exact ⟨done phase, List.forall_mem_nil _⟩
  | cons m magic ih =>
      cases arrived : arrive env m phase st with
      | none =>
          rw [walk_cons_none arrived]
          exact ⟨done phase, List.forall_mem_nil _⟩
      | some at' =>
          obtain ⟨phase', st'⟩ := at'
          have same := arrive_counters arrived
          rw [← same] at ready ⊢
          obtain ⟨counts, -⟩ := lineStep_counts call m limited counting phase' ready
          have row : CountedFrom env st'.counters [rowOf recur env call m phase' st'] := by
            intro q member
            obtain rfl := List.mem_singleton.mp member
            exact ⟨⟨rfl, le_rfl, ready.indirs, rfl⟩, rowOf_counted limited counting phase' ready⟩
          cases next : (lineStep recur env call m phase' st').next with
          | ret rv =>
              rw [walk_cons_ret arrived next]
              exact ⟨counts, row⟩
          | go phase'' =>
              rw [walk_cons_go arrived next]
              have ready' := counts.ready ready
              obtain ⟨rest, rows⟩ := ih phase'' ready' (fun phase => by
                rw [finish_counters]
                exact ⟨rfl, le_rfl, ready'.indirs, rfl⟩)
              exact ⟨counts.trans rest, row.append counts rows⟩

theorem matchN_counting (limited : Limited env) (n : Nat) : Counting env n (matchN env n) := by
  induction n with
  | zero =>
      intro call magic s ready
      exact absurd ready.left (Nat.not_lt_zero _)
  | succ n ih =>
      intro call magic s ready
      rw [matchN, matchWith]
      rcases opened : St.open' env { toScan := s, bb := none, contLevel := 0 } with ⟨_ | _, st⟩
      all_goals
        have same : st.counters = s.counters := congrArg (fun r : Bool × St => r.2.counters) opened.symm
        dsimp only
      · rw [same]
        exact ⟨⟨rfl, le_rfl, ready.indirs, rfl⟩, List.forall_mem_nil _⟩
      · rw [← same] at ready ⊢
        exact walk_counts limited ih magic .top ready

/-! ## Enough fuel -/

/-- Two nested calls that do the same while fewer than `n` calls are left. -/
def Agree (env : Env) (n : Nat) (recur recur' : Recur) : Prop :=
  ∀ call magic s, Ready env n s.counters → recur call magic s = recur' call magic s

theorem indirectLoop_agree (call : Call) (agree : Agree env n recur recur') (counting : Counting env n recur)
    (mlist : List (List Magic)) (rv : Option Bool) (ready : Ready env n s.counters) :
    indirectLoop recur call mlist rv s = indirectLoop recur' call mlist rv s := by
  induction mlist generalizing rv s with
  | nil => rfl
  | cons magic mlist ih =>
      have same := agree call magic { s with returnval := false, foundMatch := false } ready
      obtain ⟨counts, -⟩ := counting call magic { s with returnval := false, foundMatch := false } ready
      rw [indirectLoop, indirectLoop, ← same]
      dsimp only
      rw [ih _ (counts.ready ready)]

theorem mgetAt_agree (limited : Limited env) (agree : Agree env n recur recur')
    (counting : Counting env n recur) (ready : Ready env (n + 1) s.counters)
    (indirs : s.indirCount < env.indirMax) (names : s.nameCount < env.nameMax) (offset : Nat) :
    mgetAt recur env m bb call offset s = mgetAt recur' env m bb call offset s := by
  unfold mgetAt
  split
  · unfold mgetIndirect
    split
    · rfl
    · rename_i target _
      have loop := indirectLoop_agree call.indirect agree counting env.mlist none
        (indirectEnter_ready bb limited ready target indirs).2
      rw [loop]
  · unfold mgetUse
    split
    · rfl
    · dsimp only
      split
      · rfl
      · rename_i magic _
        rw [agree _ magic _ (useEnter_ready m limited ready names).2]
  · rfl
  · rfl

theorem mget_agree (limited : Limited env) (agree : Agree env n recur recur')
    (counting : Counting env n recur) (level : Nat) (ready : Ready env (n + 1) s.counters) :
    mget recur env m bb call level s = mget recur' env m bb call level s := by
  rw [mget, mget]
  split_ifs with indirs names
  · rfl
  · rfl
  · obtain ⟨value, search, offset, loaded, -⟩ := resolve_loaded env m bb call level s
    rcases resolved : resolve env m bb call level s with ⟨_ | target, s'⟩
    · rfl
    · rw [resolved] at loaded
      obtain rfl : s' = s.loaded value search offset := loaded
      have ready' : Ready env (n + 1) (s.loaded value search offset).counters := ready
      exact mgetAt_agree limited agree counting ready' (Nat.lt_of_not_le indirs) (Nat.lt_of_not_le names)
        target

theorem get_agree {st : St} (limited : Limited env) (agree : Agree env n recur recur')
    (counting : Counting env n recur) (ready : Ready env (n + 1) st.counters) :
    st.get recur env call m = st.get recur' env call m := by
  rw [St.get, St.get, mget_agree limited agree counting st.contLevel ready]

theorem topStep_agree {st : St} (limited : Limited env) (agree : Agree env n recur recur')
    (counting : Counting env n recur) (ready : Ready env (n + 1) st.counters) :
    topStep recur env call m st = topStep recur' env call m st := by
  unfold topStep
  split_ifs
  · rfl
  · rcases placed : st.place env call m with ⟨_ | _, st₁⟩
    · rfl
    · have same : (st₁.setLine m).counters = st.counters :=
        congrArg (fun r : Bool × St => r.2.counters) placed.symm
      rw [← same] at ready
      dsimp only
      rw [topRead, topRead, get_agree limited agree counting ready]

theorem contStep_agree {st : St} (limited : Limited env) (agree : Agree env n recur recur')
    (counting : Counting env n recur) (ready : Ready env (n + 1) st.counters) :
    contStep recur env call m st = contStep recur' env call m st := by
  have tested (st' : St) (same : st'.counters = st.counters) :
      contTest recur env call m st' = contTest recur' env call m st' := by
    rw [← same] at ready
    rw [contTest, contTest, contRead, contRead, get_agree limited agree counting ready]
  by_cases above : (st.setLine m).contLevel < m.contLevel
  · simp only [contStep, if_pos above]
  · simp only [contStep, if_neg above, contLine]
    rcases placed : ((st.setLine m).setLevel m.contLevel).place env call m with ⟨_ | _, st₁⟩
    · rfl
    · have same : st₁.counters = st.counters := congrArg (fun r : Bool × St => r.2.counters) placed.symm
      dsimp only
      rw [tested st₁ same, tested st₁.addOff same]

theorem walk_agree (limited : Limited env) (agree : Agree env n recur recur')
    (counting : Counting env n recur) (magic : List Magic) (phase : Phase) {st : St}
    (ready : Ready env (n + 1) st.counters) :
    walk recur env call magic phase st = walk recur' env call magic phase st := by
  induction magic generalizing phase st with
  | nil => rfl
  | cons m magic ih =>
      rw [walk, walk]
      rcases arrived : arrive env m phase st with _ | ⟨phase', st'⟩
      · rfl
      · rw [← arrive_counters arrived] at ready
        have step : lineStep recur env call m phase' st' = lineStep recur' env call m phase' st' := by
          cases phase' with
          | top => exact topStep_agree limited agree counting ready
          | cont => exact contStep_agree limited agree counting ready
          | flush => rfl
        have ready' := (lineStep_counts call m limited counting phase' ready).1.ready ready
        dsimp only [rowOf]
        rw [step] at ready' ⊢
        cases (lineStep recur' env call m phase' st').next with
        | ret rv => rfl
        | go phase'' =>
            dsimp only
            rw [ih phase'' ready']

theorem matchN_agree (limited : Limited env) (n : Nat) :
    Agree env n (matchN env n) (matchN env (n + 1)) := by
  induction n with
  | zero =>
      intro call magic s ready
      exact absurd ready.left (Nat.not_lt_zero _)
  | succ n ih =>
      intro call magic s ready
      rw [matchN, matchN, matchWith, matchWith]
      rcases opened : St.open' env { toScan := s, bb := none, contLevel := 0 } with ⟨_ | _, st⟩
      · rfl
      · have same : st.counters = s.counters := congrArg (fun r : Bool × St => r.2.counters) opened.symm
        rw [← same] at ready
        exact walk_agree limited ih (matchN_counting limited n) magic .top ready

end

theorem matchN_eq_matchMagic (limited : Limited env) {n : Nat} (magic : List Magic) {s : Scan}
    (ready : Ready env (env.indirMax + env.nameMax + 1) s.counters)
    (enough : env.indirMax + env.nameMax < n) :
    matchN env n call magic s = matchMagic env call magic s := by
  induction n, enough using Nat.le_induction with
  | base => rfl
  | succ n enough ih =>
      rw [← ih]
      have ready' : Ready env n s.counters := ⟨ready.indirs, ready.names, ready.left.trans_le enough⟩
      exact (matchN_agree limited n call magic s ready').symm

/-! ## Depth -/

/-- The nested calls behind a row are at most `d` deep. -/
def Row.Within : Nat → Row → Prop
  | 0, r => r.nested = []
  | d + 1, r => ∀ q ∈ r.nested, q.Within d

/-- A nested call takes one of the calls that are left. -/
theorem Counted.left {r q : Row} (counted : Counted env r) (member : q ∈ r.nested) :
    Counted env q ∧ env.indirMax - q.before.indirCount + (env.nameMax - q.before.nameCount) + 1 ≤
      env.indirMax - r.before.indirCount + (env.nameMax - r.before.nameCount) := by
  obtain ⟨-, -, use, indirect, nested⟩ := counted
  have counted' := nested q member
  refine ⟨counted', ?_⟩
  obtain ⟨counts, names, -⟩ := counted'
  have indirs : q.before.indirCount ≤ env.indirMax := counts.grows.trans counts.indirs
  by_cases type : r.line.type = .use
  · have := use q member type
    omega
  · have := indirect q member type
    omega

theorem Counted.within {r : Row} {d : Nat} (counted : Counted env r)
    (bound : env.indirMax - r.before.indirCount + (env.nameMax - r.before.nameCount) ≤ d) :
    r.Within d := by
  induction d generalizing r with
  | zero =>
      rw [Row.Within, List.eq_nil_iff_forall_not_mem]
      intro q member
      have := (counted.left member).2
      omega
  | succ d ih =>
      intro q member
      obtain ⟨counted', less⟩ := counted.left member
      apply ih counted'
      omega

/-- The nesting of `match` is bounded. More fuel than both limits together changes nothing,
and the bound of the model is never met; no row is nested deeper than the two limits together.
`name_count` comes back, also from `mget`; `indir_count` grows up to its limit. The sums that
`mget` makes before a nested call are exact. -/
theorem match_bounded (env : Env) (call : Call) (magic : List Magic) (s : Scan) (limited : Limited env)
    (indirs : s.indirCount ≤ env.indirMax) (names : s.nameCount ≤ env.nameMax) :
    (∀ n, env.indirMax + env.nameMax < n → matchN env n call magic s = matchMagic env call magic s) ∧
      Counts env s.counters (matchMagic env call magic s).scan.counters ∧
      (∀ r ∈ (matchMagic env call magic s).rows,
        Counts env s.counters r.before.counters ∧ Counted env r ∧
          r.Within (env.indirMax + env.nameMax)) ∧
      (∀ m bb level, Counts env s.counters
        (mget (matchMagic env) env m bb call level s).scan.counters) ∧
      (∀ bb target, s.indirCount < env.indirMax →
        (indirectEnter bb target s).indirCount = s.indirCount + 1) ∧
      (∀ m, s.nameCount < env.nameMax → (useEnter m s).nameCount = s.nameCount + 1) := by
  have ready : Ready env (env.indirMax + env.nameMax + 1) s.counters := by
    refine ⟨indirs, names, ?_⟩
    simp only [Scan.counters]
    omega
  have more : Ready env (env.indirMax + env.nameMax + 1 + 1) s.counters :=
    ⟨indirs, names, ready.left.trans (Nat.lt_succ_self _)⟩
  have counting := matchN_counting limited (env.indirMax + env.nameMax + 1)
  obtain ⟨counts, rows⟩ := counting call magic s ready
  refine ⟨?_, counts, ?_, ?_, ?_, ?_⟩
  · intro n enough
    exact matchN_eq_matchMagic limited magic ready enough
  · intro r member
    obtain ⟨before, counted⟩ := rows r member
    refine ⟨before, counted, counted.within ?_⟩
    omega
  · intro m bb level
    exact ((mget_fetched _ env m bb call level s).counts limited counting more).1
  · intro bb target below
    exact (indirectEnter_ready bb limited more target below).1
  · intro m below
    exact (useEnter_ready m limited more below).1

/-- `0 use a`, where `a` is `0 name a` and `>0 use a`. -/
def cyclicName : List (List Magic) :=
  [[{ plainLine with type := .name, value := Value.zero.write 0 (asc "a") },
    { plainLine with contLevel := 1, type := .use, value := Value.zero.write 0 (asc "a") }]]

def cyclicLines : List Magic := [{ plainLine with type := .use, value := Value.zero.write 0 (asc "a") }]

theorem match_bounded_cyclic :
    Limited (plainEnv [cyclicLines] cyclicName) ∧
      Counts (plainEnv [cyclicLines] cyclicName) (plainScan [1]).counters
        (matchMagic (plainEnv [cyclicLines] cyclicName) plainCall cyclicLines (plainScan [1])).scan.counters := by
  have limited : Limited (plainEnv [cyclicLines] cyclicName) := ⟨by decide, by decide⟩
  obtain ⟨-, counts, -⟩ := match_bounded (plainEnv [cyclicLines] cyclicName) plainCall cyclicLines
    (plainScan [1]) limited (Nat.zero_le _) (Nat.zero_le _)
  exact ⟨limited, counts⟩

end Libmagic.Softmagic
