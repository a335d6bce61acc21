import Libmagic.Softmagic.Mget
import Libmagic.Softmagic.Trace

/-!
# Accesses of the level table

`file_check_mem` makes the table longer when a level is opened, `use` works on a copy of
it, and `indirect` in the caller's own. Here the parts of `match` are gone through once
more for the entries of `ms->c.li` they read or write, each with the length that the
table has then.
-/
namespace Libmagic.Softmagic

/-- An access of `ms->c.li[index]` while `ms->c.len` is `len`. -/
structure Access where
  index : Nat
  len : Nat
  deriving DecidableEq, Repr

def Access.Inside (a : Access) : Prop := a.index < a.len

def Cont.at (c : Cont) (index : Nat) : Access := ⟨index, c.len⟩

/-! ## What is accessed -/

/-- The accesses of a nested call. -/
abbrev Touch := Call → List Magic → Scan → List Access

section
variable (recur : Recur) (touch : Touch) (env : Env) (call : Call) (m : Magic)

/-- `file_check_mem`: the entry that it clears, in the table as it is then. -/
def St.openAccesses (st : St) : List Access :=
  if (st.open' env).1 then [(st.open' env).2.c.at st.contLevel] else []

/-- `moffset`, at `&ms->c.li[cont_level].off`, and `der_offs` in it. -/
def St.recordAccesses (st : St) : List Access :=
  let r := moffset env.host m (flen st.bb) call.offset st.offset st.search st.value st.io
  (if r.outer.isSome then [st.c.at (m.contLevel - 1)] else []) ++
    (if r.off.isSome then [st.c.at st.contLevel] else [])

/-- `offset += ms->c.li[cont_level - 1].off` in `mget`; listed also where the offset
before it cannot be read. -/
def outerAccesses (contLevel : Nat) (s : Scan) : List Access :=
  if has m.flag INDIR && has m.flag INDIROFFADD && contLevel != 0 then [s.c.at (contLevel - 1)]
  else []

def indirectLoopAccesses : List (List Magic) → Scan → List Access
  | [], _ => []
  | magic :: mlist, s =>
      let s := { s with returnval := false, foundMatch := false }
      touch call magic s ++
        (if (recur call magic s).rv ≠ some false then []
          else indirectLoopAccesses mlist (recur call magic s).scan)

def mgetIndirectAccesses (bb : Window) (offset : Nat) (s : Scan) : List Access :=
  match indirectOffset m call (flen bb) offset with
  | none => []
  | some offset =>
      if s.io.hadErr then []
      else if !env.host.malloc s.io.tick then []
      else indirectLoopAccesses recur touch call.indirect env.mlist (indirectEnter bb offset s)

/-- The copy that `save_cont` makes is as long as the table. -/
def mgetUseAccesses (bb : Window) (offset : Nat) (s : Scan) : List Access :=
  if flen bb < offset then []
  else match fileMagicfind env (useName m).1 with
    | none => []
    | some magic =>
        if !env.host.malloc s.io.tick then []
        else touch (call.use (useName m).2 offset) magic (useEnter m s)

def mgetAccesses (bb : Window) (contLevel : Nat) (s : Scan) : List Access :=
  if s.indirCount ≥ env.indirMax then []
  else if s.nameCount ≥ env.nameMax then []
  else
    outerAccesses m contLevel s ++
      match resolve env m bb call contLevel s with
      | (none, _) => []
      | (some offset, s) =>
          match m.type with
          | .indirect => mgetIndirectAccesses recur touch env call m bb offset s
          | .use => mgetUseAccesses touch env call m bb offset s
          | _ => []

def St.getAccesses (st : St) : List Access :=
  mgetAccesses recur touch env call m st.bb st.contLevel st.toScan

def topMatchedAccesses (st : St) : List Access :=
  match st.annotate env m with
  | (some _, _) => []
  | (none, st) =>
      match st.describeTop env m with
      | (false, _) => []
      | (true, st) =>
          st.recordAccesses env call m ++
            match st.record env call m with
            | (false, _) => []
            | (true, st) => (st.setLevel (st.contLevel + 1)).openAccesses env

def topReadAccesses (st : St) : List Access :=
  st.getAccesses recur touch env call m ++
    match st.get recur env call m with
    | (none, _, _) => []
    | (some false, st, _) => if m.reln ≠ .ne then [] else topMatchedAccesses env call m st
    | (some true, st, _) =>
        match st.check env m with
        | (none, _) => []
        | (some false, _) => []
        | (some true, st) => topMatchedAccesses env call m st

def topAccesses (st : St) : List Access :=
  if isFiltered call m then []
  else match st.place env call m with
    | (false, _) => []
    | (true, st) => topReadAccesses recur touch env call m (st.setLine m)

def contTakesAccesses (st : St) : List Access :=
  match st.annotate env m with
  | (some _, _) => []
  | (none, st) =>
      match st.describeCont env m with
      | (false, _) => []
      | (true, st) =>
          let r := st.record env call m
          let level := if r.1 then st.contLevel + 1 else st.contLevel
          st.recordAccesses env call m ++ (r.2.setLevel level).openAccesses env

/-- `last_match` and `got_match` of the current level, and what follows. -/
def contMatchedAccesses (st : St) : List Access :=
  let c := st.c.setLast st.contLevel true
  st.c.at st.contLevel ::
    if m.type = .default ∧ (c.li st.contLevel).gotMatch then []
    else contTakesAccesses env call m (st.setCont (c.setGot st.contLevel (m.type != MType.clear)))

def contReadAccesses (st : St) : List Access :=
  st.getAccesses recur touch env call m ++
    match st.get recur env call m with
    | (none, _, _) => []
    | (some false, st, _) => if m.reln ≠ .ne then [] else contMatchedAccesses env call m st
    | (some true, st, _) =>
        match st.check env m with
        | (none, _) => []
        | (some false, st) => [st.c.at st.contLevel]
        | (some true, st) => contMatchedAccesses env call m st

def contTestAccesses (st : St) : List Access :=
  (if m.cond == .else' || m.cond == .elif then [st.c.at st.contLevel] else []) ++
    (if st.isChained m then [] else contReadAccesses recur touch env call m st)

def contLineAccesses (st : St) : List Access :=
  match st.place env call m with
  | (false, _) => []
  | (true, st) =>
      if !has m.flag OFFADD then contTestAccesses recur touch env call m st
      else if st.contLevel = 0 then []
      else st.c.at (st.contLevel - 1) :: contTestAccesses recur touch env call m st.addOff

def contAccesses (st : St) : List Access :=
  let st := st.setLine m
  if st.contLevel < m.contLevel then []
  else contLineAccesses recur touch env call m (st.setLevel m.contLevel)

def lineAccesses (phase : Phase) (st : St) : List Access :=
  match phase with
  | .top => topAccesses recur touch env call m st
  | .cont => contAccesses recur touch env call m st
  | .flush => []

end

def walkAccesses (recur : Recur) (touch : Touch) (env : Env) (call : Call) :
    List Magic → Phase → St → List Access
  | [], _, _ => []
  | m :: magic, phase, st =>
      match arrive env m phase st with
      | none => []
      | some (phase, st) =>
          lineAccesses recur touch env call m phase st ++
            match (lineStep recur env call m phase st).next with
            | .ret _ => []
            | .go phase' =>
                walkAccesses recur touch env call magic phase' (lineStep recur env call m phase st).st

def matchWithAccesses (recur : Recur) (touch : Touch) (env : Env) (call : Call)
    (magic : List Magic) (s : Scan) : List Access :=
  let st : St := { toScan := s, bb := none, contLevel := 0 }
  st.openAccesses env ++
    match st.open' env with
    | (false, _) => []
    | (true, st) => walkAccesses recur touch env call magic .top st

/-- Every access of a call of `match` and of the calls nested in it. -/
def matchAccesses (env : Env) : Nat → Touch
  | 0 => fun _ _ _ => []
  | n + 1 => matchWithAccesses (matchN env n) (matchAccesses env n) env

/-! ## Lines that fit the table -/

/-- `P` holds of a row and of every row of the calls nested in it. -/
inductive Row.Every (P : Row → Prop) : Row → Prop
  | intro {r : Row} (here : P r) (nested : ∀ q ∈ r.nested, Row.Every P q) : Row.Every P r

/-- `der_offs` goes by the level of the entry. A DER entry that is tested at the head of the
loop, where no level was opened for it, has its parent in the table. -/
def Row.Fits (r : Row) : Prop :=
  r.phase = .top → r.event ≠ .filtered → r.line.type = .der → r.line.contLevel ≤ r.before.c.len

/-- `cont_level` is a `uint8_t`. -/
def Narrow (magic : List Magic) : Prop := ∀ m ∈ magic, m.contLevel ≤ 255

structure Env.Narrow (env : Env) : Prop where
  mlist : ∀ magic ∈ env.mlist, Softmagic.Narrow magic
  named : ∀ magic ∈ env.mlistNamed, Softmagic.Narrow magic

/-- Where every row fits, the nested call leaves a table that is no shorter and stays in it. -/
def Sound (recur : Recur) (touch : Touch) : Prop :=
  ∀ call magic s, Narrow magic → (∀ r ∈ (recur call magic s).rows, r.Every Row.Fits) →
    s.c.len ≤ (recur call magic s).scan.c.len ∧ ∀ a ∈ touch call magic s, a.Inside

/-- The level of the line that is gone through. -/
structure St.Current (st : St) : Prop where
  inside : st.contLevel < st.c.len
  narrow : st.contLevel ≤ 255

/-- The current level is in the table; it is 0 outside the loop over continuations. -/
structure Table (phase : Phase) (st : St) : Prop where
  current : st.contLevel < st.c.len
  zero : phase ≠ .cont → st.contLevel = 0

section
variable {env : Env} {call : Call} {m : Magic}

/-- The table is not made shorter, and has the level when it could be made long enough. -/
theorem fileCheckMem_len (host : Host) {level : Nat} (c : Cont) (io : Io) (short : level < 2 ^ 32 - 20) :
    c.len ≤ (fileCheckMem host level c io).2.1.len ∧
      ((fileCheckMem host level c io).1 = true → level < (fileCheckMem host level c io).2.1.len) := by
  have exact : (20 + level) % 2 ^ 32 = 20 + level := Nat.mod_eq_of_lt (by omega)
  simp only [fileCheckMem, exact]
  split_ifs with inside allocated
  · exact ⟨le_rfl, fun _ => inside⟩
  · constructor
    · change c.len ≤ 20 + level
      omega
    · intro _
      change level < 20 + level
      omega
  · constructor
    · change c.len ≤ 20 + level
      omega
    · intro opened
      cases opened

theorem open_len (env : Env) {st : St} (narrow : st.contLevel ≤ 256) :
    st.c.len ≤ (st.open' env).2.c.len ∧
      ((st.open' env).1 = true → st.contLevel < (st.open' env).2.c.len) :=
  fileCheckMem_len env.host st.c st.io (by omega)

theorem openAccesses_inside (env : Env) {st : St} (narrow : st.contLevel ≤ 256) :
    ∀ a ∈ st.openAccesses env, a.Inside := by
  intro a member
  rw [St.openAccesses] at member
  split_ifs at member with opened
  · obtain rfl := List.mem_singleton.mp member
    exact (open_len env narrow).2 opened
  · cases member

theorem record_len (env : Env) (call : Call) (m : Magic) (st : St) :
    (st.record env call m).2.c.len = st.c.len := by
  simp only [St.record]
  split <;> split <;> rfl

/-- Only `der_offs` goes to another level, and only for a continuation. -/
theorem moffset_outer {host : Host} {nbytes o offset : Nat} {search : Search} {v : Value} {io : Io}
    (outer : (moffset host m nbytes o offset search v io).outer.isSome) :
    m.type = .der ∧ m.contLevel ≠ 0 := by
  cases type : m.type
  case der =>
    refine ⟨rfl, ?_⟩
    intro zero
    have plain : (derOffs m search offset nbytes).2 = none := by
      simp only [derOffs, zero]
      split_ifs <;> rfl
    simp only [moffset, type, plain] at outer
    split_ifs at outer <;> cases outer
  case string | pstring | bestring16 | lestring16 | octal =>
    simp only [moffset, type] at outer
    repeat' split at outer
    all_goals cases outer
  all_goals
    simp only [moffset, type] at outer
    split_ifs at outer <;> cases outer

theorem recordAccesses_inside {st : St} (env : Env) (call : Call) (current : st.contLevel < st.c.len)
    (fits : m.type = .der → m.contLevel ≤ st.c.len) : ∀ a ∈ st.recordAccesses env call m, a.Inside := by
  intro a member
  rcases List.mem_append.mp member with member | member
  · split_ifs at member with outer
    · obtain rfl := List.mem_singleton.mp member
      obtain ⟨der, deeper⟩ := moffset_outer outer
      have := fits der
      change m.contLevel - 1 < st.c.len
      omega
    · cases member
  · split_ifs at member
    · obtain rfl := List.mem_singleton.mp member
      exact current
    · cases member

theorem St.Current.of_eq {st st' : St} (current : st.Current) (level : st'.contLevel = st.contLevel)
    (table : st'.c = st.c) : st'.Current := by
  constructor
  · rw [level, table]
    exact current.inside
  · rw [level]
    exact current.narrow

/-! ## `mget` -/

section
variable {recur : Recur} {touch : Touch} {bb : Window} {s : Scan}

theorem indirectLoop_sound (sound : Sound recur touch) (mlist : List (List Magic)) (rv : Option Bool)
    (narrow : ∀ magic ∈ mlist, Narrow magic)
    (fits : ∀ r ∈ (indirectLoop recur call mlist rv s).rows, r.Every Row.Fits) :
    s.c.len ≤ (indirectLoop recur call mlist rv s).scan.c.len ∧
      ∀ a ∈ indirectLoopAccesses recur touch call mlist s, a.Inside := by
  induction mlist generalizing rv s with
  | nil => exact ⟨le_rfl, List.forall_mem_nil _⟩
  | cons magic mlist ih =>
      obtain ⟨narrow, narrow'⟩ := List.forall_mem_cons.mp narrow
      rw [indirectLoop] at fits ⊢
      rw [indirectLoopAccesses]
      dsimp only at fits ⊢
      split_ifs at fits ⊢ with done
      · rw [List.append_nil]
        exact sound call magic _ narrow fits
      · obtain ⟨first, rest⟩ := List.forall_mem_append.mp fits
        obtain ⟨grows, inside⟩ := sound call magic _ narrow first
        obtain ⟨grows', inside'⟩ := ih _ narrow' rest
        exact ⟨grows.trans grows', List.forall_mem_append.mpr ⟨inside, inside'⟩⟩

theorem mgetIndirect_sound (sound : Sound recur touch) (narrow : env.Narrow) (offset : Nat)
    (fits : ∀ r ∈ (mgetIndirect recur env m bb call offset s).rows, r.Every Row.Fits) :
    s.c.len ≤ (mgetIndirect recur env m bb call offset s).scan.c.len ∧
      ∀ a ∈ mgetIndirectAccesses recur touch env call m bb offset s, a.Inside := by
  rw [mgetIndirect] at fits ⊢
  rw [mgetIndirectAccesses]
  cases target : indirectOffset m call (flen bb) offset with
  | none => exact ⟨le_rfl, List.forall_mem_nil _⟩
  | some offset =>
      rw [target] at fits
      dsimp only at fits ⊢
      by_cases failed : s.io.hadErr
      · rw [if_pos failed, if_pos failed]
        exact ⟨le_rfl, List.forall_mem_nil _⟩
      by_cases full : (!env.host.malloc s.io.tick) = true
      · rw [if_neg failed, if_neg failed, if_pos full, if_pos full]
        exact ⟨le_rfl, List.forall_mem_nil _⟩
      rw [if_neg failed, if_neg full] at fits ⊢
      rw [if_neg failed, if_neg full]
      have nested := @indirectLoop_sound call.indirect recur touch (indirectEnter bb offset s) sound
        env.mlist none narrow.mlist
      split_ifs at fits ⊢ <;> exact nested fits

theorem magicfindIn_subset {name : Bytes} {magic found : List Magic}
    (eq : magicfindIn name magic = some found) : found ⊆ magic := by
  induction magic with
  | nil => cases eq
  | cons m magic ih =>
      rw [magicfindIn] at eq
      split_ifs at eq
      · obtain rfl := Option.some.inj eq
        exact List.cons_subset_cons m (List.takeWhile_subset _)
      · exact List.Subset.trans (ih eq) (List.subset_cons_self m magic)

theorem fileMagicfind_narrow {name : Bytes} {found : List Magic} (narrow : env.Narrow)
    (eq : fileMagicfind env name = some found) : Narrow found := by
  obtain ⟨magic, member, eq⟩ := List.exists_of_findSome?_eq_some eq
  intro m here
  exact narrow.named magic member m (magicfindIn_subset eq here)

theorem mgetUse_sound (sound : Sound recur touch) (narrow : env.Narrow) (offset : Nat)
    (fits : ∀ r ∈ (mgetUse recur env m bb call offset s).rows, r.Every Row.Fits) :
    s.c.len ≤ (mgetUse recur env m bb call offset s).scan.c.len ∧
      ∀ a ∈ mgetUseAccesses touch env call m bb offset s, a.Inside := by
  rw [mgetUse] at fits ⊢
  rw [mgetUseAccesses]
  by_cases beyond : flen bb < offset
  · rw [if_pos beyond, if_pos beyond]
    exact ⟨le_rfl, List.forall_mem_nil _⟩
  rw [if_neg beyond] at fits ⊢
  rw [if_neg beyond]
  dsimp only at fits ⊢
  cases found : fileMagicfind env (useName m).1 with
  | none => exact ⟨le_rfl, List.forall_mem_nil _⟩
  | some magic =>
      rw [found] at fits
      dsimp only at fits ⊢
      by_cases full : (!env.host.malloc s.io.tick) = true
      · rw [if_pos full, if_pos full]
        exact ⟨le_rfl, List.forall_mem_nil _⟩
      · -- `restore_cont`: the caller's table is back
        rw [if_neg full] at fits ⊢
        rw [if_neg full]
        exact ⟨le_rfl, (sound _ magic _ (fileMagicfind_narrow narrow found) fits).2⟩

theorem mgetAt_table {offset : Nat} (indirect : m.type ≠ .indirect) (use : m.type ≠ .use) :
    (mgetAt recur env m bb call offset s).scan.c = s.c := by
  unfold mgetAt
  split
  · exact absurd ‹_› indirect
  · exact absurd ‹_› use
  · split <;> rfl
  · split <;> rfl

theorem mget_sound {level : Nat} (sound : Sound recur touch) (narrow : env.Narrow) (current : level ≤ s.c.len)
    (fits : ∀ r ∈ (mget recur env m bb call level s).rows, r.Every Row.Fits) :
    s.c.len ≤ (mget recur env m bb call level s).scan.c.len ∧
      ∀ a ∈ mgetAccesses recur touch env call m bb level s, a.Inside := by
  have outer : ∀ a ∈ outerAccesses m level s, a.Inside := by
    intro a member
    rw [outerAccesses] at member
    split_ifs at member with relative
    · obtain rfl := List.mem_singleton.mp member
      have deeper : level ≠ 0 := by
        intro zero
        simp [zero] at relative
      change level - 1 < s.c.len
      omega
    · cases member
  rw [mget] at fits ⊢
  rw [mgetAccesses]
  by_cases indirs : s.indirCount ≥ env.indirMax
  · rw [if_pos indirs, if_pos indirs]
    exact ⟨le_rfl, List.forall_mem_nil _⟩
  by_cases names : s.nameCount ≥ env.nameMax
  · rw [if_neg indirs, if_neg indirs, if_pos names, if_pos names]
    exact ⟨le_rfl, List.forall_mem_nil _⟩
  rw [if_neg indirs, if_neg names] at fits ⊢
  rw [if_neg indirs, if_neg names]
  obtain ⟨value, search, offset, loaded, -⟩ := resolve_loaded env m bb call level s
  rcases resolved : resolve env m bb call level s with ⟨_ | target, s'⟩
  all_goals
    rw [resolved] at fits loaded
    obtain rfl : s' = s.loaded value search offset := loaded
    dsimp only at fits ⊢
  · rw [List.append_nil]
    exact ⟨le_rfl, outer⟩
  · rw [List.forall_mem_append]
    by_cases indirect : m.type = .indirect
    · simp only [mgetAt, indirect] at fits ⊢
      obtain ⟨grows, inside⟩ := mgetIndirect_sound sound narrow target fits
      exact ⟨grows, outer, inside⟩
    by_cases use : m.type = .use
    · simp only [mgetAt, use] at fits ⊢
      obtain ⟨grows, inside⟩ := mgetUse_sound sound narrow target fits
      exact ⟨grows, outer, inside⟩
    · have same : (mgetAt recur env m bb call target (s.loaded value search offset)).scan.c = s.c :=
        mgetAt_table indirect use
      refine ⟨(congrArg Cont.len same).ge, outer, ?_⟩
      split
      · exact absurd ‹_› indirect
      · exact absurd ‹_› use
      · exact List.forall_mem_nil _

theorem get_sound {st : St} (sound : Sound recur touch) (narrow : env.Narrow) (current : st.contLevel ≤ st.c.len)
    (fits : ∀ r ∈ (st.get recur env call m).2.2, r.Every Row.Fits) :
    st.c.len ≤ (st.get recur env call m).2.1.c.len ∧
      ∀ a ∈ st.getAccesses recur touch env call m, a.Inside := by
  have same : (st.get recur env call m).2.1.c =
      (mget recur env m st.bb call st.contLevel st.toScan).scan.c := by
    simp only [St.get]
    split <;> rfl
  rw [same]
  exact mget_sound sound narrow current fits

end

/-! ## One line -/

/-- What a line does to the table: it does not shorten it, it leaves a level of it, and it
stays in it. -/
structure Bounded (len : Nat) (accesses : List Access) (o : Outcome) : Prop where
  grows : len ≤ o.st.c.len
  table : ∀ phase, o.next = .go phase → Table phase o.st
  inside : ∀ a ∈ accesses, a.Inside

section
variable {recur : Recur} {touch : Touch} {read : Bool} {nested : List Row} {st : St}

theorem Bounded.of_le {len len' : Nat} {accesses : List Access} {o : Outcome} (le : len ≤ len')
    (bounded : Bounded len' accesses o) : Bounded len accesses o :=
  ⟨le.trans bounded.grows, bounded.table, bounded.inside⟩

theorem Bounded.prepend {len : Nat} {before accesses : List Access} {o : Outcome}
    (inside : ∀ a ∈ before, a.Inside) (bounded : Bounded len accesses o) :
    Bounded len (before ++ accesses) o :=
  ⟨bounded.grows, bounded.table, List.forall_mem_append.mpr ⟨inside, bounded.inside⟩⟩

theorem Bounded.cons {len : Nat} {a : Access} {accesses : List Access} {o : Outcome} (inside : a.Inside)
    (bounded : Bounded len accesses o) : Bounded len (a :: accesses) o :=
  ⟨bounded.grows, bounded.table, List.forall_mem_cons.mpr ⟨inside, bounded.inside⟩⟩

theorem stop_bounded (rv : Option Bool) (nested : List Row) (st : St) :
    Bounded st.c.len [] (st.stop rv nested) := by
  refine ⟨le_rfl, ?_, List.forall_mem_nil _⟩
  intro phase goes
  cases goes

theorem flushFrom_bounded (event : Event) (nested : List Row) (current : st.contLevel < st.c.len) :
    Bounded st.c.len [] (st.flushFrom event nested) := by
  refine ⟨le_rfl, ?_, List.forall_mem_nil _⟩
  intro phase _
  exact ⟨Nat.zero_lt_of_lt current, fun _ => rfl⟩

theorem go_bounded (event : Event) (nested : List Row) (current : st.contLevel < st.c.len) :
    Bounded st.c.len [] ⟨event, st, .go .cont, nested⟩ := by
  refine ⟨le_rfl, ?_, List.forall_mem_nil _⟩
  intro phase goes
  obtain rfl := Next.go.inj goes
  exact ⟨current, fun outside => absurd rfl outside⟩

theorem open_bounded (event : Event) (nested : List Row) (narrow : st.contLevel ≤ 256) :
    Bounded st.c.len (st.openAccesses env)
      (match st.open' env with
        | (false, st) => st.stop none nested
        | (true, st) => ⟨event, st, .go .cont, nested⟩) := by
  obtain ⟨grows, opened⟩ := open_len env narrow
  have inside := openAccesses_inside env narrow
  have level : (st.open' env).2.contLevel = st.contLevel := rfl
  rcases eq : st.open' env with ⟨_ | _, st'⟩
  all_goals rw [eq] at grows opened level
  · refine ⟨grows, ?_, inside⟩
    intro phase goes
    cases goes
  · refine ⟨grows, ?_, inside⟩
    exact (go_bounded event nested (level.trans_lt (opened rfl))).table

theorem topMatched_bounded (current : st.Current)
    (fits : m.type = .der → m.contLevel ≤ st.c.len) :
    Bounded st.c.len (topMatchedAccesses env call m st) (topMatched env call m read nested st) := by
  have annotated := annotate_printed env m st
  unfold topMatched topMatchedAccesses
  rcases eq₁ : st.annotate env m with ⟨_ | rv, st₁⟩
  all_goals
    rw [eq₁] at annotated
    dsimp only
  · have printed := annotated.trans (describeTop_printed env m st₁)
    rcases eq₂ : st₁.describeTop env m with ⟨_ | _, st₂⟩
    all_goals
      rw [eq₂] at printed
      dsimp only
      have same : st₂.c = st.c := printed.c
      refine .of_le (congrArg Cont.len same).ge ?_
    · exact stop_bounded none nested st₂
    · replace current := current.of_eq printed.contLevel same
      rw [← same] at fits
      have len := record_len env call m st₂
      have level : (st₂.record env call m).2.contLevel = st₂.contLevel := rfl
      refine .prepend (recordAccesses_inside env call current.inside fits) ?_
      rcases eq₃ : st₂.record env call m with ⟨_ | _, st₃⟩
      all_goals
        rw [eq₃] at len level
        dsimp only
        refine .of_le len.ge ?_
      · exact flushFrom_bounded _ nested (level.trans_lt (current.inside.trans_eq len.symm))
      · have narrow : (st₃.setLevel (st₃.contLevel + 1)).contLevel ≤ 256 :=
          Nat.succ_le_succ (level.trans_le current.narrow)
        exact open_bounded _ nested narrow
  · exact .of_le (congrArg Cont.len annotated.c).ge (stop_bounded rv nested st₁)

theorem contTakes_bounded (current : st.Current)
    (fits : m.type = .der → m.contLevel ≤ st.c.len) :
    Bounded st.c.len (contTakesAccesses env call m st) (contTakes env call m read nested st) := by
  have annotated := annotate_printed env m st
  unfold contTakes contTakesAccesses
  rcases eq₁ : st.annotate env m with ⟨_ | rv, st₁⟩
  all_goals
    rw [eq₁] at annotated
    dsimp only
  · have printed := annotated.trans (describeCont_printed env m st₁)
    rcases eq₂ : st₁.describeCont env m with ⟨_ | _, st₂⟩
    all_goals
      rw [eq₂] at printed
      dsimp only
      have same : st₂.c = st.c := printed.c
      refine .of_le (congrArg Cont.len same).ge ?_
    · exact stop_bounded none nested st₂
    · replace current := current.of_eq printed.contLevel same
      rw [← same] at fits
      refine .prepend (recordAccesses_inside env call current.inside fits) ?_
      refine .of_le (record_len env call m st₂).ge ?_
      have narrow : ((st₂.record env call m).2.setLevel
          (if (st₂.record env call m).1 then st₂.contLevel + 1 else st₂.contLevel)).contLevel ≤ 256 := by
        have narrow : st₂.contLevel ≤ 255 := current.narrow
        change (if (st₂.record env call m).1 then st₂.contLevel + 1 else st₂.contLevel) ≤ 256
        split_ifs <;> omega
      exact open_bounded (.matched read (st₂.record env call m).1) nested narrow
  · exact .of_le (congrArg Cont.len annotated.c).ge (stop_bounded rv nested st₁)

theorem contMatched_bounded (current : st.Current)
    (fits : m.type = .der → m.contLevel ≤ st.c.len) :
    Bounded st.c.len (contMatchedAccesses env call m st) (contMatched env call m read nested st) := by
  have here : (st.c.at st.contLevel).Inside := current.inside
  have kept (c : Cont) (len : c.len = st.c.len) : (st.setCont c).Current :=
    ⟨current.inside.trans_eq len.symm, current.narrow⟩
  simp only [contMatched, contMatchedAccesses]
  by_cases suppressed : m.type = .default ∧ ((st.c.setLast st.contLevel true).li st.contLevel).gotMatch
  · rw [if_pos suppressed, if_pos suppressed]
    exact .cons here (go_bounded .suppressed nested (kept (st.c.setLast st.contLevel true) rfl).inside)
  · rw [if_neg suppressed, if_neg suppressed]
    have taken := @contTakes_bounded env call m read nested (st.setCont
      ((st.c.setLast st.contLevel true).setGot st.contLevel (m.type != MType.clear))) (kept _ rfl) fits
    exact .cons here taken

theorem topRead_bounded (sound : Sound recur touch) (narrow : env.Narrow) (current : st.Current)
    (fits : m.type = .der → m.contLevel ≤ st.c.len)
    (rows : ∀ r ∈ (st.get recur env call m).2.2, r.Every Row.Fits) :
    Bounded st.c.len (topReadAccesses recur touch env call m st) (topRead recur env call m st) := by
  obtain ⟨grows, inside⟩ := get_sound sound narrow current.inside.le rows
  have level := get_contLevel env call m st recur
  unfold topRead topReadAccesses
  refine .prepend inside ?_
  rcases eq : st.get recur env call m with ⟨_ | _ | _, st₁, nested⟩
  all_goals
    rw [eq] at grows level
    dsimp only at grows level ⊢
    refine .of_le grows ?_
    have current₁ : st₁.Current :=
      ⟨level.trans_lt (current.inside.trans_le grows), level.trans_le current.narrow⟩
    have fits₁ : m.type = .der → m.contLevel ≤ st₁.c.len := fun der => (fits der).trans grows
  · exact stop_bounded none nested st₁
  · split_ifs
    · exact flushFrom_bounded .unread nested current₁.inside
    · exact topMatched_bounded current₁ fits₁
  · have checked := check_printed env m st₁
    rcases eq : st₁.check env m with ⟨_ | _ | _, st₂⟩
    all_goals
      rw [eq] at checked
      dsimp only
      have same : st₂.c = st₁.c := checked.c
      replace current₁ := current₁.of_eq checked.contLevel same
      rw [← same] at fits₁ ⊢
    · exact stop_bounded none nested st₂
    · exact flushFrom_bounded .failed nested current₁.inside
    · exact topMatched_bounded current₁ fits₁

theorem contRead_bounded (sound : Sound recur touch) (narrow : env.Narrow) (current : st.Current)
    (fits : m.type = .der → m.contLevel ≤ st.c.len)
    (rows : ∀ r ∈ (st.get recur env call m).2.2, r.Every Row.Fits) :
    Bounded st.c.len (contReadAccesses recur touch env call m st) (contRead recur env call m st) := by
  obtain ⟨grows, inside⟩ := get_sound sound narrow current.inside.le rows
  have level := get_contLevel env call m st recur
  unfold contRead contReadAccesses
  refine .prepend inside ?_
  rcases eq : st.get recur env call m with ⟨_ | _ | _, st₁, nested⟩
  all_goals
    rw [eq] at grows level
    dsimp only at grows level ⊢
    refine .of_le grows ?_
    have current₁ : st₁.Current :=
      ⟨level.trans_lt (current.inside.trans_le grows), level.trans_le current.narrow⟩
    have fits₁ : m.type = .der → m.contLevel ≤ st₁.c.len := fun der => (fits der).trans grows
  · exact stop_bounded none nested st₁
  · split_ifs
    · exact go_bounded .unread nested current₁.inside
    · exact contMatched_bounded current₁ fits₁
  · have checked := check_printed env m st₁
    rcases eq : st₁.check env m with ⟨_ | _ | _, st₂⟩
    all_goals
      rw [eq] at checked
      dsimp only
      have same : st₂.c = st₁.c := checked.c
      replace current₁ := current₁.of_eq checked.contLevel same
      rw [← same] at fits₁ ⊢
    · exact stop_bounded none nested st₂
    · have kept : (st₂.setCont (st₂.c.setLast st₂.contLevel false)).contLevel <
          (st₂.setCont (st₂.c.setLast st₂.contLevel false)).c.len := current₁.inside
      exact .cons current₁.inside (go_bounded .failed nested kept)
    · exact contMatched_bounded current₁ fits₁

theorem contTest_bounded (sound : Sound recur touch) (narrow : env.Narrow) (current : st.Current)
    (fits : m.type = .der → m.contLevel ≤ st.c.len)
    (rows : ∀ r ∈ (contTest recur env call m st).nested, r.Every Row.Fits) :
    Bounded st.c.len (contTestAccesses recur touch env call m st) (contTest recur env call m st) := by
  have here : ∀ a ∈ (if m.cond == .else' || m.cond == .elif then [st.c.at st.contLevel] else []),
      a.Inside := by
    split_ifs
    · intro a member
      obtain rfl := List.mem_singleton.mp member
      exact current.inside
    · exact List.forall_mem_nil _
  rw [contTest] at rows ⊢
  rw [contTestAccesses]
  refine .prepend here ?_
  by_cases chained : st.isChained m = true
  · rw [if_pos chained, if_pos chained]
    exact go_bounded .chained [] current.inside
  · rw [if_neg chained] at rows ⊢
    rw [if_neg chained]
    rw [contRead_nested] at rows
    exact contRead_bounded sound narrow current fits rows

theorem contLine_bounded (sound : Sound recur touch) (narrow : env.Narrow) (current : st.Current)
    (level : st.contLevel = m.contLevel)
    (rows : ∀ r ∈ (contLine recur env call m st).nested, r.Every Row.Fits) :
    Bounded st.c.len (contLineAccesses recur touch env call m st) (contLine recur env call m st) := by
  have table : (st.place env call m).2.c = st.c := rfl
  have placed : (st.place env call m).2.contLevel = st.contLevel := rfl
  unfold contLine at rows ⊢
  unfold contLineAccesses
  rcases eq : st.place env call m with ⟨_ | _, st₁⟩
  all_goals
    rw [eq] at rows table placed
    dsimp only at rows table placed ⊢
    rw [← table]
    rw [← placed] at level
    replace current := current.of_eq placed table
  · split_ifs
    · exact go_bounded .unset [] current.inside
    · exact flushFrom_bounded .unset [] current.inside
  · have fits : m.type = .der → m.contLevel ≤ st₁.c.len := by
      intro _
      rw [← level]
      exact current.inside.le
    by_cases relative : (!has m.flag OFFADD) = true
    · rw [if_pos relative] at rows ⊢
      rw [if_pos relative]
      exact contTest_bounded sound narrow current fits rows
    rw [if_neg relative] at rows ⊢
    rw [if_neg relative]
    by_cases zero : st₁.contLevel = 0
    · rw [if_pos zero, if_pos zero]
      exact stop_bounded (some false) [] st₁
    · rw [if_neg zero] at rows ⊢
      rw [if_neg zero]
      have outer : (st₁.c.at (st₁.contLevel - 1)).Inside := (Nat.sub_le _ _).trans_lt current.inside
      have tested : Bounded st₁.addOff.c.len (contTestAccesses recur touch env call m st₁.addOff)
          (contTest recur env call m st₁.addOff) :=
        contTest_bounded sound narrow ⟨current.inside, current.narrow⟩ fits rows
      exact .cons outer tested

theorem contStep_bounded (sound : Sound recur touch) (narrow : env.Narrow) (small : m.contLevel ≤ 255)
    (current : st.contLevel < st.c.len)
    (rows : ∀ r ∈ (contStep recur env call m st).nested, r.Every Row.Fits) :
    Bounded st.c.len (contAccesses recur touch env call m st) (contStep recur env call m st) := by
  simp only [contStep, contAccesses] at rows ⊢
  by_cases above : (st.setLine m).contLevel < m.contLevel
  · rw [if_pos above, if_pos above]
    have lined : (st.setLine m).contLevel < (st.setLine m).c.len := current
    exact go_bounded .above [] lined
  · rw [if_neg above] at rows ⊢
    rw [if_neg above]
    have lined : ((st.setLine m).setLevel m.contLevel).Current :=
      ⟨(Nat.not_lt.mp above).trans_lt current, small⟩
    exact contLine_bounded sound narrow lined rfl rows

theorem topStep_bounded (sound : Sound recur touch) (narrow : env.Narrow) (table : Table .top st)
    (row : (rowOf recur env call m .top st).Every Row.Fits) :
    Bounded st.c.len (topAccesses recur touch env call m st) (topStep recur env call m st) := by
  obtain ⟨here, rows⟩ := row
  replace here := here rfl
  change ∀ r ∈ (topStep recur env call m st).nested, _ at rows
  change (topStep recur env call m st).event ≠ .filtered → _ at here
  obtain ⟨current, zero⟩ := table
  have outside : Phase.top ≠ .cont := by decide
  have placed : (st.place env call m).2.contLevel = st.contLevel := rfl
  have same : (st.place env call m).2.c = st.c := rfl
  rw [topStep] at here rows ⊢
  rw [topAccesses]
  by_cases filtered : isFiltered call m = true
  · rw [if_pos filtered, if_pos filtered]
    exact flushFrom_bounded .filtered [] current
  rw [if_neg filtered] at here rows ⊢
  rw [if_neg filtered]
  rcases eq : st.place env call m with ⟨_ | _, st₁⟩
  all_goals
    rw [eq] at here rows placed same
    dsimp only at here rows placed same ⊢
    rw [← same]
    rw [← same, ← placed] at current
  · split_ifs
    · refine ⟨le_rfl, ?_, List.forall_mem_nil _⟩
      intro phase goes
      obtain rfl := Next.go.inj goes
      exact ⟨current, fun _ => placed.trans (zero outside)⟩
    · exact flushFrom_bounded .unset [] current
  · have begun := @topRead_begun recur env call m (st₁.setLine m)
    have tested : (topRead recur env call m (st₁.setLine m)).event ≠ .filtered := by
      intro event
      rw [event] at begun
      cases begun
    have level : (st₁.setLine m).contLevel = 0 := placed.trans (zero outside)
    have lined : (st₁.setLine m).Current := ⟨current, level.trans_le (Nat.zero_le _)⟩
    have fits : m.type = .der → m.contLevel ≤ (st₁.setLine m).c.len := by
      intro der
      exact (here tested der).trans_eq (congrArg Cont.len same).symm
    rw [(topRead_headed recur env call m (st₁.setLine m)).2] at rows
    have read : Bounded (st₁.setLine m).c.len (topReadAccesses recur touch env call m (st₁.setLine m))
        (topRead recur env call m (st₁.setLine m)) := topRead_bounded sound narrow lined fits rows
    exact read

theorem lineStep_bounded (sound : Sound recur touch) (narrow : env.Narrow) (small : m.contLevel ≤ 255)
    {phase : Phase} (table : Table phase st)
    (row : (rowOf recur env call m phase st).Every Row.Fits) :
    Bounded st.c.len (lineAccesses recur touch env call m phase st)
      (lineStep recur env call m phase st) := by
  cases phase with
  | top => exact topStep_bounded sound narrow table row
  | cont =>
      obtain ⟨-, rows⟩ := row
      exact contStep_bounded sound narrow small table.current rows
  | flush =>
      refine ⟨le_rfl, ?_, List.forall_mem_nil _⟩
      intro phase goes
      obtain rfl := Next.go.inj goes
      exact table

/-! ## Whole runs -/

theorem endEntry_table (env : Env) (st : St) : (st.endEntry env).c = st.c := by
  simp only [St.endEntry]
  split_ifs <;> rfl

theorem finish_table (env : Env) (phase : Phase) (st : St) : (st.finish env phase).scan.c = st.c := by
  simp only [St.finish]
  split_ifs
  · exact endEntry_table env st
  · rfl

theorem arrive_table {phase phase' : Phase} {st' : St} (table : Table phase st)
    (arrived : arrive env m phase st = some (phase', st')) :
    st'.c = st.c ∧ Table phase' st' := by
  rcases arrive_cases arrived with ⟨rfl, rfl, rfl⟩ | ⟨rfl, rfl, -, rfl⟩ | ⟨rfl, rfl, -, -, rfl⟩ |
    ⟨rfl, rfl, -, rfl⟩ | ⟨rfl, rfl, -, rfl⟩
  · exact ⟨rfl, table⟩
  · exact ⟨rfl, table⟩
  · have same := endEntry_table env st
    have zero := endEntry_contLevel env st
    refine ⟨same, ?_, fun _ => zero⟩
    rw [same, zero]
    exact Nat.zero_lt_of_lt table.current
  · exact ⟨rfl, table⟩
  · have outside : Phase.flush ≠ .cont := by decide
    exact ⟨rfl, table.current, fun _ => table.zero outside⟩

theorem walk_sound (sound : Sound recur touch) (narrow : env.Narrow) {magic : List Magic} {phase : Phase}
    (small : Narrow magic) (table : Table phase st)
    (rows : ∀ r ∈ (walk recur env call magic phase st).rows, r.Every Row.Fits) :
    st.c.len ≤ (walk recur env call magic phase st).scan.c.len ∧
      ∀ a ∈ walkAccesses recur touch env call magic phase st, a.Inside := by
  induction magic generalizing phase st with
  | nil => exact ⟨(congrArg Cont.len (finish_table env phase st)).ge, List.forall_mem_nil _⟩
  | cons m magic ih =>
      obtain ⟨small, small'⟩ := List.forall_mem_cons.mp small
      rw [walkAccesses]
      cases arrived : arrive env m phase st with
      | none =>
          rw [walk_cons_none arrived]
          exact ⟨(congrArg Cont.len (finish_table env phase st)).ge, List.forall_mem_nil _⟩
      | some at' =>
          obtain ⟨phase', st'⟩ := at'
          obtain ⟨same, table'⟩ := arrive_table table arrived
          have row := rows _ (rowOf_mem_walk arrived)
          obtain ⟨grows, next, inside⟩ := lineStep_bounded sound narrow small table' row
          rw [same] at grows
          dsimp only
          cases goes : (lineStep recur env call m phase' st').next with
          | ret rv =>
              rw [walk_cons_ret arrived goes, List.append_nil]
              exact ⟨grows, inside⟩
          | go phase'' =>
              rw [walk_cons_go arrived goes] at rows ⊢
              obtain ⟨-, rest⟩ := List.forall_mem_cons.mp rows
              obtain ⟨grows', inside'⟩ := ih small' (next phase'' goes) rest
              exact ⟨grows.trans grows', List.forall_mem_append.mpr ⟨inside, inside'⟩⟩

theorem matchWith_sound (narrow : env.Narrow) (sound : Sound recur touch) :
    Sound (matchWith recur env) (matchWithAccesses recur touch env) := by
  intro call magic s small rows
  have zero : (St.mk s none 0).contLevel ≤ 256 := Nat.zero_le _
  have opened := openAccesses_inside env zero
  obtain ⟨grows, current⟩ := open_len env zero
  have level : (St.open' env { toScan := s, bb := none, contLevel := 0 }).2.contLevel = 0 := rfl
  rw [matchWith] at rows ⊢
  rw [matchWithAccesses, List.forall_mem_append]
  rcases eq : St.open' env { toScan := s, bb := none, contLevel := 0 } with ⟨_ | _, st⟩
  all_goals
    rw [eq] at rows grows current level
    dsimp only at rows grows current level ⊢
  · exact ⟨grows, opened, List.forall_mem_nil _⟩
  · have table : Table .top st := ⟨level.trans_lt (current rfl), fun _ => level⟩
    obtain ⟨grows', inside⟩ := walk_sound sound narrow small table rows
    exact ⟨grows.trans grows', opened, inside⟩

theorem matchN_sound (narrow : env.Narrow) (n : Nat) : Sound (matchN env n) (matchAccesses env n) := by
  induction n with
  | zero =>
      intro call magic s _ _
      exact ⟨le_rfl, List.forall_mem_nil _⟩
  | succ n ih => exact matchWith_sound narrow ih

end

end

end Libmagic.Softmagic
