import Libmagic.Softmagic.Copy
import Libmagic.Softmagic.DerWalk
import Libmagic.Softmagic.Mget
import Libmagic.Softmagic.Search

/-!
# `softmagic.c`: the uses of `ms->search`

`mcopy` sets a window of the buffer as a side effect, and `magiccheck`, `mprint` and `moffset` use
it later. Here the parts of `match` are gone through once more for what they find in `ms->search`.
-/
namespace Libmagic.Softmagic

/-- The types that are tested through `ms->search`. -/
def MType.usesSearch : MType → Bool
  | .search | .regex | .der => true
  | _ => false

inductive User where
  | magiccheck | mprint | moffset
  deriving DecidableEq, Repr

/-- A line that `mget` is called for, in the state `st`. -/
structure Test where
  call : Call
  line : Magic
  st : St

/-- A use of `ms->search`, with the buffer that is tested then. -/
structure Use where
  test : Test
  user : User
  bb : Window
  search : Search

/-! ## What is used -/

/-- The uses of a nested call. -/
abbrev Uses := Call → List Magic → Scan → List Use

section
variable (recur : Recur) (uses : Uses) (env : Env) (call : Call) (m : Magic)

def indirectLoopUses : List (List Magic) → Scan → List Use
  | [], _ => []
  | magic :: mlist, s =>
      let s := { s with returnval := false, foundMatch := false }
      uses call magic s ++
        (if (recur call magic s).rv ≠ some false then []
          else indirectLoopUses mlist (recur call magic s).scan)

def mgetIndirectUses (bb : Window) (offset : Nat) (s : Scan) : List Use :=
  match indirectOffset m call (flen bb) offset with
  | none => []
  | some offset =>
      if s.io.hadErr then []
      else if !env.host.malloc s.io.tick then []
      else indirectLoopUses recur uses call.indirect env.mlist (indirectEnter bb offset s)

def mgetUseUses (bb : Window) (offset : Nat) (s : Scan) : List Use :=
  if flen bb < offset then []
  else match fileMagicfind env (useName m).1 with
    | none => []
    | some magic =>
        if !env.host.malloc s.io.tick then []
        else uses (call.use (useName m).2 offset) magic (useEnter m s)

def mgetUses (bb : Window) (contLevel : Nat) (s : Scan) : List Use :=
  if s.indirCount ≥ env.indirMax then []
  else if s.nameCount ≥ env.nameMax then []
  else match resolve env m bb call contLevel s with
    | (none, _) => []
    | (some offset, s) =>
        match m.type with
        | .indirect => mgetIndirectUses recur uses env call m bb offset s
        | .use => mgetUseUses uses env call m bb offset s
        | _ => []

/-- `mprint` and `moffset` behind a test that holds. `mprint` is listed also where the separator
cannot be printed. -/
def Test.matchedUses (t : Test) (describe : St → Bool × St) (st : St) : List Use :=
  match st.annotate env t.line with
  | (some _, _) => []
  | (none, st) =>
      (if t.line.desc ≠ [] ∧ env.print then [⟨t, .mprint, st.bb, st.search⟩] else []) ++
        match describe st with
        | (false, _) => []
        | (true, st) => [⟨t, .moffset, st.bb, st.search⟩]

def Test.topMatchedUses (t : Test) (st : St) : List Use := t.matchedUses env (·.describeTop env t.line) st

def Test.contMatchedUses (t : Test) (st : St) : List Use :=
  let c := st.c.setLast st.contLevel true
  t.matchedUses env (·.describeCont env t.line)
    (st.setCont (c.setGot st.contLevel (t.line.type != MType.clear)))

/-- The uses of a line of one of the types, from the call of `mget` on. -/
def Test.lineUses (t : Test) (matched : St → List Use) : List Use :=
  if !t.line.type.usesSearch then []
  else match t.st.get recur env t.call t.line with
    | (none, _, _) => []
    | (some false, st, _) => if t.line.reln ≠ .ne then [] else matched st
    | (some true, st, _) =>
        ⟨t, .magiccheck, st.bb, st.search⟩ ::
          match st.check env t.line with
          | (some true, st) => matched st
          | (_, _) => []

def readUses (matched : Test → St → List Use) (st : St) : List Use :=
  mgetUses recur uses env call m st.bb st.contLevel st.toScan ++
    Test.lineUses recur env ⟨call, m, st⟩ (matched ⟨call, m, st⟩)

def topUses (st : St) : List Use :=
  if isFiltered call m then []
  else match st.place env call m with
    | (false, _) => []
    | (true, st) => readUses recur uses env call m (Test.topMatchedUses env) (st.setLine m)

def contTestUses (st : St) : List Use :=
  if st.isChained m then [] else readUses recur uses env call m (Test.contMatchedUses env) st

def contLineUses (st : St) : List Use :=
  match st.place env call m with
  | (false, _) => []
  | (true, st) =>
      if !has m.flag OFFADD then contTestUses recur uses env call m st
      else if st.contLevel = 0 then []
      else contTestUses recur uses env call m st.addOff

def contUses (st : St) : List Use :=
  let st := st.setLine m
  if st.contLevel < m.contLevel then []
  else contLineUses recur uses env call m (st.setLevel m.contLevel)

def stepUses (phase : Phase) (st : St) : List Use :=
  match phase with
  | .top => topUses recur uses env call m st
  | .cont => contUses recur uses env call m st
  | .flush => []

end

def walkUses (recur : Recur) (uses : Uses) (env : Env) (call : Call) : List Magic → Phase → St → List Use
  | [], _, _ => []
  | m :: magic, phase, st =>
      match arrive env m phase st with
      | none => []
      | some (phase, st) =>
          stepUses recur uses env call m phase st ++
            match (lineStep recur env call m phase st).next with
            | .ret _ => []
            | .go phase' => walkUses recur uses env call magic phase' (lineStep recur env call m phase st).st

def matchWithUses (recur : Recur) (uses : Uses) (env : Env) (call : Call) (magic : List Magic) (s : Scan) :
    List Use :=
  match St.open' env { toScan := s, bb := none, contLevel := 0 } with
  | (false, _) => []
  | (true, st) => walkUses recur uses env call magic .top st

/-- Every use of a call of `match` and of the calls nested in it. -/
def matchUses (env : Env) : Nat → Uses
  | 0 => fun _ _ _ => []
  | n + 1 => matchWithUses (matchN env n) (matchUses env n) env

/-! ## What sets the window -/

/-- Where `mcopy` sets the window of a line, in how many bytes, and the offset that is checked behind it. -/
structure Fetch where
  position : Nat
  nbytes : Nat
  offset : Nat

/-- `none` is the return of `mget` before the window of an indirect line is set. -/
def St.fetch (env : Env) (call : Call) (m : Magic) (st : St) : Option Fetch :=
  if has m.flag INDIR then
    (indirectTarget env.host m st.bb call st.contLevel
      (st.toScan.copy env m true st.bb (uN 32 (st.offset + call.offset)) (uN 32 (flen st.bb)))).map
      fun offset => ⟨offset, flen st.bb, offset⟩
  else some ⟨uN 32 (st.offset + call.offset), uN 32 (flen st.bb), st.offset⟩

/-- A line that is taken although `mget` returned 0 has its window set, and a `regex` is not behind the end. -/
def Test.SetsWindow (env : Env) (t : Test) : Prop :=
  t.line.reln = .ne → ∃ p, t.st.fetch env t.call t.line = some p ∧
    (t.line.type = .regex → enoughData t.line (flen t.st.bb) p.offset = false →
      ∃ mem, t.st.bb = some mem ∧ p.position ≤ p.nbytes)

/-- The fields that `user` uses are those that `mcopy` sets for the entry, whatever they were, and the window
is in the buffer. -/
structure SetByCopy (env : Env) (m : Magic) (user : User) (bb : Window) (search : Search) : Prop where
  copied : ∃ position nbytes, ∀ old v,
    let r := (mcopy env.regexMax v old env.host m.type false bb position nbytes m).2
    r.s = search.s ∧ r.sLen = search.sLen ∧ (user = .moffset ∨ search.s ≠ none → r.offset = search.offset)
  window : search.WithinBuffer bb

/-- The window was set for the entry in the buffer that it is tested against, and at most moved by its own
`magiccheck` since. -/
structure Use.Fresh (env : Env) (u : Use) : Prop where
  buffer : u.bb = u.test.st.bb
  set : ∃ search, SetByCopy env u.test.line u.user u.bb search ∧
    (u.search = search ∨ ∃ v io, (magiccheck env.host env.flags u.test.line v search io).matched = some true ∧
      u.search = (magiccheck env.host env.flags u.test.line v search io).search)

section

variable {recur : Recur} {env : Env} {call : Call} {m : Magic} {st : St} {u : Use}

theorem mcopy_indirect (regexMax : Nat) (v : Value) (search : Search) (host : Host) (type : MType) (bb : Window)
    (offset nbytes : Nat) (m : Magic) : (mcopy regexMax v search host type true bb offset nbytes m).2 = search := by
  unfold mcopy
  simp only [if_true]
  split_ifs <;> rfl

theorem usesSearch_iff {type : MType} : type.usesSearch = true ↔ type = .search ∨ type = .regex ∨ type = .der := by
  cases type <;> simp [MType.usesSearch]

theorem mgetAt_window (uses : m.type.usesSearch = true) (recur : Recur) (env : Env) (bb : Window) (call : Call)
    (offset : Nat) (s : Scan) :
    mgetAt recur env m bb call offset s = ⟨some (enoughData m (flen bb) offset), s, []⟩ := by
  rcases usesSearch_iff.mp uses with type | type | type
  all_goals
    simp only [mgetAt, type, mconvert, cvtFlip]
    cases enoughData m (flen bb) offset <;> cases call.flip <;> rfl

/-- What `resolve` leaves for a line, by what it fetches. -/
theorem resolve_fetch (env : Env) (call : Call) (m : Magic) (st : St) :
    match st.fetch env call m with
    | none => (resolve env m st.bb call st.contLevel st.toScan).1 = none
    | some p => (resolve env m st.bb call st.contLevel st.toScan).1 = some p.offset ∧
        ∃ v, (resolve env m st.bb call st.contLevel st.toScan).2.search =
          (mcopy env.regexMax v st.search env.host m.type false st.bb p.position p.nbytes m).2 := by
  unfold St.fetch resolve
  by_cases indir : has m.flag INDIR = true
  · have kept : (st.toScan.copy env m true st.bb (uN 32 (st.offset + call.offset)) (uN 32 (flen st.bb))).search = st.search :=
      mcopy_indirect _ _ _ _ _ _ _ _ _
    simp only [indir, if_true, Bool.not_true, Bool.false_eq_true, if_false]
    cases indirectTarget env.host m st.bb call st.contLevel
        (st.toScan.copy env m true st.bb (uN 32 (st.offset + call.offset)) (uN 32 (flen st.bb))) with
    | none => rfl
    | some offset => exact ⟨rfl, _, by rw [← kept]; rfl⟩
  · rw [Bool.not_eq_true] at indir
    simp only [indir, Bool.false_eq_true, if_false, Bool.not_false, if_true]
    exact ⟨rfl, _, rfl⟩

/-- `mget` of a line of one of the types. -/
theorem get_fetch {rv : Bool} (uses : m.type.usesSearch = true) (got : (st.get recur env call m).1 = some rv) :
    (st.get recur env call m).2.1.bb = st.bb ∧
      match st.fetch env call m with
      | none => rv = false
      | some p => (∃ v, (st.get recur env call m).2.1.search =
            (mcopy env.regexMax v st.search env.host m.type false st.bb p.position p.nbytes m).2) ∧
          rv = enoughData m (flen st.bb) p.offset := by
  have direct : m.type ≠ .indirect := by
    rcases usesSearch_iff.mp uses with type | type | type
    all_goals
      rw [type]
      exact nofun
  have resolved := resolve_fetch env call m st
  rw [St.get] at got ⊢
  simp only [mget] at got ⊢
  by_cases indirs : st.indirCount ≥ env.indirMax
  · rw [if_pos indirs] at got
    cases got
  rw [if_neg indirs] at got ⊢
  by_cases names : st.nameCount ≥ env.nameMax
  · rw [if_pos names] at got
    cases got
  rw [if_neg names] at got ⊢
  rcases eq : resolve env m st.bb call st.contLevel st.toScan with ⟨target, s⟩
  rw [eq] at resolved
  cases fetched : st.fetch env call m with
  | none =>
      rw [fetched] at resolved
      obtain rfl : target = none := resolved
      simp only [eq] at got ⊢
      rw [if_neg (fun both => direct both.2)]
      exact ⟨rfl, (Option.some.inj got).symm⟩
  | some p =>
      rw [fetched] at resolved
      obtain ⟨at', v, set⟩ := resolved
      obtain rfl : target = some p.offset := at'
      simp only [eq, mgetAt_window uses] at got ⊢
      rw [if_neg (fun both => direct both.2)]
      exact ⟨rfl, ⟨v, set⟩, (Option.some.inj got).symm⟩

/-! ## What is behind a fetch -/

theorem regex_sets (regexMax : Nat) (bb : Window) (position nbytes : Nat) (old old' : Search) :
    let r := mcopyRegex regexMax m bb position nbytes old
    let r' := mcopyRegex regexMax m bb position nbytes old'
    r.s = r'.s ∧ r.sLen = r'.sLen ∧ (((∃ mem, bb = some mem ∧ position ≤ nbytes) ∨ r'.s ≠ none) → r.offset = r'.offset) := by
  cases bb with
  | none =>
      refine ⟨rfl, rfl, ?_⟩
      rintro (⟨_, is, -⟩ | some)
      · cases is
      · exact absurd rfl some
  | some mem =>
      by_cases behind : nbytes < position
      · have run (old : Search) : mcopyRegex regexMax m (some mem) position nbytes old = { old with sLen := 0, s := none } := by
          rw [mcopyRegex, if_pos behind]
        rw [run, run]
        refine ⟨rfl, rfl, ?_⟩
        rintro (⟨_, -, le⟩ | some)
        · exact absurd le (Nat.not_le.mpr behind)
        · exact absurd rfl some
      · have same : mcopyRegex regexMax m (some mem) position nbytes old = mcopyRegex regexMax m (some mem) position nbytes old' := by
          rw [mcopyRegex, mcopyRegex, if_neg behind, if_neg behind]
        rw [same]
        exact ⟨rfl, rfl, fun _ => rfl⟩

/-- `mcopy` sets the window whatever there was before, and its offset too where there is a window. -/
theorem copy_sets (uses : m.type.usesSearch = true) (env : Env) (bb : Window) (position nbytes : Nat) (old old' : Search)
    (v v' : Value) :
    let r := (mcopy env.regexMax v old env.host m.type false bb position nbytes m).2
    let r' := (mcopy env.regexMax v' old' env.host m.type false bb position nbytes m).2
    r.s = r'.s ∧ r.sLen = r'.sLen ∧
      (((m.type = .regex → ∃ mem, bb = some mem ∧ position ≤ nbytes) ∨ r'.s ≠ none) → r.offset = r'.offset) := by
  rcases usesSearch_iff.mp uses with type | type | type
  · rw [type]
    exact ⟨rfl, rfl, fun _ => rfl⟩
  · obtain ⟨s, sLen, offset⟩ := @regex_sets m env.regexMax bb position nbytes old old'
    rw [type]
    exact ⟨s, sLen, fun h => offset (h.imp_left fun inside => inside rfl)⟩
  · rw [type]
    exact ⟨rfl, rfl, fun _ => rfl⟩

theorem fetch_nbytes {p : Fetch} (fetched : st.fetch env call m = some p) : p.nbytes ≤ flen st.bb := by
  rw [St.fetch] at fetched
  split_ifs at fetched
  · obtain ⟨offset, -, rfl⟩ := Option.map_eq_some_iff.mp fetched
    exact Nat.le_refl _
  · obtain rfl := Option.some.inj fetched
    rw [uN_natCast_mod]
    exact Nat.mod_le _ _

/-- What a fetch sets, for a user that needs the offset only where it is set. -/
theorem setByCopy_of_fetch (uses : m.type.usesSearch = true) {p : Fetch} (fetched : st.fetch env call m = some p)
    {search old : Search} {v : Value} (set : search = (mcopy env.regexMax v old env.host m.type false st.bb p.position p.nbytes m).2)
    {user : User} (needs : user = .moffset → (m.type = .regex → ∃ mem, st.bb = some mem ∧ p.position ≤ p.nbytes) ∨ search.s ≠ none) :
    SetByCopy env m user st.bb search := by
  have inside := fetch_nbytes fetched
  subst set
  constructor
  · refine ⟨p.position, p.nbytes, fun old' v' => ?_⟩
    obtain ⟨s, sLen, offset⟩ := copy_sets uses env st.bb p.position p.nbytes old' old v' v
    refine ⟨s, sLen, ?_⟩
    rintro (moffset | some)
    · exact offset (needs moffset)
    · exact offset (.inr some)
  · refine mcopy_window env.regexMax v env.host m inside ?_
    rcases usesSearch_iff.mp uses with type | type | type
    · exact .inl type
    · exact .inr (.inl type)
    · exact .inr (.inr type)

/-- `magiccheck` holds only where there is a window. -/
theorem check_window (uses : m.type.usesSearch = true) (host : Host) (flags : Nat) (v : Value) (search : Search) (io : Io)
    (matched : (magiccheck host flags m v search io).matched = some true) : m.type = .der ∨ search.s ≠ none := by
  rcases usesSearch_iff.mp uses with type | type | type
  · refine .inr fun none => ?_
    simp only [magiccheck, type, none] at matched
    cases matched
  · refine .inr fun none => ?_
    simp only [magiccheck, type, none] at matched
    cases matched
  · exact .inl type

/-! ## One line -/

/-- The uses behind a test that holds find the window as the test left it. -/
theorem matchedUses_keep {t : Test} {describe : St → Bool × St} (search : ∀ st, (describe st).2.search = st.search)
    (printed : ∀ st, Printed st (describe st).2) (mem : u ∈ t.matchedUses env describe st) :
    u.test = t ∧ u.search = st.search ∧ u.bb = st.bb := by
  have same := annotate_search env t.line st
  have annotated := annotate_printed env t.line st
  unfold Test.matchedUses at mem
  rcases h₁ : st.annotate env t.line with ⟨_ | rv, st₁⟩
  all_goals
    rw [h₁] at same annotated
    simp only [h₁] at mem
  · have same₁ : st₁.bb = st.bb := congrArg Frame.bb annotated.frame
    rcases List.mem_append.mp mem with mem | mem
    · split_ifs at mem
      · obtain rfl := List.mem_singleton.mp mem
        exact ⟨rfl, same, same₁⟩
      · cases mem
    · have kept := search st₁
      have framed := (printed st₁).frame
      rcases h₂ : describe st₁ with ⟨_ | _, st₂⟩
      all_goals
        rw [h₂] at kept framed
        simp only [h₂] at mem
      · cases mem
      · obtain rfl := List.mem_singleton.mp mem
        exact ⟨rfl, kept.trans same, (congrArg Frame.bb framed).trans same₁⟩
  · cases mem

theorem topMatchedUses_keep {t : Test} (mem : u ∈ t.topMatchedUses env st) :
    u.test = t ∧ u.search = st.search ∧ u.bb = st.bb :=
  matchedUses_keep (describeTop_search env t.line) (fun st => describeTop_printed env t.line st) mem

theorem contMatchedUses_keep {t : Test} (mem : u ∈ t.contMatchedUses env st) :
    u.test = t ∧ u.search = st.search ∧ u.bb = st.bb :=
  @matchedUses_keep env (st.setCont ((st.c.setLast st.contLevel true).setGot st.contLevel (t.line.type != MType.clear))) u t _
    (describeCont_search env t.line) (fun st => describeCont_printed env t.line st) mem

/-- The uses of a line whose window is set are fresh. -/
theorem lineUses_fresh {t : Test} {matched : St → List Use}
    (keep : ∀ st u, u ∈ matched st → u.test = t ∧ u.search = st.search ∧ u.bb = st.bb)
    (mem : u ∈ t.lineUses recur env matched) (sets : u.test.SetsWindow env) : u.Fresh env := by
  unfold Test.lineUses at mem
  cases uses : t.line.type.usesSearch with
  | false =>
      rw [uses] at mem
      cases mem
  | true =>
  rw [uses] at mem
  have got (rv : Bool) := @get_fetch recur env t.call t.line t.st rv uses
  rcases h₁ : t.st.get recur env t.call t.line with ⟨_ | _ | _, st₁, nested⟩
  all_goals
    rw [h₁] at got
    simp only [h₁, Bool.not_true, Bool.false_eq_true, if_false] at mem
  · cases mem
  · obtain ⟨bb, fetched⟩ := got false rfl
    by_cases reln : t.line.reln = .ne
    · rw [if_neg (not_not.mpr reln)] at mem
      obtain ⟨rfl, same, bb'⟩ := keep st₁ u mem
      obtain ⟨p, is, inside⟩ := sets reln
      rw [is] at fetched
      obtain ⟨⟨v, set⟩, short⟩ := fetched
      refine ⟨bb'.trans bb, st₁.search, ?_, .inl same⟩
      rw [bb', bb]
      exact setByCopy_of_fetch uses is set fun _ => .inl fun type => inside type short.symm
    · rw [if_pos reln] at mem
      cases mem
  · obtain ⟨bb, fetched⟩ := got true rfl
    cases is : t.st.fetch env t.call t.line with
    | none =>
        rw [is] at fetched
        cases fetched
    | some p =>
        rw [is] at fetched
        obtain ⟨⟨v, set⟩, -⟩ := fetched
        rcases List.mem_cons.mp mem with rfl | mem
        · refine ⟨bb, st₁.search, ?_, .inl rfl⟩
          rw [bb]
          exact setByCopy_of_fetch uses is set nofun
        · have matched' := check_window uses env.host env.flags st₁.value st₁.search st₁.io
          rcases h₂ : st₁.check env t.line with ⟨_ | _ | _, st₂⟩
          all_goals simp only [h₂] at mem
          · cases mem
          · cases mem
          · obtain ⟨rfl, same, bb'⟩ := keep st₂ u mem
            have holds : (magiccheck env.host env.flags u.test.line st₁.value st₁.search st₁.io).matched = some true :=
              congrArg Prod.fst h₂
            have moved : st₂.search = (magiccheck env.host env.flags u.test.line st₁.value st₁.search st₁.io).search :=
              congrArg (fun r => r.2.search) h₂.symm
            have bb₂ : st₂.bb = st₁.bb := congrArg (fun r => r.2.bb) h₂.symm
            refine ⟨bb'.trans (bb₂.trans bb), st₁.search, ?_, .inr ⟨st₁.value, st₁.io, holds, same.trans moved⟩⟩
            rw [bb', bb₂, bb]
            refine setByCopy_of_fetch uses is set fun _ => ?_
            rcases matched' holds with der | some
            · exact .inl fun regex => absurd (regex.symm.trans der) (by decide)
            · exact .inr some

/-! ## Whole runs -/

/-- The nested calls use windows that are set for the entry wherever the line sets its window. -/
def Uses.Fresh (env : Env) (uses : Uses) : Prop :=
  ∀ call magic s, ∀ u ∈ uses call magic s, u.test.SetsWindow env → u.Fresh env

variable {uses : Uses} (nested : uses.Fresh env)
include nested

theorem indirectLoopUses_fresh (mlist : List (List Magic)) (s : Scan) :
    ∀ u ∈ indirectLoopUses recur uses call mlist s, u.test.SetsWindow env → u.Fresh env := by
  induction mlist generalizing s with
  | nil => exact List.forall_mem_nil _
  | cons magic mlist ih =>
      simp only [indirectLoopUses]
      refine List.forall_mem_append.mpr ⟨nested _ _ _, ?_⟩
      split_ifs
      · exact List.forall_mem_nil _
      · exact ih _

theorem mgetIndirectUses_fresh (bb : Window) (offset : Nat) (s : Scan) :
    ∀ u ∈ mgetIndirectUses recur uses env call m bb offset s, u.test.SetsWindow env → u.Fresh env := by
  unfold mgetIndirectUses
  split
  · exact List.forall_mem_nil _
  · split_ifs
    · exact List.forall_mem_nil _
    · exact List.forall_mem_nil _
    · exact indirectLoopUses_fresh nested env.mlist _

theorem mgetUseUses_fresh (bb : Window) (offset : Nat) (s : Scan) :
    ∀ u ∈ mgetUseUses uses env call m bb offset s, u.test.SetsWindow env → u.Fresh env := by
  unfold mgetUseUses
  split
  · exact List.forall_mem_nil _
  · split
    · exact List.forall_mem_nil _
    · split
      · exact List.forall_mem_nil _
      · exact nested _ _ _

theorem mgetUses_fresh (bb : Window) (contLevel : Nat) (s : Scan) :
    ∀ u ∈ mgetUses recur uses env call m bb contLevel s, u.test.SetsWindow env → u.Fresh env := by
  unfold mgetUses
  split
  · exact List.forall_mem_nil _
  · split
    · exact List.forall_mem_nil _
    · split
      · exact List.forall_mem_nil _
      · split
        · exact mgetIndirectUses_fresh nested bb _ _
        · exact mgetUseUses_fresh nested bb _ _
        · exact List.forall_mem_nil _

theorem readUses_fresh {matched : Test → St → List Use}
    (keep : ∀ t st u, u ∈ matched t st → u.test = t ∧ u.search = st.search ∧ u.bb = st.bb) (st : St) :
    ∀ u ∈ readUses recur uses env call m matched st, u.test.SetsWindow env → u.Fresh env := by
  refine List.forall_mem_append.mpr ⟨mgetUses_fresh nested _ _ _, ?_⟩
  intro u mem sets
  exact lineUses_fresh (keep ⟨call, m, st⟩) mem sets

theorem topUses_fresh (st : St) :
    ∀ u ∈ topUses recur uses env call m st, u.test.SetsWindow env → u.Fresh env := by
  unfold topUses
  split
  · exact List.forall_mem_nil _
  · split
    · exact List.forall_mem_nil _
    · exact readUses_fresh nested (fun _ _ _ => topMatchedUses_keep) _

theorem contTestUses_fresh (st : St) :
    ∀ u ∈ contTestUses recur uses env call m st, u.test.SetsWindow env → u.Fresh env := by
  unfold contTestUses
  split
  · exact List.forall_mem_nil _
  · exact readUses_fresh nested (fun _ _ _ => contMatchedUses_keep) st

theorem contUses_fresh (st : St) :
    ∀ u ∈ contUses recur uses env call m st, u.test.SetsWindow env → u.Fresh env := by
  simp only [contUses]
  split
  · exact List.forall_mem_nil _
  · unfold contLineUses
    split
    · exact List.forall_mem_nil _
    · split
      · exact contTestUses_fresh nested _
      · split
        · exact List.forall_mem_nil _
        · exact contTestUses_fresh nested _

theorem walkUses_fresh (magic : List Magic) (phase : Phase) (st : St) :
    ∀ u ∈ walkUses recur uses env call magic phase st, u.test.SetsWindow env → u.Fresh env := by
  induction magic generalizing phase st with
  | nil => exact List.forall_mem_nil _
  | cons m magic ih =>
      unfold walkUses
      split
      · exact List.forall_mem_nil _
      · rename_i phase' st' _
        refine List.forall_mem_append.mpr ⟨?_, ?_⟩
        · cases phase' with
          | top => exact topUses_fresh nested st'
          | cont => exact contUses_fresh nested st'
          | flush => exact List.forall_mem_nil _
        · split
          · exact List.forall_mem_nil _
          · exact ih _ _

theorem matchWithUses_fresh : Uses.Fresh env (matchWithUses recur uses env) := by
  intro call magic s
  unfold matchWithUses
  split
  · exact List.forall_mem_nil _
  · exact walkUses_fresh nested magic .top _

end

/-- `0 search c A` and `>(100.l) search !x B`. -/
def staleWindowLines : List Magic :=
  [{ plainLine with type := .search, reln := .eq, vallen := 1, value := Value.zero.write 0 (asc "c"), desc := asc "A" },
    { plainLine with
      flag := BINTEST ||| INDIR, contLevel := 1, offset := 100, inType := .lelong, type := .search, reln := .ne
      vallen := 1, value := Value.zero.write 0 (asc "x"), desc := asc "B" }]

/-- With `!`, a `search` that holds did not find its text, and leaves the window where it is. -/
theorem search_kept {host : Host} {flags : Nat} {m : Magic} {v : Value} {search : Search} {io : Io}
    (type : m.type = .search) (reln : m.reln = .ne) (holds : (magiccheck host flags m v search io).matched = some true) :
    (magiccheck host flags m v search io).search = search := by
  cases text : search.s with
  | none =>
      simp only [magiccheck, type, text] at holds
      cases holds
  | some s =>
      obtain ⟨matched, moved⟩ := @magiccheck_search host flags m v search s io type text
      rw [moved]
      rw [matched, reln] at holds
      -- a place that is found gives 0
      rcases result : checkSearch host m s search with ⟨found, search'⟩
      rw [result] at holds
      cases path : host.fast m with
      | false =>
          rcases checkSearch_slow s search path with ⟨i, -, -, -, eq⟩ | ⟨-, eq⟩
          · rw [result] at eq
            obtain ⟨rfl, -⟩ := Prod.mk.inj eq
            cases holds
          · rw [result] at eq
            exact (Prod.mk.inj eq).2
      | true =>
          rw [Host.fast] at path
          simp only [checkSearch, path, if_true] at result
          split at result
          · exact (Prod.mk.inj result).2.symm
          · rename_i v' i eq
            obtain ⟨rfl, -⟩ := Prod.mk.inj result
            split at eq
            · cases eq
            · obtain ⟨rfl, -⟩ := Prod.mk.inj eq
              cases holds

end Libmagic.Softmagic
