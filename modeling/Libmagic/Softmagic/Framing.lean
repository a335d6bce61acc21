import Libmagic.Softmagic.Mget
import Libmagic.Softmagic.Trace

/-!
# What a nested call leaves of its caller

`mget` saves the level table and `ms->eoffset` before the nested call of a `use` line and
restores them behind it. For an `indirect` line it does neither: the nested calls work in
the table of their caller, and the first of their lines whose offset is set overwrites
`ms->eoffset`.
-/
namespace Libmagic.Softmagic

variable {recur : Recur} {env : Env} {call : Call}

/-- What a caller at `level` has behind a nested call: the offsets of the levels below it, the
marks of its levels, its `eoffset`, and the offset at which the nested call was made. -/
structure FramedBy (level anchor : Nat) (s s' : Scan) : Prop where
  off : ∀ l < level, (s'.c.li l).off = (s.c.li l).off
  marks : ∀ l, 1 ≤ l → l ≤ level → s'.c.marks l = s.c.marks l
  eoffset : s'.eoffset = s.eoffset
  offset : s'.offset = anchor

theorem FramedBy.of_loaded {level anchor : Nat} {s s₁ s' : Scan} (framed : FramedBy level anchor s₁ s')
    (c : s₁.c = s.c) (eoffset : s₁.eoffset = s.eoffset) : FramedBy level anchor s s' := by
  constructor
  · intro l below
    rw [framed.off l below, c]
  · intro l positive within
    rw [framed.marks l positive within, c]
  · rw [framed.eoffset, eoffset]
  · exact framed.offset

/-- No line of the nested calls came to its test. -/
def Idle (rows : List Row) : Prop := ∀ q ∈ rows, q.event.isInner = false

theorem idle_append {rows rows' : List Row} : Idle (rows ++ rows') ↔ Idle rows ∧ Idle rows' :=
  List.forall_mem_append

def Scan.setEoffset (eoffset : Nat) (s : Scan) : Scan := { s with eoffset }

def St.setEoffset (eoffset : Nat) (st : St) : St := { st with eoffset }

/-! ## The first line whose offset is set

At level 0 `msetoffset` does not read `eoffset`, and when it succeeds it writes it. -/

theorem msetoffset_top (host : Host) (m : Magic) (o : Nat) (p : Placed) :
    ((msetoffset host m o 0 p).ok = true ∧
        ∀ eoffset, msetoffset host m o 0 { p with eoffset } = msetoffset host m o 0 p) ∨
      ((msetoffset host m o 0 p).ok = false ∧
        ∀ eoffset, msetoffset host m o 0 { p with eoffset } = { msetoffset host m o 0 p with eoffset }) := by
  have level : ¬(0 : Nat) > 0 := Nat.lt_irrefl 0
  simp only [msetoffset, level, false_and, ↓reduceIte, or_true]
  split_ifs <;> simp

section
variable {m : Magic} {st : St}

theorem place_setEoffset (env : Env) (call : Call) (m : Magic) (top : st.contLevel = 0) :
    ((st.place env call m).1 = true ∧
        ∀ eoffset, (st.setEoffset eoffset).place env call m = st.place env call m) ∨
      ((st.place env call m).1 = false ∧
        ∀ eoffset, (st.setEoffset eoffset).place env call m =
          (false, (st.place env call m).2.setEoffset eoffset)) := by
  let p : Placed := ⟨true, st.bb, st.b, st.offset, st.eoffset, st.io⟩
  have place (eoffset : Nat) : (st.setEoffset eoffset).place env call m =
      let q := msetoffset env.host m call.offset 0 { p with eoffset }
      (q.ok, { st with bb := q.bb, b := q.b, offset := q.offset, eoffset := q.eoffset, io := q.io }) := by
    rw [← top]
    rfl
  have self : st.place env call m = (st.setEoffset st.eoffset).place env call m := rfl
  rw [self, place]
  rcases msetoffset_top env.host m call.offset p with ⟨ok, same⟩ | ⟨failed, same⟩
  · left
    refine ⟨ok, ?_⟩
    intro eoffset
    rw [place, same]
  · right
    refine ⟨failed, ?_⟩
    intro eoffset
    rw [place, same]
    dsimp only
    rw [failed]
    rfl

/-- A top-level line that comes to its test does so with an `eoffset` of its own; any other
leaves the table and `eoffset` alone. -/
theorem topStep_setEoffset (recur : Recur) (env : Env) (call : Call) (m : Magic)
    (top : st.contLevel = 0) :
    ((topStep recur env call m st).event.isInner = true ∧
        ∀ eoffset, topStep recur env call m (st.setEoffset eoffset) = topStep recur env call m st) ∨
      ((topStep recur env call m st).event.isInner = false ∧
        (∃ phase, phase ≠ .cont ∧ (topStep recur env call m st).next = .go phase) ∧
        (topStep recur env call m st).st.c = st.c ∧
        ∀ eoffset, topStep recur env call m (st.setEoffset eoffset) =
          { topStep recur env call m st with st := (topStep recur env call m st).st.setEoffset eoffset }) := by
  by_cases filtered : isFiltered call m = true
  · right
    simp only [topStep, if_pos filtered]
    exact ⟨rfl, ⟨.flush, by simp, rfl⟩, rfl, fun _ => rfl⟩
  · simp only [topStep, if_neg filtered]
    rcases place_setEoffset env call m top with ⟨ok, same⟩ | ⟨failed, same⟩
    · left
      simp only [same]
      rcases placed : st.place env call m with ⟨_ | _, st₁⟩
      · rw [placed] at ok
        cases ok
      · exact ⟨Bool.or_eq_true_iff.mpr (.inl topRead_begun), by simp⟩
    · right
      simp only [same]
      rcases placed : st.place env call m with ⟨_ | _, st₁⟩
      · have c₁ : st₁.c = st.c := congrArg (fun r : Bool × St => r.2.c) placed.symm
        have elen (eoffset : Nat) : (st₁.setEoffset eoffset).b = st₁.b := rfl
        simp only [elen]
        split_ifs
        · exact ⟨rfl, ⟨.top, by simp, rfl⟩, c₁, fun _ => rfl⟩
        · exact ⟨rfl, ⟨.flush, by simp, rfl⟩, c₁, fun _ => rfl⟩
      · rw [placed] at failed
        cases failed

end

/-! ## Whole calls -/

/-- The table `c'` is `c`, but for the marks of level 0. -/
structure KeptTable (c c' : Cont) : Prop where
  off : ∀ l, (c'.li l).off = (c.li l).off
  marks : ∀ l, 1 ≤ l → c'.marks l = c.marks l

theorem KeptTable.refl (c : Cont) : KeptTable c c := ⟨fun _ => rfl, fun _ _ => rfl⟩

theorem KeptTable.trans {c c' c'' : Cont} (first : KeptTable c c') (second : KeptTable c' c'') :
    KeptTable c c'' := by
  constructor
  · intro l
    rw [second.off, first.off]
  · intro l positive
    rw [second.marks l positive, first.marks l positive]

/-- The calls `run`, one for each `eoffset` of the caller, are idle and pass `eoffset` and the
table `c` on, or what they return does not depend on the `eoffset`. -/
inductive PassesOrDrops (c : Cont) (run : Nat → Result) : Prop
  | passes (rv : Option Bool) (s : Scan) (kept : KeptTable c s.c)
      (same : ∀ eoffset, Idle (run eoffset).rows ∧ (run eoffset).rv = rv ∧
        (run eoffset).scan = s.setEoffset eoffset)
  | drops (rv : Option Bool) (s : Scan)
      (same : ∀ eoffset, ¬Idle (run eoffset).rows ∧ (run eoffset).rv = rv ∧ (run eoffset).scan = s)

section
variable {c : Cont} {run rest : Nat → Result}

/-- A line that is no test before the rest of a call. -/
theorem PassesOrDrops.cons (row : Nat → Row) (h : PassesOrDrops c rest)
    (quiet : ∀ eoffset, (row eoffset).event.isInner = false)
    (each : ∀ eoffset, run eoffset = { rest eoffset with rows := row eoffset :: (rest eoffset).rows }) :
    PassesOrDrops c run := by
  have idle (eoffset : Nat) : Idle (run eoffset).rows ↔ Idle (rest eoffset).rows := by
    rw [each, Idle, List.forall_mem_cons, and_iff_right (quiet eoffset), Idle]
  cases h with
  | passes rv s kept same =>
      refine .passes rv s kept ?_
      intro eoffset
      rw [idle, each]
      exact same eoffset
  | drops rv s same =>
      refine .drops rv s ?_
      intro eoffset
      rw [idle, each]
      exact same eoffset

end

theorem walk_passesOrDrops (recur : Recur) (env : Env) (call : Call) (magic : List Magic) {phase : Phase}
    {st : St} (outside : phase ≠ .cont) (top : st.contLevel = 0) :
    PassesOrDrops st.c (fun eoffset => walk recur env call magic phase (st.setEoffset eoffset)) := by
  induction magic generalizing phase st with
  | nil =>
      refine .passes (some st.returnval) st.toScan (.refl _) ?_
      intro eoffset
      rw [walk, St.finish, if_neg outside]
      exact ⟨List.forall_mem_nil _, rfl, rfl⟩
  | cons m magic ih =>
      have arrives : (∀ eoffset, arrive env m phase (st.setEoffset eoffset) =
            some (.flush, st.setEoffset eoffset)) ∨
          (∀ eoffset, arrive env m phase (st.setEoffset eoffset) = some (.top, st.setEoffset eoffset)) := by
        cases phase with
        | top => exact .inr fun _ => rfl
        | cont => exact absurd rfl outside
        | flush =>
            by_cases deeper : m.contLevel ≠ 0
            · left
              intro eoffset
              rw [arrive, if_pos deeper]
            · right
              intro eoffset
              rw [arrive, if_neg deeper]
      rcases arrives with arrives | arrives
      · have flush : Phase.flush ≠ .cont := by simp
        have later := ih flush top
        refine later.cons (fun eoffset => rowOf recur env call m .flush (st.setEoffset eoffset)) ?_ ?_
        · intro eoffset
          rfl
        · intro eoffset
          rw [walk_cons_go (arrives eoffset) rfl]
          rfl
      · rcases topStep_setEoffset recur env call m top with
          ⟨inner, same⟩ | ⟨quiet, ⟨phase', outside', next⟩, c, same⟩
        · have busy (eoffset : Nat) :
              ¬Idle (walk recur env call (m :: magic) phase (st.setEoffset eoffset)).rows := by
            intro idle
            have quiet := idle _ (rowOf_mem_walk (arrives eoffset))
            change (topStep recur env call m (st.setEoffset eoffset)).event.isInner = false at quiet
            rw [same, inner] at quiet
            cases quiet
          cases next : (topStep recur env call m st).next with
          | ret rv =>
              refine .drops rv (topStep recur env call m st).st.toScan ?_
              intro eoffset
              refine ⟨busy eoffset, ?_⟩
              have step := same eoffset
              rw [walk_cons_ret (arrives eoffset) ((congrArg Outcome.next step).trans next)]
              exact ⟨rfl, congrArg (fun o : Outcome => o.st.toScan) step⟩
          | go phase' =>
              let r := walk recur env call magic phase' (topStep recur env call m st).st
              refine .drops r.rv r.scan ?_
              intro eoffset
              refine ⟨busy eoffset, ?_⟩
              have step := same eoffset
              rw [walk_cons_go (arrives eoffset) ((congrArg Outcome.next step).trans next)]
              have after : (rowOf recur env call m .top (st.setEoffset eoffset)).after =
                  (topStep recur env call m st).st := congrArg Outcome.st step
              rw [after]
              exact ⟨rfl, rfl⟩
        · have level := topStep_contLevel top next outside'
          have later := ih outside' level
          rw [c] at later
          refine later.cons (fun eoffset => rowOf recur env call m .top (st.setEoffset eoffset)) ?_ ?_
          · intro eoffset
            change (topStep recur env call m (st.setEoffset eoffset)).event.isInner = false
            rw [same]
            exact quiet
          · intro eoffset
            have step := same eoffset
            rw [walk_cons_go (arrives eoffset) ((congrArg Outcome.next step).trans next)]
            have after : (rowOf recur env call m .top (st.setEoffset eoffset)).after =
                (topStep recur env call m st).st.setEoffset eoffset := congrArg Outcome.st step
            rw [after]

theorem open_off (env : Env) (st : St) (l : Nat) : ((st.open' env).2.c.li l).off = (st.c.li l).off := by
  simp only [St.open', fileCheckMem]
  split_ifs <;> simp only [Cont.reset, Cont.update] <;> split <;> rfl

/-- `file_check_mem` at level 0. -/
theorem open_keptTable (env : Env) (s : Scan) :
    KeptTable s.c (St.open' env { toScan := s, bb := none, contLevel := 0 }).2.c := by
  constructor
  · intro l
    exact open_off env _ l
  · intro l positive
    cases opened : (St.open' env { toScan := s, bb := none, contLevel := 0 }).1 with
    | true => rw [open_marks opened l, if_neg (Nat.one_le_iff_ne_zero.mp positive)]
    | false => rw [open_marks_failed opened]

theorem matchN_passesOrDrops (env : Env) (n : Nat) (call : Call) (magic : List Magic) (s : Scan) :
    PassesOrDrops s.c (fun eoffset => matchN env n call magic (s.setEoffset eoffset)) := by
  cases n with
  | zero =>
      refine .passes none { s with overrun := true } (.refl _) ?_
      intro eoffset
      exact ⟨List.forall_mem_nil _, rfl, rfl⟩
  | succ n =>
      have kept := open_keptTable env s
      have opens (eoffset : Nat) :
          St.open' env { toScan := s.setEoffset eoffset, bb := none, contLevel := 0 } =
            ((St.open' env { toScan := s, bb := none, contLevel := 0 }).1,
              (St.open' env { toScan := s, bb := none, contLevel := 0 }).2.setEoffset eoffset) := rfl
      simp only [matchN, matchWith, opens]
      rcases opened : St.open' env { toScan := s, bb := none, contLevel := 0 } with ⟨_ | _, st⟩
      all_goals rw [opened] at kept
      · refine .passes none st.toScan kept ?_
        intro eoffset
        exact ⟨List.forall_mem_nil _, rfl, rfl⟩
      · have level : st.contLevel = 0 := congrArg (fun r : Bool × St => r.2.contLevel) opened.symm
        have outside : Phase.top ≠ .cont := by simp
        cases walk_passesOrDrops (matchN env n) env call magic outside level with
        | passes rv s' kept' same => exact .passes rv s' (kept.trans kept') same
        | drops rv s' same => exact .drops rv s' same

theorem indirectLoop_passesOrDrops (env : Env) (n : Nat) (call : Call) (mlist : List (List Magic))
    (rv : Option Bool) (s : Scan) :
    PassesOrDrops s.c (fun eoffset =>
      indirectLoop (matchN env n) call mlist rv (s.setEoffset eoffset)) := by
  induction mlist generalizing rv s with
  | nil =>
      refine .passes rv s (.refl _) ?_
      intro eoffset
      exact ⟨List.forall_mem_nil _, rfl, rfl⟩
  | cons magic mlist ih =>
      let s₁ : Scan := { s with returnval := false, foundMatch := false }
      have loop (eoffset : Nat) : indirectLoop (matchN env n) call (magic :: mlist) rv (s.setEoffset eoffset) =
          let r := matchN env n call magic (s₁.setEoffset eoffset)
          if r.rv ≠ some false then r
          else
            let rest := indirectLoop (matchN env n) call mlist r.rv r.scan
            { rest with rows := r.rows ++ rest.rows } := rfl
      simp only [loop]
      cases matchN_passesOrDrops env n call magic s₁ with
      | passes rv₁ s₂ kept same =>
          by_cases stops : rv₁ ≠ some false
          · refine .passes rv₁ s₂ kept ?_
            intro eoffset
            rw [(same eoffset).2.1, if_pos stops]
            exact same eoffset
          · cases ih rv₁ s₂ with
            | passes rv₂ s₃ kept' same' =>
                refine .passes rv₂ s₃ (kept.trans kept') ?_
                intro eoffset
                obtain ⟨idle, returned, scan⟩ := same eoffset
                rw [returned, if_neg stops, scan]
                obtain ⟨idle', rest⟩ := same' eoffset
                exact ⟨idle_append.mpr ⟨idle, idle'⟩, rest⟩
            | drops rv₂ s₃ same' =>
                refine .drops rv₂ s₃ ?_
                intro eoffset
                obtain ⟨-, returned, scan⟩ := same eoffset
                rw [returned, if_neg stops, scan]
                obtain ⟨busy, rest⟩ := same' eoffset
                exact ⟨fun idle => busy (idle_append.mp idle).2, rest⟩
      | drops rv₁ s₂ same =>
          by_cases stops : rv₁ ≠ some false
          · refine .drops rv₁ s₂ ?_
            intro eoffset
            rw [(same eoffset).2.1, if_pos stops]
            exact same eoffset
          · let rest := indirectLoop (matchN env n) call mlist rv₁ s₂
            refine .drops rest.rv rest.scan ?_
            intro eoffset
            obtain ⟨busy, returned, scan⟩ := same eoffset
            rw [returned, if_neg stops, scan]
            exact ⟨fun idle => busy (idle_append.mp idle).1, rfl, rfl⟩

/-! ## `mget` -/

section
variable {m : Magic} {bb : Window} {level anchor n : Nat} {s : Scan}

theorem resolve_setEoffset (env : Env) (m : Magic) (bb : Window) (call : Call) (level : Nat) (s : Scan)
    (eoffset : Nat) :
    resolve env m bb call level (s.setEoffset eoffset) =
      ((resolve env m bb call level s).1, (resolve env m bb call level s).2.setEoffset eoffset) := by
  have same : indirectTarget env.host m bb call level
      ((s.setEoffset eoffset).copy env m (has m.flag INDIR) bb
        (uN 32 ((s.setEoffset eoffset).offset + call.offset)) (uN 32 (flen bb))) =
      indirectTarget env.host m bb call level
        (s.copy env m (has m.flag INDIR) bb (uN 32 (s.offset + call.offset)) (uN 32 (flen bb))) := rfl
  simp only [resolve, same]
  split
  · rfl
  · split <;> rfl

/-- `mget` that did not fail and resolved its offset. -/
theorem mget_resolved (anchored : (resolve env m bb call level s).1 = some anchor)
    (returned : (mget recur env m bb call level s).rv ≠ none) :
    mget recur env m bb call level s =
        mgetAt recur env m bb call anchor (resolve env m bb call level s).2 ∧
      (∀ eoffset, mget recur env m bb call level (s.setEoffset eoffset) =
        mgetAt recur env m bb call anchor ((resolve env m bb call level s).2.setEoffset eoffset)) ∧
      (resolve env m bb call level s).2.c = s.c ∧
      (resolve env m bb call level s).2.eoffset = s.eoffset ∧
      (resolve env m bb call level s).2.offset = anchor := by
  obtain ⟨value, search, offset, loaded, same⟩ := resolve_loaded env m bb call level s
  obtain rfl := same anchor anchored
  have resolved : resolve env m bb call level s = (some offset, s.loaded value search offset) :=
    Prod.ext anchored loaded
  by_cases indirs : s.indirCount ≥ env.indirMax
  · rw [mget, if_pos indirs] at returned
    exact absurd rfl returned
  by_cases names : s.nameCount ≥ env.nameMax
  · rw [mget, if_neg indirs, if_pos names] at returned
    exact absurd rfl returned
  have get : mget recur env m bb call level s =
      mgetAt recur env m bb call offset (s.loaded value search offset) := by
    rw [mget, if_neg indirs, if_neg names, resolved]
  refine ⟨?_, ?_, ?_, ?_, ?_⟩
  · rw [get, resolved]
  · intro eoffset
    have indirs' : ¬(s.setEoffset eoffset).indirCount ≥ env.indirMax := indirs
    have names' : ¬(s.setEoffset eoffset).nameCount ≥ env.nameMax := names
    rw [mget, if_neg indirs', if_neg names', resolve_setEoffset, resolved]
  all_goals rw [loaded]; rfl

/-- Behind the nested call of a `use` line. -/
theorem mgetUse_framed (recur : Recur) (env : Env) (m : Magic) (bb : Window) (call : Call) (s : Scan)
    (level : Nat) : FramedBy level s.offset s (mgetUse recur env m bb call s.offset s).scan := by
  unfold mgetUse
  split
  · exact ⟨fun _ _ => rfl, fun _ _ _ => rfl, rfl, rfl⟩
  · dsimp only
    split
    · exact ⟨fun _ _ => rfl, fun _ _ _ => rfl, rfl, rfl⟩
    · split
      · exact ⟨fun _ _ => rfl, fun _ _ _ => rfl, rfl, rfl⟩
      · exact ⟨fun _ _ => rfl, fun _ _ _ => rfl, rfl, rfl⟩

/-- `mget` behind the nested calls of an `indirect` line, which left `x`. -/
def indirectAfter (env : Env) (m : Magic) (offset : Nat) (s : Scan) (rv : Option Bool) (x : Scan)
    (rows : List Row) : Result :=
  let after := indirectLeave s x
  if after.io.hadErr then ⟨none, after, rows⟩
  else
    let rbuf := after.io.buf
    let after := { after with io := { after.io with buf := s.io.buf }, offset := s.offset }
    if rv = some true then
      let p := indirectPrint env m offset rbuf after.io
      ⟨if p.1 then some true else none, { after with io := p.2 }, rows⟩
    else ⟨rv, after, rows⟩

theorem indirectAfter_setEoffset (env : Env) (m : Magic) (offset : Nat) (s : Scan) (rv : Option Bool)
    (x : Scan) (rows rows' : List Row) (eoffset : Nat) :
    indirectAfter env m offset s rv (x.setEoffset eoffset) rows =
      ⟨(indirectAfter env m offset s rv x rows').rv,
        (indirectAfter env m offset s rv x rows').scan.setEoffset eoffset, rows⟩ := by
  have error : (indirectLeave s (x.setEoffset eoffset)).io = (indirectLeave s x).io := rfl
  simp only [indirectAfter, error]
  split_ifs <;> rfl

theorem indirectAfter_spec (env : Env) (m : Magic) (offset : Nat) (s : Scan) (rv : Option Bool)
    (x : Scan) (rows : List Row) :
    (indirectAfter env m offset s rv x rows).rows = rows ∧
      (indirectAfter env m offset s rv x rows).scan.c = x.c ∧
      ((indirectAfter env m offset s rv x rows).rv ≠ none →
        (indirectAfter env m offset s rv x rows).scan.offset = s.offset) := by
  unfold indirectAfter
  dsimp only
  split_ifs
  · exact ⟨rfl, rfl, fun h => absurd rfl h⟩
  all_goals exact ⟨rfl, rfl, fun _ => rfl⟩

/-- An `indirect` line returns before its nested calls, or behind them. -/
theorem mgetIndirect_cases (recur : Recur) (env : Env) (m : Magic) (bb : Window) (call : Call) (s : Scan)
    (offset : Nat) :
    (∃ (rv : Option Bool) (s' : Scan), s'.c = s.c ∧ s'.offset = s.offset ∧ ∀ eoffset,
        mgetIndirect recur env m bb call offset (s.setEoffset eoffset) = ⟨rv, s'.setEoffset eoffset, []⟩) ∨
      ∃ target, ∀ eoffset,
        let r := indirectLoop recur call.indirect env.mlist none
          ((indirectEnter bb target s).setEoffset eoffset)
        mgetIndirect recur env m bb call offset (s.setEoffset eoffset) =
          indirectAfter env m target s r.rv r.scan r.rows := by
  have io (eoffset : Nat) : (s.setEoffset eoffset).io = s.io := rfl
  unfold mgetIndirect
  cases indirectOffset m call (flen bb) offset with
  | none => exact .inl ⟨_, s, rfl, rfl, fun _ => rfl⟩
  | some target =>
      simp only [io]
      by_cases error : s.io.hadErr = true
      · simp only [if_pos error]
        exact .inl ⟨_, s, rfl, rfl, fun _ => rfl⟩
      · by_cases full : (!env.host.malloc s.io.tick) = true
        · simp only [if_neg error, if_pos full]
          exact .inl ⟨_, { s with io := { s.io with tick := s.io.tick + 1 } }, rfl, rfl, fun _ => rfl⟩
        · simp only [if_neg error, if_neg full]
          exact .inr ⟨target, fun _ => rfl⟩

/-- The calls of an `indirect` line pass `eoffset` on or drop it. -/
theorem mgetIndirect_passesOrDrops (env : Env) (n : Nat) (m : Magic) (bb : Window) (call : Call) (s : Scan)
    (offset : Nat) :
    PassesOrDrops s.c (fun eoffset => mgetIndirect (matchN env n) env m bb call offset
      (s.setEoffset eoffset)) := by
  rcases mgetIndirect_cases (matchN env n) env m bb call s offset with ⟨rv, s', c, -, same⟩ | ⟨target, same⟩
  · refine .passes rv s' (c ▸ .refl _) ?_
    intro eoffset
    rw [same]
    exact ⟨List.forall_mem_nil _, rfl, rfl⟩
  · cases indirectLoop_passesOrDrops env n call.indirect env.mlist none (indirectEnter bb target s) with
    | passes rv x kept loop =>
        let r := indirectAfter env m target s rv x []
        have spec := indirectAfter_spec env m target s rv x []
        refine .passes r.rv r.scan (spec.2.1 ▸ kept) ?_
        intro eoffset
        obtain ⟨idle, returned, scan⟩ := loop eoffset
        rw [same, returned, scan, indirectAfter_setEoffset env m target s rv x _ []]
        exact ⟨idle, rfl, rfl⟩
    | drops rv x loop =>
        let r := indirectAfter env m target s rv x []
        refine .drops r.rv r.scan ?_
        intro eoffset
        obtain ⟨busy, returned, scan⟩ := loop eoffset
        have self : x = x.setEoffset x.eoffset := rfl
        rw [same, returned, scan, self, indirectAfter_setEoffset env m target s rv x _ []]
        refine ⟨busy, rfl, ?_⟩
        have kept := indirectAfter_setEoffset env m target s rv x [] [] x.eoffset
        exact (congrArg Result.scan kept).symm

theorem mgetIndirect_offset {offset : Nat} (returned : (mgetIndirect recur env m bb call offset s).rv ≠ none) :
    (mgetIndirect recur env m bb call offset s).scan.offset = s.offset := by
  have self : s = s.setEoffset s.eoffset := rfl
  rw [self] at returned ⊢
  rcases mgetIndirect_cases recur env m bb call s offset with ⟨rv, s', -, back, same⟩ | ⟨target, same⟩
  · rw [same]
    exact back
  · rw [same] at returned ⊢
    exact (indirectAfter_spec env m target s _ _ _).2.2 returned

end

/-- `use a`, and `0 name a`. -/
def useLine : Magic := { plainLine with type := .use, value := Value.zero.write 0 (asc "a") }

def useName' : List (List Magic) := [[{ plainLine with type := .name, value := Value.zero.write 0 (asc "a") }]]

/-- `>1 indirect x`, on a database with the one entry `0 byte x`. -/
def indirectLine : Magic := { plainLine with contLevel := 1, offset := 1, type := .indirect }

/-- The state at that line behind `0 byte x` and `>0 byte x`, on a buffer of two bytes. -/
def indirectScan : Scan :=
  { plainScan [1, 2] with
    offset := 1
    c := { len := 20, live := true, li := fun k => if k = 1 then ⟨1, true, true, .none⟩ else ⟨1, false, false, .none⟩ } }

end Libmagic.Softmagic
