import Libmagic.Softmagic.FirstMatch

/-!
# The entries that a pass tries

A pass of `file_softmagic` skips the entries that are not for it, with the lines below them. It is the same as a pass
over the others alone.
-/
namespace Libmagic.Softmagic

/-- An entry: a line at the top level, with the lines below it. -/
structure TopEntry where
  head : Magic
  below : List Magic
  top : head.contLevel = 0
  deeper : ∀ m ∈ below, m.contLevel ≠ 0

def TopEntry.lines (e : TopEntry) : List Magic := e.head :: e.below

/-- The lines of the entries, one entry behind the other. -/
def array (es : List TopEntry) : List Magic := es.flatMap TopEntry.lines

/-- The entries that are for a call. -/
def tried (call : Call) (es : List TopEntry) : List TopEntry := es.filter fun e => !isFiltered call e.head

/-- A result without its trace. -/
def Result.untraced (r : Result) : Option Bool × Scan := (r.rv, r.scan)

/-- Out of the loop over continuations the level is 0. -/
def AtLevel (phase : Phase) (st : St) : Prop := phase ≠ .cont → st.contLevel = 0

section

variable {recur : Recur} {env : Env} {call : Call} {m : Magic} {phase phase' phase'' : Phase} {st st' : St}

/-- Two arrays that no walk tells apart. -/
def SameWalks (recur : Recur) (env : Env) (call : Call) (xs ys : List Magic) : Prop :=
  ∀ phase st, AtLevel phase st → (walk recur env call xs phase st).untraced = (walk recur env call ys phase st).untraced

theorem AtLevel.step (ready : AtLevel phase st) (arrived : arrive env m phase st = some (phase', st'))
    (goes : (lineStep recur env call m phase' st').next = .go phase'') :
    AtLevel phase'' (lineStep recur env call m phase' st').st := by
  intro outside
  rcases arrive_cases arrived with ⟨rfl, rfl, rfl⟩ | ⟨rfl, rfl, -, rfl⟩ | ⟨rfl, rfl, -, -, rfl⟩ | ⟨rfl, rfl, -, rfl⟩ |
    ⟨rfl, rfl, -, rfl⟩
  · exact topStep_contLevel (ready nofun) goes outside
  · rcases contStep_cases goes with ⟨-, -, zero⟩ | ⟨cont, -⟩ | ⟨cont, -⟩
    · exact zero
    · exact absurd cont outside
    · exact absurd cont outside
  · exact topStep_contLevel (endEntry_contLevel env st) goes outside
  · exact ready nofun
  · exact topStep_contLevel (ready nofun) goes outside

/-- The same lines in front make no difference. -/
theorem SameWalks.append {xs ys : List Magic} (same : SameWalks recur env call xs ys) (front : List Magic) :
    SameWalks recur env call (front ++ xs) (front ++ ys) := by
  induction front with
  | nil => exact same
  | cons m front ih =>
      intro phase st ready
      rw [List.cons_append, List.cons_append]
      cases arrived : arrive env m phase st with
      | none => rw [walk_cons_none arrived, walk_cons_none arrived]
      | some r =>
          obtain ⟨phase', st'⟩ := r
          cases next : (lineStep recur env call m phase' st').next with
          | ret rv => rw [walk_cons_ret arrived next, walk_cons_ret arrived next]
          | go phase'' =>
              rw [walk_cons_go arrived next, walk_cons_go arrived next]
              exact ih phase'' _ (ready.step arrived next)

/-! ## Between two entries -/

theorem endEntry_returnval (env : Env) (st : St) : (st.endEntry env).returnval = st.returnval := by
  simp only [St.endEntry]
  split_ifs <;> rfl

theorem walk_array_flush (es : List TopEntry) (st : St) :
    walk recur env call (array es) .flush st = walk recur env call (array es) .top st := by
  cases es with
  | nil => rfl
  | cons e es =>
      have arrived : arrive env e.head .flush st = some (.top, st) := by simp [arrive, e.top]
      change walk recur env call (e.head :: _) .flush st = walk recur env call (e.head :: _) .top st
      rw [walk, walk, arrived]
      rfl

theorem walk_array_done (done : st.isDone env = true) (es : List TopEntry) :
    walk recur env call (array es) .cont st = st.finish env .cont := by
  cases es with
  | nil => rfl
  | cons e es =>
      have arrived : arrive env e.head .cont st = none := by simp [arrive, e.top, done]
      exact walk_cons_none arrived

theorem walk_array_cont (more : st.isDone env = false) (es : List TopEntry) :
    (walk recur env call (array es) .cont st).untraced = (walk recur env call (array es) .top (st.endEntry env)).untraced := by
  cases es with
  | nil =>
      change (some st.returnval, (st.endEntry env).toScan) = (some (st.endEntry env).returnval, (st.endEntry env).toScan)
      rw [endEntry_returnval]
  | cons e es =>
      have arrived : arrive env e.head .cont st = some (.top, st.endEntry env) := by simp [arrive, e.top, more]
      change (walk recur env call (e.head :: _) .cont st).untraced = (walk recur env call (e.head :: _) .top _).untraced
      rw [walk, walk, arrived]
      rfl

/-- Lines below an entry that was left are skipped. -/
theorem walk_flush_below {below : List Magic} (deeper : ∀ m ∈ below, m.contLevel ≠ 0) (rest : List Magic) (st : St) :
    (walk recur env call (below ++ rest) .flush st).untraced = (walk recur env call rest .flush st).untraced := by
  induction below with
  | nil => rfl
  | cons m below ih =>
      have arrived : arrive env m .flush st = some (.flush, st) := by simp [arrive, deeper m List.mem_cons_self]
      have goes : (lineStep recur env call m .flush st).next = .go .flush := rfl
      rw [List.cons_append, walk_cons_go arrived goes]
      exact ih fun m mem => deeper m (List.mem_cons_of_mem _ mem)

theorem walk_filtered {e : TopEntry} (filtered : isFiltered call e.head = true) (es : List TopEntry) (zero : st.contLevel = 0) :
    (walk recur env call (array (e :: es)) .top st).untraced = (walk recur env call (array es) .top st).untraced := by
  have arrived : arrive env e.head .top st = some (.top, st) := rfl
  have left : lineStep recur env call e.head .top st = st.flushFrom .filtered [] := topStep_filtered filtered
  have goes : (lineStep recur env call e.head .top st).next = .go .flush := by
    rw [left]
    rfl
  have after : (rowOf recur env call e.head .top st).after = st := by
    change (lineStep recur env call e.head .top st).st = st
    rw [left]
    change { st with contLevel := 0 } = st
    rw [← zero]
  change (walk recur env call (e.head :: (e.below ++ array es)) .top st).untraced = _
  rw [walk_cons_go arrived goes, ← walk_array_flush]
  change (walk recur env call (e.below ++ array es) .flush (rowOf recur env call e.head .top st).after).untraced = _
  rw [after]
  exact walk_flush_below e.deeper (array es) st

/-- A walk over all entries is one over those that are for the call. -/
theorem array_tried (recur : Recur) (env : Env) (call : Call) (es : List TopEntry) :
    SameWalks recur env call (array es) (array (tried call es)) := by
  induction es with
  | nil => exact fun _ _ _ => rfl
  | cons e es ih =>
      cases filtered : isFiltered call e.head with
      | false =>
          have kept : tried call (e :: es) = e :: tried call es := List.filter_cons_of_pos (by rw [filtered]; rfl)
          rw [kept]
          exact ih.append e.lines
      | true =>
          have dropped : tried call (e :: es) = tried call es := List.filter_cons_of_neg (by rw [filtered]; decide)
          rw [dropped]
          have skip {st : St} (zero : st.contLevel = 0) : (walk recur env call (array (e :: es)) .top st).untraced =
              (walk recur env call (array (tried call es)) .top st).untraced := by
            rw [walk_filtered filtered es zero]
            exact ih .top st fun _ => zero
          intro phase st ready
          cases phase with
          | top => exact skip (ready nofun)
          | flush =>
              rw [walk_array_flush, walk_array_flush]
              exact skip (ready nofun)
          | cont =>
              cases done : st.isDone env with
              | true => rw [walk_array_done done, walk_array_done done]
              | false =>
                  rw [walk_array_cont done, walk_array_cont done]
                  exact skip (endEntry_contLevel env st)

end

/-! ## A pass -/

theorem matchMagic_tried (env : Env) (call : Call) (es : List TopEntry) (s : Scan) :
    (matchMagic env call (array es) s).untraced = (matchMagic env call (array (tried call es)) s).untraced := by
  change (matchWith (matchN env (env.indirMax + env.nameMax)) env call (array es) s).untraced =
    (matchWith (matchN env (env.indirMax + env.nameMax)) env call (array (tried call es)) s).untraced
  unfold matchWith
  have zero : (St.open' env { toScan := s, bb := none, contLevel := 0 }).2.contLevel = 0 := rfl
  generalize St.open' env { toScan := s, bb := none, contLevel := 0 } = opened at zero
  obtain ⟨ok, st⟩ := opened
  cases ok with
  | false => rfl
  | true => exact array_tried _ env call es .top st fun _ => zero

theorem softmagicLoop_tried (env : Env) (call : Call) (sets : List (List TopEntry)) (rv : Bool) (s : Scan) :
    softmagicLoop env call (sets.map array) rv s = softmagicLoop env call (sets.map fun es => array (tried call es)) rv s := by
  induction sets generalizing rv s with
  | nil => rfl
  | cons es sets ih =>
      have same := matchMagic_tried env call es { s with returnval := false, foundMatch := false }
      obtain ⟨sameRv, sameScan⟩ := Prod.mk.inj same
      rw [List.map_cons, List.map_cons, softmagicLoop, softmagicLoop]
      rw [sameRv, sameScan]
      split
      · rfl
      · exact ih _ _
      · split
        · exact ih _ _
        · rfl

end Libmagic.Softmagic
