import Libmagic.Softmagic.Mget
import Libmagic.Softmagic.Trace

/-!
# The first match

`match` looks at `found_match` behind the loop over the continuations of an entry
only. Where it leaves an entry that was printed through `flush`, it goes on to the
next one.
-/
namespace Libmagic.Softmagic

variable {recur : Recur} {env : Env} {call : Call}

/-! ## `found_match` is kept -/

section
variable {m : Magic} {st : St}

theorem Fetched.found {bb : Window} {s : Scan} {r : Result} (h : Fetched recur env call m bb s r)
    (found : s.foundMatch = true) : r.scan.foundMatch = true := by
  cases h with
  | plain => exact found
  | indirect => exact found
  | use => exact Bool.or_eq_true_iff.mpr (.inl found)

theorem get_found (found : st.foundMatch = true) :
    (st.get recur env call m).2.1.foundMatch = true := by
  simp only [St.get]
  split
  · rfl
  · exact (mget_fetched recur env m st.bb call st.contLevel st.toScan).found found

theorem lineStep_found (phase : Phase) (found : st.foundMatch = true) :
    (lineStep recur env call m phase st).st.foundMatch = true := by
  rcases lineStep_laterBut recur env call m phase st with ⟨later, -⟩ | ⟨st₁, before, after, -⟩
  · exact later.found found
  · exact after.found (get_found (before.found found))

end

/-! ## Which entries are reached -/

/-- A top-level entry that matched and whose description was printed. -/
def Row.isPrinted (r : Row) : Bool :=
  match r.event with
  | .matched .. => decide (r.phase = .top ∧ r.line.type ≠ .name ∧ r.line.desc ≠ [])
  | _ => false

/-- A top-level entry that was tested. -/
def Row.isHeadTest (r : Row) : Bool := decide (r.phase = .top ∧ r.event ≠ .filtered)

/-- The entry was left through `flush`: the offset of its own line was not recorded, or the
offset of a continuation was not set while the size of the file is known. -/
def Row.flushes (r : Row) : Bool :=
  match r.phase, r.event with
  | .top, .matched _ ok => !ok
  | .cont, .unset => decide (r.after.b.elen ≠ FILE_BADSIZE)
  | _, _ => false

/-- A top-level entry that is tested when `match` comes to it. -/
def isHead (call : Call) (m : Magic) : Bool := decide (m.contLevel = 0) && !isFiltered call m

theorem topStep_filtered {m : Magic} {st : St} (filtered : isFiltered call m = true) :
    topStep recur env call m st = st.flushFrom .filtered [] := if_pos filtered

theorem topStep_unfiltered {m : Magic} {st : St} (unfiltered : isFiltered call m = false) :
    (topStep recur env call m st).event ≠ .filtered := by
  rw [topStep, if_neg (Bool.not_eq_true _ ▸ unfiltered)]
  rcases st.place env call m with ⟨_ | _, st₁⟩
  · dsimp only
    split_ifs <;> simp [St.flushFrom]
  · intro filtered
    have begun : (topRead recur env call m (st₁.setLine m)).event.isBegun = true := topRead_begun
    exact Bool.noConfusion (begun.symm.trans (congrArg Event.isBegun filtered))

/-- Behind `flush` the next top-level entry is tested. -/
theorem walk_flush_headTest (magic : List Magic) (st : St) :
    (∀ q ∈ (walk recur env call magic .flush st).rows, q.isHeadTest = false) ↔
      magic.any (isHead call) = false := by
  induction magic generalizing st with
  | nil => simp [walk, St.finish]
  | cons m magic ih =>
      rw [List.any_cons, Bool.or_eq_false_iff]
      by_cases deeper : m.contLevel ≠ 0
      · have arrived : arrive env m .flush st = some (.flush, st) := by simp [arrive, deeper]
        rw [walk_cons_go arrived rfl]
        simp only [List.forall_mem_cons]
        refine and_congr (iff_of_true rfl ?_) (ih _)
        simp [isHead, deeper]
      · have arrived : arrive env m .flush st = some (.top, st) := by simp [arrive, deeper]
        cases filtered : isFiltered call m with
        | true =>
            have step : lineStep recur env call m .top st = st.flushFrom .filtered [] :=
              topStep_filtered filtered
            rw [walk_cons_go arrived (congrArg Outcome.next step)]
            simp only [List.forall_mem_cons]
            refine and_congr (iff_of_true ?_ ?_) (ih _)
            · simp [Row.isHeadTest, rowOf, step, St.flushFrom]
            · simp [isHead, filtered]
        | false =>
            have tested : (rowOf recur env call m .top st).isHeadTest = true :=
              decide_eq_true ⟨rfl, topStep_unfiltered filtered⟩
            have head : isHead call m = true := by simp [isHead, not_not.mp deeper, filtered]
            refine iff_of_false ?_ (fun h => Bool.noConfusion (head.symm.trans h.1))
            intro none
            exact Bool.noConfusion (tested.symm.trans (none _ (rowOf_mem_walk arrived)))

theorem flushes_of_event {r : Row} (cont : r.phase = .cont) :
    r.flushes = true ↔ r.event = .unset ∧ r.after.b.elen ≠ FILE_BADSIZE := by
  simp only [Row.flushes, cont]
  cases r.event <;> simp

/-- A continuation flushes its entry if and only if the walk goes on behind `flush`. -/
theorem flushes_iff_next (recur : Recur) (env : Env) (call : Call) (m : Magic) (st : St) :
    (rowOf recur env call m .cont st).flushes = true ↔
      (lineStep recur env call m .cont st).next = .go .flush := by
  rw [flushes_of_event rfl]
  change (contStep recur env call m st).event = .unset ∧
    (contStep recur env call m st).st.b.elen ≠ FILE_BADSIZE ↔
      (contStep recur env call m st).next = .go .flush
  simp only [contStep]
  split_ifs with above
  · simp
  · rcases contLine_event recur env call m ((st.setLine m).setLevel m.contLevel) with
      inner | ⟨unset, ⟨bad, next⟩ | ⟨good, next⟩⟩
    · have notUnset : (contLine recur env call m ((st.setLine m).setLevel m.contLevel)).event ≠
          .unset := by
        intro unset
        rw [unset] at inner
        cases inner
      refine iff_of_false (fun h => notUnset h.1) (fun next => ?_)
      rcases contLine_cases rfl next with ⟨-, unset, -⟩ | ⟨cont, -⟩
      · exact notUnset unset
      · cases cont
    · exact iff_of_false (fun h => h.2 bad) (by simp [next])
    · exact iff_of_true ⟨unset, good⟩ next

/-- Among the continuations of an entry with a match, the walk comes to the next entry
through `flush` only. -/
theorem walk_cont_headTest (single : has env.flags MAGIC_CONTINUE = false) (magic : List Magic) {st : St}
    (found : st.foundMatch = true) :
    (∀ q ∈ (walk recur env call magic .cont st).rows, q.isHeadTest = false) ↔
      ¬(((walk recur env call magic .cont st).rows.takeWhile
          (fun r => decide (r.phase = .cont))).any Row.flushes = true ∧
        magic.any (isHead call) = true) := by
  induction magic generalizing st with
  | nil => simp [walk, St.finish]
  | cons m magic ih =>
      by_cases deeper : m.contLevel ≠ 0
      · have arrived : arrive env m .cont st = some (.cont, st) := if_pos deeper
        have head : isHead call m = false := by simp [isHead, deeper]
        have outside : (rowOf recur env call m .cont st).isHeadTest = false := rfl
        have within : decide ((rowOf recur env call m .cont st).phase = .cont) = true := rfl
        have flushes := flushes_iff_next recur env call m st
        rw [List.any_cons, head, Bool.false_or]
        cases next : (lineStep recur env call m .cont st).next with
        | ret rv =>
            have stays : (rowOf recur env call m .cont st).flushes = false := by
              simp [← Bool.not_eq_true, flushes, next]
            simp [walk_cons_ret arrived next, outside, within, stays]
        | go phase =>
            simp only [walk_cons_go arrived next, List.forall_mem_cons, outside, true_and,
              List.takeWhile_cons, within, ↓reduceIte, List.any_cons, Bool.or_eq_true]
            rcases contStep_cases next with ⟨rfl, -⟩ | ⟨rfl, -⟩ | ⟨rfl, -⟩
            · simp only [flushes.mpr next, true_or, true_and, Bool.not_eq_true]
              exact walk_flush_headTest magic _
            all_goals
              have stays : (rowOf recur env call m .cont st).flushes = false := by
                simp [← Bool.not_eq_true, flushes, next]
              simp only [stays, Bool.false_eq_true, false_or]
              exact ih (lineStep_found .cont found)
      · have done : arrive env m .cont st = none := by
          simp [arrive, deeper, St.isDone, found, single]
        simp [walk_cons_none done, St.finish]

/-! ## One call of `match` -/

/-- Once a top-level entry was printed, no later one is tested. -/
def FirstMatchWins (rows : List Row) : Prop :=
  ∀ pre r post, rows = pre ++ r :: post → r.isPrinted = true → ∀ q ∈ post, q.isHeadTest = false

/-- A printed top-level entry is left through `flush` while a top-level entry that would be
tested is still to come. -/
def FlushesLate (call : Call) (magic : List Magic) (rows : List Row) : Prop :=
  ∃ pre r post, rows = pre ++ r :: post ∧ r.isPrinted = true ∧
    (r :: post.takeWhile (fun q => decide (q.phase = .cont))).any Row.flushes = true ∧
    (magic.drop (pre.length + 1)).any (isHead call) = true

theorem isPrinted_iff {r : Row} : r.isPrinted = true ↔
    (∃ read ok, r.event = .matched read ok) ∧ r.phase = .top ∧ r.line.type ≠ .name ∧ r.line.desc ≠ [] := by
  simp only [Row.isPrinted]
  cases r.event <;> simp

/-- Behind one printed entry. -/
theorem headTest_iff (single : has env.flags MAGIC_CONTINUE = false) {magic : List Magic} {s : Scan}
    {pre post : List Row} {r : Row}
    (rows : (matchWith recur env call magic s).rows = pre ++ r :: post) (printed : r.isPrinted = true) :
    (∀ q ∈ post, q.isHeadTest = false) ↔
      ¬((r :: post.takeWhile (fun q => decide (q.phase = .cont))).any Row.flushes = true ∧
        (magic.drop (pre.length + 1)).any (isHead call) = true) := by
  obtain ⟨⟨read, ok, event⟩, top, -, described⟩ := isPrinted_iff.mp printed
  have comes := matchWith_comes rows
  have event' := comes.event.symm.trans event
  have after := comes.after
  obtain ⟨rest, lines, tail⟩ := matchWith_split rows
  rw [top] at event' after tail
  simp only [lineStep] at event' after tail
  obtain ⟨mid, headed, -⟩ := topStep_headed recur env call r.line r.before
  have behind : magic.drop (pre.length + 1) = rest := by
    rw [lines, ← List.length_map Row.line, List.drop_append]
    simp
  have flushes : r.flushes = !ok := by simp only [Row.flushes, top, event]
  rw [behind, List.any_cons, flushes]
  cases ok with
  | false =>
      rw [headed.flushed read event'] at tail
      rw [tail]
      simpa using walk_flush_headTest rest r.after
  | true =>
      have found : r.after.foundMatch = true := by
        rw [after]
        exact headed.found read true event' described
      rw [(headed.opened (congrArg Event.opens event')).1] at tail
      rw [tail]
      exact walk_cont_headTest single rest found

/-- The first match wins, but for entries that are left through `flush` after they were
printed. -/
theorem firstMatchWins_iff (recur : Recur) (env : Env) (call : Call) (magic : List Magic) (s : Scan)
    (single : has env.flags MAGIC_CONTINUE = false) :
    FirstMatchWins (matchWith recur env call magic s).rows ↔
      ¬FlushesLate call magic (matchWith recur env call magic s).rows := by
  constructor
  · rintro wins ⟨pre, r, post, rows, printed, late⟩
    exact (headTest_iff single rows printed).mp (wins pre r post rows printed) late
  · intro early pre r post rows printed
    refine (headTest_iff single rows printed).mpr fun late => ?_
    exact early ⟨pre, r, post, rows, printed, late⟩

theorem firstMatchWins_iff_plain :
    has (plainEnv [] []).flags MAGIC_CONTINUE = false ∧
      (FirstMatchWins (matchWith (matchN (plainEnv [] []) 0) (plainEnv [] []) plainCall
          [{ plainLine with desc := asc "A" }, { plainLine with desc := asc "B" }] (plainScan [1])).rows ↔
        ¬FlushesLate plainCall
          [{ plainLine with desc := asc "A" }, { plainLine with desc := asc "B" }]
          (matchWith (matchN (plainEnv [] []) 0) (plainEnv [] []) plainCall
            [{ plainLine with desc := asc "A" }, { plainLine with desc := asc "B" }]
            (plainScan [1])).rows) :=
  ⟨rfl, firstMatchWins_iff _ _ _ _ _ rfl⟩

/-- `100 byte !5 A` and `0 byte x B`: on a short file the first line matches because its
byte cannot be read, and its offset cannot be recorded. -/
def pastEndLines : List Magic :=
  [{ plainLine with offset := 100, reln := .ne, value := Value.zero.write 0 [5], desc := asc "A" },
    { plainLine with desc := asc "B" }]

theorem firstMatchWins_fails :
    ¬∀ (env : Env) (call : Call) (magic : List Magic) (s : Scan),
      has env.flags MAGIC_CONTINUE = false → has env.flags MAGIC_NODESC = false →
      FirstMatchWins (matchMagic env call magic s).rows := by
  intro wins
  have views : (matchMagic (plainEnv [pastEndLines] []) plainCall pastEndLines
      (plainScan (List.replicate 10 0))).rows.map (fun r => (r.isPrinted, r.isHeadTest)) =
        [(true, true), (true, true)] := by decide +kernel
  obtain ⟨a, b, rows⟩ := List.length_eq_two.mp
    ((List.length_map _).symm.trans (congrArg List.length views))
  rw [rows] at views
  simp only [List.map_cons, List.map_nil, List.cons.injEq, Prod.mk.injEq, and_true] at views
  have first := wins _ plainCall _ _ rfl rfl [] a [b] rows views.1.1 b List.mem_cons_self
  exact Bool.noConfusion (views.2.2.symm.trans first)

end Libmagic.Softmagic
