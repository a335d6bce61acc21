import Libmagic.Softmagic.Match

/-!
# What `mget` changes

`mget` tests a line in place, or makes the nested calls of an `indirect` or `use`
line. `Fetched` says which of these it did and what is left of the state.
-/
namespace Libmagic.Softmagic

variable {recur : Recur} {env : Env} {call : Call} {m : Magic} {bb : Window} {level : Nat} {s : Scan}

/-- The state after the value and the offset of a line were read. -/
def Scan.loaded (s : Scan) (value : Value) (search : Search) (offset : Nat) : Scan :=
  { s with value, search, offset }

/-- The offset is resolved with changes of the value, the search window and the offset. -/
theorem resolve_loaded (env : Env) (m : Magic) (bb : Window) (call : Call) (level : Nat) (s : Scan) :
    ∃ value search offset, (resolve env m bb call level s).2 = s.loaded value search offset ∧
      ∀ o, (resolve env m bb call level s).1 = some o → offset = o := by
  unfold resolve
  dsimp only
  split
  · exact ⟨_, _, _, rfl, fun o h => Option.some.inj h⟩
  · split
    · exact ⟨_, _, _, rfl, nofun⟩
    · exact ⟨_, _, _, rfl, fun o h => Option.some.inj h⟩

/-- What `mget` did to the state `s`, and what it returned. -/
inductive Fetched (recur : Recur) (env : Env) (call : Call) (m : Magic) (bb : Window) (s : Scan) :
    Result → Prop
  /-- The line was tested in place. -/
  | plain (rv : Option Bool) (value : Value) (search : Search) (offset : Nat) (io : Io) :
      Fetched recur env call m bb s ⟨rv, { s.loaded value search offset with io }, []⟩
  /-- The nested calls of an `indirect` line were made. -/
  | indirect (rv : Option Bool) (value : Value) (search : Search) (offset target offset' : Nat) (io : Io)
      (r : Result) (type : m.type = .indirect) (indirs : s.indirCount < env.indirMax)
      (names : s.nameCount < env.nameMax)
      (nested : r = indirectLoop recur call.indirect env.mlist none
        (indirectEnter bb target (s.loaded value search offset)))
      (back : rv ≠ none → offset' = offset) :
      Fetched recur env call m bb s
        ⟨rv, { indirectLeave (s.loaded value search offset) r.scan with io, offset := offset' }, r.rows⟩
  /-- The nested call of a `use` line was made. -/
  | use (rv : Option Bool) (value : Value) (search : Search) (offset : Nat) (magic : List Magic)
      (flipped : Bool) (r : Result) (type : m.type = .use) (indirs : s.indirCount < env.indirMax)
      (names : s.nameCount < env.nameMax)
      (nested : r = recur (call.use flipped offset) magic (useEnter m (s.loaded value search offset))) :
      Fetched recur env call m bb s
        ⟨rv, useLeave env.host offset (s.loaded value search offset) r.rv r.scan, r.rows⟩

theorem mgetIndirect_fetched {value : Value} {search : Search} {offset : Nat} (o : Nat)
    (type : m.type = .indirect) (indirs : s.indirCount < env.indirMax) (names : s.nameCount < env.nameMax) :
    Fetched recur env call m bb s
      (mgetIndirect recur env m bb call o (s.loaded value search offset)) := by
  unfold mgetIndirect
  split
  · exact .plain (some false) value search offset s.io
  · rename_i target _
    dsimp only
    split
    · exact .plain none value search offset s.io
    · split
      · exact .plain none value search offset _
      · split
        · exact .indirect none value search offset target _ _ _ type indirs names rfl fun h => absurd rfl h
        · split
          · exact .indirect _ value search offset target _ _ _ type indirs names rfl fun _ => rfl
          · exact .indirect _ value search offset target _ _ _ type indirs names rfl fun _ => rfl

theorem mgetUse_fetched {value : Value} {search : Search} {offset : Nat}
    (type : m.type = .use) (indirs : s.indirCount < env.indirMax) (names : s.nameCount < env.nameMax) :
    Fetched recur env call m bb s
      (mgetUse recur env m bb call offset (s.loaded value search offset)) := by
  unfold mgetUse
  split
  · exact .plain (some false) value search offset s.io
  · dsimp only
    split
    · exact .plain none value search offset _
    · split
      · exact .plain none value search offset _
      · exact .use _ value search offset _ _ _ type indirs names rfl

theorem mget_fetched (recur : Recur) (env : Env) (m : Magic) (bb : Window) (call : Call) (level : Nat)
    (s : Scan) : Fetched recur env call m bb s (mget recur env m bb call level s) := by
  by_cases indirs : s.indirCount < env.indirMax
  swap
  · rw [mget, if_pos (Nat.le_of_not_lt indirs)]
    exact .plain none s.value s.search s.offset _
  by_cases names : s.nameCount < env.nameMax
  swap
  · rw [mget, if_neg (Nat.not_le.mpr indirs), if_pos (Nat.le_of_not_lt names)]
    exact .plain none s.value s.search s.offset _
  rw [mget, if_neg (Nat.not_le.mpr indirs), if_neg (Nat.not_le.mpr names)]
  obtain ⟨value, search, offset, loaded, same⟩ := resolve_loaded env m bb call level s
  rcases resolved : resolve env m bb call level s with ⟨_ | target, s'⟩
  all_goals
    rw [resolved] at loaded
    obtain rfl : s' = s.loaded value search offset := loaded
  · exact .plain (some false) value search offset s.io
  · obtain rfl := same target (by rw [resolved])
    dsimp only
    unfold mgetAt
    split
    · exact mgetIndirect_fetched _ ‹_› indirs names
    · exact mgetUse_fetched ‹_› indirs names
    · split
      · exact .plain (some true) value search offset s.io
      · exact .plain _ value search offset _
    · split
      · exact .plain (some false) value search offset s.io
      · exact .plain _ (mconvert env.host m call.flip value s.io).2.1 search offset _

end Libmagic.Softmagic
