import Libmagic.Json.Routines

/-!
# What `json_parse` accepts

By induction on the levels left, `json_parse` below the top level recognises the
values of the dialect `lax` with that much nesting. At the top level `rv = 1`
means one container and `rv = 2` that two containers of one kind come first.
-/
namespace Libmagic.Json
open JsonText Unicode

/-- `parse` skips whitespace, runs the `switch` over `inner`, and skips whitespace again. -/
def Wraps (parse inner : List UInt8 → Stats → Parsed) : Prop :=
  ∀ b st, (jsonSkipSpace b = [] ∧ (parse b st).rv = 0) ∨
    ∃ c uc, jsonSkipSpace b = c :: uc ∧ (parse b st).rv = (jsonSwitch inner c uc st).1.rv ∧
      (parse b st).uc = jsonSkipSpace (jsonSwitch inner c uc st).1.uc ∧
      ((parse b st).rv ≠ 0 → (parse b st).st =
        (jsonSwitch inner c uc st).1.st.bump (jsonSwitch inner c uc st).2)

theorem jsonParse_inner {lvl : Nat} (low : 0 < lvl) (high : lvl ≤ 500) :
    Wraps (jsonParse lvl) (jsonParse (lvl + 2)) := by
  intro b st
  rw [jsonParse]
  rcases skip : jsonSkipSpace b with _ | ⟨c, uc⟩
  · exact .inl ⟨rfl, rfl⟩
  · refine .inr ⟨c, uc, rfl, ?_⟩
    dsimp only
    rw [if_neg (Nat.not_lt.mpr high), if_neg (Nat.ne_of_gt low)]
    exact ⟨rfl, rfl, fun ok => if_pos ok⟩

theorem jsonParse_deep {lvl : Nat} (deep : 500 < lvl) (b : List UInt8) (st : Stats) :
    (jsonParse lvl b st).rv = 0 := by
  rw [jsonParse]
  rcases jsonSkipSpace b with _ | ⟨c, uc⟩
  · rfl
  · exact congrArg Parsed.rv (if_pos deep)

/-- One level on top of a recogniser of `Value lax n`. -/
theorem Wraps.recognises {parse inner : List UInt8 → Stats → Parsed} {n : Nat}
    (wraps : Wraps parse inner) (recognises : Recognises inner (Value lax n)) :
    Recognises parse (Value lax (n + 1)) := by
  refine ⟨?_, ?_, fun v hv => value_starts hv⟩
  · intro b st ok left
    rcases wraps b st with ⟨-, none⟩ | ⟨c, uc, skip, rv, out, -⟩
    · exact absurd none ok
    obtain ⟨w, ws, rfl⟩ := jsonSkipSpace_cons skip
    rw [rv] at ok
    rw [out] at left ⊢
    obtain ⟨w', ws', tail, -⟩ := jsonSkipSpace_split (jsonSwitch inner c uc st).1.uc
    have value : ∃ v, Value lax (n + 1) v ∧ c :: uc = v ++ (jsonSwitch inner c uc st).1.uc := by
      by_cases bracket : Bracket c
      · obtain ⟨-, v, container, -, split⟩ := jsonSwitch_container recognises bracket uc st ok
        exact ⟨v, .inr container, split⟩
      · obtain ⟨-, scalars⟩ := jsonSwitch_scalar bracket uc st ok
        obtain ⟨v, scalar, split⟩ := scalars (fun none => left (by rw [none]; rfl))
        exact ⟨v, .inl scalar, split⟩
    obtain ⟨v, hv, split⟩ := value
    exact ⟨w, v, w', ws, hv, ws', by rw [split, ← tail]⟩
  · intro w v w' d rest st ws hv ws' delimiter
    obtain ⟨c, t, rfl, tight, -⟩ := value_starts hv
    have start : jsonSkipSpace (w ++ (c :: t ++ (w' ++ d :: rest))) =
        c :: (t ++ (w' ++ d :: rest)) := jsonSkipSpace_run ws (tight_cons.mpr tight)
    have skip : jsonSkipSpace (w' ++ d :: rest) = d :: rest :=
      jsonSkipSpace_run ws' (delimiter.tight rest)
    rcases wraps (w ++ (c :: t ++ (w' ++ d :: rest))) st with
      ⟨none, -⟩ | ⟨c', uc, shape, rv, out, -⟩
    · cases start.symm.trans none
    cases start.symm.trans shape
    rw [rv, out]
    rcases hv with scalar | container
    · obtain ⟨_, _, same, run⟩ :=
        @jsonSwitch_scalar_complete inner _ _ scalar (stops_after ws' delimiter rest) st
      cases same
      rw [run]
      exact ⟨Nat.one_ne_zero, skip⟩
    · obtain ⟨_, _, same, -, ok, tail⟩ :=
        jsonSwitch_container_complete recognises container (w' ++ d :: rest) st
      cases same
      rw [tail]
      exact ⟨ok, skip⟩

theorem recognises_none {parse : List UInt8 → Stats → Parsed} (fails : ∀ b st, (parse b st).rv = 0) :
    Recognises parse (Value lax 0) :=
  ⟨fun b st ok => absurd (fails b st) ok, fun _ _ _ _ _ _ _ hv => hv.elim, fun _ hv => hv.elim⟩

/-- The levels left at `lvl` are the nesting that is recognised. -/
theorem recognises_jsonParse (n : Nat) {lvl : Nat} (low : 0 < lvl) (left : (502 - lvl) / 2 = n) :
    Recognises (jsonParse lvl) (Value lax n) := by
  induction n generalizing lvl with
  | zero => exact recognises_none (jsonParse_deep (by omega))
  | succ n ih => exact (jsonParse_inner low (by omega)).recognises (ih (by omega) (by omega))

/-! ## The top level -/

/-- The value at level 0, up to the decision between one text and several. -/
theorem jsonParse_zero (b : List UInt8) (st : Stats) :
    (jsonSkipSpace b = [] ∧ (jsonParse 0 b st).rv = 0) ∨
      ∃ c uc, jsonSkipSpace b = c :: uc ∧
        ((jsonSwitch (jsonParse 2) c uc st).1.rv = 0 ∧ (jsonParse 0 b st).rv = 0 ∨
          (jsonSwitch (jsonParse 2) c uc st).1.rv ≠ 0 ∧
            (jsonParse 0 b st).rv =
              match jsonSkipSpace (jsonSwitch (jsonParse 2) c uc st).1.uc with
              | [] => ((jsonSwitch (jsonParse 2) c uc st).1.st.bump
                  (jsonSwitch (jsonParse 2) c uc st).2).container.toNat
              | d :: u =>
                  if c = d ∧ (jsonParse 1 (d :: u) ((jsonSwitch (jsonParse 2) c uc st).1.st.bump
                        (jsonSwitch (jsonParse 2) c uc st).2)).rv ≠ 0 ∧
                      (jsonParse 1 (d :: u) ((jsonSwitch (jsonParse 2) c uc st).1.st.bump
                        (jsonSwitch (jsonParse 2) c uc st).2)).st.container = true
                  then 2 else 0) := by
  rw [jsonParse]
  rcases skip : jsonSkipSpace b with _ | ⟨c, uc⟩
  · exact .inl ⟨rfl, rfl⟩
  refine .inr ⟨c, uc, rfl, ?_⟩
  dsimp only
  rw [if_neg (by decide), if_pos rfl]
  generalize jsonSwitch (jsonParse (0 + 2)) c uc st = r
  by_cases failed : r.1.rv = 0
  · exact .inl ⟨failed, by rw [if_pos failed]⟩
  refine .inr ⟨failed, ?_⟩
  rw [if_neg failed, if_pos failed]
  rcases jsonSkipSpace r.1.uc with _ | ⟨d, u⟩
  · rfl
  dsimp only
  by_cases same : c = d
  · by_cases second : (jsonParse 1 (d :: u) (r.1.st.bump r.2)).rv ≠ 0
    · by_cases counted : (jsonParse 1 (d :: u) (r.1.st.bump r.2)).st.container = true
      · rw [if_pos same, if_pos second, if_pos counted, if_pos ⟨same, second, counted⟩]
      · rw [if_pos same, if_pos second, if_neg counted, if_neg (fun h => counted h.2.2)]
    · rw [if_pos same, if_neg second, if_neg (fun h => second h.2.1)]
  · rw [if_neg same, if_neg (fun h => same h.1)]

theorem recognises_two : Recognises (jsonParse 2) (Value lax 250) :=
  recognises_jsonParse 250 (by decide) (by decide)

theorem recognises_three : Recognises (jsonParse 3) (Value lax 249) :=
  recognises_jsonParse 249 (by decide) (by decide)

/-- Two containers opened by the same bracket come first; what follows is not looked at. -/
def ContainerPair (b : List UInt8) : Prop :=
  ∃ w v w' v' rest, Ws w ∧ Container lax (Value lax 250) v ∧ Ws w' ∧
    Container lax (Value lax 249) v' ∧ v.head? = v'.head? ∧ b = w ++ (v ++ (w' ++ (v' ++ rest)))

theorem jsonParse_one_container {c : UInt8} (bracket : Bracket c) (uc : List UInt8) (st : Stats)
    (ok : (jsonParse 1 (c :: uc) st).rv ≠ 0) :
    (jsonParse 1 (c :: uc) st).st.container = true ∧
      ∃ v rest, Container lax (Value lax 249) v ∧ v.head? = some c ∧ c :: uc = v ++ rest := by
  have tight : Tight (c :: uc) := by
    rcases bracket with rfl | rfl <;> exact tight_cons.mpr (by decide)
  rcases @jsonParse_inner 1 (by decide) (by decide) (c :: uc) st with ⟨-, none⟩ | ⟨d, u, skip, rv, -, st'⟩
  · exact absurd none ok
  rw [jsonSkipSpace_tight tight] at skip
  cases skip
  rw [st' ok]
  rw [rv] at ok
  obtain ⟨counted, v, container, head, split⟩ :=
    jsonSwitch_container recognises_three bracket uc st ok
  exact ⟨counted, v, _, container, head, split⟩

theorem jsonParse_one_complete {v : List UInt8} (container : Container lax (Value lax 249) v)
    (rest : List UInt8) (st : Stats) : (jsonParse 1 (v ++ rest) st).rv ≠ 0 := by
  obtain ⟨c, t, rfl, bracket, ok, -⟩ :=
    jsonSwitch_container_complete recognises_three container rest st
  have tight : Tight (c :: (t ++ rest)) := by
    rcases bracket with rfl | rfl <;> exact tight_cons.mpr (by decide)
  rcases @jsonParse_inner 1 (by decide) (by decide) (c :: (t ++ rest)) st with
    ⟨none, -⟩ | ⟨d, u, skip, rv, -, -⟩
  · rw [jsonSkipSpace_tight tight] at none
    cases none
  · rw [jsonSkipSpace_tight tight] at skip
    cases skip
    rw [List.cons_append, rv]
    exact ok

/-- Whatever is returned other than 0 comes from a container at the front. -/
theorem jsonParse_sound {b : List UInt8} (ok : (jsonParse 0 b {}).rv ≠ 0) :
    (jsonParse 0 b {}).rv = 1 ∧ ContainerText lax 250 b ∨
      (jsonParse 0 b {}).rv = 2 ∧ ContainerPair b := by
  rcases jsonParse_zero b {} with ⟨-, none⟩ | ⟨c, uc, skip, ⟨-, none⟩ | ⟨first, rv⟩⟩
  · exact absurd none ok
  · exact absurd none ok
  obtain ⟨w, ws, rfl⟩ := jsonSkipSpace_cons skip
  obtain ⟨w', ws', tail, -⟩ := jsonSkipSpace_split (jsonSwitch (jsonParse 2) c uc {}).1.uc
  by_cases bracket : Bracket c
  · obtain ⟨counted, v, container, head, split⟩ :=
      jsonSwitch_container recognises_two bracket uc {} first
    rw [counted] at rv
    rcases left : jsonSkipSpace (jsonSwitch (jsonParse 2) c uc {}).1.uc with _ | ⟨d, u⟩
    · rw [left] at rv tail
      rw [List.append_nil] at tail
      exact .inl ⟨rv, w, v, w', ws, container, ws', by rw [split, tail]⟩
    · rw [left] at rv tail
      dsimp only at rv
      split_ifs at rv with second
      · obtain ⟨rfl, again, -⟩ := second
        obtain ⟨-, v', rest, container', head', split'⟩ := jsonParse_one_container bracket u _ again
        exact .inr ⟨rv, w, v, w', v', rest, ws, container, ws', container', head.trans head'.symm,
          by rw [split, tail, split']⟩
      · exact absurd rv ok
  · -- a scalar counts neither an array nor an object, and a second one with it does not either
    obtain ⟨uncounted, -⟩ := jsonSwitch_scalar bracket uc {} first
    have none : (jsonParse 0 (w ++ c :: uc) {}).rv = 0 := by
      rw [rv]
      rcases jsonSkipSpace (jsonSwitch (jsonParse 2) c uc {}).1.uc with _ | ⟨d, u⟩
      · dsimp only
        rw [uncounted]
        rfl
      · refine if_neg ?_
        rintro ⟨rfl, again, counted⟩
        rcases @jsonParse_inner 1 (by decide) (by decide) (c :: u) _ with
          ⟨-, zero⟩ | ⟨d, t, skip', rv', -, st'⟩
        · exact again zero
        rw [jsonSkipSpace_tight (tight_cons.mpr (jsonSkipSpace_head skip))] at skip'
        cases skip'
        rw [st' again] at counted
        rw [rv'] at again
        obtain ⟨uncounted', -⟩ := jsonSwitch_scalar bracket u _ again
        rw [uncounted', uncounted] at counted
        cases counted
    exact absurd none ok

theorem jsonParse_text {b : List UInt8} (text : ContainerText lax 250 b) : (jsonParse 0 b {}).rv = 1 := by
  obtain ⟨w, v, w', ws, container, ws', rfl⟩ := text
  obtain ⟨c, t, rfl, bracket, ok, left⟩ :=
    jsonSwitch_container_complete recognises_two container w' {}
  have start : jsonSkipSpace (w ++ (c :: t ++ w')) = c :: (t ++ w') := by
    refine jsonSkipSpace_run ws (tight_cons.mpr ?_)
    rcases bracket with rfl | rfl <;> decide
  have blank : jsonSkipSpace w' = [] := by
    rw [← List.append_nil w', jsonSkipSpace_ws ws']
    rfl
  rcases jsonParse_zero (w ++ (c :: t ++ w')) {} with
    ⟨none, -⟩ | ⟨d, uc, skip, ⟨none, -⟩ | ⟨first, rv⟩⟩
  · cases start.symm.trans none
  · cases start.symm.trans skip
    exact absurd none ok
  · cases start.symm.trans skip
    rw [left, blank] at rv
    rw [rv, (jsonSwitch_container recognises_two bracket _ {} first).1]
    rfl

theorem jsonParse_pair {b : List UInt8} (pair : ContainerPair b) : (jsonParse 0 b {}).rv = 2 := by
  obtain ⟨w, v, w', v', rest, ws, container, ws', container', same, rfl⟩ := pair
  obtain ⟨c, t, rfl, bracket, ok, left⟩ :=
    jsonSwitch_container_complete recognises_two container (w' ++ (v' ++ rest)) {}
  have tight : ∀ u, Tight (c :: u) := fun u => by
    rcases bracket with rfl | rfl <;> exact tight_cons.mpr (by decide)
  obtain ⟨u, rfl⟩ := List.head?_eq_some_iff.mp same.symm
  have start : jsonSkipSpace (w ++ (c :: t ++ (w' ++ (c :: u ++ rest)))) =
      c :: (t ++ (w' ++ (c :: u ++ rest))) := jsonSkipSpace_run ws (tight _)
  have second : jsonSkipSpace (w' ++ (c :: u ++ rest)) = c :: u ++ rest :=
    jsonSkipSpace_run ws' (tight _)
  rcases jsonParse_zero (w ++ (c :: t ++ (w' ++ (c :: u ++ rest)))) {} with
    ⟨none, -⟩ | ⟨d, uc, skip, ⟨none, -⟩ | ⟨-, rv⟩⟩
  · cases start.symm.trans none
  · cases start.symm.trans skip
    exact absurd none ok
  · cases start.symm.trans skip
    rw [left, second] at rv
    have again := jsonParse_one_complete container' rest
      ((jsonSwitch (jsonParse 2) c (t ++ (w' ++ (c :: u ++ rest))) {}).1.st.bump
        (jsonSwitch (jsonParse 2) c (t ++ (w' ++ (c :: u ++ rest))) {}).2)
    rw [rv]
    exact if_pos ⟨rfl, again, (jsonParse_one_container bracket _ _ again).1⟩

/-- The documents that get `rv = 1`, and those that get `rv = 2`. -/
theorem jsonParse_accepts (b : List UInt8) :
    ((jsonParse 0 b {}).rv = 1 ↔ ContainerText lax 250 b) ∧
      ((jsonParse 0 b {}).rv = 2 ↔ ContainerPair b) := by
  constructor
  · refine ⟨fun one => ?_, jsonParse_text⟩
    rcases jsonParse_sound (b := b) (by omega) with ⟨-, text⟩ | ⟨two, -⟩
    · exact text
    · omega
  · refine ⟨fun two => ?_, jsonParse_pair⟩
    rcases jsonParse_sound (b := b) (by omega) with ⟨one, -⟩ | ⟨-, pair⟩
    · omega
    · exact pair

end Libmagic.Json
