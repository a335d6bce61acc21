import Libmagic.Json.Cursor
import Libmagic.Json.Routines

/-!
# What the JSON scanner touches

Every routine is followed along the list it works on: it stays inside the buffer, it comes
to its end, and what it leaves is what the list of the remaining bytes leads to.
-/
namespace Libmagic.Json.Cursor

open Run (Policy Meets)

section View

variable (mem : Nat → UInt8) (ue : Nat)

/-- The bytes from `p` up to `ue`. -/
def view (p : Nat) : List UInt8 := (List.range' p (ue - p)).map mem

variable {mem ue} {p : Nat}

theorem view_lt (lt : p < ue) : view mem ue p = mem p :: view mem ue (p + 1) := by
  have count : ue - p = (ue - (p + 1)) + 1 := by omega
  simp only [view, count, List.range'_succ, List.map_cons]

theorem view_end : view mem ue ue = [] := by
  simp only [view, Nat.sub_self, List.range'_zero, List.map_nil]

theorem view_length : (view mem ue p).length = ue - p := by
  simp only [view, List.length_map, List.length_range']

theorem view_drop (n : Nat) (le : p ≤ ue) :
    (view mem ue p).drop n = view mem ue (min (p + n) ue) := by
  induction n generalizing p with
  | zero => rw [List.drop_zero, Nat.add_zero, Nat.min_eq_left le]
  | succ n ih =>
      rcases Nat.lt_or_eq_of_le le with lt | rfl
      · rw [view_lt lt, List.drop_succ_cons, ih lt, Nat.succ_add, Nat.add_succ]
      · rw [view_end, List.drop_nil, Nat.min_eq_right (Nat.le_add_right p _), view_end]

end View

/-- No byte at or behind `ue` is read. A pointer is set past `ue` by at most 4, and then it
is set to `ue` before anything else happens. -/
structure Inside (ue : Nat) (log : List Access) : Prop where
  reads : ∀ p, .read p ∈ log → p < ue
  moves : ∀ before p after, log = before ++ .move p :: after →
    p ≤ ue ∨ (p ≤ ue + 4 ∧ after.head? = some (.move ue))

theorem Inside.append {ue : Nat} {log log' : List Access} (first : Inside ue log)
    (second : Inside ue log') : Inside ue (log ++ log') := by
  constructor
  · intro p hp
    rcases List.mem_append.mp hp with hp | hp
    · exact first.reads p hp
    · exact second.reads p hp
  · intro before p after split
    rcases List.append_eq_append_iff.mp split with ⟨mid, hbefore, hlog'⟩ | ⟨mid, hlog, hmid⟩
    · exact second.moves mid p after hlog'
    · cases mid with
      | nil => exact second.moves [] p after hmid.symm
      | cons m mid =>
          rw [List.cons_append] at hmid
          obtain ⟨rfl, hafter⟩ := List.cons.inj hmid
          apply (first.moves before p mid hlog).imp id
          rintro ⟨near, back⟩
          rw [hafter, List.head?_append, back, Option.some_or]
          exact ⟨near, rfl⟩

def inside (ue : Nat) : Policy Access where
  allows := Inside ue
  nil := ⟨fun _ hp => absurd hp List.not_mem_nil, fun before _ _ split => by simp at split⟩
  append := Inside.append

variable {mem : Nat → UInt8} {ue d : Nat} {α : Type}

theorem inside_read {p : Nat} (lt : p < ue) : (inside ue).allows [.read p] := by
  constructor
  · intro q hq
    obtain rfl : q = p := by simpa using hq
    exact lt
  · intro before q after split
    cases before <;> simp at split

theorem inside_move {p : Nat} (le : p ≤ ue) : (inside ue).allows [.move p] := by
  constructor
  · intro q hq
    simp at hq
  · intro before q after split
    cases before with
    | nil =>
        simp only [List.nil_append, List.cons.injEq, Access.move.injEq] at split
        exact .inl (split.1 ▸ le)
    | cons _ _ => simp at split

/-- The one move past `ue` that is allowed. -/
theorem inside_clamp {p : Nat} (near : p ≤ ue + 4) :
    (inside ue).allows [.move p, .move ue] := by
  constructor
  · intro q hq
    simp at hq
  · intro before q after split
    match before with
    | [] =>
        simp only [List.nil_append, List.cons.injEq, Access.move.injEq] at split
        obtain ⟨rfl, rfl⟩ := split
        exact .inr ⟨near, rfl⟩
    | [_] =>
        simp only [List.cons_append, List.nil_append, List.cons.injEq, Access.move.injEq] at split
        exact .inl (split.2.1 ▸ Nat.le_refl ue)
    | _ :: _ :: before => simp at split

section Rules

variable {p : Nat} {post : α → Prop}

theorem meets_deref {rest : UInt8 → Run Access α} (lt : p < ue)
    (next : Meets (inside ue) d (rest (mem p)) post) :
    Meets (inside ue) d (deref mem p >>= rest) post := by
  have read : Meets (inside ue) d (deref mem p) (fun c => c = mem p) :=
    Meets.event (inside_read lt) rfl
  apply Meets.bind read
  rintro _ rfl
  exact next

theorem meets_setTo {rest : Nat → Run Access α} (le : p ≤ ue)
    (next : Meets (inside ue) d (rest p) post) :
    Meets (inside ue) d (setTo p >>= rest) post := by
  have set : Meets (inside ue) d (setTo p) (fun q => q = p) :=
    Meets.event (inside_move le) rfl
  apply Meets.bind set
  rintro _ rfl
  exact next

end Rules

/-- `q` lies in the buffer, at or behind `p`, with `bytes` from there to the end. -/
structure Reaches (mem : Nat → UInt8) (ue p : Nat) (bytes : List UInt8) (q : Nat) : Prop where
  from_le : p ≤ q
  le_end : q ≤ ue
  bytes_eq : view mem ue q = bytes

theorem Reaches.after {p p' q : Nat} {bytes : List UInt8} (h : Reaches mem ue p' bytes q)
    (le : p ≤ p') : Reaches mem ue p bytes q :=
  ⟨Nat.le_trans le h.from_le, h.le_end, h.bytes_eq⟩

/-- A pointer that stands before a byte. -/
theorem Reaches.lt {p q : Nat} {bytes : List UInt8} (h : Reaches mem ue p bytes q)
    (ne : q ≠ ue) : q < ue :=
  Nat.lt_of_le_of_ne h.le_end ne

theorem Reaches.nil {p : Nat} {bytes : List UInt8} (h : Reaches mem ue p bytes ue) :
    bytes = [] := by
  rw [← h.bytes_eq, view_end]

theorem Reaches.cons {p q : Nat} {bytes : List UInt8} (h : Reaches mem ue p bytes q)
    (ne : q ≠ ue) : bytes = mem q :: view mem ue (q + 1) := by
  rw [← h.bytes_eq, view_lt (h.lt ne)]

/-- A loop that goes forward in the buffer, and that does not change what the bytes ahead
lead to. -/
theorem meets_scan {σ : Type} {step : σ → Run Access (σ ⊕ α)} (pos : σ → Nat) {leads : σ → Prop}
    {post : α → Prop} {p : Nat}
    (hstep : ∀ s, p ≤ pos s → pos s ≤ ue → leads s →
      Meets (inside ue) d (step s)
        (Sum.elim (fun s' => pos s' ≤ ue ∧ pos s < pos s' ∧ leads s') post))
    {s : σ} (from_le : p ≤ pos s) (le : pos s ≤ ue) (start : leads s) :
    Meets (inside ue) d (.loop step (ue - pos s + 1) s) post := by
  let inv (s : σ) : Prop := p ≤ pos s ∧ pos s ≤ ue ∧ leads s
  have round : ∀ s, inv s → Meets (inside ue) d (step s)
      (Sum.elim (fun s' => inv s' ∧ ue - pos s' < ue - pos s) post) := by
    rintro s ⟨from_le, le, hs⟩
    apply (hstep s from_le le hs).mono (Nat.le_refl d)
    rintro (s' | a) h
    · obtain ⟨le', lt, hs'⟩ := h
      exact ⟨⟨by omega, le', hs'⟩, by omega⟩
    · exact h
  exact Meets.loop round _ s ⟨from_le, le, start⟩ (Nat.lt_succ_self _)

theorem Reaches.ne_nil {p q : Nat} {bytes : List UInt8} (h : Reaches mem ue p bytes q)
    (ne : q ≠ ue) : bytes ≠ [] := by
  rw [h.cons ne]
  exact List.cons_ne_nil _ _

section Scanning

variable {p uc : Nat}

theorem skipSpaceStep_meets {bytes : List UInt8} (from_le : p ≤ uc) (le : uc ≤ ue)
    (leads : Json.jsonSkipSpace (view mem ue uc) = bytes) :
    Meets (inside ue) d (skipSpaceStep mem ue uc)
      (Sum.elim (fun q => q ≤ ue ∧ uc < q ∧ Json.jsonSkipSpace (view mem ue q) = bytes)
        (Reaches mem ue p bytes)) := by
  unfold skipSpaceStep
  split
  · rename_i lt
    rw [view_lt lt, Json.jsonSkipSpace] at leads
    apply meets_deref lt
    split
    · rename_i space
      apply meets_setTo lt
      apply Meets.pure
      rw [if_pos space] at leads
      exact ⟨lt, Nat.lt_succ_self uc, leads⟩
    · rename_i other
      apply Meets.pure
      rw [if_neg other, ← view_lt lt] at leads
      exact ⟨from_le, le, leads⟩
  · rename_i ge
    obtain rfl : uc = ue := by omega
    apply Meets.pure
    rw [view_end, Json.jsonSkipSpace] at leads
    exact ⟨from_le, le, view_end.trans leads⟩

theorem jsonSkipSpace_meets (le : uc ≤ ue) :
    Meets (inside ue) (d + 1) (jsonSkipSpace mem ue uc)
      (Reaches mem ue uc (Json.jsonSkipSpace (view mem ue uc))) := by
  apply Meets.call
  exact meets_scan id (fun _ from_le le leads => skipSpaceStep_meets from_le le leads)
    (Nat.le_refl uc) le rfl

/-- A flag and a pointer, as a routine on the list leaves them. -/
def Leaves (mem : Nat → UInt8) (ue p : Nat) (left : Bool × List UInt8) (r : Bool × Nat) : Prop :=
  r.1 = left.1 ∧ Reaches mem ue p left.2 r.2

/-- The rounds of `hexDigits`, on the list. -/
def hexRest : Nat → List UInt8 → Bool × List UInt8
  | 0, uc => (true, uc)
  | _ + 1, [] => (false, [])
  | rounds + 1, c :: uc => if jsonIsxdigit c then hexRest rounds uc else (false, uc)

theorem hexDigits_meets (rounds : Nat) (room : uc + rounds ≤ ue) :
    Meets (inside ue) d (hexDigits mem rounds uc)
      (Leaves mem ue uc (hexRest rounds (view mem ue uc))) := by
  induction rounds generalizing uc with
  | zero => exact Meets.pure ⟨rfl, Nat.le_refl uc, room, rfl⟩
  | succ rounds ih =>
      have lt : uc < ue := by omega
      rw [view_lt lt, hexRest, hexDigits]
      apply meets_deref lt
      apply meets_setTo lt
      split
      · apply (ih (by omega)).mono (Nat.le_refl d)
        intro r left
        exact ⟨left.1, left.2.after (Nat.le_succ uc)⟩
      · exact Meets.pure ⟨rfl, Nat.le_succ uc, lt, rfl⟩

theorem jsonParseString_hex (uc : List UInt8) (room : 4 ≤ uc.length) :
    Json.jsonParseString (0x5c :: 0x75 :: uc) =
      if (hexRest 4 uc).1 then Json.jsonParseString (hexRest 4 uc).2
      else (false, (hexRest 4 uc).2) := by
  match uc, room with
  | x1 :: x2 :: x3 :: x4 :: uc, _ =>
      simp only [Json.jsonParseString, hexRest]
      grind [jsonEscape]

theorem stringStep_meets {left : Bool × List UInt8} (from_le : p ≤ uc) (le : uc ≤ ue)
    (leads : Json.jsonParseString (view mem ue uc) = left) :
    Meets (inside ue) d (stringStep mem ue uc)
      (Sum.elim (fun q => q ≤ ue ∧ uc < q ∧ Json.jsonParseString (view mem ue q) = left)
        (Leaves mem ue p left)) := by
  -- the last byte read, or the end of the buffer, decides where the string goes on
  have stop : ∀ {q : Nat} {rv : Bool}, uc ≤ q → q ≤ ue → (rv, view mem ue q) = left →
      Meets (inside ue) d (pure (.inr (rv, q)) : Run Access (Nat ⊕ Bool × Nat))
        (Sum.elim (fun q => q ≤ ue ∧ uc < q ∧ Json.jsonParseString (view mem ue q) = left)
          (Leaves mem ue p left)) := by
    rintro q rv hq hue rfl
    exact Meets.pure ⟨rfl, Nat.le_trans from_le hq, hue, rfl⟩
  unfold stringStep
  split
  · rename_i lt
    rw [view_lt lt] at leads
    have whole := leads
    rw [Json.jsonParseString.eq_def] at leads
    apply meets_deref lt
    apply meets_setTo lt
    split
    · rename_i zero
      exact stop (Nat.le_succ uc) lt ((if_pos zero).symm.trans leads)
    rename_i nonzero
    split
    · rename_i backslash
      simp only [if_neg nonzero, if_pos backslash] at leads
      split
      · rename_i last
        rw [Nat.succ_eq_add_one] at last
        simp only [last, view_end] at leads
        exact stop (Nat.le_succ uc) lt (by rw [Nat.succ_eq_add_one, last, view_end, leads])
      rename_i more
      have lt' : uc + 1 < ue := Nat.lt_of_le_of_ne lt more
      simp only [view_lt lt'] at leads
      apply meets_deref lt'
      apply meets_setTo lt'
      split
      · rename_i zero
        exact stop (by omega) lt' ((if_pos zero).symm.trans leads)
      rename_i nonzero'
      rw [if_neg nonzero'] at leads
      split
      · rename_i escape
        rw [if_pos escape] at leads
        exact Meets.pure ⟨lt', by omega, leads⟩
      rename_i other
      rw [if_neg other] at leads
      split
      · rename_i unicode
        rw [if_pos unicode] at leads
        split
        · rename_i short
          apply meets_setTo (Nat.le_refl ue)
          apply stop le (Nat.le_refl ue)
          rw [view_end, ← leads]
          split
          · rename_i split
            have four := congrArg List.length split
            simp only [view_length, List.length_cons] at four
            omega
          · rfl
        · rename_i room
          have four : 4 ≤ (view mem ue (uc + 1 + 1)).length := by rw [view_length]; omega
          rw [backslash, view_lt lt', unicode, jsonParseString_hex _ four] at whole
          apply Meets.bind (hexDigits_meets 4 (by omega))
          rintro r ⟨flag, from_le', le', bytes⟩
          rw [← flag, ← bytes] at whole
          split
          · rename_i all
            exact Meets.pure ⟨le', by omega, (if_pos all).symm.trans whole⟩
          · rename_i bad
            exact stop (by omega) le' ((if_neg bad).symm.trans whole)
      · rename_i unknown
        exact stop (by omega) lt' ((if_neg unknown).symm.trans leads)
    rename_i plain
    simp only [if_neg nonzero, if_neg plain] at leads
    split
    · rename_i quote
      exact stop (Nat.le_succ uc) lt ((if_pos quote).symm.trans leads)
    · rename_i char
      exact Meets.pure ⟨lt, Nat.lt_succ_self uc, (if_neg char).symm.trans leads⟩
  · rename_i ge
    obtain rfl : uc = ue := by omega
    rw [view_end, Json.jsonParseString] at leads
    exact stop (Nat.le_refl uc) le (by rw [view_end, leads])

theorem meets_leave {r : Run Access (Bool × Nat)} {left : Bool × List UInt8}
    (h : Meets (inside ue) d r (Leaves mem ue p left)) :
    Meets (inside ue) d (do let r ← r; let uc ← setTo r.2; pure (r.1, uc))
      (Leaves mem ue p left) := by
  apply Meets.bind h
  intro r hr
  apply meets_setTo hr.2.le_end
  exact Meets.pure hr

theorem jsonParseString_meets (le : uc ≤ ue) :
    Meets (inside ue) (d + 1) (jsonParseString mem ue uc)
      (Leaves mem ue uc (Json.jsonParseString (view mem ue uc))) := by
  apply Meets.call
  apply meets_leave
  exact meets_scan id (fun _ from_le le leads => stringStep_meets from_le le leads)
    (Nat.le_refl uc) le rfl

theorem digitsStep_meets {got : Bool} {left : Bool × List UInt8} (from_le : p ≤ uc) (le : uc ≤ ue)
    (leads : Json.jsonDigits got (view mem ue uc) = left) :
    Meets (inside ue) d (digitsStep mem ue (got, uc))
      (Sum.elim (fun s => s.2 ≤ ue ∧ uc < s.2 ∧ Json.jsonDigits s.1 (view mem ue s.2) = left)
        (Leaves mem ue p left)) := by
  unfold digitsStep
  split
  · rename_i lt
    rw [view_lt lt, Json.jsonDigits] at leads
    apply meets_deref lt
    split
    · rename_i digit
      apply meets_setTo lt
      exact Meets.pure ⟨lt, Nat.lt_succ_self uc, (if_pos digit).symm.trans leads⟩
    · rename_i other
      rw [if_neg other, ← view_lt lt] at leads
      subst leads
      exact Meets.pure ⟨rfl, from_le, le, rfl⟩
  · rename_i ge
    obtain rfl : uc = ue := Nat.le_antisymm le (Nat.not_lt.mp ge)
    rw [view_end, Json.jsonDigits] at leads
    subst leads
    exact Meets.pure ⟨rfl, from_le, le, view_end⟩

theorem digits_meets (got : Bool) (from_le : p ≤ uc) (le : uc ≤ ue) :
    Meets (inside ue) d (digits mem ue got uc)
      (Leaves mem ue p (Json.jsonDigits got (view mem ue uc))) := by
  let left := Json.jsonDigits got (view mem ue uc)
  have round : ∀ s : Bool × Nat, p ≤ s.2 → s.2 ≤ ue → Json.jsonDigits s.1 (view mem ue s.2) = left →
      Meets (inside ue) d (digitsStep mem ue s)
        (Sum.elim (fun s' => s'.2 ≤ ue ∧ s.2 < s'.2 ∧ Json.jsonDigits s'.1 (view mem ue s'.2) = left)
          (Leaves mem ue p left)) :=
    fun _ from_le le leads => digitsStep_meets from_le le leads
  exact meets_scan Prod.snd round from_le le rfl

theorem skipChar_meets (c : UInt8) (lt : uc < ue) :
    Meets (inside ue) d (skipChar mem c uc)
      (Reaches mem ue uc (Json.jsonSkipChar c (view mem ue uc))) := by
  unfold skipChar Json.jsonSkipChar
  rw [view_lt lt, List.head?_cons, List.tail_cons]
  apply meets_deref lt
  split
  · rename_i same
    rw [if_pos (congrArg some same)]
    exact Meets.event (inside_move lt) ⟨Nat.le_succ uc, lt, rfl⟩
  · rename_i other
    rw [if_neg (fun same => other (Option.some.inj same)), ← view_lt lt]
    exact Meets.pure ⟨Nat.le_refl uc, Nat.le_of_lt lt, rfl⟩

theorem exponent_meets (from_le : p ≤ uc) (le : uc ≤ ue) :
    Meets (inside ue) d (exponent mem ue uc)
      (Leaves mem ue p (Json.jsonExponent (view mem ue uc))) := by
  unfold exponent Json.jsonExponent
  split
  · rename_i last
    subst last
    rw [if_pos view_end]
    exact Meets.pure ⟨rfl, from_le, le, rfl⟩
  · rename_i more
    have lt : uc < ue := Nat.lt_of_le_of_ne le more
    rw [view_lt lt, if_neg (List.cons_ne_nil _ _), List.head?_cons, List.tail_cons]
    simp only [Option.some.injEq]
    apply meets_deref lt
    split
    · apply meets_setTo lt
      exact digits_meets false (Nat.le_succ_of_le from_le) lt
    · rw [← view_lt lt]
      exact digits_meets false from_le le

theorem numberBody_meets (lt : uc < ue) :
    Meets (inside ue) d (numberBody mem ue uc)
      (Leaves mem ue uc (Json.jsonParseNumber (view mem ue uc))) := by
  have nonempty : view mem ue uc ≠ [] := by
    rw [view_lt lt]
    exact List.cons_ne_nil _ _
  unfold numberBody Json.jsonParseNumber
  rw [if_neg nonempty]
  apply Meets.bind (skipChar_meets 0x2d lt)
  intro signed hsigned
  rw [← hsigned.bytes_eq]
  apply Meets.bind (digits_meets false hsigned.from_le hsigned.le_end)
  rintro ⟨got, q⟩ ⟨flag, hq⟩
  dsimp only at flag hq ⊢
  split
  · rename_i last
    subst last
    rw [if_pos hq.nil]
    exact Meets.pure ⟨flag, hq⟩
  rename_i more
  rw [if_neg (hq.ne_nil more), ← flag, ← hq.bytes_eq]
  apply Meets.bind (skipChar_meets 0x2e (hq.lt more))
  intro point hpoint
  rw [← hpoint.bytes_eq]
  apply Meets.bind (digits_meets got (Nat.le_trans hq.from_le hpoint.from_le) hpoint.le_end)
  rintro ⟨got', q'⟩ ⟨flag', hq'⟩
  dsimp only at flag' hq' ⊢
  split
  · rename_i last
    subst last
    rw [if_pos hq'.nil]
    exact Meets.pure ⟨flag', hq'⟩
  rename_i more'
  rw [if_neg (hq'.ne_nil more')]
  by_cases digit : got' = true
  · rw [if_pos digit]
    apply meets_deref (hq'.lt more')
    have letter : (Json.jsonDigits got (view mem ue point)).1 = true := flag'.symm.trans digit
    by_cases e : mem q' = 0x65 ∨ mem q' = 0x45
    · rw [if_pos e, if_pos ⟨letter, by simpa [hq'.cons more'] using e⟩]
      apply meets_setTo (hq'.lt more')
      rw [hq'.cons more', List.tail_cons]
      exact exponent_meets (Nat.le_succ_of_le hq'.from_le) (hq'.lt more')
    · rw [if_neg e, if_neg (fun h => e (by simpa [hq'.cons more'] using h.2))]
      exact Meets.pure ⟨flag', hq'⟩
  · rw [if_neg digit, if_neg (fun h => digit (flag'.trans h.1))]
    exact Meets.pure ⟨flag', hq'⟩

theorem jsonParseNumber_meets (le : uc ≤ ue) :
    Meets (inside ue) (d + 1) (jsonParseNumber mem ue uc)
      (Leaves mem ue uc (Json.jsonParseNumber (view mem ue uc))) := by
  apply Meets.call
  split
  · rename_i last
    subst last
    rw [Json.jsonParseNumber, if_pos view_end]
    exact Meets.pure ⟨rfl, Nat.le_refl uc, le, rfl⟩
  · rename_i more
    exact meets_leave (numberBody_meets (Nat.lt_of_le_of_ne le more))

theorem constLoop_meets (str : List UInt8) (le : uc ≤ ue) :
    Meets (inside ue) d (constLoop mem ue str uc)
      (fun rv => rv = Json.jsonConstLoop str (view mem ue uc)) := by
  induction str generalizing uc with
  | nil =>
      rw [constLoop, Json.jsonConstLoop]
      · exact Meets.pure rfl
      · intro s str c uc h
        cases h
  | cons s str ih =>
      rw [constLoop]
      split
      · rename_i lt
        rw [view_lt lt, Json.jsonConstLoop]
        apply meets_deref lt
        apply meets_setTo lt
        split
        · exact Meets.pure rfl
        · exact ih lt
      · rename_i ge
        obtain rfl : uc = ue := Nat.le_antisymm le (Nat.not_lt.mp ge)
        rw [view_end, Json.jsonConstLoop]
        · exact Meets.pure rfl
        · intro s str c uc _ h
          cases h

/-- `*ucp += n; if (*ucp > ue) *ucp = ue`. -/
theorem meets_clamp {n : Nat} {rest : Nat → Run Access α} {post : α → Prop} (short : n ≤ 4)
    (le : uc ≤ ue)
    (next : ∀ q, Reaches mem ue uc ((view mem ue uc).drop n) q → Meets (inside ue) d (rest q) post) :
    Meets (inside ue) d
      (setTo (uc + n) >>= fun moved => clamp ue moved >>= rest) post := by
  rw [view_drop n le] at next
  by_cases past : uc + n > ue
  · rw [Nat.min_eq_right (Nat.le_of_lt past)] at next
    have after := next ue ⟨le, Nat.le_refl ue, rfl⟩
    rw [setTo, Run.event_bind, clamp, if_pos past, setTo, Run.event_bind]
    constructor
    · exact (inside ue).append (inside_clamp (by omega)) after.allowed
    · exact after.depth_le
    · exact after.value_post
  · rw [Nat.min_eq_left (Nat.not_lt.mp past)] at next
    apply meets_setTo (Nat.not_lt.mp past)
    rw [clamp, if_neg past]
    exact Meets.bind (Meets.pure rfl) (fun q hq =>
      next q ⟨hq ▸ Nat.le_add_right uc n, hq ▸ Nat.not_lt.mp past, by rw [hq]⟩)

theorem jsonParseConst_meets (str : List UInt8) (short : str.length ≤ 5) (le : uc ≤ ue) :
    Meets (inside ue) (d + 1) (jsonParseConst mem ue str uc)
      (Leaves mem ue uc (Json.jsonParseConst str (view mem ue uc))) := by
  apply Meets.call
  apply meets_clamp (by omega) le
  intro q hq
  apply Meets.bind (constLoop_meets str.tail le)
  intro rv hrv
  exact Meets.pure ⟨hrv, hq⟩

end Scanning

section Containers

variable {value : Nat → Stats → Run Access Left} {listValue : List UInt8 → Stats → Parsed}

/-- What a routine with counters leaves, as the one on the list does. -/
def LeavesAs (mem : Nat → UInt8) (ue p : Nat) (left : Parsed) (r : Left) : Prop :=
  r.rv = left.rv ∧ r.st = left.st ∧ Reaches mem ue p left.uc r.uc

/-- The pointer routine stays inside the buffer and follows the one on the list. -/
def Follows (mem : Nat → UInt8) (ue d : Nat) (value : Nat → Stats → Run Access Left)
    (listValue : List UInt8 → Stats → Parsed) : Prop :=
  ∀ uc st, uc ≤ ue →
    Meets (inside ue) d (value uc st) (LeavesAs mem ue uc (listValue (view mem ue uc) st))

/-- How a round may end: with the state for the next one, or with what the routine
leaves. -/
abbrev RoundEnds (mem : Nat → UInt8) (ue uc : Nat) (rounds : List UInt8 → Stats → Parsed)
    (left : Parsed) : (Nat × Stats) ⊕ Left → Prop :=
  Sum.elim (fun s => s.1 ≤ ue ∧ uc < s.1 ∧ left = rounds (view mem ue s.1) s.2)
    (LeavesAs mem ue uc left)

/-- One round of a container's loop against one round of the loop on the list. -/
def RoundFollows (mem : Nat → UInt8) (ue d : Nat)
    (step : Nat × Stats → Run Access ((Nat × Stats) ⊕ Left))
    (rounds : Nat → List UInt8 → Stats → Parsed) : Prop :=
  ∀ k uc st, uc ≤ ue →
    Meets (inside ue) d (step (uc, st))
      (RoundEnds mem ue uc (rounds k) (rounds (k + 1) (view mem ue uc) st))

theorem meets_leaveAs {p : Nat} {r : Run Access Left} {left : Parsed}
    (h : Meets (inside ue) d r (LeavesAs mem ue p left)) :
    Meets (inside ue) d (do let r ← r; let uc ← setTo r.uc; pure { r with uc := uc })
      (LeavesAs mem ue p left) := by
  apply Meets.bind h
  intro r hr
  apply meets_setTo hr.2.2.le_end
  exact Meets.pure hr

theorem RoundFollows.loop {step : Nat × Stats → Run Access ((Nat × Stats) ⊕ Left)}
    {rounds : Nat → List UInt8 → Stats → Parsed} (follows : RoundFollows mem ue d step rounds)
    (base : ∀ st, rounds 0 [] st = rounds 1 [] st) {uc : Nat} (le : uc ≤ ue) (st : Stats) :
    Meets (inside ue) d (.loop step (ue - uc + 1) (uc, st))
      (LeavesAs mem ue uc (rounds (ue - uc) (view mem ue uc) st)) := by
  let left := rounds (ue - uc) (view mem ue uc) st
  let leads (s : Nat × Stats) : Prop :=
    ∃ k, ue - s.1 ≤ k ∧ rounds k (view mem ue s.1) s.2 = left
  have round : ∀ s : Nat × Stats, uc ≤ s.1 → s.1 ≤ ue → leads s →
      Meets (inside ue) d (step s)
        (Sum.elim (fun s' => s'.1 ≤ ue ∧ s.1 < s'.1 ∧ leads s') (LeavesAs mem ue uc left)) := by
    rintro ⟨q, st⟩ from_le le ⟨k, enough, same⟩
    dsimp only at from_le le enough same
    cases k with
    | zero =>
        -- no byte is left, so the loop is not entered
        obtain rfl : q = ue := by omega
        apply (follows 0 q st le).mono (Nat.le_refl d)
        rintro (s | r) h
        · have := h.1
          have := h.2.1
          omega
        · rw [view_end, base] at same
          rw [RoundEnds, Sum.elim_inr, view_end, same] at h
          exact ⟨h.1, h.2.1, h.2.2.after from_le⟩
    | succ k =>
        apply (follows k q st le).mono (Nat.le_refl d)
        rintro (s | r) h
        · exact ⟨h.1, h.2.1, k, by have := h.2.1; omega, h.2.2.symm.trans same⟩
        · rw [RoundEnds, Sum.elim_inr, same] at h
          exact ⟨h.1, h.2.1, h.2.2.after from_le⟩
  exact meets_scan Prod.fst round (Nat.le_refl uc) le ⟨ue - uc, Nat.le_refl _, rfl⟩

theorem arrayStep_follows (follows : Follows mem ue (d + 1) value listValue) :
    RoundFollows mem ue (d + 1) (arrayStep mem ue value) (Json.jsonParseArray listValue) := by
  intro k uc st le
  rw [jsonParseArray_succ]
  unfold arrayStep
  split
  · apply Meets.bind (jsonSkipSpace_meets le)
    intro q hq
    rw [← hq.bytes_eq]
    apply meets_setTo hq.le_end
    split
    · rename_i last
      subst last
      rw [view_end]
      exact Meets.pure ⟨rfl, rfl, hq.from_le, hq.le_end, view_end⟩
    rename_i more
    have lt := hq.lt more
    rw [view_lt lt]
    apply meets_deref lt
    dsimp only
    split
    · exact Meets.pure ⟨rfl, rfl, Nat.le_succ_of_le hq.from_le, lt, rfl⟩
    rw [← view_lt lt]
    apply Meets.bind (follows q st hq.le_end)
    rintro r ⟨hrv, hst, hr⟩
    rw [← hrv, ← hst, ← hr.bytes_eq]
    have onward := hr.after hq.from_le
    split
    · exact Meets.pure ⟨rfl, rfl, onward.from_le, onward.le_end, rfl⟩
    split
    · rename_i last
      rw [last, view_end]
      exact Meets.pure ⟨rfl, rfl, le, Nat.le_refl ue, view_end⟩
    rename_i more'
    have lt' := hr.lt more'
    rw [view_lt lt']
    apply meets_deref lt'
    dsimp only
    split
    · apply meets_setTo lt'
      exact Meets.pure ⟨lt', Nat.lt_succ_of_le onward.from_le, rfl⟩
    split
    · exact Meets.pure ⟨rfl, rfl, Nat.le_succ_of_le onward.from_le, lt', rfl⟩
    · rw [← view_lt lt']
      exact Meets.pure ⟨rfl, rfl, onward.from_le, onward.le_end, rfl⟩
  · rename_i ge
    obtain rfl : uc = ue := Nat.le_antisymm le (Nat.not_lt.mp ge)
    rw [view_end]
    exact Meets.pure ⟨rfl, rfl, le, le, view_end⟩

/-- What is left of a round of `json_parse_object` on the list, behind a value. -/
def moreOnList (listValue : List UInt8 → Stats → Parsed) (k : Nat) (st : Stats) :
    List UInt8 → Parsed
  | [] => ⟨0, [], st⟩
  | d :: rest =>
      if d = 0x2c then Json.jsonParseObject listValue k rest st
      else if d = 0x7d then ⟨1, rest, st⟩
      else ⟨0, rest, st⟩

/-- What is left of it behind the key. -/
def fieldOnList (listValue : List UInt8 → Stats → Parsed) (k : Nat) (st : Stats)
    (key : List UInt8) : Parsed :=
  match Json.jsonSkipSpace key with
  | [] => ⟨0, [], st⟩
  | c :: uc =>
      if c ≠ 0x3a then ⟨0, uc, st⟩
      else if (listValue uc st).rv = 0 then ⟨0, (listValue uc st).uc, (listValue uc st).st⟩
      else moreOnList listValue k (listValue uc st).st (listValue uc st).uc

theorem objectMore_meets (k : Nat) {uc : Nat} {r : Left} (from_le : uc ≤ r.uc) (le : r.uc ≤ ue) :
    Meets (inside ue) d (objectMore mem ue r)
      (RoundEnds mem ue uc (Json.jsonParseObject listValue k)
        (moreOnList listValue k r.st (view mem ue r.uc))) := by
  unfold objectMore
  split
  · rename_i last
    rw [last, view_end]
    exact Meets.pure ⟨rfl, rfl, last ▸ from_le, Nat.le_refl ue, view_end⟩
  rename_i more
  have lt : r.uc < ue := Nat.lt_of_le_of_ne le more
  rw [view_lt lt, moreOnList]
  apply meets_deref lt
  apply meets_setTo lt
  split
  · exact Meets.pure ⟨lt, Nat.lt_succ_of_le from_le, rfl⟩
  split
  · exact Meets.pure ⟨rfl, rfl, Nat.le_succ_of_le from_le, lt, rfl⟩
  · apply meets_setTo (Nat.le_trans (Nat.sub_le _ _) lt)
    exact Meets.pure ⟨rfl, rfl, Nat.le_succ_of_le from_le, lt, rfl⟩

theorem objectField_meets (follows : Follows mem ue (d + 1) value listValue) (k : Nat)
    {uc key : Nat} (st : Stats) (from_le : uc ≤ key) (le : key ≤ ue) :
    Meets (inside ue) (d + 1) (objectField mem ue value key st)
      (RoundEnds mem ue uc (Json.jsonParseObject listValue k)
        (fieldOnList listValue k st (view mem ue key))) := by
  unfold objectField fieldOnList
  apply Meets.bind (jsonSkipSpace_meets le)
  intro colon hcolon
  rw [← hcolon.bytes_eq]
  have onward := hcolon.after from_le
  apply meets_setTo hcolon.le_end
  split
  · rename_i last
    subst last
    rw [view_end]
    exact Meets.pure ⟨rfl, rfl, onward.from_le, onward.le_end, view_end⟩
  rename_i more
  have lt := hcolon.lt more
  rw [view_lt lt]
  apply meets_deref lt
  apply meets_setTo lt
  dsimp only
  split
  · exact Meets.pure ⟨rfl, rfl, Nat.le_succ_of_le onward.from_le, lt, rfl⟩
  apply Meets.bind (follows (colon + 1) st lt)
  rintro r ⟨hrv, hst, hr⟩
  rw [← hrv, ← hst, ← hr.bytes_eq]
  have parsed := hr.after (Nat.le_succ_of_le onward.from_le)
  split
  · exact Meets.pure ⟨rfl, rfl, parsed.from_le, parsed.le_end, rfl⟩
  · exact objectMore_meets k parsed.from_le parsed.le_end

theorem objectStep_follows (follows : Follows mem ue (d + 1) value listValue) :
    RoundFollows mem ue (d + 1) (objectStep mem ue value) (Json.jsonParseObject listValue) := by
  intro k uc st le
  rw [jsonParseObject_succ]
  unfold objectStep
  split
  · apply Meets.bind (jsonSkipSpace_meets le)
    intro q hq
    rw [← hq.bytes_eq]
    apply meets_setTo hq.le_end
    split
    · rename_i last
      subst last
      rw [view_end]
      exact Meets.pure ⟨rfl, rfl, hq.from_le, hq.le_end, view_end⟩
    rename_i more
    have lt := hq.lt more
    have behind : uc ≤ q + 1 := Nat.le_succ_of_le hq.from_le
    rw [view_lt lt]
    apply meets_deref lt
    apply meets_setTo lt
    dsimp only
    split
    · exact Meets.pure ⟨rfl, rfl, behind, lt, rfl⟩
    split
    · exact Meets.pure ⟨rfl, rfl, behind, lt, rfl⟩
    apply Meets.bind (jsonParseString_meets lt)
    rintro ⟨rv, key⟩ ⟨hrv, hkey⟩
    dsimp only at hrv hkey ⊢
    rw [← hrv, ← hkey.bytes_eq]
    have named := hkey.after behind
    split
    · exact Meets.pure ⟨rfl, rfl, named.from_le, named.le_end, rfl⟩
    · exact objectField_meets follows k st named.from_le named.le_end
  · rename_i ge
    obtain rfl : uc = ue := Nat.le_antisymm le (Nat.not_lt.mp ge)
    rw [view_end]
    exact Meets.pure ⟨rfl, rfl, le, le, view_end⟩

theorem jsonParseArray_follows (follows : Follows mem ue (d + 1) value listValue) :
    Follows mem ue (d + 2) (jsonParseArray mem ue value)
      (fun uc st => Json.jsonParseArray listValue uc.length uc st) := by
  intro uc st le
  dsimp only
  rw [view_length]
  apply Meets.call
  apply meets_leaveAs
  exact (arrayStep_follows follows).loop (fun _ => rfl) le st

theorem jsonParseObject_follows (follows : Follows mem ue (d + 1) value listValue) :
    Follows mem ue (d + 2) (jsonParseObject mem ue value)
      (fun uc st => Json.jsonParseObject listValue uc.length uc st) := by
  intro uc st le
  dsimp only
  rw [view_length]
  apply Meets.call
  apply meets_leaveAs
  exact (objectStep_follows follows).loop (fun _ => rfl) le st

theorem LeavesAs.after {p p' : Nat} {left : Parsed} {r : Left} (h : LeavesAs mem ue p' left r)
    (le : p ≤ p') : LeavesAs mem ue p left r :=
  ⟨h.1, h.2.1, h.2.2.after le⟩

/-- What the `switch` yields at the byte before `uc`, as the one on the list does. -/
def Switched (mem : Nat → UInt8) (ue uc : Nat) (left : Parsed × Kind) (r : Left × Kind) : Prop :=
  r.2 = left.2 ∧ LeavesAs mem ue uc left.1 r.1

theorem meets_scalar {p uc : Nat} {r : Run Access (Bool × Nat)} {left : Bool × List UInt8}
    {t : Kind} (st : Stats) (le : p ≤ uc) (h : Meets (inside ue) d r (Leaves mem ue uc left)) :
    Meets (inside ue) d (do let r ← r; pure (Left.of r st, t))
      (Switched mem ue p (.of left st, t)) := by
  apply Meets.bind h
  rintro ⟨rv, q⟩ ⟨hrv, hq⟩
  exact Meets.pure ⟨rfl, congrArg Bool.toNat hrv, rfl, hq.after le⟩

theorem meets_container {p uc : Nat} {r : Run Access Left} {left : Parsed} {t : Kind}
    (le : p ≤ uc) (h : Meets (inside ue) d r (LeavesAs mem ue uc left)) :
    Meets (inside ue) d (do let r ← r; pure (r, t)) (Switched mem ue p (left, t)) := by
  apply Meets.bind h
  intro r hr
  exact Meets.pure ⟨rfl, hr.after le⟩

theorem jsonSwitch_meets (follows : Follows mem ue (d + 1) value listValue) {uc : Nat}
    (lt : uc < ue) (st : Stats) :
    Meets (inside ue) (d + 2) (jsonSwitch mem ue value (mem uc) (uc + 1) st)
      (Switched mem ue uc (Json.jsonSwitch listValue (mem uc) (view mem ue (uc + 1)) st)) := by
  have behind : uc ≤ uc + 1 := Nat.le_succ uc
  unfold jsonSwitch Json.jsonSwitch
  split
  · exact meets_scalar st behind (jsonParseString_meets lt)
  split
  · exact meets_container behind (jsonParseArray_follows follows (uc + 1) st lt)
  split
  · exact meets_container behind (jsonParseObject_follows follows (uc + 1) st lt)
  split
  · exact meets_scalar st behind (jsonParseConst_meets _ (by decide) lt)
  split
  · exact meets_scalar st behind (jsonParseConst_meets _ (by decide) lt)
  split
  · exact meets_scalar st behind (jsonParseConst_meets _ (by decide) lt)
  · rw [Nat.add_sub_cancel, ← view_lt lt]
    apply meets_setTo (Nat.le_of_lt lt)
    exact meets_scalar st (Nat.le_refl uc) (jsonParseNumber_meets (Nat.le_of_lt lt))

/-- The end of `json_parse` at level 0 on the list. -/
def topOnList (second : List UInt8 → Stats → Parsed) (rv : Nat) (c : UInt8) (uc : List UInt8)
    (st : Stats) : Parsed :=
  if rv = 0 then ⟨0, uc, st⟩
  else match uc with
    | [] => ⟨st.container.toNat, [], st⟩
    | d :: _ =>
        if c = d then
          if (second uc st).rv ≠ 0 then
            ⟨if (second uc st).st.container then 2 else 0, uc, (second uc st).st⟩
          else ⟨0, uc, (second uc st).st⟩
        else ⟨0, uc, st⟩

theorem jsonTop_meets (follows : Follows mem ue d value listValue) (rv : Nat) {p ouc uc : Nat}
    (st : Stats) (first : ouc < ue) (from_le : p ≤ uc) (le : uc ≤ ue) :
    Meets (inside ue) d (jsonTop mem ue value rv ouc uc st)
      (LeavesAs mem ue p (topOnList listValue rv (mem ouc) (view mem ue uc) st)) := by
  have stay : Reaches mem ue p (view mem ue uc) uc := ⟨from_le, le, rfl⟩
  unfold jsonTop topOnList
  split
  · exact Meets.pure ⟨rfl, rfl, stay⟩
  split
  · rename_i last
    subst last
    rw [view_end] at stay ⊢
    exact Meets.pure ⟨rfl, rfl, stay⟩
  rename_i more
  have lt := stay.lt more
  rw [view_lt lt] at stay ⊢
  apply meets_deref first
  apply meets_deref lt
  dsimp only
  split
  · rw [← view_lt lt] at stay ⊢
    apply Meets.bind (follows uc st le)
    rintro r ⟨hrv, hst, -⟩
    rw [← hrv, ← hst]
    split
    · exact Meets.pure ⟨rfl, rfl, stay⟩
    · exact Meets.pure ⟨rfl, rfl, stay⟩
  · exact Meets.pure ⟨rfl, rfl, stay⟩

end Containers

theorem jsonParse_deep_follows {lvl : Nat} (deep : 500 < lvl) :
    Follows mem ue 2 (jsonParse mem ue lvl) (Json.jsonParse lvl) := by
  intro ucp st le
  rw [jsonParse, Json.jsonParse]
  apply Meets.call
  apply Meets.bind (jsonSkipSpace_meets le)
  intro ouc hskip
  rw [← hskip.bytes_eq]
  apply meets_setTo hskip.le_end
  split
  · rename_i last
    subst last
    rw [view_end]
    apply meets_setTo hskip.le_end
    exact Meets.pure ⟨rfl, rfl, hskip.from_le, hskip.le_end, view_end⟩
  · rename_i more
    rw [view_lt (hskip.lt more)]
    dsimp only
    exact Meets.pure ⟨rfl, rfl, Nat.le_refl ucp, le, rfl⟩

/-- One level of `json_parse` over the next ones. -/
theorem jsonParse_level {lvl : Nat}
    (below : lvl ≤ 500 → Follows mem ue (d + 1) (jsonParse mem ue (lvl + 2)) (Json.jsonParse (lvl + 2)))
    (beside : lvl = 0 → Follows mem ue (d + 1) (jsonParse mem ue 1) (Json.jsonParse 1)) :
    Follows mem ue (d + 3) (jsonParse mem ue lvl) (Json.jsonParse lvl) := by
  intro ucp st le
  rw [jsonParse, Json.jsonParse]
  apply Meets.call
  apply Meets.bind (jsonSkipSpace_meets le)
  intro ouc hskip
  rw [← hskip.bytes_eq]
  apply meets_setTo hskip.le_end
  split
  · rename_i last
    subst last
    rw [view_end]
    apply meets_setTo hskip.le_end
    exact Meets.pure ⟨rfl, rfl, hskip.from_le, hskip.le_end, view_end⟩
  rename_i more
  have lt := hskip.lt more
  rw [view_lt lt]
  dsimp only
  split
  · exact Meets.pure ⟨rfl, rfl, Nat.le_refl ucp, le, rfl⟩
  rename_i high
  apply meets_deref lt
  apply meets_setTo lt
  apply Meets.bind (jsonSwitch_meets (below (Nat.not_lt.mp high)) lt st)
  rintro ⟨r, t⟩ ⟨ht, hrv, hst, hr⟩
  dsimp only at ht hrv hst hr ⊢
  rw [← ht, ← hrv, ← hst, ← hr.bytes_eq]
  apply Meets.bind (jsonSkipSpace_meets hr.le_end)
  intro uc huc
  rw [← huc.bytes_eq]
  have onward := (huc.after hr.from_le).after hskip.from_le
  apply meets_setTo onward.le_end
  split
  · rename_i top
    exact (jsonTop_meets (beside top) r.rv _ lt onward.from_le onward.le_end).mono
      (Nat.le_succ _) (fun _ h => h)
  · exact Meets.pure ⟨rfl, rfl, onward.from_le, onward.le_end, rfl⟩

theorem jsonParse_follows (n : Nat) {lvl : Nat} (left : (502 - lvl) / 2 = n) :
    Follows mem ue (2 * n + 2) (jsonParse mem ue lvl) (Json.jsonParse lvl) := by
  induction n generalizing lvl with
  | zero => exact jsonParse_deep_follows (by omega)
  | succ n ih => exact jsonParse_level (fun _ => ih (by omega)) (fun _ => ih (by omega))

end Libmagic.Json.Cursor
