import Libmagic.Softmagic.Der
import Libmagic.Softmagic.Trace

/-!
# `der.c`: walking a tree of elements

`der_offs` records where the children of an element start, and behind the back of its caller where the next
element is. Both are right exactly when the entry has no offset of its own: the offset is counted
twice.
-/
namespace Libmagic.Softmagic

variable {recur : Recur} {env : Env} {call : Call} {m : Magic} {st : St}

/-! ## Recorded offsets -/

def Cont.offs (c : Cont) (k : Nat) : Int := (c.li k).off

section
variable (c : Cont) (level : Nat)

@[simp] theorem offs_setOff (off : Int) (k : Nat) :
    (c.setOff level off).offs k = if k = level then off else c.offs k := by
  simp only [Cont.offs, Cont.setOff, Cont.update]
  split <;> rfl

@[simp] theorem offs_setGot (got : Bool) : (c.setGot level got).offs = c.offs := by
  funext k
  simp only [Cont.offs, Cont.setGot, Cont.update]
  split <;> rfl

@[simp] theorem offs_setLast (last : Bool) : (c.setLast level last).offs = c.offs := by
  funext k
  simp only [Cont.offs, Cont.setLast, Cont.update]
  split <;> rfl

@[simp] theorem offs_reset : (c.reset level).offs = c.offs := by
  funext k
  simp only [Cont.offs, Cont.reset, Cont.update]
  split <;> rfl

end

theorem open_offs (env : Env) (st : St) : (st.open' env).2.c.offs = st.c.offs := by
  simp only [St.open', fileCheckMem]
  split_ifs
  · exact offs_reset _ _
  · exact offs_reset _ _
  · rfl

/-! ## Elements -/

/-- The octets in front of the contents of an element, and the contents. -/
structure Element where
  header : Nat
  contents : Nat
  deriving DecidableEq

/-- The region that `mcopy` anchors for a `der` line. -/
def derWindow (search : Search) (bb : Window) (offset : Nat) : Search :=
  let nbytes := uN 32 (flen bb)
  let offset := if offset > nbytes then nbytes else offset
  { search with s := bb.map (·.drop offset), sLen := nbytes - offset, offset }

/-- The element of a search region, as `der_cmp` and `der_offs` read it. -/
def Search.element (search : Search) : Element :=
  let tlen := getlength (search.s.getD []) (gettag search.s 0 search.sLen).2 search.sLen
  ⟨tlen.2, tlen.1⟩

/-- The element at an offset of the buffer. -/
def elementAt (bb : Window) (offset : Nat) : Element := (derWindow ⟨none, 0, 0, 0⟩ bb offset).element

theorem derWindow_element (search : Search) (bb : Window) (offset : Nat) :
    (derWindow search bb offset).element = elementAt bb offset := rfl

/-- The contents are inside the region that they are read in. -/
theorem getlength_inside {c : Bytes} {p l : Nat} (small : l < 2 ^ 32) (read : (getlength c p l).1 ≠ DER_BAD) :
    (getlength c p l).2 + (getlength c p l).1 ≤ l := by
  rw [getlength] at read ⊢
  dsimp only at read ⊢
  split_ifs at read ⊢ with past cut short wide
  · exact absurd rfl read
  · exact absurd rfl read
  · dsimp only
    omega
  · exact absurd rfl read
  · have limit := uN_cast 64 (2 ^ 32 - 1 - ((p + 1 + (c.getD p 0).toNat % 128 : Nat) : Int))
    dsimp only
    omega

/-! ## `der_offs` -/

/-- The element that `der_cmp` found in a region. -/
structure Search.HasElement (search : Search) : Prop where
  tag : (gettag search.s 0 search.sLen).1 ≠ DER_BAD
  length : (getlength (search.s.getD []) (gettag search.s 0 search.sLen).2 search.sLen).1 ≠ DER_BAD

theorem derCmp_hasElement {search : Search} {v : Value} (matched : (derCmp m search v).1 = some true) :
    search.HasElement := by
  rw [derCmp] at matched
  dsimp only at matched
  split_ifs at matched with tag length
  all_goals exact ⟨tag, length⟩

theorem Search.HasElement.nonempty {search : Search} (has : search.HasElement) : search.sLen ≠ 0 := by
  intro empty
  apply has.tag
  rw [empty]
  unfold gettag
  cases search.s <;> rfl

/-- The position of the contents, as `der_offs` adds it up. -/
def derPosition (m : Magic) (offset : Nat) (e : Element) : Nat := e.header + uN 32 (offset + m.offset)

theorem derOffs_element {search : Search} (has : search.HasElement) (offset nbytes : Nat) :
    derOffs m search offset nbytes =
      let offs := derPosition m offset search.element
      if m.contLevel = 0 then (sN 32 offs, none)
      else if offs + search.element.contents > nbytes then (-1, none)
      else (sN 32 offs, some (sN 32 (offs + search.element.contents))) := by
  rw [derOffs, if_pos has.nonempty, if_neg has.tag]
  dsimp only
  rw [if_neg has.length]
  rfl

/-- `moffset` finds the position in the buffer, whose size is `nbytes`. -/
def Lands (m : Magic) (nbytes offset : Nat) (e : Element) : Prop :=
  (m.contLevel ≠ 0 → derPosition m offset e + e.contents ≤ nbytes) ∧
    sN 32 (derPosition m offset e) ≠ -1 ∧ uN 64 (sN 32 (derPosition m offset e)) ≤ nbytes

/-- The entry has no offset of its own, and what is recorded is an `int`. -/
def Aligned (m : Magic) (offset : Nat) (e : Element) : Prop :=
  m.offset = 0 ∧ offset + e.header < 2 ^ 31 ∧ (m.contLevel ≠ 0 → offset + e.header + e.contents < 2 ^ 31)

/-- The first child at the level of the entry, and the next sibling at the level below. -/
def Records (m : Magic) (offset : Nat) (e : Element) (offs : Nat → Int) : Prop :=
  offs m.contLevel = offset + e.header ∧
    (m.contLevel ≠ 0 → offs (m.contLevel - 1) = offset + e.header + e.contents)

theorem moffset_der (env : Env) (type : m.type = .der) {search : Search} (has : search.HasElement) (nbytes o offset : Nat)
    (v : Value) (io : Io) :
    let r := moffset env.host m nbytes o offset search v io
    (r.ok = true ↔ Lands m nbytes offset search.element) ∧
      (r.ok = true → r.off = some (sN 32 (derPosition m offset search.element)) ∧
        r.outer = if m.contLevel = 0 then none
          else some (sN 32 (derPosition m offset search.element + search.element.contents))) := by
  simp only [moffset, type, derOffs_element has, Lands]
  generalize sN 32 (derPosition m offset search.element) = off
  generalize sN 32 ((derPosition m offset search.element : Int) + search.element.contents) = outer
  by_cases top : m.contLevel = 0
  · rw [if_pos top]
    by_cases lost : off = -1 ∨ uN 64 off > nbytes
    · rw [if_pos lost]
      exact ⟨iff_of_false Bool.false_ne_true (fun lands => lost.elim lands.2.1 (Nat.not_lt.mpr lands.2.2)), fun h => absurd h Bool.false_ne_true⟩
    · rw [if_neg lost, if_neg (fun h => lost (.inr h)), if_pos top]
      obtain ⟨found, inside⟩ := not_or.mp lost
      exact ⟨iff_of_true rfl ⟨fun h => absurd top h, found, Nat.not_lt.mp inside⟩, fun _ => ⟨rfl, rfl⟩⟩
  · rw [if_neg top]
    by_cases past : derPosition m offset search.element + search.element.contents > nbytes
    · rw [if_pos past, if_pos (.inl rfl)]
      exact ⟨iff_of_false Bool.false_ne_true (fun lands => absurd (lands.1 top) (Nat.not_le.mpr past)),
        fun h => absurd h Bool.false_ne_true⟩
    · rw [if_neg past]
      by_cases lost : off = -1 ∨ uN 64 off > nbytes
      · rw [if_pos lost]
        exact ⟨iff_of_false Bool.false_ne_true (fun lands => lost.elim lands.2.1 (Nat.not_lt.mpr lands.2.2)),
          fun h => absurd h Bool.false_ne_true⟩
      · rw [if_neg lost, if_neg (fun h => lost (.inr h)), if_neg top]
        obtain ⟨found, inside⟩ := not_or.mp lost
        exact ⟨iff_of_true rfl ⟨fun _ => Nat.not_lt.mp past, found, Nat.not_lt.mp inside⟩, fun _ => ⟨rfl, rfl⟩⟩

section
variable {e : Element} {nbytes offset : Nat}

theorem derPosition_zero (none : m.offset = 0) (word : offset < 2 ^ 32) : derPosition m offset e = offset + e.header := by
  rw [derPosition, none, Int.add_zero, uN_natCast word, Nat.add_comm]

/-- With an offset of its own the entry records another position. -/
theorem derPosition_ne (low : -2 ^ 31 ≤ m.offset) (high : m.offset < 2 ^ 31) (some : m.offset ≠ 0) :
    sN 32 (derPosition m offset e) ≠ offset + e.header := by
  intro same
  have start := sN_modEq 32 (derPosition m offset e)
  rw [same, derPosition, Nat.cast_add] at start
  have apart := (start.trans ((uN_modEq 32 (offset + m.offset)).add_left _)).dvd
  have field : (e.header + (offset + m.offset) : Int) - (offset + e.header) = m.offset := by ring
  rw [field] at apart
  obtain ⟨k, hk⟩ := apart
  omega

theorem sN_small {x : Nat} (small : x < 2 ^ 31) : sN 32 x = x :=
  sN_of_range (by decide) (by omega) (by exact_mod_cast small)

theorem sN_lt (x : Int) : sN 32 x < 2 ^ 31 := by
  rw [sN]
  omega

theorem not_lands (large : 2 ^ 31 ≤ derPosition m offset e) (word : derPosition m offset e < 2 ^ 32) (size : nbytes < 2 ^ 63) :
    ¬ Lands m nbytes offset e := by
  rintro ⟨-, -, inside⟩
  have wide := uN_cast 64 (sN 32 (derPosition m offset e))
  have negative : sN 32 (derPosition m offset e) = derPosition m offset e - 2 ^ 32 := by
    generalize derPosition m offset e = x at large word
    rw [sN]
    omega
  rw [negative] at wide inside
  omega

theorem lands_of_small (none : m.offset = 0) (small : offset + e.header < 2 ^ 31)
    (inside : offset + e.header + e.contents ≤ nbytes) : Lands m nbytes offset e := by
  rw [Lands, derPosition_zero none (by omega), sN_small small, uN_natCast (by omega)]
  exact ⟨fun _ => inside, by omega, by omega⟩

/-- What is recorded for an element is right exactly under the condition, or nothing is recorded. -/
theorem records_iff (low : -2 ^ 31 ≤ m.offset) (high : m.offset < 2 ^ 31) (size : nbytes < 2 ^ 63)
    (inside : offset + e.header + e.contents ≤ nbytes) (word : offset + e.header + e.contents < 2 ^ 32) {offs : Nat → Int}
    (off : offs m.contLevel = sN 32 (derPosition m offset e))
    (outer : m.contLevel ≠ 0 → offs (m.contLevel - 1) = sN 32 (derPosition m offset e + e.contents)) :
    (Lands m nbytes offset e → Records m offset e offs) ↔ Aligned m offset e ∨ ¬ Lands m nbytes offset e := by
  by_cases none : m.offset = 0
  · have position := derPosition_zero (e := e) none (show offset < 2 ^ 32 by omega)
    by_cases small : offset + e.header < 2 ^ 31
    · have lands : Lands m nbytes offset e := lands_of_small none small inside
      rw [imp_iff_right lands, or_iff_left (not_not_intro lands), Records, Aligned, off, position, sN_small small,
        and_iff_right none]
      refine and_congr (iff_of_true (Nat.cast_add _ _) small) (forall_congr' fun deeper => ?_)
      rw [outer deeper, position, ← Nat.cast_add, ← Nat.cast_add, ← Nat.cast_add]
      constructor
      · intro same
        have bound : sN 32 ((offset + e.header + e.contents : Nat) : Int) < 2 ^ 31 := sN_lt _
        rw [same] at bound
        exact_mod_cast bound
      · exact fun behind => sN_small behind
    · have lost : ¬ Lands m nbytes offset e := not_lands (by omega) (by omega) size
      exact iff_of_true (fun lands => absurd lands lost) (.inr lost)
  · have wrong : ¬ Records m offset e offs := fun records => derPosition_ne low high none (off.symm.trans records.1)
    have apart : ¬ Aligned m offset e := fun aligned => none aligned.1
    rw [or_iff_right apart]
    exact forall_congr' fun _ => iff_false_intro wrong

end

/-! ## A line of type `der` -/

theorem get_der (recur : Recur) (env : Env) (call : Call) (st : St) (rv : Bool) (type : m.type = .der)
    (direct : has m.flag INDIR = false)
    (got : (st.get recur env call m).1 = some rv) :
    rv = true ∧ (st.get recur env call m).2.1 =
      { st with search := derWindow st.search st.bb (uN 32 (st.offset + call.offset)) } := by
  have copied : resolve env m st.bb call st.contLevel st.toScan =
      (some st.offset, { st.toScan with
        search := derWindow st.search st.bb (uN 32 (st.offset + call.offset)) }) := by
    simp [resolve, direct, Scan.copy, mcopy, type, derWindow]
  rw [St.get] at got ⊢
  simp only [mget, copied, mgetAt, type, enoughData, mconvert, cvtFlip] at got ⊢
  split_ifs at got ⊢ <;> simp_all

/-- An outcome behind a call of `moffset`. -/
structure Recording (env : Env) (call : Call) (m : Magic) (st : St) (o : Outcome) (ok : Bool) : Prop where
  called : ∃ st₁ : St, st₁.frame = st.frame ∧ st₁.search = st.search ∧ st₁.c.offs = st.c.offs ∧
    (st₁.record env call m).1 = ok ∧ o.st.c.offs = (st₁.record env call m).2.c.offs
  bb : o.st.bb = st.bb
  eoffset : o.st.eoffset = st.eoffset

theorem annotate_search (env : Env) (m : Magic) (st : St) : (st.annotate env m).2.search = st.search := by
  simp only [St.annotate]
  split <;> rfl

theorem describeTop_search (env : Env) (m : Magic) (st : St) : (st.describeTop env m).2.search = st.search := by
  simp only [St.describeTop]
  split_ifs <;> rfl

theorem describeCont_search (env : Env) (m : Magic) (st : St) : (st.describeCont env m).2.search = st.search := by
  simp only [St.describeCont]
  split_ifs <;> rfl

section
variable {read read' ok : Bool} {nested : List Row}

theorem topMatched_recording (event : (topMatched env call m read nested st).event = .matched read' ok) :
    Recording env call m st (topMatched env call m read nested st) ok := by
  have annotated := annotate_printed env m st
  have same := annotate_search env m st
  unfold topMatched at event ⊢
  rcases h₁ : st.annotate env m with ⟨_ | rv, st₁⟩
  all_goals
    rw [h₁] at annotated same
    simp only [h₁] at event ⊢
  · have described := describeTop_printed env m st₁
    have same' := describeTop_search env m st₁
    rcases h₂ : st₁.describeTop env m with ⟨_ | _, st₂⟩
    all_goals
      rw [h₂] at described same'
      simp only [h₂] at event ⊢
    · cases event
    · have printed := annotated.trans described
      have kept := record_frame env call m st₂
      rcases h₃ : st₂.record env call m with ⟨_ | _, st₃⟩
      all_goals
        rw [h₃] at kept
        simp only [h₃] at event ⊢
      · obtain ⟨-, rfl⟩ := Event.matched.inj event
        exact ⟨⟨st₂, printed.frame, same'.trans same, congrArg _ printed.c, by rw [h₃], by rw [h₃]; rfl⟩,
          congrArg Frame.bb (kept.trans printed.frame), congrArg Frame.eoffset (kept.trans printed.frame)⟩
      · have opened := open_offs env (st₃.setLevel (st₃.contLevel + 1))
        have framed := open_frame env (st₃.setLevel (st₃.contLevel + 1))
        rcases h₄ : (st₃.setLevel (st₃.contLevel + 1)).open' env with ⟨_ | _, st₄⟩
        all_goals
          rw [h₄] at opened framed
          simp only [h₄] at event ⊢
        · cases event
        · obtain ⟨-, rfl⟩ := Event.matched.inj event
          exact ⟨⟨st₂, printed.frame, same'.trans same, congrArg _ printed.c, by rw [h₃], by rw [h₃]; exact opened⟩,
            (congrArg Frame.bb framed).trans (congrArg Frame.bb (kept.trans printed.frame)),
            (congrArg Frame.eoffset framed).trans (congrArg Frame.eoffset (kept.trans printed.frame))⟩
  · cases event

theorem contTakes_recording (event : (contTakes env call m read nested st).event = .matched read' ok) :
    Recording env call m st (contTakes env call m read nested st) ok := by
  have annotated := annotate_printed env m st
  have same := annotate_search env m st
  unfold contTakes at event ⊢
  rcases h₁ : st.annotate env m with ⟨_ | rv, st₁⟩
  all_goals
    rw [h₁] at annotated same
    simp only [h₁] at event ⊢
  · have described := describeCont_printed env m st₁
    have same' := describeCont_search env m st₁
    rcases h₂ : st₁.describeCont env m with ⟨_ | _, st₂⟩
    all_goals
      rw [h₂] at described same'
      simp only [h₂] at event ⊢
    · cases event
    · have printed := annotated.trans described
      have kept := record_frame env call m st₂
      have opened := open_offs env ((st₂.record env call m).2.setLevel
        (if (st₂.record env call m).1 then st₂.contLevel + 1 else st₂.contLevel))
      have framed := open_frame env ((st₂.record env call m).2.setLevel
        (if (st₂.record env call m).1 then st₂.contLevel + 1 else st₂.contLevel))
      rcases h₃ : ((st₂.record env call m).2.setLevel
        (if (st₂.record env call m).1 then st₂.contLevel + 1 else st₂.contLevel)).open' env with ⟨_ | _, st₃⟩
      all_goals
        rw [h₃] at opened framed
        simp only [h₃] at event ⊢
      · cases event
      · obtain ⟨-, rfl⟩ := Event.matched.inj event
        exact ⟨⟨st₂, printed.frame, same'.trans same, congrArg _ printed.c, rfl, opened⟩,
          (congrArg Frame.bb framed).trans (congrArg Frame.bb (kept.trans printed.frame)),
          (congrArg Frame.eoffset framed).trans (congrArg Frame.eoffset (kept.trans printed.frame))⟩
  · cases event

end

theorem check_der (env : Env) (type : m.type = .der) (st : St) :
    (st.check env m).2.search = st.search ∧ ((st.check env m).1 = some true → st.search.HasElement) := by
  simp only [St.check, magiccheck, type]
  refine ⟨trivial, fun matched => derCmp_hasElement (v := st.value) (m := m) ?_⟩
  cases h : (derCmp m st.search st.value).1 with
  | none =>
      rw [h] at matched
      cases matched
  | some b =>
      rw [h] at matched
      exact matched

theorem der_takes (type : m.type = .der) {got : Prop} : ¬ (m.type = .default ∧ got) := by
  rw [type]
  exact fun h => absurd h.1 (by decide)

theorem topMatched_ne_failed {read : Bool} {nested : List Row} :
    (topMatched env call m read nested st).event ≠ .failed := by
  intro event
  unfold topMatched at event
  generalize st.annotate env m = annotated at event
  obtain ⟨_ | rv, st₁⟩ := annotated
  · dsimp only at event
    generalize st₁.describeTop env m = described at event
    obtain ⟨_ | _, st₂⟩ := described
    · cases event
    · dsimp only at event
      generalize st₂.record env call m = recorded at event
      obtain ⟨_ | _, st₃⟩ := recorded
      · cases event
      · dsimp only at event
        generalize (st₃.setLevel (st₃.contLevel + 1)).open' env = opened at event
        obtain ⟨_ | _, st₄⟩ := opened
        all_goals cases event
  · cases event

/-- The state in which a `der` line is compared. -/
def St.window (call : Call) (st : St) : St :=
  { st with search := derWindow st.search st.bb (uN 32 (st.offset + call.offset)) }

/-- The state of a `der` line that was compared and found an element, with the outcome. -/
structure DerFound (env : Env) (call : Call) (m : Magic) (st : St) (o : Outcome) (ok : Bool) : Prop where
  element : (st.window call).search.HasElement
  recording : Recording env call m (st.window call) o ok

theorem Recording.of_eq {st st' : St} {o : Outcome} {ok : Bool} (recording : Recording env call m st o ok)
    (frame : st.frame = st'.frame) (search : st.search = st'.search) (offs : st.c.offs = st'.c.offs) :
    Recording env call m st' o ok := by
  obtain ⟨⟨st₁, frame₁, search₁, offs₁, called⟩, bb, eoffset⟩ := recording
  exact ⟨⟨st₁, frame₁.trans frame, search₁.trans search, offs₁.trans offs, called⟩,
    bb.trans (congrArg Frame.bb frame), eoffset.trans (congrArg Frame.eoffset frame)⟩

section
variable {read ok : Bool} (type : m.type = .der) (direct : has m.flag INDIR = false)
include type direct

theorem topRead_der (event : (topRead recur env call m st).event = .matched read ok) :
    DerFound env call m st (topRead recur env call m st) ok := by
  unfold topRead at event ⊢
  rcases h₁ : st.get recur env call m with ⟨rv, st₁, nested⟩
  have got (rv : Bool) := get_der recur env call st rv type direct
  simp only [h₁] at event got ⊢
  rcases rv with _ | _ | _
  · cases event
  · exact absurd (got false rfl).1 Bool.false_ne_true
  · obtain rfl : st₁ = st.window call := (got true rfl).2
    have compared := check_der env type (st.window call)
    have printed := check_printed env m (st.window call)
    rcases h₂ : (st.window call).check env m with ⟨_ | _ | _, st₂⟩
    all_goals
      rw [h₂] at compared printed
      simp only [h₂] at event ⊢
    · cases event
    · cases event
    · exact ⟨compared.2 rfl, (topMatched_recording event).of_eq printed.frame compared.1 (congrArg _ printed.c)⟩

theorem contRead_der (event : (contRead recur env call m st).event = .matched read ok) :
    DerFound env call m st (contRead recur env call m st) ok := by
  unfold contRead at event ⊢
  rcases h₁ : st.get recur env call m with ⟨rv, st₁, nested⟩
  have got (rv : Bool) := get_der recur env call st rv type direct
  simp only [h₁] at event got ⊢
  rcases rv with _ | _ | _
  · cases event
  · exact absurd (got false rfl).1 Bool.false_ne_true
  · obtain rfl : st₁ = st.window call := (got true rfl).2
    have compared := check_der env type (st.window call)
    have printed := check_printed env m (st.window call)
    rcases h₂ : (st.window call).check env m with ⟨_ | _ | _, st₂⟩
    all_goals
      rw [h₂] at compared printed
      simp only [h₂] at event ⊢
    · cases event
    · cases event
    · rw [contMatched, if_neg (der_takes type)] at event ⊢
      refine ⟨compared.2 rfl, (contTakes_recording event).of_eq printed.frame compared.1 ?_⟩
      rw [setCont_c, offs_setGot, offs_setLast]
      exact congrArg _ printed.c

/-- A continuation that is compared without success changes no offset. -/
theorem contRead_goes {phase : Phase} (goes : (contRead recur env call m st).next = .go phase) :
    (∃ ok, (contRead recur env call m st).event = .matched true ok) ∨
      (contRead recur env call m st).st.c.offs = st.c.offs ∧ (contRead recur env call m st).st.frame = st.frame := by
  unfold contRead at goes ⊢
  rcases h₁ : st.get recur env call m with ⟨rv, st₁, nested⟩
  have got (rv : Bool) := get_der recur env call st rv type direct
  simp only [h₁] at goes got ⊢
  rcases rv with _ | _ | _
  · cases goes
  · exact absurd (got false rfl).1 Bool.false_ne_true
  · obtain rfl : st₁ = st.window call := (got true rfl).2
    have printed := check_printed env m (st.window call)
    rcases h₂ : (st.window call).check env m with ⟨_ | _ | _, st₂⟩
    all_goals
      rw [h₂] at printed
      simp only [h₂] at goes ⊢
    · cases goes
    · refine .inr ⟨?_, printed.frame⟩
      rw [setCont_c, offs_setLast]
      exact congrArg _ printed.c
    · rw [contMatched, if_neg (der_takes type)] at goes ⊢
      obtain ⟨ok, event, -⟩ := contTakes_goes goes
      exact .inl ⟨ok, event⟩

theorem topRead_failed (event : (topRead recur env call m st).event = .failed) :
    (topRead recur env call m st).st.c.offs = st.c.offs := by
  unfold topRead at event ⊢
  rcases h₁ : st.get recur env call m with ⟨rv, st₁, nested⟩
  have got (rv : Bool) := get_der recur env call st rv type direct
  simp only [h₁] at event got ⊢
  rcases rv with _ | _ | _
  · cases event
  · exact absurd (got false rfl).1 Bool.false_ne_true
  · obtain rfl : st₁ = st.window call := (got true rfl).2
    have printed := check_printed env m (st.window call)
    rcases h₂ : (st.window call).check env m with ⟨_ | _ | _, st₂⟩
    all_goals
      rw [h₂] at printed
      simp only [h₂] at event ⊢
    · cases event
    · exact congrArg _ printed.c
    · exact absurd event topMatched_ne_failed

end

/-! ## Rows -/

/-- The state in which the test of a line is made. -/
def St.tested (env : Env) (call : Call) (m : Magic) (phase : Phase) (st : St) : St :=
  if phase = .top then ((st.place env call m).2).setLine m
  else
    let st := (((st.setLine m).setLevel m.contLevel).place env call m).2
    if has m.flag OFFADD then st.addOff else st

theorem topStep_der (type : m.type = .der) (direct : has m.flag INDIR = false) {read ok : Bool}
    (event : (topStep recur env call m st).event = .matched read ok) :
    DerFound env call m (st.tested env call m .top) (topStep recur env call m st) ok := by
  unfold topStep at event ⊢
  split_ifs at event ⊢
  · cases event
  · rw [St.tested, if_pos rfl]
    rcases h : st.place env call m with ⟨_ | _, st₁⟩
    all_goals simp only [h] at event ⊢
    · split_ifs at event
      all_goals cases event
    · exact topRead_der type direct event

theorem contStep_der (type : m.type = .der) (direct : has m.flag INDIR = false) {read ok : Bool}
    (event : (contStep recur env call m st).event = .matched read ok) :
    DerFound env call m (st.tested env call m .cont) (contStep recur env call m st) ok := by
  have test (st₁ : St) (event : (contTest recur env call m st₁).event = .matched read ok) :
      DerFound env call m st₁ (contTest recur env call m st₁) ok := by
    rw [contTest] at event ⊢
    by_cases chained : st₁.isChained m = true
    · rw [if_pos chained] at event
      cases event
    · rw [if_neg chained] at event ⊢
      exact contRead_der type direct event
  rw [contStep] at event ⊢
  by_cases above : (st.setLine m).contLevel < m.contLevel
  · rw [if_pos above] at event
    cases event
  · rw [if_neg above] at event ⊢
    rw [contLine] at event ⊢
    rw [St.tested, if_neg (by decide)]
    generalize ((st.setLine m).setLevel m.contLevel).place env call m = placed at event ⊢
    obtain ⟨_ | _, st₁⟩ := placed
    · dsimp only at event
      split_ifs at event
      all_goals cases event
    · cases relative : has m.flag OFFADD with
      | false =>
          simp only [relative, Bool.not_false, if_true, Bool.false_eq_true, if_false] at event ⊢
          exact test st₁ event
      | true =>
          simp only [relative, Bool.not_true, Bool.false_eq_true, if_false] at event ⊢
          by_cases zero : st₁.contLevel = 0
          · rw [if_pos zero] at event
            cases event
          · rw [if_neg zero] at event ⊢
            exact test _ event

theorem record_offs {k : Nat} (apart : k ≠ st.contLevel) (apart' : k ≠ m.contLevel - 1) :
    (st.record env call m).2.c.offs k = st.c.offs k := by
  rw [St.record]
  generalize moffset env.host m (flen st.bb) call.offset st.offset st.search st.value st.io = r
  obtain ⟨ok, off, outer, value, io⟩ := r
  cases off <;> cases outer <;> simp only [offs_setOff, if_neg apart, if_neg apart']

/-- The file position at which a line is tested outside `use`. -/
def St.position (st : St) : Nat := uN 32 st.offset

theorem derPosition_word (m : Magic) (offset : Nat) (e : Element) :
    derPosition m (uN 32 offset) e = derPosition m offset e := by
  rw [derPosition, derPosition, Nat.add_right_inj, uN_eq_iff]
  exact (uN_modEq 32 offset).add_right _

section
variable {o : Outcome} {ok : Bool} (type : m.type = .der) (outside : call.offset = 0)
  (level : st.contLevel = m.contLevel) (found : DerFound env call m st o ok)
include type outside level found

theorem DerFound.records :
    (ok = true ↔ Lands m (flen st.bb) st.position (elementAt st.bb st.position)) ∧
      (ok = true → o.st.c.offs m.contLevel = sN 32 (derPosition m st.position (elementAt st.bb st.position)) ∧
        (m.contLevel ≠ 0 → o.st.c.offs (m.contLevel - 1) =
          sN 32 (derPosition m st.position (elementAt st.bb st.position) + (elementAt st.bb st.position).contents))) := by
  obtain ⟨has, ⟨st₁, frame, search, -, called, offs⟩, -, -⟩ := found
  have element : st₁.search.element = elementAt st.bb st.position := by
    rw [search, St.position, St.window, outside, Nat.cast_zero, Int.add_zero, derWindow_element]
  have has₁ : st₁.search.HasElement := search ▸ has
  have offset : st₁.offset = st.offset := congrArg Frame.offset frame
  have bb : st₁.bb = st.bb := congrArg Frame.bb frame
  have level₁ : st₁.contLevel = m.contLevel := (congrArg Frame.contLevel frame).trans level
  obtain ⟨lands, recorded⟩ := moffset_der env type has₁ (flen st₁.bb) call.offset st₁.offset st₁.value st₁.io
  rw [element, offset, bb, ← derPosition_word m st.offset] at recorded
  rw [element, offset, bb] at lands
  have ok_eq : (moffset env.host m (flen st.bb) call.offset st.offset st₁.search st₁.value st₁.io).ok = ok := by
    rw [← called, St.record, offset, bb]
  rw [ok_eq] at lands recorded
  constructor
  · rw [lands, Lands, Lands, ← derPosition_word m st.offset]
    rfl
  · intro ok_true
    obtain ⟨off, outer⟩ := recorded ok_true
    rw [offs, St.record, offset, bb, off, outer]
    by_cases top : m.contLevel = 0
    · rw [if_pos top]
      refine ⟨?_, fun h => absurd top h⟩
      rw [offs_setOff, if_pos level₁.symm]
      rfl
    · rw [if_neg top]
      refine ⟨?_, fun _ => ?_⟩
      · rw [offs_setOff, if_pos level₁.symm]
        rfl
      · rw [offs_setOff, if_neg (by omega), offs_setOff, if_pos rfl]
        rfl

omit type level in
theorem DerFound.inside : st.position + (elementAt st.bb st.position).header + (elementAt st.bb st.position).contents ≤
    uN 32 (flen st.bb) := by
  have window : (st.window call).search = derWindow st.search st.bb st.position := by
    rw [St.window, outside, Nat.cast_zero, Int.add_zero, St.position]
  obtain ⟨has, -⟩ := found
  rw [window] at has
  have nonempty := has.nonempty
  have region : (derWindow st.search st.bb st.position).sLen = uN 32 (flen st.bb) - st.position := by
    simp only [derWindow] at nonempty ⊢
    split_ifs at nonempty ⊢ <;> omega
  have word : uN 32 (flen st.bb) < 2 ^ 32 := uN_lt 32 _
  have fits : (derWindow st.search st.bb st.position).element.header +
      (derWindow st.search st.bb st.position).element.contents ≤ (derWindow st.search st.bb st.position).sLen :=
    getlength_inside (by rw [region]; omega) has.length
  rw [derWindow_element, region] at fits
  rw [region] at nonempty
  omega

end

/-! ## Runs -/

theorem place_offs (env : Env) (call : Call) (m : Magic) (st : St) : (st.place env call m).2.c = st.c := rfl

theorem contRead_failed (type : m.type = .der) (direct : has m.flag INDIR = false)
    (event : (contRead recur env call m st).event = .failed) : (contRead recur env call m st).st.c.offs = st.c.offs := by
  rcases @contRead_event recur env call m st with stopped | ⟨-, goes⟩
  · rw [event] at stopped
    cases stopped
  · rcases contRead_goes type direct goes with ⟨ok, matched⟩ | ⟨offs, -⟩
    · rw [event] at matched
      cases matched
    · exact offs

/-- A line that finds no element changes no offset. -/
theorem lineStep_failed (type : m.type = .der) (direct : has m.flag INDIR = false) {phase : Phase}
    (event : (lineStep recur env call m phase st).event = .failed) :
    (lineStep recur env call m phase st).st.c.offs = st.c.offs := by
  cases phase with
  | top =>
      change (topStep recur env call m st).event = .failed at event
      change (topStep recur env call m st).st.c.offs = st.c.offs
      rw [topStep] at event ⊢
      split_ifs at event ⊢
      · cases event
      · have kept := place_offs env call m st
        rcases h : st.place env call m with ⟨_ | _, st₁⟩
        all_goals
          rw [h] at kept
          simp only [h] at event ⊢
        · split_ifs at event
          all_goals cases event
        · exact (topRead_failed type direct event).trans (congrArg Cont.offs kept)
  | cont =>
      change (contStep recur env call m st).event = .failed at event
      change (contStep recur env call m st).st.c.offs = st.c.offs
      have test (st₁ : St) (event : (contTest recur env call m st₁).event = .failed) :
          (contTest recur env call m st₁).st.c.offs = st₁.c.offs := by
        rw [contTest] at event ⊢
        by_cases chained : st₁.isChained m = true
        · rw [if_pos chained] at event
          cases event
        · rw [if_neg chained] at event ⊢
          exact contRead_failed type direct event
      rw [contStep] at event ⊢
      by_cases above : (st.setLine m).contLevel < m.contLevel
      · rw [if_pos above] at event
        cases event
      · have kept := place_offs env call m ((st.setLine m).setLevel m.contLevel)
        rw [if_neg above] at event ⊢
        rw [contLine] at event ⊢
        generalize ((st.setLine m).setLevel m.contLevel).place env call m = placed at event kept ⊢
        obtain ⟨_ | _, st₁⟩ := placed
        · dsimp only at event
          split_ifs at event
          all_goals cases event
        · have same : st₁.c.offs = st.c.offs := congrArg Cont.offs kept
          dsimp only at event ⊢
          split_ifs at event ⊢
          · exact (test _ event).trans same
          · cases event
          · exact (test _ event).trans same
  | flush => cases event

/-- A `der` line with a direct or a relative offset, outside `use`. -/
structure DerLine (call : Call) (r : Row) : Prop where
  type : r.line.type = .der
  direct : has r.line.flag INDIR = false
  low : -2 ^ 31 ≤ r.line.offset
  high : r.line.offset < 2 ^ 31
  outside : call.offset = 0
  head : r.phase = .top → r.line.contLevel = 0

/-- A `&0` line among the continuations. -/
structure Relative (r : Row) : Prop where
  phase : r.phase = .cont
  relative : has r.line.flag OFFADD = true
  front : has r.line.flag OFFNEGATIVE = false
  plain : has r.line.flag OFFPOSITIVE = false
  none : r.line.offset = 0

/-- The state in which the test of the line of a row is made. -/
def Row.tested (env : Env) (call : Call) (r : Row) : St := r.before.tested env call r.line r.phase

section
variable {init : St} {history : List Row} {r : Row} (comes : Comes recur env call init history r)
include comes

theorem Comes.found (line : DerLine call r) {read ok : Bool} (event : r.event = .matched read ok) :
    DerFound env call r.line (r.tested env call) ⟨r.event, r.after, .go .cont, r.nested⟩ ok := by
  have found : DerFound env call r.line (r.tested env call) (lineStep recur env call r.line r.phase r.before) ok := by
    rw [comes.event] at event
    rw [Row.tested]
    generalize r.phase = phase at event ⊢
    cases phase with
    | top => exact topStep_der line.type line.direct event
    | cont => exact contStep_der line.type line.direct event
    | flush => cases event
  obtain ⟨has, ⟨called, bb, eoffset⟩⟩ := found
  rw [← comes.after] at called bb eoffset
  exact ⟨has, ⟨called, bb, eoffset⟩⟩

theorem Comes.tested_level (line : DerLine call r) (zero : init.contLevel = 0) : (r.tested env call).contLevel = r.line.contLevel := by
  rw [Row.tested, St.tested]
  split_ifs with top relative
  · obtain ⟨⟨phase, st, reached, arrived⟩, -⟩ := comes
    rw [top] at arrived
    rw [line.head top]
    change r.before.contLevel = 0
    exact reached.top_contLevel zero arrived
  · rfl
  · rfl

end

theorem place_relative (env : Env) (call : Call) {m : Magic} (st : St) (front : has m.flag OFFNEGATIVE = false) (plain : has m.flag OFFPOSITIVE = false)
    (none : m.offset = 0) (deeper : st.contLevel ≠ 0) (start : st.eoffset = 0) :
    st.place env call m = (true, { st with offset := 0 }) := by
  simp only [St.place, msetoffset, front, plain, none, start, Bool.false_eq_true, if_false, false_or, if_neg deeper]
  rfl

section
variable {init : St} {history : List Row} {q r : Row}

/-- The state of a `&0` line is at the offset of the level below. -/
theorem Comes.relative_tested (comes : Comes recur env call init history q) (relative : Relative q)
    (start : q.before.eoffset = 0) :
    (q.tested env call).position = uN 32 (q.before.c.offs (q.line.contLevel - 1)) ∧
      (q.tested env call).bb = q.before.bb := by
  have deeper := comes.deeper relative.phase
  have placed := place_relative env call ((q.before.setLine q.line).setLevel q.line.contLevel) relative.front relative.plain relative.none (Nat.one_le_iff_ne_zero.mp deeper) start
  rw [Row.tested, St.tested, relative.phase, if_neg (by decide), placed, relative.relative]
  refine ⟨?_, rfl⟩
  rw [St.position]
  change uN 32 (uN 32 (0 + q.before.c.offs (q.line.contLevel - 1))) = _
  rw [uN_eq_iff, Int.zero_add]
  exact uN_modEq 32 _

/-- What a `&0` line of type `der` leaves of the offsets below its parent. -/
theorem Comes.relative_keeps (comes : Comes recur env call init history q) (line : DerLine call q) (relative : Relative q)
    (start : q.before.eoffset = 0) {phase : Phase}
    (goes : (lineStep recur env call q.line q.phase q.before).next = .go phase) :
    q.after.eoffset = 0 ∧ q.after.bb = q.before.bb ∧
      ∀ k, k + 1 < q.line.contLevel → q.after.c.offs k = q.before.c.offs k := by
  have deeper := comes.deeper relative.phase
  have placed := place_relative env call ((q.before.setLine q.line).setLevel q.line.contLevel) relative.front relative.plain relative.none (Nat.one_le_iff_ne_zero.mp deeper) start
  rw [comes.after]
  rw [relative.phase] at goes ⊢
  change (contStep recur env call q.line q.before).next = .go phase at goes
  change (contStep recur env call q.line q.before).st.eoffset = 0 ∧ (contStep recur env call q.line q.before).st.bb = _ ∧
    ∀ k, k + 1 < q.line.contLevel → (contStep recur env call q.line q.before).st.c.offs k = _
  rw [contStep] at goes ⊢
  by_cases above : (q.before.setLine q.line).contLevel < q.line.contLevel
  · rw [if_pos above]
    exact ⟨start, rfl, fun _ _ => rfl⟩
  · rw [if_neg above, contLine, placed] at goes ⊢
    simp only [relative.relative, Bool.not_true, Bool.false_eq_true, if_false] at goes ⊢
    have level : q.line.contLevel ≠ 0 := Nat.one_le_iff_ne_zero.mp deeper
    rw [if_neg (show ¬ (St.setLevel q.line.contLevel (q.before.setLine q.line)).contLevel = 0 from level)] at goes ⊢
    rw [contTest] at goes ⊢
    split_ifs at goes ⊢
    · exact ⟨start, rfl, fun _ _ => rfl⟩
    · rcases contRead_goes line.type line.direct goes with ⟨ok, event⟩ | ⟨offs, frame⟩
      · obtain ⟨-, ⟨⟨st₁, frame, -, offs₁, -, offs⟩, bb, eoffset⟩⟩ := contRead_der line.type line.direct event
        refine ⟨eoffset.trans start, bb, fun k lower => ?_⟩
        rw [offs, record_offs (by rw [show st₁.contLevel = q.line.contLevel from congrArg Frame.contLevel frame]; omega)
          (by omega), offs₁]
        rfl
      · refine ⟨(congrArg Frame.eoffset frame).trans start, congrArg Frame.bb frame, fun k _ => ?_⟩
        rw [offs]
        rfl

theorem Comes.before_eq {r' : Row} (comes : Comes recur env call init (r :: history) r') (relative : Relative r') :
    r'.before = r.after ∧ ∃ phase, (lineStep recur env call r.line r.phase r.before).next = .go phase := by
  obtain ⟨⟨phase, st, reached, arrived⟩, -⟩ := comes
  rw [relative.phase] at arrived
  have same : st = r'.before := by
    rcases arrive_cases arrived with ⟨-, h, -⟩ | ⟨-, -, -, h⟩ | ⟨-, h, -⟩ | ⟨-, h, -⟩ | ⟨-, h, -⟩
    · cases h
    · exact h.symm
    all_goals cases h
  cases reached with
  | line m before arrived' goes => exact ⟨same.symm, _, goes⟩

theorem Comes.earlier {r' : Row} (comes : Comes recur env call init (r :: history) r') :
    Comes recur env call init history r := by
  obtain ⟨⟨phase, st, reached, -⟩, -⟩ := comes
  cases reached with
  | line m before arrived goes => exact ⟨⟨_, _, before, arrived⟩, rfl⟩

/-- Lines above the level `k + 1` leave the offset that the next line at that level starts from. -/
theorem Comes.deeper_keeps {k : Nat} (between : List Row) {r' : Row}
    (comes : Comes recur env call init (between ++ r :: history) r') (relative : Relative r')
    (inner : ∀ q ∈ between, DerLine call q ∧ Relative q ∧ k + 1 < q.line.contLevel) (start : r.after.eoffset = 0) :
    r'.before.eoffset = 0 ∧ r'.before.bb = r.after.bb ∧ r'.before.c.offs k = r.after.c.offs k := by
  induction between generalizing r' with
  | nil =>
      rw [(comes.before_eq relative).1]
      exact ⟨start, rfl, rfl⟩
  | cons q between ih =>
      obtain ⟨line, relative', higher⟩ := inner q List.mem_cons_self
      have earlier := Comes.earlier comes
      obtain ⟨eoffset, bb, offs⟩ := ih earlier relative' (fun q' member => inner q' (List.mem_cons_of_mem q member))
      obtain ⟨same, phase, goes⟩ := comes.before_eq relative
      obtain ⟨eoffset', bb', offs'⟩ := earlier.relative_keeps line relative' eoffset goes
      rw [same]
      exact ⟨eoffset', bb'.trans bb, (offs' k higher).trans offs⟩

/-- Where the `&0` lines behind `r` are tested, for the element `e` at `s`: one level higher at the first child,
and at the level of `r` at the next sibling. The lines between them are deeper ones. -/
structure Walks (recur : Recur) (env : Env) (call : Call) (init : St) (history : List Row) (r : Row) (s : Nat) (e : Element) :
    Prop where
  child : ∀ between r', Comes recur env call init (between ++ r :: history) r' → Relative r' →
    r'.line.contLevel = r.line.contLevel + 1 →
    (∀ q ∈ between, DerLine call q ∧ Relative q ∧ r.line.contLevel + 1 < q.line.contLevel) →
    (r'.tested env call).position = s + e.header ∧ (r'.tested env call).bb = (r.tested env call).bb
  sibling : ∀ between r', Comes recur env call init (between ++ r :: history) r' → Relative r' →
    r'.line.contLevel = r.line.contLevel →
    (∀ q ∈ between, DerLine call q ∧ Relative q ∧ r.line.contLevel < q.line.contLevel) →
    (r'.tested env call).position = s + e.header + e.contents ∧ (r'.tested env call).bb = (r.tested env call).bb

/-- A line that finds an element at `s` records its first child and its next sibling exactly if it has no offset of
its own, or records nothing; the `&0` lines behind it then walk the tree. -/
theorem der_walk_iff (comes : Comes recur env call init history r) (zero : init.contLevel = 0) (line : DerLine call r)
    (size : flen (r.tested env call).bb < 2 ^ 63) {s : Nat} {e : Element} (at_s : s = (r.tested env call).position)
    (at_e : e = elementAt (r.tested env call).bb s) :
    (r.event = .failed → r.after.c.offs = r.before.c.offs) ∧
      ∀ ok, r.event = .matched true ok →
        ((ok = true → Records r.line s e r.after.c.offs) ↔
          Aligned r.line s e ∨ ¬ Lands r.line (flen (r.tested env call).bb) s e) ∧
        (Aligned r.line s e → ok = true ∧
          ((r.tested env call).eoffset = 0 → Walks recur env call init history r s e)) := by
  constructor
  · intro event
    rw [comes.event] at event
    rw [comes.after]
    exact lineStep_failed line.type line.direct event
  intro ok event
  have level := comes.tested_level line zero
  have found := comes.found line event
  obtain ⟨lands, recorded⟩ := found.records line.type line.outside level
  have inside := found.inside line.outside
  have bb := found.recording.bb
  have eoffset := found.recording.eoffset
  subst at_s
  subst at_e
  have word : uN 32 (flen (r.tested env call).bb) < 2 ^ 32 := uN_lt 32 _
  have short : uN 32 (flen (r.tested env call).bb) ≤ flen (r.tested env call).bb := by
    rw [uN_natCast_mod]
    exact Nat.mod_le _ _
  generalize (r.tested env call).position = s at *
  generalize elementAt (r.tested env call).bb s = e at *
  have right : (ok = true → Records r.line s e r.after.c.offs) ↔
      Aligned r.line s e ∨ ¬ Lands r.line (flen (r.tested env call).bb) s e := by
    cases ok with
    | true =>
        obtain ⟨off, outer⟩ := recorded rfl
        rw [← records_iff line.low line.high size (by omega) (by omega) off outer, lands]
    | false => exact iff_of_true (fun h => absurd h Bool.false_ne_true) (.inr fun h => absurd (lands.mpr h) Bool.false_ne_true)
  refine ⟨right, fun aligned => ?_⟩
  have done : ok = true := lands.mpr (lands_of_small aligned.1 aligned.2.1 (by omega))
  refine ⟨done, fun start => ?_⟩
  obtain ⟨first, next⟩ := right.mpr (.inl aligned) done
  have small := aligned.2.1
  constructor
  · intro between r' comes' relative higher inner
    obtain ⟨start', bb', offs⟩ := comes'.deeper_keeps between relative inner (eoffset.trans start)
    obtain ⟨position, same⟩ := comes'.relative_tested relative start'
    refine ⟨?_, same.trans (bb'.trans bb)⟩
    rw [position, higher, Nat.add_sub_cancel, offs, first, ← Nat.cast_add, uN_natCast (by omega)]
  · intro between r' comes' relative same_level inner
    have deeper := comes'.deeper relative.phase
    have positive : r.line.contLevel ≠ 0 := by omega
    obtain ⟨start', bb', offs⟩ := comes'.deeper_keeps (k := r.line.contLevel - 1) between relative
      (fun q member => ⟨(inner q member).1, (inner q member).2.1, by have := (inner q member).2.2; omega⟩)
      (eoffset.trans start)
    obtain ⟨position, same⟩ := comes'.relative_tested relative start'
    refine ⟨?_, same.trans (bb'.trans bb)⟩
    rw [position, same_level, offs, next positive, ← Nat.cast_add, ← Nat.cast_add, uN_natCast (by omega)]

end

/-- The row of `offset der seq` at the head of a list, for two bytes, a sequence of three bytes and one more. -/
def derRow (offset : Int) (front : Bytes) : Row :=
  rowOf (matchN (plainEnv [] []) 0) (plainEnv [] []) plainCall
    { plainLine with type := .der, offset, value := Value.zero.write 0 (asc "seq") } .top
    (matchInit (plainEnv [] []) (plainScan (front ++ [0x30, 0x03, 0x02, 0x01, 0x05, 0xff])))

theorem derRow_comes (offset : Int) (front : Bytes) :
    Comes (matchN (plainEnv [] []) 0) (plainEnv [] []) plainCall
      (matchInit (plainEnv [] []) (plainScan (front ++ [0x30, 0x03, 0x02, 0x01, 0x05, 0xff]))) [] (derRow offset front) :=
  ⟨⟨.top, _, .start, rfl⟩, rfl⟩

/-- `0 der seq` records the first child behind the two octets of its header. -/
theorem der_walk_front : Records (derRow 0 []).line 0 ⟨2, 3⟩ (derRow 0 []).after.c.offs := by
  have line : DerLine plainCall (derRow 0 []) := ⟨rfl, rfl, by decide, by decide, rfl, fun _ => rfl⟩
  have walked := der_walk_iff (derRow_comes 0 []) rfl line (by decide) (e := ⟨2, 3⟩) rfl (by decide +kernel)
  exact (walked.2 true (by decide +kernel)).1.mpr (.inl ⟨rfl, by decide, fun h => absurd rfl h⟩) rfl

/-- `2 der seq` records the offset 6 and not 4. -/
theorem der_walk_shifted :
    ¬ ∀ (recur : Recur) (env : Env) (call : Call) (init : St) (history : List Row) (r : Row),
      Comes recur env call init history r → init.contLevel = 0 → DerLine call r → r.event = .matched true true →
      Records r.line (r.tested env call).position
        (elementAt (r.tested env call).bb (r.tested env call).position) r.after.c.offs := by
  intro walks
  have line : DerLine plainCall (derRow 2 [0xff, 0xff]) := ⟨rfl, rfl, by decide, by decide, rfl, fun _ => rfl⟩
  have first := (walks _ _ _ _ _ _ (derRow_comes 2 [0xff, 0xff]) rfl line (by decide +kernel)).1
  exact absurd first (by decide +kernel)

end Libmagic.Softmagic
