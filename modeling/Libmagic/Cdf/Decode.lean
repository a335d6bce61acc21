import Libmagic.Cdf.Property

/-!
# What a property set decodes to

The end of the section that `cdf_read_property_info` goes by is `sh.sh_len` bytes behind its own
variable `sh`, which is a copy of the header and not in the stream. It never reads outside the
stream for that, but it decodes a section only where its variable happens to be in front of the
stream and not far from it.
-/
namespace Libmagic.Cdf

open Softmagic
open Run (Policy Meets)

/-! ## Safety -/

section Safety

variable (sst : Stream) (place : Place)

/-- Everything that is read or stored is in the stream. -/
def inStream : Policy Span :=
  .each (fun s => place.tab ≤ s.addr ∧ s.addr + s.len ≤ place.tab + streamSize sst)

variable {sst place}

theorem checked {p tail : Nat} (h : cdfCheckStreamOffset sst place p tail = true) :
    place.tab ≤ p + tail ∧ p + tail ≤ place.tab + streamSize sst := by
  rw [cdfCheckStreamOffset, Bool.and_eq_true, decide_eq_true_iff, decide_eq_true_iff] at h
  omega

theorem meets_numberAt {p len : Nat} (le : place.tab ≤ p) (inside : p + len ≤ place.tab + streamSize sst) :
    Meets (inStream sst place) 0 (numberAt sst place p len) (fun _ => True) :=
  Meets.event (Policy.each_single ⟨le, inside⟩) trivial

theorem meets_store {s : Span} (le : place.tab ≤ s.addr)
    (inside : s.addr + s.len ≤ place.tab + streamSize sst) :
    Meets (inStream sst place) 0 (Run.event s ()) (fun _ => True) :=
  Meets.event (Policy.each_single ⟨le, inside⟩) trivial

variable {p e : Nat} (le : place.tab ≤ p) (inside : e ≤ place.tab + streamSize sst)

include le

/-- A position that is found leaves room for the entry of the table and is not behind `e`. -/
theorem meets_cdfGetPropertyInfoPos (i : Nat) :
    Meets (inStream sst place) 0 (cdfGetPropertyInfoPos sst place p e i) (fun r => ∀ q, r = some q →
      p ≤ q ∧ q ≤ e ∧ p + (2 * i + 2) * 4 ≤ place.tab + streamSize sst) := by
  apply Meets.ite (fun _ => Meets.pure (fun q none => absurd none (by simp)))
  intro before
  apply Meets.ite (fun _ => Meets.pure (fun q none => absurd none (by simp)))
  intro ok
  have room := checked (by simpa using ok)
  apply Meets.bind (meets_numberAt (by omega) (by omega))
  intro ofs _
  apply Meets.ite (fun _ => Meets.pure (fun q none => absurd none (by simp)))
  intro _
  apply Meets.ite (fun _ => Meets.pure (fun q none => absurd none (by simp)))
  intro near
  apply Meets.pure
  rintro q ⟨⟩
  omega

omit le in
theorem uN_sub_le {e p : Nat} (le : p ≤ e) : uN 64 ((e : Int) - p) ≤ e - p := by
  have same : ((e : Int) - p) = ((e - p : Nat) : Int) := (Int.ofNat_sub le).symm
  rw [same, uN]
  have := Nat.mod_le (e - p) (2 ^ 64)
  omega

include inside

theorem meets_cdfCopyInfo (type len : Nat) (before : p ≤ e) :
    Meets (inStream sst place) 0 (cdfCopyInfo sst place type p e len) (fun _ => True) := by
  apply Meets.ite (fun _ => Meets.pure trivial)
  intro _
  apply Meets.ite (fun _ => Meets.pure trivial)
  intro room
  have short := uN_sub_le before
  apply Meets.bind (meets_numberAt le (by omega))
  intro n _
  exact Meets.pure trivial

theorem meets_readStrings (properties inp elements i o4 slen : Nat) (info : List Property)
    (o4_eq : o4 = slen * 4) (before : p ≤ e) :
    Meets (inStream sst place) 0 (readStrings sst place properties inp p (e - p) elements i o4 slen info)
      (fun r => ∀ next, r = some next → i ≤ next.1 ∧ (0 < elements → i < properties → i < next.1)) := by
  induction elements generalizing i o4 slen info with
  | zero =>
      apply Meets.pure
      rintro next ⟨⟩
      exact ⟨Nat.le_refl _, fun pos => absurd pos (Nat.lt_irrefl 0)⟩
  | succ elements ih =>
      apply Meets.ite
      · intro _
        apply Meets.ite (fun _ => Meets.pure (fun next none => absurd none (by simp)))
        intro length
        apply Meets.bind (meets_numberAt (by omega) (by omega))
        intro l _
        apply Meets.ite (fun _ => Meets.pure (fun next none => absurd none (by simp)))
        intro text
        apply Meets.bind (meets_store (by dsimp only; omega) (by dsimp only; omega))
        intro _ _
        apply (ih _ _ _ _ rfl).mono (Nat.le_refl 0)
        intro r further next some
        have := (further next some).1
        omega
      · intro last
        apply Meets.pure
        rintro next ⟨⟩
        exact ⟨Nat.le_refl _, fun _ more => absurd more last⟩

/-- A round goes on behind the property, or it is the last. -/
def Further (s : PropertyState) (r : Round) : Prop :=
  Sum.elim (fun s' => s.i < s'.i) (fun _ => True) r

omit le inside in
theorem meets_nextWith (s : PropertyState) (inp : Nat) (info : List Property) (val : PiVal) :
    Meets (inStream sst place) 0 (nextWith s inp info val) (Further s) :=
  Meets.pure (Nat.lt_succ_self s.i)

theorem meets_readValue (heap : Heap) {properties inp type nelements slen : Nat} (s : PropertyState)
    (info : List Property) (start : p + slen * 4 ≤ e) (some : 0 < nelements) (more : s.i < properties) :
    Meets (inStream sst place) 0
      (readValue sst place heap properties inp p e (e - p) type nelements slen s info) (Further s) := by
  apply Meets.ite (fun _ => meets_nextWith s inp info _)
  intro _
  cases kind type with
  | nothing => exact Meets.pure (Nat.lt_succ_self s.i)
  | scalar len =>
      apply Meets.bind (meets_cdfCopyInfo (by omega) inside type len start)
      intro n _
      exact meets_nextWith s inp info _
  | string =>
      dsimp only
      split
      · exact Meets.pure trivial
      · apply Meets.bind (meets_readStrings le inside properties inp nelements s.i _ slen _ rfl (by omega))
        intro r further
        cases r with
        | none => exact Meets.pure trivial
        | some next => exact Meets.pure ((further next rfl).2 some more)
  | clipboard =>
      exact Meets.ite (fun _ => meets_nextWith s inp info _)
        (fun _ => Meets.pure (Nat.lt_succ_self s.i))
  | other => exact meets_nextWith s inp info _

theorem meets_readProperty (heap : Heap) {properties inp id : Nat} (s : PropertyState)
    (more : s.i < properties) :
    Meets (inStream sst place) 0 (readProperty sst place heap properties inp p e id s) (Further s) := by
  apply Meets.ite (fun _ => Meets.pure trivial)
  intro _
  apply Meets.bind (meets_numberAt (by omega) (by omega))
  intro type _
  apply Meets.ite
  · intro _
    apply Meets.ite (fun _ => Meets.pure trivial)
    intro _
    apply Meets.bind (meets_numberAt (by omega) (by omega))
    intro nelements _
    apply Meets.ite (fun _ => Meets.pure trivial)
    intro _
    exact meets_readValue le inside heap s _ (by omega) (by omega) more
  · intro _
    exact meets_readValue le inside heap s _ (by omega) (by omega) more

theorem meets_propertyRound (heap : Heap) (properties inp : Nat) (s : PropertyState) :
    Meets (inStream sst place) 0 (propertyRound sst place heap properties inp p e s)
      (Sum.elim (fun s' => True ∧ properties - s'.i < properties - s.i) (fun _ => True)) := by
  apply Meets.ite
  · intro more
    apply Meets.bind (meets_cdfGetPropertyInfoPos le s.i)
    intro pos hpos
    cases pos with
    | none => exact Meets.pure trivial
    | some q =>
        obtain ⟨after, before, table⟩ := hpos q rfl
        apply Meets.bind (meets_numberAt (by omega) (by omega))
        intro id _
        apply (meets_readProperty (by omega) inside heap s more).mono (Nat.le_refl 0)
        intro r further
        cases r with
        | inl s' =>
            have : s.i < s'.i := further
            exact ⟨trivial, by omega⟩
        | inr _ => exact trivial
  · intro _
    exact Meets.pure trivial

omit le inside in
theorem meets_cdfReadPropertyInfo (heap : Heap) (offs : Nat) (info : List Property) (count : Nat) :
    Meets (inStream sst place) 0 (cdfReadPropertyInfo sst place heap offs info count)
      (fun _ => True) := by
  apply Meets.ite (fun _ => Meets.pure trivial)
  intro _
  apply Meets.ite (fun _ => Meets.pure trivial)
  intro ok
  have header := checked (by simpa using ok)
  apply Meets.bind (meets_numberAt (by omega) (by omega))
  intro shLen _
  apply Meets.bind (meets_numberAt (by omega) (by omega))
  intro properties _
  apply Meets.ite (fun _ => Meets.pure trivial)
  intro _
  apply Meets.ite (fun _ => Meets.pure trivial)
  intro ends
  have behind := checked (by simpa using ends)
  apply Meets.ite (fun _ => Meets.pure trivial)
  intro _
  split
  · exact Meets.pure trivial
  · apply Meets.ite (fun _ => Meets.pure trivial)
    intro _
    apply Meets.bind (Meets.loop (fun s _ => meets_propertyRound (by omega) behind.2 heap properties count s)
      _ _ trivial (Nat.lt_succ_of_le (Nat.sub_le _ _)))
    intro r _
    exact Meets.pure trivial

end Safety

/-! ## A section of a property set -/

section Section

variable (sst : Stream) (offs : Nat)

/-- The number at a byte of the section. -/
def secWord (k : Nat) : Nat := word ⟨offs + k, 4⟩ sst.tab

def shLen : Nat := secWord sst offs 0
def shProperties : Nat := secWord sst offs 4

/-- The entry of the table for a property: its number, and where its value is. -/
def idOf (i : Nat) : Nat := secWord sst offs (8 + 8 * i)
def ofsOf (i : Nat) : Nat := secWord sst offs (12 + 8 * i)

def typeOf (i : Nat) : Nat := secWord sst offs (ofsOf sst offs i)

def isVector (i : Nat) : Bool := has (typeOf sst offs i) CDF_VECTOR

/-- A property whose type has none of the flags that are not decoded. -/
def isPlain (i : Nat) : Bool := !has (typeOf sst offs i) (CDF_ARRAY ||| CDF_BYREF ||| CDF_RESERVED)

def elementsOf (i : Nat) : Nat :=
  if isVector sst offs i then secWord sst offs (ofsOf sst offs i + 4) else 1

/-- How many bytes there are in front of the value: the type, and the length of a vector. -/
def frontOf (i : Nat) : Nat := if isVector sst offs i then 8 else 4

def isString (i : Nat) : Bool := isPlain sst offs i && kind (typeOf sst offs i) == .string

/-- The length of the string, or of the first of a vector. -/
def strlenOf (i : Nat) : Nat := secWord sst offs (ofsOf sst offs i + frontOf sst offs i)

/-- A single value of so many bytes. -/
def IsScalar (i len : Nat) : Prop :=
  isPlain sst offs i = true ∧ isVector sst offs i = false ∧ kind (typeOf sst offs i) = .scalar len

def scalarOf (i len : Nat) : Nat := word ⟨offs + (ofsOf sst offs i + 4), len⟩ sst.tab

/-- A section that lies inside the stream with its table and its values, within the limits of the
source. -/
structure WellFormed : Prop where
  offs_le : offs ≤ (2 ^ 32 - 1) / 4
  len_le : shLen sst offs ≤ CDF_SHLEN_LIMIT
  inside : offs + shLen sst offs ≤ streamSize sst
  table : 8 + 8 * shProperties sst offs ≤ shLen sst offs
  ofs : ∀ i < shProperties sst offs,
    8 ≤ ofsOf sst offs i ∧ ofsOf sst offs i + frontOf sst offs i ≤ shLen sst offs
  scalar : ∀ i < shProperties sst offs, ∀ len, IsScalar sst offs i len →
    ofsOf sst offs i + 4 + len ≤ shLen sst offs
  string : ∀ i < shProperties sst offs, isString sst offs i = true →
    ofsOf sst offs i + frontOf sst offs i + 4 + strlenOf sst offs i ≤ shLen sst offs
  elements : ∀ i < shProperties sst offs,
    0 < elementsOf sst offs i ∧ elementsOf sst offs i ≤ CDF_ELEMENT_LIMIT
  count : shProperties sst offs ≤ CDF_PROP_LIMIT
  grown : ∀ i < shProperties sst offs,
    shProperties sst offs + elementsOf sst offs i ≤ CDF_PROP_LIMIT

variable (place : Place)

/-- A member that says what the section says about a property. -/
structure Faithful (i : Nat) (property : Property) : Prop where
  id : property.id = idOf sst offs i
  type : property.type = typeOf sst offs i
  scalar : ∀ len, IsScalar sst offs i len → property.val = .num (scalarOf sst offs i len)
  string : isString sst offs i = true → property.val =
    .str (place.tab + offs + ofsOf sst offs i + frontOf sst offs i + 4) (strlenOf sst offs i)

/-- `cdf_read_property_info` succeeds, whatever is in new memory, and every property has its
member, as the caller starts it. -/
def Decodes : Prop :=
  ∀ heap : Heap, (∀ n ≤ CDF_PROP_LIMIT * propertySizeof, heap.realloc n = true) →
    ∃ info, (cdfReadPropertyInfo sst place heap offs [] 0).value =
        some (some (info, shProperties sst offs)) ∧
      ∀ i < shProperties sst offs, ∃ property, info[i]? = some property ∧
        Faithful sst offs place i property

/-- Where `sh.sh_len` bytes behind `sh` end. -/
def sectionEnd : Nat := place.sh + shLen sst offs

/-- What the source needs of a property before that end. -/
structure Reached (i : Nat) : Prop where
  front : place.tab + offs + ofsOf sst offs i + frontOf sst offs i ≤ sectionEnd sst offs place
  string : isString sst offs i = true →
    place.tab + offs + ofsOf sst offs i + frontOf sst offs i + 4 + strlenOf sst offs i ≤
      sectionEnd sst offs place
  scalar : ∀ len, IsScalar sst offs i len →
    place.tab + offs + ofsOf sst offs i + 4 + len ≤ sectionEnd sst offs place ∨
      scalarOf sst offs i len = 0

/-- `sh` is in front of the stream and near enough, and a vector of strings is the last property. -/
structure Reaches : Prop where
  front : place.sh < place.tab
  table : place.tab + offs + 8 < sectionEnd sst offs place
  values : ∀ i < shProperties sst offs, Reached sst offs place i
  last : ∀ i < shProperties sst offs, isString sst offs i = true → 1 < elementsOf sst offs i →
    i + 1 = shProperties sst offs

end Section

/-! ## One round -/

section Round

variable {sst : Stream} {place : Place} {offs : Nat} (heap : Heap)

/-- Where a property is. -/
def posOf (sst : Stream) (offs : Nat) (place : Place) (i : Nat) : Nat := place.tab + offs + ofsOf sst offs i

/-- The members with the number and the type of a property. -/
def named (sst : Stream) (offs : Nat) (info : List Property) (i : Nat) : List Property :=
  info.modify i (fun property => { property with id := idOf sst offs i, type := typeOf sst offs i })

@[simp] theorem numberAt_value (p len : Nat) :
    (numberAt sst place p len).value = some (word ⟨p - place.tab, len⟩ sst.tab) := rfl

@[simp] theorem cdfGetuint32_value (p i : Nat) :
    (cdfGetuint32 sst place p i).value = some (word ⟨p + i * 4 - place.tab, 4⟩ sst.tab) := rfl

theorem word_at {p k : Nat} (h : p = place.tab + offs + k) :
    word ⟨p - place.tab, 4⟩ sst.tab = secWord sst offs k := by
  rw [secWord, h]
  congr 2
  omega

variable (wf : WellFormed sst offs) (table : place.tab + (offs + 8) < sectionEnd sst offs place)
  {i : Nat} (more : i < shProperties sst offs)

include wf table more

theorem cdfGetPropertyInfoPos_value :
    (cdfGetPropertyInfoPos sst place (place.tab + (offs + 8)) (sectionEnd sst offs place) i).value =
      some (if sectionEnd sst offs place < posOf sst offs place i then none
        else some (posOf sst offs place i)) := by
  have inside := wf.inside
  have entries := wf.table
  have eight := (wf.ofs i more).1
  have ok : cdfCheckStreamOffset sst place (place.tab + (offs + 8)) ((2 * i + 1 + 1) * 4) = true := by
    rw [cdfCheckStreamOffset, Bool.and_eq_true, decide_eq_true_iff, decide_eq_true_iff]
    omega
  have ofs : word ⟨place.tab + (offs + 8) + (2 * i + 1) * 4 - place.tab, 4⟩ sst.tab = ofsOf sst offs i :=
    word_at (by omega)
  rw [cdfGetPropertyInfoPos, if_neg (Nat.not_le_of_lt table), ok, Bool.not_true,
    if_neg Bool.false_ne_true, Run.value_bind, cdfGetuint32_value, Option.bind_some, ofs,
    if_neg (Nat.not_lt_of_le eight)]
  unfold posOf
  by_cases far : ofsOf sst offs i - 8 > sectionEnd sst offs place - (place.tab + (offs + 8))
  · rw [if_pos far, if_pos (by omega), Run.value_pure]
  · rw [if_neg far, if_neg (by omega), Run.value_pure]
    congr 2
    omega

theorem propertyRound_value (info : List Property) :
    (propertyRound sst place heap (shProperties sst offs) 0 (place.tab + (offs + 8))
        (sectionEnd sst offs place) ⟨i, info⟩).value =
      if sectionEnd sst offs place < posOf sst offs place i + frontOf sst offs i then some (.inr none)
      else (readValue sst place heap (shProperties sst offs) 0 (posOf sst offs place i)
        (sectionEnd sst offs place) (sectionEnd sst offs place - posOf sst offs place i)
        (typeOf sst offs i) (elementsOf sst offs i) (frontOf sst offs i / 4) ⟨i, info⟩
        (named sst offs info i)).value := by
  have elements := wf.elements i more
  have four : 4 ≤ frontOf sst offs i := by
    unfold frontOf
    split <;> decide
  have id : word ⟨place.tab + (offs + 8) + 2 * i * 4 - place.tab, 4⟩ sst.tab = idOf sst offs i :=
    word_at (by omega)
  have type : word ⟨posOf sst offs place i + 0 * 4 - place.tab, 4⟩ sst.tab = typeOf sst offs i :=
    word_at (by unfold posOf; omega)
  rw [propertyRound, if_pos more, Run.value_bind, cdfGetPropertyInfoPos_value wf table more,
    Option.bind_some]
  by_cases far : sectionEnd sst offs place < posOf sst offs place i
  · rw [if_pos far, if_pos (by omega), Run.value_pure]
  rw [if_neg far, Run.value_bind, cdfGetuint32_value, Option.bind_some, id, readProperty]
  by_cases short : sectionEnd sst offs place - posOf sst offs place i < 4
  · rw [if_pos short, if_pos (by omega), Run.value_pure]
  rw [if_neg short, Run.value_bind, cdfGetuint32_value, Option.bind_some, type, Nat.zero_add]
  by_cases vector : isVector sst offs i = true
  · have front : frontOf sst offs i = 8 := if_pos vector
    have count : word ⟨posOf sst offs place i + 1 * 4 - place.tab, 4⟩ sst.tab = elementsOf sst offs i := by
      rw [elementsOf, if_pos vector]
      exact word_at (by unfold posOf; omega)
    have flag : has (typeOf sst offs i) CDF_VECTOR = true := vector
    dsimp only
    rw [if_pos flag, front]
    by_cases few : sectionEnd sst offs place - posOf sst offs place i < 8
    · rw [if_pos few, if_pos (by omega), Run.value_pure]
    · rw [if_neg few, if_neg (by omega), Run.value_bind, cdfGetuint32_value, Option.bind_some, count,
        if_neg (by omega)]
      rfl
  · have front : frontOf sst offs i = 4 := if_neg vector
    have one : elementsOf sst offs i = 1 := if_neg vector
    have flag : ¬ has (typeOf sst offs i) CDF_VECTOR = true := vector
    dsimp only
    rw [if_neg flag, front, if_neg (by omega), one]
    rfl

end Round

/-! ### What a round leaves -/

section Members

variable (info : List Property)

@[simp] theorem setVal_length (i : Nat) (val : PiVal) : (setVal info i val).length = info.length :=
  List.length_modify ..

theorem setVal_ne {i k : Nat} (val : PiVal) (ne : i ≠ k) : (setVal info i val)[k]? = info[k]? :=
  List.getElem?_modify_ne _ _ ne

theorem setVal_self (i : Nat) (val : PiVal) :
    (setVal info i val)[i]? = info[i]?.map (fun property => { property with val := val }) :=
  List.getElem?_modify_eq _ _ _

theorem setVal_id (i k : Nat) (val : PiVal) :
    (setVal info i val)[k]?.map Property.id = info[k]?.map Property.id := by
  by_cases same : i = k
  · rw [← same, setVal_self, Option.map_map]
    rfl
  · rw [setVal_ne info val same]

variable {info}

/-- What the loop over the strings leaves alone, and how far it goes. -/
structure Kept (properties elements i : Nat) (info : List Property) (next : Nat × List Property) : Prop where
  next_eq : elements = 0 ∨ properties ≤ i → next.1 = i
  next_lt : 0 < elements → i < properties → i < next.1
  length : next.2.length = info.length
  before : ∀ k < i, next.2[k]? = info[k]?
  ids : ∀ k : Nat, next.2[k]?.map Property.id = info[k]?.map Property.id

theorem readStrings_kept {sst : Stream} {place : Place} {properties q left : Nat} (elements : Nat)
    {i o4 slen : Nat} {next : Nat × List Property}
    (h : (readStrings sst place properties 0 q left elements i o4 slen info).value = some (some next)) :
    Kept properties elements i info next := by
  induction elements generalizing i o4 slen info with
  | zero =>
      obtain rfl := Option.some.inj (Option.some.inj h)
      exact ⟨fun _ => rfl, fun pos => absurd pos (Nat.lt_irrefl 0), rfl, fun _ _ => rfl, fun _ => rfl⟩
  | succ elements ih =>
      rw [readStrings] at h
      by_cases more : i < properties
      · rw [if_pos more] at h
        by_cases short : o4 + 4 > left
        · rw [if_pos short] at h
          cases h
        rw [if_neg short, Run.value_bind, cdfGetuint32_value, Option.bind_some] at h
        split at h
        · cases h
        rw [Run.value_bind, Run.value_event, Option.bind_some, Nat.zero_add] at h
        have kept := ih h
        constructor
        · omega
        · intro _ _
          rcases Nat.eq_zero_or_pos elements with none | some
          · rw [kept.next_eq (.inl none)]
            omega
          · rcases Nat.lt_or_ge (i + 1) properties with again | last
            · have := kept.next_lt some again
              omega
            · rw [kept.next_eq (.inr last)]
              omega
        · exact kept.length.trans (setVal_length _ _ _)
        · intro k lt
          rw [kept.before k (by omega), setVal_ne _ _ (by omega)]
        · intro k
          rw [kept.ids k, setVal_id]
      · rw [if_neg more] at h
        obtain rfl := Option.some.inj (Option.some.inj h)
        exact ⟨fun _ => rfl, fun _ lt => absurd lt more, rfl, fun _ _ => rfl, fun _ => rfl⟩

end Members

section Went

variable {sst : Stream} {place : Place} {offs : Nat} {heap : Heap} {i : Nat} {info : List Property}

/-- What the `switch` of the source leaves in `pi_val` of a property, where it has a value. -/
structure Valued (sst : Stream) (offs : Nat) (place : Place) (i : Nat) (val : PiVal) : Prop where
  scalar : ∀ len, IsScalar sst offs i len → val = .num
    (if posOf sst offs place i + 4 + len ≤ sectionEnd sst offs place then scalarOf sst offs i len else 0)
  string : isString sst offs i = true → val =
    .str (posOf sst offs place i + frontOf sst offs i + 4) (strlenOf sst offs i)

/-- A round for a property that went on to another one. -/
structure Went (sst : Stream) (offs : Nat) (place : Place) (i : Nat) (info : List Property)
    (s : PropertyState) : Prop where
  fits : isString sst offs i = true →
    posOf sst offs place i + frontOf sst offs i + 4 + strlenOf sst offs i ≤ sectionEnd sst offs place
  own : ∃ val, s.info[i]? = some ⟨idOf sst offs i, typeOf sst offs i, val⟩ ∧ Valued sst offs place i val
  before : ∀ k < i, s.info[k]? = info[k]?
  ids : ∀ k, i < k → k < info.length → s.info[k]?.map Property.id = info[k]?.map Property.id
  length : info.length ≤ s.info.length
  length_eq : ¬ (isString sst offs i = true ∧ 1 < elementsOf sst offs i) → s.info.length = info.length
  next : s.i = i + 1 ∨ (isString sst offs i = true ∧ 1 < elementsOf sst offs i ∧
    i + 1 < shProperties sst offs ∧ i + 2 ≤ s.i)
  jumps : isString sst offs i = true → 1 < elementsOf sst offs i → i + 1 < shProperties sst offs →
    i + 2 ≤ s.i

theorem named_self {old : Property} (h : info[i]? = some old) :
    (named sst offs info i)[i]? = some ⟨idOf sst offs i, typeOf sst offs i, old.val⟩ := by
  rw [named, List.getElem?_modify_eq, h]
  rfl

theorem named_ne {k : Nat} (ne : i ≠ k) : (named sst offs info i)[k]? = info[k]? :=
  List.getElem?_modify_ne _ _ ne

@[simp] theorem named_length : (named sst offs info i).length = info.length := List.length_modify ..

/-- A property whose value is put into its own member. -/
theorem went_setVal {old : Property} (h : info[i]? = some old) {val : PiVal}
    (noString : isString sst offs i = false) (valued : Valued sst offs place i val) :
    Went sst offs place i info ⟨i + 1, setVal (named sst offs info i) i val⟩ where
  fits := fun string => absurd (noString.symm.trans string) Bool.false_ne_true
  own := ⟨val, by rw [setVal_self, named_self h]; rfl, valued⟩
  before := fun k lt => by rw [setVal_ne _ _ (by omega), named_ne (by omega)]
  ids := fun k lt _ => by rw [setVal_ne _ _ (by omega), named_ne (by omega)]
  length := by rw [setVal_length, named_length]
  length_eq := fun _ => by rw [setVal_length, named_length]
  next := .inl rfl
  jumps := fun string => absurd (noString.symm.trans string) Bool.false_ne_true

/-- A property without a value. -/
theorem went_named {old : Property} (h : info[i]? = some old)
    (noString : isString sst offs i = false) (valued : ∀ val, Valued sst offs place i val) :
    Went sst offs place i info ⟨i + 1, named sst offs info i⟩ where
  fits := fun string => absurd (noString.symm.trans string) Bool.false_ne_true
  own := ⟨old.val, named_self h, valued _⟩
  before := fun k lt => named_ne (by omega)
  ids := fun k lt _ => by rw [named_ne (by omega)]
  length := by rw [named_length]
  length_eq := fun _ => named_length
  next := .inl rfl
  jumps := fun string => absurd (noString.symm.trans string) Bool.false_ne_true

/-- Neither a string nor a single scalar. -/
theorem valued_of_none {val : PiVal} (noScalar : ∀ len, ¬ IsScalar sst offs i len)
    (noString : isString sst offs i = false) : Valued sst offs place i val where
  scalar := fun len scalar => absurd scalar (noScalar len)
  string := fun string => absurd (noString.symm.trans string) Bool.false_ne_true

theorem isString_eq_false (h : kind (typeOf sst offs i) ≠ .string) : isString sst offs i = false := by
  rw [isString, Bool.and_eq_false_iff]
  exact .inr (beq_eq_false_iff_ne.mpr h)

theorem not_isScalar (h : ∀ len, kind (typeOf sst offs i) ≠ .scalar len) (len : Nat) :
    ¬ IsScalar sst offs i len :=
  fun scalar => h len scalar.2.2

theorem cdfCopyInfo_value {len : Nat} (fits : posOf sst offs place i + 4 ≤ sectionEnd sst offs place)
    (near : sectionEnd sst offs place < 2 ^ 64) (vector : isVector sst offs i = false) :
    (cdfCopyInfo sst place (typeOf sst offs i) (posOf sst offs place i + 1 * 4)
        (sectionEnd sst offs place) len).value =
      some (if posOf sst offs place i + 4 + len ≤ sectionEnd sst offs place then
        some (scalarOf sst offs i len) else none) := by
  have flag : ¬ has (typeOf sst offs i) CDF_VECTOR = true := by
    rw [isVector] at vector
    rw [vector]
    exact Bool.false_ne_true
  have left : uN 64 ((sectionEnd sst offs place : Int) - (posOf sst offs place i + 1 * 4 : Nat)) =
      sectionEnd sst offs place - (posOf sst offs place i + 4) := by
    unfold uN
    omega
  have number : word ⟨posOf sst offs place i + 1 * 4 - place.tab, len⟩ sst.tab = scalarOf sst offs i len := by
    rw [scalarOf, posOf]
    congr 2
    omega
  rw [cdfCopyInfo, if_neg flag, left]
  by_cases room : posOf sst offs place i + 4 + len ≤ sectionEnd sst offs place
  · rw [if_neg (by omega), if_pos room, Run.value_bind, numberAt_value, number]
    rfl
  · rw [if_pos (by omega), if_neg room]
    rfl

/-- More members, with the old ones in place. -/
theorem grown_kept {n : Nat} {info' : List Property}
    (h : (if n > 1 then cdfGrowInfo heap info n else some info) = some info') :
    info.length ≤ info'.length ∧ ∀ k < info.length, info'[k]? = info[k]? := by
  split at h
  · unfold cdfGrowInfo at h
    split at h
    · cases h
    split at h
    · obtain rfl := Option.some.inj h
      refine ⟨by rw [List.length_append]; omega, ?_⟩
      intro k lt
      rw [List.getElem?_append_left lt]
    · cases h
  · obtain rfl := Option.some.inj h
    exact ⟨Nat.le_refl _, fun _ _ => rfl⟩

theorem front_cases (sst : Stream) (offs i : Nat) :
    frontOf sst offs i = 4 ∧ isVector sst offs i = false ∨ frontOf sst offs i = 8 ∧ isVector sst offs i = true := by
  unfold frontOf
  cases isVector sst offs i with
  | false => exact .inl ⟨rfl, rfl⟩
  | true => exact .inr ⟨rfl, rfl⟩

section Value

variable (start : posOf sst offs place i + frontOf sst offs i ≤ sectionEnd sst offs place)
  (more : i < shProperties sst offs)

include start more

/-- The first string of a vector, or the only one. -/
theorem readStrings_first (n : Nat) (info : List Property) :
    (readStrings sst place (shProperties sst offs) 0 (posOf sst offs place i)
        (sectionEnd sst offs place - posOf sst offs place i) (n + 1) i (frontOf sst offs i / 4 * 4)
        (frontOf sst offs i / 4) info).value =
      if sectionEnd sst offs place <
          posOf sst offs place i + frontOf sst offs i + 4 + strlenOf sst offs i then some none
      else
        let slen := frontOf sst offs i / 4 + (if strlenOf sst offs i % 2 = 1 then
          (strlenOf sst offs i + 1) % 2 ^ 32 else strlenOf sst offs i) / 2
        (readStrings sst place (shProperties sst offs) 0 (posOf sst offs place i)
          (sectionEnd sst offs place - posOf sst offs place i) n (i + 1) (slen * 4) slen
          (setVal info i (.str (posOf sst offs place i + frontOf sst offs i + 4) (strlenOf sst offs i)))).value := by
  have words : frontOf sst offs i / 4 * 4 = frontOf sst offs i := by
    have := front_cases sst offs i
    omega
  have length : word ⟨posOf sst offs place i + frontOf sst offs i / 4 * 4 - place.tab, 4⟩ sst.tab =
      strlenOf sst offs i := by
    rw [words]
    exact word_at (by unfold posOf; omega)
  rw [readStrings, if_pos more]
  by_cases short : frontOf sst offs i / 4 * 4 + 4 > sectionEnd sst offs place - posOf sst offs place i
  · rw [if_pos short, if_pos (by omega)]
    rfl
  rw [if_neg short, Run.value_bind, cdfGetuint32_value, Option.bind_some, length]
  by_cases far : frontOf sst offs i / 4 * 4 + 4 + strlenOf sst offs i >
      sectionEnd sst offs place - posOf sst offs place i
  · rw [if_pos far, if_pos (by omega)]
    rfl
  · have buf : posOf sst offs place i + (frontOf sst offs i / 4 * 4 + 4) =
        posOf sst offs place i + frontOf sst offs i + 4 := by omega
    have fits : ¬ sectionEnd sst offs place <
        posOf sst offs place i + frontOf sst offs i + 4 + strlenOf sst offs i := by omega
    rw [if_neg far, if_neg fits, Run.value_bind, Run.value_event, Option.bind_some, Nat.zero_add, buf]

variable {old : Property} (member : info[i]? = some old) {s : PropertyState}

/-- `readValue` of the property at `posOf`. -/
def valueRound (sst : Stream) (offs : Nat) (place : Place) (heap : Heap) (i : Nat) (info : List Property) :
    Run Span Round :=
  readValue sst place heap (shProperties sst offs) 0 (posOf sst offs place i) (sectionEnd sst offs place)
    (sectionEnd sst offs place - posOf sst offs place i) (typeOf sst offs i) (elementsOf sst offs i)
    (frontOf sst offs i / 4) ⟨i, info⟩ (named sst offs info i)

omit start more in
theorem valueRound_flagged (flagged : isPlain sst offs i = false) :
    (valueRound sst offs place heap i info).value =
      some (.inl ⟨i + 1, setVal (named sst offs info i) i (.num 0)⟩) := by
  rw [isPlain, Bool.not_eq_false'] at flagged
  rw [valueRound, readValue, if_pos flagged, nextWith, Nat.zero_add, Run.value_pure]

section Plain

variable (plain : isPlain sst offs i = true)

include plain

omit start more in
theorem not_flagged : ¬ has (typeOf sst offs i) (CDF_ARRAY ||| CDF_BYREF ||| CDF_RESERVED) = true := by
  rw [isPlain, Bool.not_eq_true'] at plain
  rw [plain]
  exact Bool.false_ne_true

omit start more in
theorem valueRound_nothing (h : kind (typeOf sst offs i) = .nothing) :
    (valueRound sst offs place heap i info).value = some (.inl ⟨i + 1, named sst offs info i⟩) := by
  rw [valueRound, readValue, if_neg (not_flagged plain), h]
  rfl

omit start more in
theorem valueRound_clipboard (h : kind (typeOf sst offs i) = .clipboard) :
    (valueRound sst offs place heap i info).value = some (.inl ⟨i + 1, if isVector sst offs i then
      setVal (named sst offs info i) i (.num 0) else named sst offs info i⟩) := by
  rw [valueRound, readValue, if_neg (not_flagged plain), h, isVector]
  dsimp only
  split
  · rw [nextWith, Nat.zero_add, Run.value_pure]
  · rw [Run.value_pure]

omit start more in
theorem valueRound_other (h : kind (typeOf sst offs i) = .other) :
    (valueRound sst offs place heap i info).value =
      some (.inl ⟨i + 1, setVal (named sst offs info i) i (.num 0)⟩) := by
  rw [valueRound, readValue, if_neg (not_flagged plain), h]
  dsimp only
  rw [nextWith, Nat.zero_add, Run.value_pure]

omit more in
theorem valueRound_scalar {len : Nat} (near : sectionEnd sst offs place < 2 ^ 64)
    (h : kind (typeOf sst offs i) = .scalar len) :
    (valueRound sst offs place heap i info).value =
      some (.inl ⟨i + 1, setVal (named sst offs info i) i (.num (if isVector sst offs i then 0
        else if posOf sst offs place i + 4 + len ≤ sectionEnd sst offs place then scalarOf sst offs i len
        else 0))⟩) := by
  rw [valueRound, readValue, if_neg (not_flagged plain), h]
  dsimp only
  rw [Run.value_bind]
  rcases front_cases sst offs i with ⟨front, single⟩ | ⟨front, vector⟩
  · rw [front] at start
    rw [front, cdfCopyInfo_value start near single, Option.bind_some, nextWith, Nat.zero_add,
      Run.value_pure, single, if_neg Bool.false_ne_true]
    congr 6
    split <;> rfl
  · have flag : has (typeOf sst offs i) CDF_VECTOR = true := vector
    rw [cdfCopyInfo, if_pos flag, Run.value_pure, Option.bind_some, nextWith, Nat.zero_add,
      Run.value_pure, vector, if_pos rfl, Option.getD_none]

omit start more in
theorem valueRound_string (h : kind (typeOf sst offs i) = .string) :
    (valueRound sst offs place heap i info).value =
      (if elementsOf sst offs i > 1 then cdfGrowInfo heap (named sst offs info i) (elementsOf sst offs i)
        else some (named sst offs info i)).elim (some (.inr none)) (fun info =>
          (readStrings sst place (shProperties sst offs) 0 (posOf sst offs place i)
            (sectionEnd sst offs place - posOf sst offs place i) (elementsOf sst offs i) i
            (frontOf sst offs i / 4 * 4) (frontOf sst offs i / 4) info).value.map (fun r =>
              r.elim (.inr none) (fun next => .inl ⟨next.1, next.2⟩))) := by
  rw [valueRound, readValue, if_neg (not_flagged plain), h]
  dsimp only
  generalize (if elementsOf sst offs i > 1 then
    cdfGrowInfo heap (named sst offs info i) (elementsOf sst offs i)
    else some (named sst offs info i)) = room
  cases room with
  | none => rfl
  | some info =>
      dsimp only
      rw [Run.value_bind, Option.elim_some]
      generalize (readStrings sst place (shProperties sst offs) 0 (posOf sst offs place i)
        (sectionEnd sst offs place - posOf sst offs place i) (elementsOf sst offs i) i
        (frontOf sst offs i / 4 * 4) (frontOf sst offs i / 4) info).value = r
      rcases r with _ | _ | next
      · rfl
      · rfl
      · rfl

end Plain

variable (elements : 0 < elementsOf sst offs i)

include elements

theorem valueRound_string_went {old : Property} (member : info[i]? = some old) {s : PropertyState}
    (string : isString sst offs i = true)
    (h : (valueRound sst offs place heap i info).value = some (.inl s)) :
    Went sst offs place i info s := by
  obtain ⟨plain, hkind⟩ := Bool.and_eq_true_iff.mp string
  obtain ⟨n, count⟩ : ∃ n, elementsOf sst offs i = n + 1 :=
    ⟨_, (Nat.succ_pred_eq_of_pos elements).symm⟩
  rw [valueRound_string plain (beq_iff_eq.mp hkind)] at h
  generalize hroom : (if elementsOf sst offs i > 1 then
    cdfGrowInfo heap (named sst offs info i) (elementsOf sst offs i)
    else some (named sst offs info i)) = room at h
  cases room with
  | none => cases h
  | some grown =>
      obtain ⟨length, same⟩ := grown_kept hroom
      rw [named_length] at length same
      have inside : i < info.length := (List.getElem?_eq_some_iff.mp member).1
      rw [Option.elim_some, count, readStrings_first start more n grown] at h
      by_cases far : sectionEnd sst offs place <
          posOf sst offs place i + frontOf sst offs i + 4 + strlenOf sst offs i
      · rw [if_pos far] at h
        cases h
      rw [if_neg far] at h
      obtain ⟨r, hr, hs⟩ := Option.map_eq_some_iff.mp h
      cases r with
      | none => cases hs
      | some next =>
          obtain rfl := Sum.inl.inj hs
          have kept := readStrings_kept n hr
          constructor
          · intro _
            exact Nat.le_of_not_lt far
          · refine ⟨.str (posOf sst offs place i + frontOf sst offs i + 4) (strlenOf sst offs i), ?_, ?_⟩
            · rw [kept.before i (Nat.lt_succ_self i), setVal_self, same i inside, named_self member]
              rfl
            · constructor
              · intro len scalar
                have kinds : Kind.string = .scalar len := (beq_iff_eq.mp hkind).symm.trans scalar.2.2
                cases kinds
              · intro _
                rfl
          · intro k lt
            rw [kept.before k (by omega), setVal_ne _ _ (by omega), same k (by omega),
              named_ne (by omega)]
          · intro k lt bound
            rw [kept.ids k, setVal_id, same k bound, named_ne (by omega)]
          · dsimp only
            rw [kept.length, setVal_length]
            exact length
          · intro single
            rw [if_neg (fun many => single ⟨string, many⟩)] at hroom
            obtain rfl := Option.some.inj hroom
            dsimp only
            rw [kept.length, setVal_length, named_length]
          · dsimp only
            rcases Nat.eq_zero_or_pos n with none | some
            · exact .inl (kept.next_eq (.inl none))
            · rcases Nat.lt_or_ge (i + 1) (shProperties sst offs) with again | last
              · exact .inr ⟨string, by omega, again, kept.next_lt some again⟩
              · exact .inl (kept.next_eq (.inr last))
          · intro _ many again
            exact kept.next_lt (by omega) again

variable (near : sectionEnd sst offs place < 2 ^ 64)

include near

theorem valueRound_went {old : Property} (member : info[i]? = some old) {s : PropertyState}
    (h : (valueRound sst offs place heap i info).value = some (.inl s)) :
    Went sst offs place i info s := by
  cases plain : isPlain sst offs i with
  | false =>
      have noString : isString sst offs i = false := by rw [isString, plain, Bool.false_and]
      have noScalar (len : Nat) : ¬ IsScalar sst offs i len :=
        fun scalar => absurd (plain.symm.trans scalar.1) Bool.false_ne_true
      rw [valueRound_flagged plain] at h
      obtain rfl := Sum.inl.inj (Option.some.inj h)
      exact went_setVal member noString (valued_of_none noScalar noString)
  | true =>
      cases hkind : kind (typeOf sst offs i) with
      | nothing =>
          have noString : isString sst offs i = false := isString_eq_false (by rw [hkind]; simp)
          have noScalar := @not_isScalar sst offs i (by rw [hkind]; simp)
          rw [valueRound_nothing plain hkind] at h
          obtain rfl := Sum.inl.inj (Option.some.inj h)
          exact went_named member noString (fun _ => valued_of_none noScalar noString)
      | clipboard =>
          have noString : isString sst offs i = false := isString_eq_false (by rw [hkind]; simp)
          have noScalar := @not_isScalar sst offs i (by rw [hkind]; simp)
          rw [valueRound_clipboard plain hkind] at h
          obtain rfl := Sum.inl.inj (Option.some.inj h)
          split
          · exact went_setVal member noString (valued_of_none noScalar noString)
          · exact went_named member noString (fun _ => valued_of_none noScalar noString)
      | other =>
          have noString : isString sst offs i = false := isString_eq_false (by rw [hkind]; simp)
          have noScalar := @not_isScalar sst offs i (by rw [hkind]; simp)
          rw [valueRound_other plain hkind] at h
          obtain rfl := Sum.inl.inj (Option.some.inj h)
          exact went_setVal member noString (valued_of_none noScalar noString)
      | scalar len =>
          have noString : isString sst offs i = false := isString_eq_false (by rw [hkind]; simp)
          rw [valueRound_scalar start plain near hkind] at h
          obtain rfl := Sum.inl.inj (Option.some.inj h)
          apply went_setVal member noString
          constructor
          · rintro len' ⟨_, single, same⟩
            obtain rfl : len = len' := Kind.scalar.inj (hkind.symm.trans same)
            rw [single, if_neg Bool.false_ne_true]
          · intro string
            exact absurd (noString.symm.trans string) Bool.false_ne_true
      | string =>
          have string : isString sst offs i = true := by rw [isString, plain, hkind]; rfl
          exact valueRound_string_went start more elements member string h

omit more elements in
/-- A property does not end the loop, unless it fails. -/
theorem valueRound_inr {r : Option (List Property)}
    (h : (valueRound sst offs place heap i info).value = some (.inr r)) : r = none := by
  cases plain : isPlain sst offs i with
  | false =>
      rw [valueRound_flagged plain] at h
      cases h
  | true =>
      cases hkind : kind (typeOf sst offs i) with
      | nothing =>
          rw [valueRound_nothing plain hkind] at h
          cases h
      | clipboard =>
          rw [valueRound_clipboard plain hkind] at h
          cases h
      | other =>
          rw [valueRound_other plain hkind] at h
          cases h
      | scalar len =>
          rw [valueRound_scalar start plain near hkind] at h
          cases h
      | string =>
          rw [valueRound_string plain hkind] at h
          generalize (if elementsOf sst offs i > 1 then
            cdfGrowInfo heap (named sst offs info i) (elementsOf sst offs i)
            else some (named sst offs info i)) = room at h
          cases room with
          | none => exact (Sum.inr.inj (Option.some.inj h)).symm
          | some grown =>
              obtain ⟨next, _, hnext⟩ := Option.map_eq_some_iff.mp h
              cases next with
              | none => exact (Sum.inr.inj hnext).symm
              | some next => cases hnext

/-- A property goes on where it is before the end. -/
theorem valueRound_goes (fits : isString sst offs i = true →
      posOf sst offs place i + frontOf sst offs i + 4 + strlenOf sst offs i ≤ sectionEnd sst offs place)
    (last : isString sst offs i = true → 1 < elementsOf sst offs i → i + 1 = shProperties sst offs)
    (grows : isString sst offs i = true → 1 < elementsOf sst offs i →
      (cdfGrowInfo heap (named sst offs info i) (elementsOf sst offs i)).isSome = true) :
    ∃ s, (valueRound sst offs place heap i info).value = some (.inl s) := by
  cases plain : isPlain sst offs i with
  | false => exact ⟨_, valueRound_flagged plain⟩
  | true =>
      cases hkind : kind (typeOf sst offs i) with
      | nothing => exact ⟨_, valueRound_nothing plain hkind⟩
      | clipboard => exact ⟨_, valueRound_clipboard plain hkind⟩
      | other => exact ⟨_, valueRound_other plain hkind⟩
      | scalar len => exact ⟨_, valueRound_scalar start plain near hkind⟩
      | string =>
          have string : isString sst offs i = true := by rw [isString, plain, hkind]; rfl
          obtain ⟨n, count⟩ : ∃ n, elementsOf sst offs i = n + 1 :=
            ⟨_, (Nat.succ_pred_eq_of_pos elements).symm⟩
          have room : ∃ grown, (if elementsOf sst offs i > 1 then
              cdfGrowInfo heap (named sst offs info i) (elementsOf sst offs i)
              else some (named sst offs info i)) = some grown := by
            split
            · exact Option.isSome_iff_exists.mp (grows string ‹_›)
            · exact ⟨_, rfl⟩
          obtain ⟨grown, hgrown⟩ := room
          rw [valueRound_string plain hkind, hgrown, Option.elim_some, count,
            readStrings_first start more n grown, if_neg (Nat.not_lt_of_le (fits string))]
          cases n with
          | zero => exact ⟨_, rfl⟩
          | succ n =>
              have ends : ¬ i + 1 < shProperties sst offs := by
                have := last string (by omega)
                omega
              dsimp only
              rw [readStrings, if_neg ends]
              exact ⟨_, rfl⟩

end Value

end Went

/-! ## All rounds -/

section Rounds

variable {sst : Stream} {place : Place} {offs : Nat} {heap : Heap}

/-- The member of a property whose bytes are before the end. -/
theorem Went.faithful {i : Nat} {info : List Property} {s : PropertyState}
    (went : Went sst offs place i info s) (reached : Reached sst offs place i) :
    ∃ property, s.info[i]? = some property ∧ Faithful sst offs place i property := by
  obtain ⟨val, own, valued⟩ := went.own
  refine ⟨_, own, rfl, rfl, ?_, ?_⟩
  · intro len scalar
    rw [valued.scalar len scalar]
    rcases reached.scalar len scalar with fits | zero
    · rw [if_pos (show posOf sst offs place i + 4 + len ≤ _ from fits)]
    · rw [zero, ite_self]
  · exact valued.string

/-- The loop of `cdf_read_property_info` for a section. -/
def rounds (sst : Stream) (offs : Nat) (place : Place) (heap : Heap) :
    Nat → PropertyState → Run Span (Option (List Property)) :=
  Run.loop (propertyRound sst place heap (shProperties sst offs) 0 (place.tab + (offs + 8))
    (sectionEnd sst offs place))

/-- The variable and the stream are two objects in the lower half of memory. -/
structure Apart (sst : Stream) (place : Place) : Prop where
  disjoint : place.sh + 8 ≤ place.tab ∨ place.tab + streamSize sst ≤ place.sh
  low : place.sh < 2 ^ 63

variable (wf : WellFormed sst offs) (apart : Apart sst place)

include wf apart

theorem sectionEnd_lt : sectionEnd sst offs place < 2 ^ 64 := by
  have low := apart.low
  have small : shLen sst offs < 2 ^ 63 := Nat.lt_of_le_of_lt wf.len_le (by decide)
  unfold sectionEnd
  omega

variable (table : place.tab + (offs + 8) < sectionEnd sst offs place)

include table

theorem round_went {i : Nat} {info : List Property} (more : i < shProperties sst offs)
    (length : shProperties sst offs ≤ info.length) {s : PropertyState}
    (h : (propertyRound sst place heap (shProperties sst offs) 0 (place.tab + (offs + 8))
      (sectionEnd sst offs place) ⟨i, info⟩).value = some (.inl s)) :
    posOf sst offs place i + frontOf sst offs i ≤ sectionEnd sst offs place ∧
      Went sst offs place i info s := by
  rw [propertyRound_value heap wf table more] at h
  by_cases far : sectionEnd sst offs place < posOf sst offs place i + frontOf sst offs i
  · rw [if_pos far] at h
    cases h
  · rw [if_neg far] at h
    have inside : i < info.length := by omega
    exact ⟨Nat.le_of_not_lt far, valueRound_went (Nat.le_of_not_lt far) more (wf.elements i more).1
      (sectionEnd_lt wf apart) (List.getElem?_eq_getElem inside) h⟩

/-- A loop that succeeds is at its end, or it goes on from another state. -/
theorem rounds_cases {k i : Nat} {info final : List Property}
    (length : shProperties sst offs ≤ info.length)
    (h : (rounds sst offs place heap (k + 1) ⟨i, info⟩).value = some (some final)) :
    (shProperties sst offs ≤ i ∧ final = info) ∨
    (i < shProperties sst offs ∧ ∃ s, (rounds sst offs place heap k s).value = some (some final) ∧
      posOf sst offs place i + frontOf sst offs i ≤ sectionEnd sst offs place ∧
      Went sst offs place i info s) := by
  rw [rounds, Run.value_loop_succ] at h
  obtain ⟨r, hr, h⟩ := Option.bind_eq_some_iff.mp h
  by_cases more : i < shProperties sst offs
  · cases r with
    | inl s => exact .inr ⟨more, s, h, round_went wf apart table more length hr⟩
    | inr result =>
        obtain rfl := Option.some.inj h
        rw [propertyRound_value heap wf table more] at hr
        by_cases far : sectionEnd sst offs place < posOf sst offs place i + frontOf sst offs i
        · rw [if_pos far] at hr
          cases hr
        · rw [if_neg far] at hr
          have failed := valueRound_inr (Nat.le_of_not_lt far) (sectionEnd_lt wf apart) hr
          cases failed
  · rw [propertyRound, if_neg more] at hr
    obtain rfl := Option.some.inj hr
    exact .inl ⟨Nat.le_of_not_lt more, (Option.some.inj (Option.some.inj h)).symm⟩

/-- Later rounds leave the members before theirs alone. -/
theorem rounds_before (k : Nat) {i : Nat} {info final : List Property}
    (length : shProperties sst offs ≤ info.length)
    (h : (rounds sst offs place heap k ⟨i, info⟩).value = some (some final)) :
    ∀ j < i, final[j]? = info[j]? := by
  induction k generalizing i info with
  | zero => cases h
  | succ k ih =>
      intro j lt
      rcases rounds_cases wf apart table length h with ⟨_, rfl⟩ | ⟨_, s, hs, _, went⟩
      · rfl
      · have further : i < s.i := by
          rcases went.next with next | ⟨_, _, _, next⟩ <;> omega
        rw [ih (Nat.le_trans length went.length) hs j (by omega), went.before j lt]

/-- What a loop that succeeds with the right members says about the properties that it starts
with. The members of those have other numbers before it. -/
theorem rounds_reached (k : Nat) {i : Nat} {info final : List Property}
    (length : shProperties sst offs ≤ info.length)
    (h : (rounds sst offs place heap k ⟨i, info⟩).value = some (some final))
    (fresh : ∀ j, i ≤ j → j < shProperties sst offs → ∀ property, info[j]? = some property →
      property.id ≠ idOf sst offs j)
    (faithful : ∀ j < shProperties sst offs, ∃ property, final[j]? = some property ∧
      Faithful sst offs place j property) :
    ∀ j, i ≤ j → j < shProperties sst offs → Reached sst offs place j ∧
      (isString sst offs j = true → 1 < elementsOf sst offs j → j + 1 = shProperties sst offs) := by
  induction k generalizing i info with
  | zero => cases h
  | succ k ih =>
      intro j le lt
      rcases rounds_cases wf apart table length h with ⟨ends, _⟩ | ⟨more, s, hs, start, went⟩
      · omega
      have length' := Nat.le_trans length went.length
      have kept := rounds_before wf apart table k length' hs
      -- a vector of strings that went on into the members of other properties left a wrong number
      have next : s.i = i + 1 := by
        rcases went.next with next | ⟨_, _, again, two⟩
        · exact next
        · exfalso
          obtain ⟨property, hproperty, good⟩ := faithful (i + 1) again
          rw [kept (i + 1) (by omega)] at hproperty
          have same := went.ids (i + 1) (Nat.lt_succ_self i) (by omega)
          rw [hproperty, Option.map_some] at same
          obtain ⟨old, hold, hid⟩ := Option.map_eq_some_iff.mp same.symm
          exact fresh (i + 1) (Nat.le_succ i) again old hold (hid.trans good.id)
      rcases Nat.eq_or_lt_of_le le with rfl | later
      · obtain ⟨val, own, valued⟩ := went.own
        obtain ⟨property, hproperty, good⟩ := faithful i lt
        rw [kept i (by omega), own] at hproperty
        obtain rfl := Option.some.inj hproperty
        constructor
        · constructor
          · exact start
          · exact went.fits
          · intro len scalar
            have stored : PiVal.num _ = PiVal.num _ :=
              (valued.scalar len scalar).symm.trans (good.scalar len scalar)
            by_cases fits : posOf sst offs place i + 4 + len ≤ sectionEnd sst offs place
            · exact .inl fits
            · rw [if_neg fits] at stored
              exact .inr (PiVal.num.inj stored).symm
        · intro string many
          rcases Nat.lt_or_ge (i + 1) (shProperties sst offs) with again | last
          · have := went.jumps string many again
            omega
          · omega
      · apply ih length' hs _ j (by omega) lt
        intro j' le' lt' property hproperty
        rw [next] at le'
        have same := went.ids j' (by omega) (by omega)
        rw [hproperty, Option.map_some] at same
        obtain ⟨old, hold, hid⟩ := Option.map_eq_some_iff.mp same.symm
        rw [← hid]
        exact fresh j' (by omega) lt' old hold

/-- A loop over properties that are before the end puts every one into its member. -/
theorem rounds_decode (reaches : Reaches sst offs place)
    (realloc : ∀ n ≤ CDF_PROP_LIMIT * propertySizeof, heap.realloc n = true) (d : Nat) {i : Nat}
    {info : List Property} (left : shProperties sst offs = i + d)
    (length : shProperties sst offs ≤ info.length)
    (length_eq : 0 < d → info.length = shProperties sst offs)
    (done : ∀ j < i, ∃ property, info[j]? = some property ∧ Faithful sst offs place j property) :
    ∃ final, (rounds sst offs place heap (d + 1) ⟨i, info⟩).value = some (some final) ∧
      ∀ j < shProperties sst offs, ∃ property, final[j]? = some property ∧
        Faithful sst offs place j property := by
  induction d generalizing i info with
  | zero =>
      rw [Nat.add_zero] at left
      refine ⟨info, ?_, left ▸ done⟩
      rw [rounds, Run.value_loop_succ, propertyRound, if_neg (by dsimp only; omega)]
      rfl
  | succ d ih =>
      have more : i < shProperties sst offs := by omega
      have reached := reaches.values i more
      have room : info.length = shProperties sst offs := length_eq (Nat.succ_pos d)
      have grows : 1 < elementsOf sst offs i →
          (cdfGrowInfo heap (named sst offs info i) (elementsOf sst offs i)).isSome = true := by
        intro _
        have limit := wf.grown i more
        rw [cdfGrowInfo, named_length, room, if_neg (by omega),
          if_pos (realloc _ (Nat.mul_le_mul_right _ limit))]
        rfl
      have start : posOf sst offs place i + frontOf sst offs i ≤ sectionEnd sst offs place := reached.front
      obtain ⟨s, hs⟩ : ∃ s, (valueRound sst offs place heap i info).value = some (.inl s) :=
        valueRound_goes start more (wf.elements i more).1 (sectionEnd_lt wf apart) reached.string
          (reaches.last i more) (fun _ => grows)
      have round : (propertyRound sst place heap (shProperties sst offs) 0 (place.tab + (offs + 8))
          (sectionEnd sst offs place) ⟨i, info⟩).value = some (.inl s) := by
        rw [propertyRound_value heap wf table more, if_neg (Nat.not_lt_of_le start)]
        exact hs
      have went := (round_went wf apart table more length round).2
      have next : s.i = i + 1 := by
        rcases went.next with next | ⟨string, many, again, _⟩
        · exact next
        · have := reaches.last i more string many
          omega
      have all : ∀ j < s.i, ∃ property, s.info[j]? = some property ∧
          Faithful sst offs place j property := by
        intro j lt
        rcases Nat.lt_or_ge j i with before | own
        · rw [went.before j before]
          exact done j before
        · obtain rfl : i = j := by omega
          exact went.faithful reached
      have single : 0 < d → s.info.length = shProperties sst offs := by
        intro again
        rw [went.length_eq (fun many => absurd (reaches.last i more many.1 many.2) (by omega)), room]
      obtain ⟨final, hfinal, good⟩ := ih (by omega) (Nat.le_trans length went.length) single all
      refine ⟨final, ?_, good⟩
      rw [rounds, Run.value_loop_succ, round, Option.bind_some, Sum.elim_inl]
      exact hfinal

end Rounds

/-! ## The whole routine -/

section Whole

variable {sst : Stream} {place : Place} {offs : Nat} {heap : Heap} (wf : WellFormed sst offs)

/-- The members as `realloc` leaves them. -/
def freshInfo (heap : Heap) (n : Nat) : List Property := (List.range n).map heap.fresh

theorem freshInfo_length (heap : Heap) (n : Nat) : (freshInfo heap n).length = n := by
  rw [freshInfo, List.length_map, List.length_range]

include wf

theorem cdfReadPropertyInfo_value
    (realloc : ∀ n ≤ CDF_PROP_LIMIT * propertySizeof, heap.realloc n = true) :
    (cdfReadPropertyInfo sst place heap offs [] 0).value =
      if cdfCheckStreamOffset sst place place.sh (shLen sst offs) = true ∧
          place.tab + (offs + 8) < sectionEnd sst offs place then
        (rounds sst offs place heap (shProperties sst offs + 1)
          ⟨0, freshInfo heap (shProperties sst offs)⟩).value.map
            (Option.map (fun info => (info, shProperties sst offs)))
      else some none := by
  have inside := wf.inside
  have entries := wf.table
  have header : cdfCheckStreamOffset sst place (place.tab + offs) 8 = true := by
    rw [cdfCheckStreamOffset, Bool.and_eq_true, decide_eq_true_iff, decide_eq_true_iff]
    omega
  have length : word ⟨place.tab + offs - place.tab, 4⟩ sst.tab = shLen sst offs := word_at (by omega)
  have count : word ⟨place.tab + offs + 4 - place.tab, 4⟩ sst.tab = shProperties sst offs :=
    word_at (by omega)
  have grown : cdfGrowInfo heap [] (shProperties sst offs) = some (freshInfo heap (shProperties sst offs)) := by
    rw [cdfGrowInfo, List.length_nil, Nat.zero_add, if_neg (Nat.not_lt_of_le wf.count),
      if_pos (realloc _ (Nat.mul_le_mul_right _ wf.count)), List.nil_append]
    simp only [Nat.zero_add, freshInfo]
  rw [cdfReadPropertyInfo, if_neg (Nat.not_lt_of_le wf.offs_le), header, Bool.not_true,
    if_neg Bool.false_ne_true, Run.value_bind, numberAt_value, Option.bind_some, length, Run.value_bind,
    numberAt_value, Option.bind_some, count, if_neg (Nat.not_lt_of_le wf.len_le), readProperties]
  cases ends : cdfCheckStreamOffset sst place place.sh (shLen sst offs) with
  | false =>
      have refused : ¬ (false = true ∧ place.tab + (offs + 8) < sectionEnd sst offs place) :=
        fun both => absurd both.1 Bool.false_ne_true
      rw [Bool.not_false, if_pos rfl, if_neg refused]
      rfl
  | true =>
      have behind : cdfCheckStreamOffset sst place (place.sh + shLen sst offs) 0 = true := ends
      rw [Bool.not_true, if_neg Bool.false_ne_true, if_neg (Nat.not_lt_of_le wf.count), grown]
      dsimp only
      rw [behind]
      by_cases table : place.tab + (offs + 8) < sectionEnd sst offs place
      · have before : ¬ (place.tab + (offs + 8) ≥ place.sh + shLen sst offs ∨ (!true) = true) := by
          rintro (past | none)
          · exact absurd table (Nat.not_lt_of_le past)
          · cases none
        rw [if_neg before, if_pos ⟨rfl, table⟩, Run.value_bind, Nat.zero_add]
        change (rounds sst offs place heap (shProperties sst offs + 1) _).value.bind _ = _
        cases (rounds sst offs place heap (shProperties sst offs + 1)
          ⟨0, freshInfo heap (shProperties sst offs)⟩).value <;> rfl
      · rw [if_pos (.inl (Nat.le_of_not_lt table)), if_neg (fun both => table both.2)]
        rfl

variable (apart : Apart sst place)

include apart

theorem decodes_of_reaches (reaches : Reaches sst offs place) : Decodes sst offs place := by
  intro heap realloc
  have table : place.tab + (offs + 8) < sectionEnd sst offs place := by
    have := reaches.table
    omega
  have ends : cdfCheckStreamOffset sst place place.sh (shLen sst offs) = true := by
    have inside := wf.inside
    have front := reaches.front
    have disjoint := apart.disjoint
    unfold sectionEnd at table
    rw [cdfCheckStreamOffset, Bool.and_eq_true, decide_eq_true_iff, decide_eq_true_iff]
    omega
  have length := freshInfo_length heap (shProperties sst offs)
  obtain ⟨final, hfinal, good⟩ := rounds_decode wf apart table reaches realloc (shProperties sst offs)
    (Nat.zero_add _).symm (Nat.le_of_eq length.symm) (fun _ => length)
    (fun j lt => absurd lt (Nat.not_lt_zero j))
  refine ⟨final, ?_, good⟩
  rw [cdfReadPropertyInfo_value wf realloc, if_pos ⟨ends, table⟩, hfinal]
  rfl

/-- New memory in which no member has the number of its property. -/
def otherHeap (sst : Stream) (offs : Nat) : Heap := ⟨fun _ => true, fun k => ⟨idOf sst offs k + 1, 0, .untouched⟩⟩

theorem reaches_of_decodes (decodes : Decodes sst offs place) : Reaches sst offs place := by
  obtain ⟨info, hinfo, good⟩ := decodes (otherHeap sst offs) (fun _ _ => rfl)
  rw [cdfReadPropertyInfo_value wf (fun _ _ => rfl)] at hinfo
  split at hinfo
  · rename_i both
    have bounds := checked both.1
    obtain ⟨r, hr, hmap⟩ := Option.map_eq_some_iff.mp hinfo
    obtain ⟨final, rfl, hfinal⟩ := Option.map_eq_some_iff.mp hmap
    obtain ⟨rfl, _⟩ := Prod.mk.inj hfinal
    have length := freshInfo_length (otherHeap sst offs) (shProperties sst offs)
    have reached := rounds_reached wf apart both.2 _ (Nat.le_of_eq length.symm) hr
      (by
        intro j _ lt property hproperty
        rw [freshInfo, List.getElem?_map, List.getElem?_range lt, Option.map_some] at hproperty
        obtain rfl := Option.some.inj hproperty
        exact Nat.succ_ne_self _)
      good
    constructor
    · have disjoint := apart.disjoint
      have entries := wf.table
      omega
    · have := both.2
      omega
    · intro i lt
      exact (reached i (Nat.zero_le i) lt).1
    · intro i lt
      exact (reached i (Nat.zero_le i) lt).2
  · cases hinfo

end Whole

/-- What the routine reads and stores is in the stream, whatever the stream has. A section that
lies inside the stream is decoded just when the variable `sh` is in front of the stream, so near
that its properties are before `sh.sh_len` bytes behind it, and no property is behind a vector of
strings. -/
theorem property_info_iff (sst : Stream) (place : Place) (offs : Nat) :
    (∀ (heap : Heap) (info : List Property) (count : Nat),
      ∀ span ∈ (cdfReadPropertyInfo sst place heap offs info count).events,
        place.tab ≤ span.addr ∧ span.addr + span.len ≤ place.tab + streamSize sst) ∧
    (WellFormed sst offs → Apart sst place → (Decodes sst offs place ↔ Reaches sst offs place)) := by
  constructor
  · intro heap info count
    exact (meets_cdfReadPropertyInfo heap offs info count).allowed
  · intro wf apart
    exact ⟨reaches_of_decodes wf apart, decodes_of_reaches wf apart⟩

/-- A sector of 64 bytes with a section of 40 bytes, whose only property is the number 42. -/
def oneNumber : Stream where
  tab := [40, 0, 0, 0, 1, 0, 0, 0, 2, 0, 0, 0, 16, 0, 0, 0, 3, 0, 0, 0, 42, 0, 0, 0] ++ List.replicate 40 0
  len := 1
  dirlen := 64
  ss := 64

theorem oneNumber_count : shProperties oneNumber 0 = 1 := by
  decide

theorem oneNumber_scalar {i len : Nat} (lt : i < shProperties oneNumber 0)
    (scalar : IsScalar oneNumber 0 i len) : i = 0 ∧ len = 4 := by
  rw [oneNumber_count, Nat.lt_one_iff] at lt
  subst lt
  have four : kind (typeOf oneNumber 0 0) = .scalar 4 := by decide
  exact ⟨rfl, (Kind.scalar.inj (four.symm.trans scalar.2.2)).symm⟩

theorem oneNumber_wellFormed : WellFormed oneNumber 0 where
  offs_le := by decide
  len_le := by decide
  inside := by decide
  table := by decide
  ofs := by decide
  scalar := by
    intro i lt len scalar
    obtain ⟨rfl, rfl⟩ := oneNumber_scalar lt scalar
    decide
  string := by decide
  elements := by decide
  count := by decide
  grown := by decide

/-- The stream is on the heap, and the stack is above it. -/
def stackAbove : Place := ⟨0x555555559000, 0x7fffffffe000⟩

/-- The stream is right behind the variable. -/
def stackBelow : Place := ⟨0x1010, 0x1000⟩

theorem stackBelow_reaches : Reaches oneNumber 0 stackBelow where
  front := by decide
  table := by decide
  values := by
    intro i lt
    refine ⟨?_, ?_, ?_⟩
    · revert i
      decide
    · revert i
      decide
    · intro len scalar
      obtain ⟨rfl, rfl⟩ := oneNumber_scalar lt scalar
      exact .inl (by decide)
  last := by decide

theorem property_info_stackBelow :
    (WellFormed oneNumber 0 ∧ Apart oneNumber stackBelow) ∧ Decodes oneNumber 0 stackBelow := by
  have apart : Apart oneNumber stackBelow := ⟨.inl (by decide), by decide⟩
  exact ⟨⟨oneNumber_wellFormed, apart⟩,
    ((property_info_iff oneNumber stackBelow 0).2 oneNumber_wellFormed apart).mpr stackBelow_reaches⟩

theorem property_info_stackAbove :
    WellFormed oneNumber 0 ∧ Apart oneNumber stackAbove ∧ ¬ Decodes oneNumber 0 stackAbove := by
  refine ⟨oneNumber_wellFormed, ⟨.inr (by decide), by decide⟩, ?_⟩
  intro decodes
  obtain ⟨info, success, _⟩ := decodes ⟨fun _ => true, fun _ => ⟨0, 0, .untouched⟩⟩ (fun _ _ => rfl)
  have failed : (cdfReadPropertyInfo oneNumber stackAbove
      ⟨fun _ => true, fun _ => ⟨0, 0, .untouched⟩⟩ 0 [] 0).value = some none := by
    decide +kernel
  rw [failed] at success
  cases success

end Libmagic.Cdf
