import Libmagic.Apprentice.Getstr
import Libmagic.Softmagic.Enough
import Libmagic.Softmagic.Search

/-!
# Tests of Pascal strings

A line `pstring =V` compares as many bytes as `getstr` counted: the text, and as many zeros as
the length has bytes. `mconvert` leaves one NUL behind the text, so that what is compared behind
it is what the union had there before the text was moved.
-/
namespace Libmagic.Softmagic

open Apprentice (getstr getstrText getstr_pstring)

/-- A line `pstring =` before its value is read. -/
structure PstringEq (line : Magic) (form : Nat × Order) : Prop where
  type : line.type = .pstring
  reln : line.reln = .eq
  range : line.strRange = 0
  fresh : line.value = .zero
  form : line.lengthForm = some form
  lower : has line.strFlags STRING_IGNORE_LOWERCASE = false
  upper : has line.strFlags STRING_IGNORE_UPPERCASE = false
  compact : has line.strFlags STRING_COMPACT_WHITESPACE = false
  optional : has line.strFlags STRING_COMPACT_OPTIONAL_WHITESPACE = false
  word : has line.strFlags STRING_FULL_WORD = false

/-- What `mget` and `magiccheck` make of the bytes at an offset; `v` is what the union held before. -/
def pstringTest (host : Host) (flags regexMax : Nat) (m : Magic) (flip : Bool) (bb : Window) (offset : Nat)
    (v : Value) (search : Search) (io : Io) : Bool :=
  let c := mcopy regexMax v search host m.type false bb offset (flen bb) m
  let r := mconvert host m flip c.1 io
  enoughData m (flen bb) offset && (r.1 && (magiccheck host flags m r.2.1 c.2 r.2.2).matched == some true)

/-- The bytes begin with a length that declares the text, and with the text. -/
structure Pascal (m : Magic) (form : Nat × Order) (text bs : Bytes) : Prop where
  length : declared m form bs = text.length
  inside : form.1 + text.length ≤ bs.length
  text : (bs.drop form.1).take text.length = text

/-! ## The comparison -/

theorem strncmpFlags_plain {line : Magic} {form : Nat × Order} (h : PstringEq line form) (len : Nat) (a b : Bytes) :
    strncmpFlags line.strFlags len a b len = strncmpFast len a b := by
  induction len generalizing a b with
  | zero => rw [strncmpFlags, strncmpFast, h.word, Bool.false_and, Bool.false_and, if_neg Bool.false_ne_true]
  | succ len ih =>
      rw [strncmpFlags, strncmpFast, if_neg (Nat.succ_ne_zero len), Nat.add_sub_cancel]
      simp only [h.lower, h.upper, h.compact, h.optional, Bool.false_and, Bool.false_eq_true, if_false, ih]

theorem fileStrncmp_plain {line : Magic} {form : Nat × Order} (h : PstringEq line form) (len maxlen : Nat)
    (a b : Bytes) : fileStrncmp a b len maxlen line.strFlags = strncmpFast len a b := by
  have ws : has line.strFlags (STRING_COMPACT_WHITESPACE ||| STRING_COMPACT_OPTIONAL_WHITESPACE) = false := by
    have compact := h.compact
    have optional := h.optional
    simp only [has, bne_eq_false_iff_eq] at compact optional ⊢
    rw [Nat.and_or_distrib_left, compact, optional]
    rfl
  rw [fileStrncmp, ws]
  simp only [Bool.false_eq_true, if_false]
  split_ifs
  · rfl
  · exact strncmpFlags_plain h len a b

theorem uN_eq_zero {z : Int} (low : -255 ≤ z) (high : z ≤ 255) : uN 64 z = 0 ↔ z = 0 := by
  rw [uN]
  omega

theorem take_eq_iff {a b : Bytes} {n : Nat} (ha : n ≤ a.length) (hb : n ≤ b.length) :
    a.take n = b.take n ↔ ∀ i, i < n → a.getD i 0 = b.getD i 0 := by
  constructor
  · intro same i lt
    have at' := congrArg (fun l => l.getD i 0) same
    simpa only [List.getD_eq_getElem?_getD, List.getElem?_take_of_lt lt] using at'
  · intro same
    apply ext_getD
    · rw [List.length_take, List.length_take]
      omega
    · intro i
      by_cases lt : i < n
      · simpa only [List.getD_eq_getElem?_getD, List.getElem?_take_of_lt lt] using same i lt
      · rw [List.getD_eq_default _ _ (by rw [List.length_take]; omega),
          List.getD_eq_default _ _ (by rw [List.length_take]; omega)]

theorem magiccheck_pstring {line m : Magic} {form : Nat × Order} (h : PstringEq line form)
    (type : m.type = line.type) (reln : m.reln = line.reln) (strFlags : m.strFlags = line.strFlags)
    (short : m.vallen ≤ 128) (host : Host) (flags : Nat) (v : Value) (search : Search) (io : Io) :
    (magiccheck host flags m v search io).matched = some true ↔
      ∀ i, i < m.vallen → v.bytes.getD i 0 = m.value.bytes.getD i 0 := by
  have bounds := strncmpFast_bounds m.vallen m.value.bytes v.bytes
  have size := v.size
  have size' := m.value.size
  have same := @take_eq_iff m.value.bytes v.bytes m.vallen (by omega) (by omega)
  have value (x : Nat) : fileSignextend m x = x := by
    simp only [fileSignextend, type, h.type]
    split_ifs <;> rfl
  have run : (magiccheck host flags m v search io).matched =
      some (uN 64 (fileStrncmp m.value.bytes v.bytes m.vallen 128 m.strFlags) == 0) := by
    rw [magiccheck, type, h.type]
    simp only [compareInt, reln, h.reln, value]
  rw [run, strFlags, fileStrncmp_plain h, Option.some.injEq, beq_iff_eq, uN_eq_zero bounds.1 bounds.2,
    strncmpFast_eq_zero (by omega) (by omega), same]
  exact ⟨fun eq i lt => (eq i lt).symm, fun eq i lt => (eq i lt).symm⟩

/-! ## The whole test -/

theorem mcopy_pstring {m : Magic} (type : m.type = .pstring) (range : m.strRange = 0) (regexMax : Nat) (v : Value)
    (search : Search) (host : Host) (bb : Window) (offset nbytes : Nat) :
    mcopy regexMax v search host m.type false bb offset nbytes m = (fieldValue bb offset nbytes, search) := by
  rw [← fieldValue_copied, type]
  unfold mcopy
  rw [range]
  rfl

theorem zero_getD (i : Nat) : Value.zero.bytes.getD i 0 = 0 := by
  change (List.replicate 128 (0 : UInt8)).getD i 0 = 0
  rw [List.getD_eq_getElem?_getD, List.getElem?_replicate]
  split_ifs <;> rfl

theorem fieldValue_getD (bb : Window) (offset : Nat) {i : Nat} (lt : i < 128) :
    (fieldValue bb offset (flen bb)).bytes.getD i 0 = ((bb.getD []).drop offset).getD i 0 := by
  have length : ((bb.getD []).drop offset).length = flen bb - offset := List.length_drop
  rw [fieldValue]
  split_ifs with beyond
  · rw [zero_getD, List.getD_eq_default _ _ (by omega)]
  · rw [Value.write_getD _ _ lt, getD_take_drop, zero_getD, List.length_take, length, getD_drop]
    split_ifs <;> try rfl
    · omega
    · rw [List.getD_eq_default _ _ (by change flen bb ≤ _; omega)]

theorem mconvert_moves {m : Magic} {form : Nat × Order} (type : m.type = .pstring) (known : m.lengthForm = some form)
    (host : Host) (flip : Bool) (v : Value) (io : Io) :
    ((mconvert host m flip v io).1 = false ∧ declared m form v.bytes = -1) ∨
      ((mconvert host m flip v io).1 = true ∧ declared m form v.bytes ≠ -1 ∧
        Moved form.1 (movedLength m form v.bytes) v.bytes (mconvert host m flip v io).2.1.bytes) := by
  obtain ⟨_, _, ret, value, post⟩ := @pstringConvert_meets m v.bytes 0 form known v.size
  rw [mconvert_pstring host type flip v io] at value
  have same := Option.some.inj value
  by_cases accepted : (mconvert host m flip v io).1 = true
  · rw [if_pos accepted] at same
    rcases post with ⟨_, rfl⟩ | ⟨good, mem', rfl, moved⟩
    · cases same
    · obtain rfl := Option.some.inj same
      exact .inr ⟨accepted, good, moved⟩
  · rw [if_neg accepted] at same
    rcases post with ⟨bad, _⟩ | ⟨_, mem', rfl, _⟩
    · exact .inl ⟨Bool.eq_false_iff.mpr accepted, bad⟩
    · cases same

/-- What is at an index of the union behind the length was taken away. -/
def movedByte (m : Magic) (form : Nat × Order) (bs : Bytes) (i : Nat) : UInt8 :=
  if i < movedLength m form bs then bs.getD (form.1 + i) 0
  else if i = movedLength m form bs then 0
  else bs.getD i 0

/-- The bytes that are taken for the text. -/
structure Taken (m : Magic) (form : Nat × Order) (text bs : Bytes) : Prop where
  inside : form.1 + text.length ≤ bs.length
  accepted : declared m form bs ≠ -1
  bytes : ∀ i, i < form.1 + text.length → movedByte m form bs i = text.getD i 0

theorem pstringTest_iff {line m : Magic} {form : Nat × Order} (h : PstringEq line form) {s rest : Bytes}
    (read : getstr line s = some (m, rest)) :
    ∃ text, getstrText s = some (text, rest) ∧ form.1 + text.length ≤ 128 ∧
      ∀ host flags regexMax flip bb offset v search io,
        pstringTest host flags regexMax m flip bb offset v search io = true ↔
          Taken line form text ((bb.getD []).drop offset) := by
  obtain ⟨text, found, short, _, rfl⟩ := getstr_pstring h.type h.form read
  refine ⟨text, found, by omega, fun host flags regexMax flip bb offset v search io => ?_⟩
  have width := lengthForm_size h.form
  let bs := (bb.getD []).drop offset
  let raw := fieldValue bb offset (flen bb)
  have size := raw.size
  have bytes : ∀ {i}, i < 128 → raw.bytes.getD i 0 = bs.getD i 0 := fieldValue_getD bb offset
  let m : Magic := { line with value := line.value.write 0 (text ++ [0]), vallen := text.length + form.1 }
  have copied := @mcopy_pstring m h.type h.range regexMax v search host bb offset (flen bb)
  have value : ∀ {i}, i < 128 → m.value.bytes.getD i 0 = text.getD i 0 := by
    intro i lt
    change (line.value.write 0 (text ++ [0])).bytes.getD i 0 = text.getD i 0
    have whole := @getD_text text 0 text.length (by omega) i
    rw [List.drop_zero, List.take_length, Nat.zero_add] at whole
    rw [h.fresh, Value.write_getD _ _ lt, whole, zero_getD, List.length_append, List.length_singleton]
    split_ifs <;> first | rfl | omega | rw [List.getD_eq_default _ _ (by omega)]
  have enough : enoughData m (flen bb) offset = true ↔ form.1 + text.length ≤ bs.length := by
    have length : bs.length = flen bb - offset := List.length_drop
    have run : enoughData m (flen bb) offset = !offsetOob (flen bb) offset (text.length + form.1) := by
      simp only [enoughData, m, h.type]
    rw [run, offsetOob_eq, length, Bool.not_eq_true', decide_eq_false_iff_not]
    omega
  have checked (v : Value) (io : Io) :
      ((magiccheck host flags m v search io).matched == some true) = true ↔
        ∀ i, i < text.length + form.1 → v.bytes.getD i 0 = m.value.bytes.getD i 0 := by
    rw [beq_iff_eq]
    exact @magiccheck_pstring line m form h rfl rfl rfl short host flags v search io
  -- with enough data the length is read from the buffer
  have field (inside : form.1 + text.length ≤ bs.length) : lengthField form raw.bytes = lengthField form bs := by
    rw [lengthField, lengthField]
    congr 1
    exact (take_eq_iff (by omega) (by omega)).mpr (fun i lt => bytes (by omega))
  have test : pstringTest host flags regexMax m flip bb offset v search io = true ↔
      enoughData m (flen bb) offset = true ∧ (mconvert host m flip raw io).1 = true ∧
        ((magiccheck host flags m (mconvert host m flip raw io).2.1 search (mconvert host m flip raw io).2.2).matched
          == some true) = true := by
    rw [pstringTest, copied, Bool.and_eq_true, Bool.and_eq_true]
  -- what `mconvert` leaves, as far as the buffer goes
  have converted (inside : form.1 + text.length ≤ bs.length) :
      ((mconvert host m flip raw io).1 = false ∧ declared line form bs = -1) ∨
        ((mconvert host m flip raw io).1 = true ∧ declared line form bs ≠ -1 ∧
          ∀ i, i < 128 → (mconvert host m flip raw io).2.1.bytes.getD i 0 = movedByte line form bs i) := by
    have same : declared line form raw.bytes = declared line form bs := by
      rw [declared, declared, field inside]
    have len : movedLength line form raw.bytes = movedLength line form bs := by
      rw [movedLength, movedLength, same]
    have le := @movedLength_le line bs form
    rcases @mconvert_moves m form h.type h.form host flip raw io with ⟨refused, bad⟩ | ⟨accepted, good, moved⟩
    · exact .inl ⟨refused, same.symm.trans bad⟩
    · refine .inr ⟨accepted, fun bad => good (same.trans bad), fun i lt => ?_⟩
      have here := moved.bytes i
      change _ = if i < movedLength line form raw.bytes then _ else if i = movedLength line form raw.bytes then _ else _
        at here
      rw [here, movedByte, len]
      split_ifs
      · exact bytes (by omega)
      · rfl
      · exact bytes lt
  rw [test, enough, checked]
  constructor
  · rintro ⟨inside, accepts, same⟩
    rcases converted inside with ⟨refused, _⟩ | ⟨_, good, moved⟩
    · rw [refused] at accepts
      cases accepts
    · refine ⟨inside, good, fun i lt => ?_⟩
      rw [← moved i (by omega), same i (by omega), value (by omega)]
  · rintro ⟨inside, good, same⟩
    rcases converted inside with ⟨_, bad⟩ | ⟨accepted, _, moved⟩
    · exact absurd bad good
    · refine ⟨inside, accepted, fun i lt => ?_⟩
      rw [moved i (by omega), same i (by omega), value (by omega)]

/-! ## Where the test goes wrong -/

section Confusion

variable {line : Magic} {form : Nat × Order} {text bs bs' : Bytes}

/-- The bytes are the same up to the end of the string that is declared. -/
def SameString (line : Magic) (form : Nat × Order) (bs bs' : Bytes) : Prop :=
  bs.take (form.1 + (declared line form bs).toNat) = bs'.take (form.1 + (declared line form bs).toNat)

/-- The strings that the test takes for another one, or that it can take for another one by what is
behind them. -/
inductive Confused (line : Magic) (form : Nat × Order) (text bs : Bytes) : Prop
  /-- The string of the test: what is left of it behind the text is compared with zeros. -/
  | missed (pascal : Pascal line form text bs) (i : Nat) (behind : text.length < i)
      (compared : i < form.1 + text.length) (other : bs.getD i 0 ≠ 0)
  /-- A longer string: the text with zeros behind it. -/
  | longer (more : (text.length : Int) < declared line form bs) (inside : form.1 + text.length ≤ bs.length)
      (begins : ∀ i, i < text.length → bs.getD (form.1 + i) 0 = text.getD i 0)
      (zeros : ∀ i, text.length ≤ i → i < form.1 + text.length → i < movedLength line form bs →
        bs.getD (form.1 + i) 0 = 0)
      (behind : ∀ i, movedLength line form bs < i → i < form.1 + text.length → bs.getD i 0 = 0)
  /-- A length that wraps declares no string, but the union is filled from behind it. -/
  | wrapped (below : declared line form bs < -1) (inside : form.1 ≤ bs.length)
      (zeros : ∀ i, 128 - form.1 < i → i < form.1 + text.length → text.getD (i - form.1) 0 = 0)
  /-- A shorter string, where the text has a NUL. -/
  | shorter (n : Nat) (less : declared line form bs = n) (shorter : n < text.length)
      (inside : form.1 + n ≤ bs.length) (begins : ∀ i, i < n → bs.getD (form.1 + i) 0 = text.getD i 0)
      (nul : text.getD n 0 = 0) (behind : ∀ i, n < i → i < form.1 + n → bs.getD i 0 = text.getD i 0)

theorem SameString.declares (same : SameString line form bs bs') :
    declared line form bs' = declared line form bs := by
  have front := congrArg (List.take form.1) same
  rw [List.take_take, List.take_take, Nat.min_eq_left (Nat.le_add_right _ _)] at front
  rw [declared, declared, lengthField, lengthField, front]

theorem SameString.byte (same : SameString line form bs bs') {i : Nat}
    (lt : i < form.1 + (declared line form bs).toNat) : bs.getD i 0 = bs'.getD i 0 := by
  have at' := congrArg (fun l => l.getD i 0) same
  simp only [List.getD_eq_getElem?_getD] at at' ⊢
  rwa [List.getElem?_take_of_lt lt, List.getElem?_take_of_lt lt] at at'

theorem SameString.whole (same : SameString line form bs bs')
    (short : bs.length < form.1 + (declared line form bs).toNat) : bs' = bs := by
  have size := congrArg List.length same
  rw [List.length_take, List.length_take] at size
  rw [SameString, List.take_of_length_le (Nat.le_of_lt short), List.take_of_length_le (by omega)] at same
  exact same.symm

theorem SameString.inside (same : SameString line form bs bs')
    (long : form.1 + (declared line form bs).toNat ≤ bs.length) :
    form.1 + (declared line form bs).toNat ≤ bs'.length := by
  have size := congrArg List.length same
  rw [List.length_take, List.length_take] at size
  omega

theorem SameString.refl (line : Magic) (form : Nat × Order) (bs : Bytes) : SameString line form bs bs := rfl

theorem SameString.symm (same : SameString line form bs bs') : SameString line form bs' bs := by
  rw [SameString, same.declares]
  exact Eq.symm same

theorem content_iff (inside : form.1 + text.length ≤ bs.length) : (bs.drop form.1).take text.length = text ↔
    ∀ i, i < text.length → bs.getD (form.1 + i) 0 = text.getD i 0 := by
  have length : (bs.drop form.1).length = bs.length - form.1 := List.length_drop
  have same := @take_eq_iff (bs.drop form.1) text text.length (by omega) (Nat.le_refl _)
  rw [List.take_length] at same
  rw [same]
  simp only [getD_drop]

theorem movedLength_of_nonneg {n : Nat} (equal : declared line form bs = n) :
    movedLength line form bs = min n (128 - form.1) := by
  rw [movedLength, equal, if_neg (by omega), Int.toNat_natCast]

/-- The string of the test is taken for it when zeros are left behind the text. -/
theorem taken_iff_pascal (fits : form.1 + text.length ≤ 128) (equal : declared line form bs = text.length) :
    Taken line form text bs ↔ Pascal line form text bs ∧
      ∀ i, text.length < i → i < form.1 + text.length → bs.getD i 0 = 0 := by
  have len : movedLength line form bs = text.length := by
    rw [movedLength_of_nonneg equal]
    omega
  constructor
  · intro taken
    have content : ∀ i, i < text.length → bs.getD (form.1 + i) 0 = text.getD i 0 := by
      intro i lt
      have here := taken.bytes i (by omega)
      rwa [movedByte, len, if_pos lt] at here
    refine ⟨⟨equal, taken.inside, (content_iff taken.inside).mpr content⟩, fun i behind compared => ?_⟩
    have here := taken.bytes i compared
    rwa [movedByte, len, if_neg (by omega), if_neg (by omega), List.getD_eq_default text _ (by omega)] at here
  · rintro ⟨pascal, zeros⟩
    refine ⟨pascal.inside, by omega, fun i compared => ?_⟩
    rw [movedByte, len]
    split_ifs with lt eq
    · exact (content_iff pascal.inside).mp pascal.text i lt
    · rw [List.getD_eq_default text _ (by omega)]
    · rw [zeros i (by omega) compared, List.getD_eq_default text _ (by omega)]

theorem confused_of_longer (fits : form.1 + text.length ≤ 128)
    (more : (text.length : Int) < declared line form bs) (taken : Taken line form text bs) :
    Confused line form text bs := by
  obtain ⟨n, equal⟩ := Int.eq_ofNat_of_zero_le (show 0 ≤ declared line form bs by omega)
  have len := movedLength_of_nonneg equal
  refine .longer more taken.inside (fun i lt => ?_) (fun i ge compared lt => ?_) (fun i gt compared => ?_)
  · have here := taken.bytes i (by omega)
    rwa [movedByte, len, if_pos (by omega)] at here
  · have here := taken.bytes i compared
    rwa [movedByte, if_pos lt, List.getD_eq_default text _ ge] at here
  · have here := taken.bytes i compared
    rwa [movedByte, if_neg (by omega), if_neg (by omega), List.getD_eq_default text _ (by omega)] at here

theorem taken_of_longer (fits : form.1 + text.length ≤ 128)
    (more : (text.length : Int) < declared line form bs) (inside : form.1 + text.length ≤ bs.length)
    (begins : ∀ i, i < text.length → bs.getD (form.1 + i) 0 = text.getD i 0)
    (zeros : ∀ i, text.length ≤ i → i < form.1 + text.length → i < movedLength line form bs →
      bs.getD (form.1 + i) 0 = 0)
    (behind : ∀ i, movedLength line form bs < i → i < form.1 + text.length → bs.getD i 0 = 0) :
    Taken line form text bs := by
  obtain ⟨n, equal⟩ := Int.eq_ofNat_of_zero_le (show 0 ≤ declared line form bs by omega)
  have len := movedLength_of_nonneg equal
  refine ⟨inside, by omega, fun i compared => ?_⟩
  rw [movedByte]
  split_ifs with lt eq
  · by_cases front : i < text.length
    · exact begins i front
    · rw [zeros i (by omega) compared lt, List.getD_eq_default text _ (by omega)]
  · rw [List.getD_eq_default text _ (by omega)]
  · rw [behind i (by omega) compared, List.getD_eq_default text _ (by omega)]

theorem confused_of_shorter (fits : form.1 + text.length ≤ 128) {n : Nat} (less : declared line form bs = n)
    (shorter : n < text.length) (inside : form.1 + n ≤ bs.length) (same : SameString line form bs bs')
    (taken : Taken line form text bs') : Confused line form text bs := by
  have len : movedLength line form bs' = n := by
    rw [movedLength_of_nonneg (same.declares.trans less)]
    omega
  have byte {i : Nat} (lt : i < form.1 + n) : bs.getD i 0 = bs'.getD i 0 := by
    apply same.byte
    rw [less, Int.toNat_natCast]
    exact lt
  refine .shorter n less shorter inside (fun i lt => ?_) ?_ (fun i gt lt => ?_)
  · have here := taken.bytes i (by omega)
    rwa [movedByte, len, if_pos lt, ← byte (by omega)] at here
  · have here := taken.bytes n (by omega)
    rw [movedByte, len, if_neg (Nat.lt_irrefl n), if_pos rfl] at here
    exact here.symm
  · have here := taken.bytes i (by omega)
    rwa [movedByte, len, if_neg (by omega), if_neg (by omega), ← byte lt] at here

theorem getD_append_zeros (l : Bytes) (n i : Nat) : (l ++ List.replicate n 0).getD i 0 = l.getD i 0 := by
  by_cases lt : i < l.length
  · rw [List.getD_append _ _ _ _ lt]
  · rw [List.getD_append_right _ _ _ _ (Nat.not_lt.mp lt), List.getD_eq_default l _ (Nat.not_lt.mp lt),
      List.getD_eq_getElem?_getD, List.getElem?_replicate]
    split_ifs <;> rfl

/-- The declared string with other bytes behind it. -/
theorem sameString_append {n : Nat} (less : form.1 + (declared line form bs).toNat = n) (inside : n ≤ bs.length)
    (back : Bytes) : SameString line form bs (bs.take n ++ back) := by
  have front : (bs.take n).length = n := by
    rw [List.length_take]
    omega
  rw [SameString, less, List.take_append_of_le_length (Nat.le_of_eq front.symm), List.take_take, Nat.min_self]

theorem getD_behind_take {n i : Nat} (inside : n ≤ bs.length) (ge : n ≤ i) (back : Bytes) :
    (bs.take n ++ back).getD i 0 = back.getD (i - n) 0 := by
  have front : (bs.take n).length = n := by
    rw [List.length_take]
    omega
  rw [List.getD_append_right _ _ _ _ (by omega), front]

/-- A string with more bytes behind it that is taken for the text. -/
theorem taken_of_shorter (fits : form.1 + text.length ≤ 128) {n : Nat}
    (less : declared line form bs = n) (shorter : n < text.length) (inside : form.1 + n ≤ bs.length)
    (begins : ∀ i, i < n → bs.getD (form.1 + i) 0 = text.getD i 0) (nul : text.getD n 0 = 0)
    (behind : ∀ i, n < i → i < form.1 + n → bs.getD i 0 = text.getD i 0) :
    ∃ bs', SameString line form bs bs' ∧ Taken line form text bs' := by
  let back := text.drop (form.1 + n) ++ List.replicate 128 0
  let bs' := bs.take (form.1 + n) ++ back
  have same : SameString line form bs bs' := by
    apply sameString_append _ inside
    rw [less, Int.toNat_natCast]
  have len : movedLength line form bs' = n := by
    rw [movedLength_of_nonneg (same.declares.trans less)]
    omega
  have low {i : Nat} (lt : i < form.1 + n) : bs'.getD i 0 = bs.getD i 0 := by
    refine (same.byte ?_).symm
    rw [less, Int.toNat_natCast]
    exact lt
  have high {i : Nat} (ge : form.1 + n ≤ i) : bs'.getD i 0 = text.getD i 0 := by
    rw [getD_behind_take inside ge, getD_append_zeros, getD_drop, Nat.add_sub_cancel' ge]
  refine ⟨bs', same, ?_, ?_, fun i compared => ?_⟩
  · have size : bs'.length = form.1 + n + (text.length - (form.1 + n) + 128) := by
      rw [List.length_append, List.length_append, List.length_take, List.length_drop, List.length_replicate]
      omega
    omega
  · rw [same.declares]
    omega
  · rw [movedByte, len]
    split_ifs with lt eq
    · rw [low (by omega), begins i lt]
    · rw [eq, nul]
    · by_cases inside : i < form.1 + n
      · rw [low inside, behind i (by omega) inside]
      · exact high (by omega)

/-- A length that wraps, with bytes behind it that are taken for the text. -/
theorem taken_of_wrapped (width : form.1 = 1 ∨ form.1 = 2 ∨ form.1 = 4) (fits : form.1 + text.length ≤ 128)
    (below : declared line form bs < -1) (inside : form.1 ≤ bs.length)
    (zeros : ∀ i, 128 - form.1 < i → i < form.1 + text.length → text.getD (i - form.1) 0 = 0) :
    ∃ bs', SameString line form bs bs' ∧ Taken line form text bs' := by
  let back := text ++ List.replicate 128 0
  let bs' := bs.take form.1 ++ back
  have same : SameString line form bs bs' := by
    apply sameString_append _ inside
    omega
  have len : movedLength line form bs' = 128 - form.1 := by
    rw [movedLength, same.declares, if_pos (by omega)]
  have high {i : Nat} (ge : form.1 ≤ i) : bs'.getD i 0 = text.getD (i - form.1) 0 := by
    rw [getD_behind_take inside ge, getD_append_zeros]
  refine ⟨bs', same, ?_, ?_, fun i compared => ?_⟩
  · have size : bs'.length = form.1 + (text.length + 128) := by
      rw [List.length_append, List.length_append, List.length_take, List.length_replicate]
      omega
    omega
  · rw [same.declares]
    omega
  · rw [movedByte, len]
    split_ifs with lt eq
    · rw [high (Nat.le_add_right _ _), Nat.add_sub_cancel_left]
    · rw [List.getD_eq_default text _ (by omega)]
    · rw [high (by omega), zeros i (by omega) compared, List.getD_eq_default text _ (by omega)]

theorem confused_of_wrapped (width : form.1 = 1 ∨ form.1 = 2 ∨ form.1 = 4) (fits : form.1 + text.length ≤ 128)
    (below : declared line form bs < -1) (same : SameString line form bs bs') (inside : form.1 ≤ bs.length)
    (taken : Taken line form text bs') : Confused line form text bs := by
  have len : movedLength line form bs' = 128 - form.1 := by
    rw [movedLength, same.declares, if_pos (by omega)]
  refine .wrapped below inside (fun i gt compared => ?_)
  -- the byte is compared twice: where it was moved to, and where it was
  have moved := taken.bytes (i - form.1) (by omega)
  rw [movedByte, len, if_pos (by omega), Nat.add_sub_cancel' (by omega)] at moved
  have here := taken.bytes i compared
  rw [movedByte, len, if_neg (by omega), if_neg (by omega), List.getD_eq_default text _ (by omega)] at here
  rw [← moved, here]

/-- The test of a text that is no longer than what is declared does not look further. -/
theorem taken_of_same {n : Nat} (equal : declared line form bs = n) (long : text.length ≤ n)
    (inside : form.1 + n ≤ bs'.length) (same : SameString line form bs bs') (taken : Taken line form text bs) :
    Taken line form text bs' := by
  have len : movedLength line form bs' = movedLength line form bs := by
    rw [movedLength, movedLength, same.declares]
  have byte {i : Nat} (lt : i < form.1 + n) : bs'.getD i 0 = bs.getD i 0 := by
    refine (same.byte ?_).symm
    rw [equal, Int.toNat_natCast]
    exact lt
  have le : movedLength line form bs ≤ n := by
    rw [movedLength_of_nonneg equal]
    omega
  refine ⟨by omega, fun bad => taken.accepted (same.declares.symm.trans bad), fun i compared => ?_⟩
  rw [← taken.bytes i compared, movedByte, movedByte, len]
  split_ifs
  · exact byte (by omega)
  · rfl
  · exact byte (by omega)

theorem taken_exact_iff (width : form.1 = 1 ∨ form.1 = 2 ∨ form.1 = 4) (fits : form.1 + text.length ≤ 128) :
    ((Taken line form text bs ↔ Pascal line form text bs) ∧
      ∀ bs', SameString line form bs bs' → (Taken line form text bs ↔ Taken line form text bs')) ↔
        ¬ Confused line form text bs := by
  constructor
  · rintro ⟨right, stable⟩ confused
    cases confused with
    | missed pascal i behind compared other =>
        have taken := right.mpr pascal
        exact other (((taken_iff_pascal fits pascal.length).mp taken).2 i behind compared)
    | longer more inside begins zeros behind =>
        have pascal := right.mp (taken_of_longer fits more inside begins zeros behind)
        have := pascal.length
        omega
    | wrapped below inside zeros =>
        obtain ⟨bs', same, taken⟩ := taken_of_wrapped width fits below inside zeros
        have := (right.mp ((stable bs' same).mpr taken)).length
        omega
    | shorter n less shorter inside begins nul behind =>
        obtain ⟨bs', same, taken⟩ := taken_of_shorter fits less shorter inside begins nul behind
        have := (right.mp ((stable bs' same).mpr taken)).length
        omega
  · intro clear
    -- another length than that of the text is never taken for it
    have refused (other : declared line form bs ≠ text.length) (bs' : Bytes) (same : SameString line form bs bs') :
        ¬ Taken line form text bs' := by
      intro taken
      have inside' := taken.inside
      by_cases short : bs.length < form.1 + (declared line form bs).toNat
      · obtain rfl := same.whole short
        exact clear (confused_of_longer fits (by omega) taken)
      rcases lt_trichotomy (declared line form bs) (-1) with below | bad | nonneg
      · exact clear (confused_of_wrapped width fits below same (by omega) taken)
      · exact taken.accepted (same.declares.trans bad)
      · obtain ⟨n, equal⟩ := Int.eq_ofNat_of_zero_le (show 0 ≤ declared line form bs by omega)
        rcases Nat.lt_or_gt_of_ne (show n ≠ text.length by omega) with lt | gt
        · exact clear (confused_of_shorter fits equal lt (by omega) same taken)
        · exact clear (confused_of_longer fits (by omega)
            (taken_of_same (same.declares.trans equal) (by omega) (by omega) same.symm taken))
    by_cases equal : declared line form bs = text.length
    · refine ⟨⟨fun taken => ((taken_iff_pascal fits equal).mp taken).1, fun pascal => ?_⟩, fun bs' same => ?_⟩
      · refine (taken_iff_pascal fits equal).mpr ⟨pascal, fun i behind compared => ?_⟩
        by_contra other
        exact clear (.missed pascal i behind compared other)
      · by_cases short : bs.length < form.1 + (declared line form bs).toNat
        · rw [same.whole short]
        · have inside := same.inside (by omega)
          exact ⟨taken_of_same equal (Nat.le_refl _) (by omega) same,
            taken_of_same (same.declares.trans equal) (Nat.le_refl _) (by omega) same.symm⟩
    · have none := refused equal bs (SameString.refl line form bs)
      exact ⟨iff_of_false none (fun pascal => equal pascal.length),
        fun bs' same => iff_of_false none (refused equal bs' same)⟩

end Confusion

/-! ## Exactness -/

/-- `pstringTest` is what a direct line outside every `use` does. -/
theorem pstringTest_mget {recur : Recur} {env : Env} {call : Call} {m : Magic} {bb : Window} {level : Nat} {s : Scan}
    (type : m.type = .pstring) (direct : has m.flag INDIR = false) (outside : call.offset = 0)
    (indirs : s.indirCount < env.indirMax) (names : s.nameCount < env.nameMax) (offset : s.offset < 2 ^ 32)
    (size : flen bb < 2 ^ 32) :
    ((mget recur env m bb call level s).rv = some true ∧
      (magiccheck env.host env.flags m (mget recur env m bb call level s).scan.value
        (mget recur env m bb call level s).scan.search (mget recur env m bb call level s).scan.io).matched = some true) ↔
      pstringTest env.host env.flags env.regexMax m call.flip bb s.offset s.value s.search s.io = true := by
  have here : uN 32 (s.offset + call.offset) = s.offset := by
    rw [outside, Nat.cast_zero, Int.add_zero, uN_natCast offset]
  have all : uN 32 (flen bb) = flen bb := uN_natCast size
  rw [mget, if_neg (Nat.not_le.mpr indirs), if_neg (Nat.not_le.mpr names)]
  simp only [resolve, direct, Bool.not_false, if_true, Scan.copy, here, all, mgetAt, type, pstringTest]
  cases enoughData m (flen bb) s.offset with
  | false => simp
  | true => simp

/-- The test of a `pstring =` line: it accepts the string of its text and no other one, whatever the union
held and whatever is behind the string. -/
structure PstringExact (test : Window → Value → Bool) (line : Magic) (form : Nat × Order) (text : Bytes) (bb : Window)
    (offset : Nat) : Prop where
  accepts : ∀ v, test bb v = true ↔ Pascal line form text ((bb.getD []).drop offset)
  union : ∀ v v', test bb v = test bb v'
  behind : ∀ bb' v v', SameString line form ((bb.getD []).drop offset) ((bb'.getD []).drop offset) →
    test bb v = test bb' v'

theorem pstring_exact_iff {line m : Magic} {form : Nat × Order} (h : PstringEq line form) {s rest : Bytes}
    (read : getstr line s = some (m, rest)) :
    ∃ text, getstrText s = some (text, rest) ∧ ∀ host flags regexMax flip bb offset search io,
      PstringExact (fun bb v => pstringTest host flags regexMax m flip bb offset v search io) line form text bb
          offset ↔
        ¬ Confused line form text ((bb.getD []).drop offset) := by
  obtain ⟨text, found, fits, test⟩ := pstringTest_iff h read
  refine ⟨text, found, fun host flags regexMax flip bb offset search io => ?_⟩
  rw [← taken_exact_iff (lengthForm_size h.form) fits]
  have taken (bb : Window) (v : Value) := test host flags regexMax flip bb offset v search io
  constructor
  · rintro ⟨accepts, _, behind⟩
    refine ⟨(taken bb .zero).symm.trans (accepts .zero), fun bs' same => ?_⟩
    let bb' : Window := some (List.replicate offset 0 ++ bs')
    have there : (bb'.getD []).drop offset = bs' := List.drop_left' List.length_replicate
    have equal := behind bb' .zero .zero (by rw [there]; exact same)
    rw [← taken bb .zero, ← there, ← taken bb' .zero]
    exact Bool.eq_iff_iff.mp equal
  · rintro ⟨right, stable⟩
    refine ⟨fun v => (taken bb v).trans right, fun v v' => ?_, fun bb' v v' same => ?_⟩
    · exact Bool.eq_iff_iff.mpr ((taken bb v).trans (taken bb v').symm)
    · exact Bool.eq_iff_iff.mpr ((taken bb v).trans ((stable _ same).trans (taken bb' v').symm))

/-- `pstring =ab`, with a length of one byte. -/
def abLine : Magic := { plainLine with type := .pstring, reln := .eq, strFlags := PSTRING_1_LE }

/-- `pstring/H =ab`. -/
def abLineH : Magic := { abLine with strFlags := PSTRING_2_BE }

theorem pstring_exact_ab : ∃ m, getstr abLine (asc "ab") = some (m, []) ∧
    PstringExact (fun bb v => pstringTest plainHost 0 8192 m false bb 0 v ⟨none, 0, 0, 0⟩ (plainScan []).io) abLine
      (1, .little) (asc "ab") (some [2, 0x61, 0x62]) 0 := by
  have line : PstringEq abLine (1, .little) := by
    constructor <;> rfl
  rcases read : getstr abLine (asc "ab") with _ | ⟨m, rest⟩
  · exact absurd (congrArg Option.isSome read) (by decide +kernel)
  obtain ⟨text, found, exact_iff⟩ := pstring_exact_iff line read
  have same : (asc "ab", []) = (text, rest) :=
    Option.some.inj ((by decide +kernel : some (asc "ab", []) = getstrText (asc "ab")).trans found)
  obtain ⟨rfl, rfl⟩ := Prod.mk.inj same
  refine ⟨m, rfl, (exact_iff plainHost 0 8192 false (some [2, 0x61, 0x62]) 0 _ _).mpr ?_⟩
  have two : declared abLine (1, .little) [2, 0x61, 0x62] = 2 := by decide
  intro confused
  cases confused with
  | missed _ i behind compared _ =>
      have : (asc "ab").length = 2 := by decide
      omega
  | longer more _ _ _ _ => exact absurd more (by decide)
  | wrapped below _ _ => exact absurd below (by decide)
  | shorter n less shorter _ _ _ _ =>
      have : (asc "ab").length = 2 := by decide
      change declared abLine (1, .little) [2, 0x61, 0x62] = n at less
      omega

theorem pstring_inexact_ab : ∃ m, getstr abLineH (asc "ab") = some (m, []) ∧
    ¬ PstringExact (fun bb v => pstringTest plainHost 0 8192 m false bb 0 v ⟨none, 0, 0, 0⟩ (plainScan []).io) abLineH
      (2, .big) (asc "ab") (some [0, 2, 0x61, 0x62]) 0 := by
  have line : PstringEq abLineH (2, .big) := by
    constructor <;> rfl
  rcases read : getstr abLineH (asc "ab") with _ | ⟨m, rest⟩
  · exact absurd (congrArg Option.isSome read) (by decide +kernel)
  obtain ⟨text, found, _, test⟩ := pstringTest_iff line read
  have same : (asc "ab", []) = (text, rest) :=
    Option.some.inj ((by decide +kernel : some (asc "ab", []) = getstrText (asc "ab")).trans found)
  obtain ⟨rfl, rfl⟩ := Prod.mk.inj same
  refine ⟨m, rfl, fun exact => ?_⟩
  have pascal : Pascal abLineH (2, .big) (asc "ab") [0, 2, 0x61, 0x62] :=
    ⟨by decide, by decide, by decide⟩
  have taken := (test plainHost 0 8192 false (some [0, 2, 0x61, 0x62]) 0 .zero _ _).mp ((exact.accepts .zero).mpr pascal)
  exact absurd (taken.bytes 3 (by decide)) (by decide)

end Libmagic.Softmagic
