import Libmagic.Cells
import Libmagic.Softmagic.Types

/-!
# `compress.c`: the header of a gzip file

`uncompressgzipped` skips the header with one index. What it must come to is what the grammar of
the header leaves: ten bytes, and then up to four fields that the flags announce.
-/
namespace Libmagic.Compress

open Softmagic
open Cells
open Run (Meets)

def FHCRC : UInt8 := 2
def FEXTRA : UInt8 := 4
def FNAME : UInt8 := 8
def FCOMMENT : UInt8 := 16

/-- What `uncompressgzipped` ends with. -/
inductive Outcome where
  /-- `uncompresszlib(old, newch, bytes_max, n, 0)`. -/
  | inflate (old : Bytes)
  /-- `makeerror`. -/
  | error (text : String)
  deriving DecidableEq, Repr

/-- A round of `while (data_start < *n && old[data_start])`. -/
def textRound (old : Bytes) (start : Nat) : Run CellAccess (Nat ⊕ Nat) :=
  if start < old.length then do
    let b ← readAt old start
    pure (if b ≠ 0 then .inl (start + 1) else .inr start)
  else pure (.inr start)

/-- A name or a comment, and the `data_start++` behind it. -/
def skipText (old : Bytes) (start : Nat) : Run CellAccess Nat := do
  let stop ← Run.loop (textRound old) (old.length + 1) start
  pure (stop + 1)

/-- The extra field; `none` is `goto err`. -/
def skipExtra (old : Bytes) (start : Nat) : Run CellAccess (Option Nat) :=
  if start + 1 ≥ old.length then pure none
  else do
    let low ← readAt old start
    let high ← readAt old (start + 1)
    pure (some (start + (2 + low.toNat + high.toNat * 256)))

/-- `if (flg & bit)` around a field, which otherwise leaves the index alone. -/
def ifFlag {α : Type} (flg bit : UInt8) (field : Run CellAccess α) (start : α) : Run CellAccess α :=
  if flg &&& bit ≠ 0 then field else pure start

def tooShort : Outcome := .error "File too short"

/-- `uncompressgzipped`, where `*n` is the length of `old`. -/
def uncompressgzipped (old : Bytes) : Run CellAccess Outcome :=
  if old.length < 4 then pure tooShort
  else do
    let flg ← readAt old 3
    let start ← ifFlag flg FEXTRA (skipExtra old 10) (some 10)
    match start with
    | none => pure tooShort
    | some start => do
        let start ← ifFlag flg FNAME (skipText old start) start
        let start ← ifFlag flg FCOMMENT (skipText old start) start
        let start := if flg &&& FHCRC ≠ 0 then start + 2 else start
        if start ≥ old.length then pure tooShort
        else pure (.inflate (old.drop start))

/-! ## The grammar -/

/-- Two bytes with a number, and so many bytes. -/
def IsExtra (bs : Bytes) : Prop :=
  ∃ low high data, bs = low :: high :: data ∧ data.length = low.toNat + high.toNat * 256

/-- A text that ends with its first NUL. -/
def IsText (bs : Bytes) : Prop := ∃ text, bs = text ++ [0] ∧ 0 ∉ text

def IsCrc (bs : Bytes) : Prop := bs.length = 2

/-- A field that is there only if its flag is set. -/
def Announced (flag : Bool) (p : Bytes → Prop) (bs : Bytes) : Prop := if flag then p bs else bs = []

/-- The header of a gzip file. -/
def IsHeader (bs : Bytes) : Prop :=
  ∃ fixed extra name comment crc flg, bs = fixed ++ (extra ++ (name ++ (comment ++ crc))) ∧
    fixed.length = 10 ∧ fixed[3]? = some flg ∧
    Announced (flg &&& FEXTRA != 0) IsExtra extra ∧ Announced (flg &&& FNAME != 0) IsText name ∧
    Announced (flg &&& FCOMMENT != 0) IsText comment ∧ Announced (flg &&& FHCRC != 0) IsCrc crc

/-! ## What is left behind a field -/

/-- A field can only be taken off the front in one way, which is what `after` does. -/
def Takes (p : Bytes → Prop) (after : Bytes → Option Bytes) : Prop :=
  ∀ bs rest, after bs = some rest ↔ ∃ part, p part ∧ bs = part ++ rest

def afterBytes (n : Nat) (bs : Bytes) : Option Bytes := if n ≤ bs.length then some (bs.drop n) else none

def afterExtra : Bytes → Option Bytes
  | low :: high :: rest => afterBytes (low.toNat + high.toNat * 256) rest
  | _ => none

def afterText : Bytes → Option Bytes
  | [] => none
  | b :: rest => if b = 0 then some rest else afterText rest

def afterField (flag : Bool) (after : Bytes → Option Bytes) (bs : Bytes) : Option Bytes :=
  if flag then after bs else some bs

theorem takes_bytes (n : Nat) : Takes (fun bs => bs.length = n) (afterBytes n) := by
  intro bs rest
  unfold afterBytes
  constructor
  · intro left
    split at left
    next le =>
      cases left
      exact ⟨bs.take n, List.length_take_of_le le, (List.take_append_drop n bs).symm⟩
    next => cases left
  · rintro ⟨part, length, rfl⟩
    have le : n ≤ (part ++ rest).length := by
      rw [List.length_append]
      omega
    rw [if_pos le, List.drop_left' length]

theorem takes_extra : Takes IsExtra afterExtra := by
  intro bs rest
  constructor
  · intro left
    rcases bs with _ | ⟨low, _ | ⟨high, bs⟩⟩
    · cases left
    · cases left
    · obtain ⟨data, length, rfl⟩ := (takes_bytes _ bs rest).mp left
      exact ⟨low :: high :: data, ⟨low, high, data, rfl, length⟩, rfl⟩
  · rintro ⟨part, ⟨low, high, data, rfl, length⟩, rfl⟩
    exact (takes_bytes _ _ rest).mpr ⟨data, length, rfl⟩

theorem takes_text : Takes IsText afterText := by
  intro bs rest
  induction bs with
  | nil =>
      constructor
      · intro left
        cases left
      · rintro ⟨part, ⟨text, rfl, _⟩, whole⟩
        simp at whole
  | cons b bs ih =>
      rw [afterText]
      by_cases zero : b = 0
      · subst zero
        rw [if_pos rfl]
        constructor
        · rintro ⟨⟩
          exact ⟨[0], ⟨[], rfl, List.not_mem_nil⟩, rfl⟩
        · rintro ⟨part, ⟨text, rfl, free⟩, whole⟩
          cases text with
          | nil => exact congrArg some (List.cons.inj whole).2
          | cons c text =>
              obtain ⟨rfl, _⟩ := List.cons.inj whole
              exact absurd List.mem_cons_self free
      · rw [if_neg zero, ih]
        constructor
        · rintro ⟨part, ⟨text, rfl, free⟩, rfl⟩
          have outside : 0 ∉ b :: text := fun member =>
            (List.mem_cons.mp member).elim (fun same => zero same.symm) free
          exact ⟨b :: text ++ [0], ⟨b :: text, rfl, outside⟩, rfl⟩
        · rintro ⟨part, ⟨text, rfl, free⟩, whole⟩
          cases text with
          | nil => exact absurd (List.cons.inj whole).1 zero
          | cons c text =>
              obtain ⟨rfl, rfl⟩ := List.cons.inj whole
              exact ⟨text ++ [0], ⟨text, rfl, fun member => free (List.mem_cons_of_mem _ member)⟩, rfl⟩

theorem takes_field {p : Bytes → Prop} {after : Bytes → Option Bytes} (takes : Takes p after) (flag : Bool) :
    Takes (Announced flag p) (afterField flag after) := by
  intro bs rest
  cases flag with
  | true => exact takes bs rest
  | false =>
      constructor
      · rintro ⟨⟩
        exact ⟨[], rfl, rfl⟩
      · rintro ⟨part, rfl, rfl⟩
        rfl

theorem takes_bind {p q : Bytes → Prop} {f g : Bytes → Option Bytes} (first : Takes p f) (second : Takes q g)
    (bs rest : Bytes) :
    (f bs).bind g = some rest ↔ ∃ part part', p part ∧ q part' ∧ bs = part ++ (part' ++ rest) := by
  rw [Option.bind_eq_some_iff]
  constructor
  · rintro ⟨mid, left, left'⟩
    obtain ⟨part, hp, rfl⟩ := (first bs mid).mp left
    obtain ⟨part', hq, rfl⟩ := (second mid rest).mp left'
    exact ⟨part, part', hp, hq, rfl⟩
  · rintro ⟨part, part', hp, hq, rfl⟩
    exact ⟨part' ++ rest, (first _ _).mpr ⟨part, hp, rfl⟩, (second _ _).mpr ⟨part', hq, rfl⟩⟩

/-- What is left behind the fields of a header with these flags. -/
def afterFields (flg : UInt8) (bs : Bytes) : Option Bytes :=
  (((afterField (flg &&& FEXTRA != 0) afterExtra bs).bind (afterField (flg &&& FNAME != 0) afterText)).bind
    (afterField (flg &&& FCOMMENT != 0) afterText)).bind (afterField (flg &&& FHCRC != 0) (afterBytes 2))

theorem afterFields_iff (flg : UInt8) (bs rest : Bytes) :
    afterFields flg bs = some rest ↔ ∃ extra name comment crc,
      bs = extra ++ (name ++ (comment ++ (crc ++ rest))) ∧
      Announced (flg &&& FEXTRA != 0) IsExtra extra ∧ Announced (flg &&& FNAME != 0) IsText name ∧
      Announced (flg &&& FCOMMENT != 0) IsText comment ∧ Announced (flg &&& FHCRC != 0) IsCrc crc := by
  have extra := takes_field takes_extra (flg &&& FEXTRA != 0)
  have name := takes_field takes_text (flg &&& FNAME != 0)
  have comment := takes_field takes_text (flg &&& FCOMMENT != 0)
  have crc : Takes (Announced (flg &&& FHCRC != 0) IsCrc) _ := takes_field (takes_bytes 2) _
  constructor
  · intro left
    obtain ⟨mid, left, left'⟩ := Option.bind_eq_some_iff.mp left
    obtain ⟨mid', left, left''⟩ := Option.bind_eq_some_iff.mp left
    obtain ⟨e, n, he, hn, rfl⟩ := (takes_bind extra name _ _).mp left
    obtain ⟨c, hc, rfl⟩ := (comment _ _).mp left''
    obtain ⟨r, hr, rfl⟩ := (crc _ _).mp left'
    exact ⟨e, n, c, r, rfl, he, hn, hc, hr⟩
  · rintro ⟨e, n, c, r, rfl, he, hn, hc, hr⟩
    have first := (takes_bind extra name _ (c ++ (r ++ rest))).mpr ⟨e, n, he, hn, rfl⟩
    have second := (comment _ (r ++ rest)).mpr ⟨c, hc, rfl⟩
    unfold afterFields
    rw [first, Option.bind_some, second, Option.bind_some]
    exact (crc _ _).mpr ⟨r, hr, rfl⟩

/-! ## The index -/

/-- Where the index is: in front of what is left, or past the end where nothing can be left. -/
def At (old : Bytes) (start : Nat) (left : Option Bytes) : Prop :=
  left.elim (old.length < start) (fun rest => start ≤ old.length ∧ old.drop start = rest)

section Index

variable {old : Bytes} {start : Nat}

theorem at_afterBytes (n : Nat) {left : Option Bytes} (here : At old start left) :
    At old (start + n) (left.bind (afterBytes n)) := by
  cases left with
  | none => exact Nat.lt_of_lt_of_le here (Nat.le_add_right _ _)
  | some rest =>
      obtain ⟨le, rfl⟩ := here
      rw [Option.bind_some, afterBytes]
      by_cases room : n ≤ (old.drop start).length
      · rw [if_pos room]
        rw [List.length_drop] at room
        exact ⟨by omega, by rw [List.drop_drop]⟩
      · rw [if_neg room]
        rw [List.length_drop] at room
        exact show old.length < start + n by omega

theorem drop_cons (lt : start < old.length) : old.drop start = old.getD start 0 :: old.drop (start + 1) := by
  rw [List.drop_eq_getElem_cons lt, List.getD_eq_getElem _ _ lt]

theorem meets_skipText {left : Option Bytes} (here : At old start left) :
    Meets (within old.length 0) 0 (skipText old start) (fun start => At old start (left.bind afterText)) := by
  have round : ∀ s, At old s left ∨ (s ≤ old.length ∧ left.bind afterText = afterText (old.drop s)) →
      Meets (within old.length 0) 0 (textRound old s)
        (Sum.elim (fun s' => (At old s' left ∨ (s' ≤ old.length ∧ left.bind afterText = afterText (old.drop s'))) ∧
            old.length - s' < old.length - s)
          (fun stop => At old (stop + 1) (left.bind afterText))) := by
    intro s inv
    apply Meets.ite
    · intro lt
      have ahead : left.bind afterText = afterText (old.drop s) := by
        rcases inv with here | ⟨_, ahead⟩
        · cases left with
          | none => exact absurd here (Nat.lt_asymm lt)
          | some rest => rw [Option.bind_some, here.2]
        · exact ahead
      apply Meets.bind (readAt_meets lt)
      rintro b rfl
      apply Meets.pure
      rw [drop_cons lt, afterText] at ahead
      by_cases zero : old.getD s 0 = 0
      · rw [if_neg (not_not_intro zero)]
        rw [if_pos zero] at ahead
        change At old (s + 1) _
        rw [ahead]
        exact ⟨lt, rfl⟩
      · rw [if_pos zero]
        rw [if_neg zero] at ahead
        exact ⟨.inr ⟨lt, ahead⟩, by omega⟩
    · intro past
      apply Meets.pure
      have none_left : left.bind afterText = none := by
        rcases inv with here | ⟨_, ahead⟩
        · cases left with
          | none => rfl
          | some rest => rw [Option.bind_some, ← here.2, List.drop_eq_nil_of_le (Nat.le_of_not_lt past), afterText]
        · rw [ahead, List.drop_eq_nil_of_le (Nat.le_of_not_lt past), afterText]
      change At old (s + 1) _
      rw [none_left]
      exact Nat.lt_succ_of_le (Nat.le_of_not_lt past)
  apply Meets.bind (Meets.loop round _ start (.inl here) (by omega))
  intro stop hstop
  exact Meets.pure hstop

/-- The same where the field may end with `goto err`. -/
def AtOrErr (old : Bytes) (left : Option Bytes) (r : Option Nat) : Prop :=
  r.elim (left = none) (fun start => At old start left)

theorem meets_skipExtra {left : Option Bytes} (here : At old start left) :
    Meets (within old.length 0) 0 (skipExtra old start) (AtOrErr old (left.bind afterExtra)) := by
  apply Meets.ite
  · intro short
    apply Meets.pure
    cases left with
    | none => rfl
    | some rest =>
        obtain ⟨le, rfl⟩ := here
        rw [AtOrErr, Option.elim_none, Option.bind_some]
        rcases Nat.lt_or_eq_of_le le with lt | rfl
        · have one : old.length = start + 1 := by omega
          rw [drop_cons lt, ← one, List.drop_length]
          rfl
        · rw [List.drop_length]
          rfl
  · intro two
    apply Meets.bind (readAt_meets (by omega))
    rintro low rfl
    apply Meets.bind (readAt_meets (by omega))
    rintro high rfl
    apply Meets.pure
    cases left with
    | none =>
        have past : old.length < start := here
        omega
    | some rest =>
        obtain ⟨_, rfl⟩ := here
        have behind : At old (start + 2) (some (old.drop (start + 2))) := ⟨by omega, rfl⟩
        have next := at_afterBytes ((old.getD start 0).toNat + (old.getD (start + 1) 0).toNat * 256) behind
        rw [AtOrErr, Option.elim_some, Option.bind_some, drop_cons (by omega), drop_cons (by omega), afterExtra,
          ← Nat.add_assoc, ← Nat.add_assoc]
        rw [Option.bind_some, ← Nat.add_assoc] at next
        exact next

theorem flag_iff (flg bit : UInt8) : flg &&& bit ≠ 0 ↔ (flg &&& bit != 0) = true := bne_iff_ne.symm

/-- A field that is not there leaves everything. -/
theorem bind_absent (left : Option Bytes) (after : Bytes → Option Bytes) :
    left.bind (afterField false after) = left := by
  cases left <;> rfl

/-- A field that is skipped only if its flag is set. -/
theorem meets_ifFlag {α : Type} (flg bit : UInt8) {x : Run CellAccess α} {a : α} (post : Option Bytes → α → Prop)
    {after : Bytes → Option Bytes} {left : Option Bytes}
    (skips : Meets (within old.length 0) 0 x (post (left.bind after))) (stays : post left a) :
    Meets (within old.length 0) 0 (ifFlag flg bit x a)
      (post (left.bind (afterField (flg &&& bit != 0) after))) := by
  cases set : flg &&& bit != 0 with
  | true =>
      rw [ifFlag, if_pos ((flag_iff flg bit).mpr set)]
      exact skips
  | false =>
      rw [ifFlag, if_neg (fun holds => Bool.false_ne_true (set.symm.trans ((flag_iff flg bit).mp holds)))]
      apply Meets.pure
      rw [bind_absent]
      exact stays

end Index

/-- Nothing but what is behind a header is handed on, and an error means that nothing is there. -/
def Handed (old : Bytes) (out : Outcome) : Prop :=
  (∀ header rest, IsHeader header → old = header ++ rest → rest ≠ [] → out = .inflate rest) ∧
  ((∀ header rest, IsHeader header → old = header ++ rest → rest = []) → out = tooShort)

theorem isHeader_append {old rest : Bytes} (flg : UInt8) (byte : old[3]? = some flg) (long : 10 ≤ old.length) :
    (∃ header, IsHeader header ∧ old = header ++ rest) ↔ afterFields flg (old.drop 10) = some rest := by
  rw [afterFields_iff]
  constructor
  · rintro ⟨_, ⟨fixed, extra, name, comment, crc, flg', rfl, ten, third, he, hn, hc, hr⟩, rfl⟩
    have same : flg' = flg := by
      rw [List.append_assoc, List.getElem?_append_left (by omega), third] at byte
      exact Option.some.inj byte
    subst same
    refine ⟨extra, name, comment, crc, ?_, he, hn, hc, hr⟩
    rw [List.append_assoc, List.drop_left' ten]
    simp only [List.append_assoc]
  · rintro ⟨extra, name, comment, crc, left, he, hn, hc, hr⟩
    have ten : (old.take 10).length = 10 := List.length_take_of_le long
    have third : (old.take 10)[3]? = some flg := by rw [List.getElem?_take_of_lt (by decide), byte]
    refine ⟨_, ⟨old.take 10, extra, name, comment, crc, flg, rfl, ten, third, he, hn, hc, hr⟩, ?_⟩
    simp only [List.append_assoc]
    rw [← left, List.take_append_drop]

theorem IsHeader.length {header : Bytes} (is : IsHeader header) : 10 ≤ header.length := by
  obtain ⟨fixed, extra, name, comment, crc, flg, rfl, ten, _⟩ := is
  rw [List.length_append]
  omega

theorem handed_short {old : Bytes} (short : old.length ≤ 10) : Handed old tooShort := by
  refine ⟨?_, fun _ => rfl⟩
  rintro header rest is rfl some
  have ten := is.length
  have pos := List.length_pos_of_ne_nil some
  rw [List.length_append] at short
  omega

/-- What the index says at the end is what the grammar says. -/
theorem handed_of_left {old : Bytes} {flg : UInt8} (byte : old[3]? = some flg) {start : Nat}
    (here : At old start ((afterBytes 10 old).bind (afterFields flg))) :
    Handed old (if start ≥ old.length then tooShort else .inflate (old.drop start)) := by
  unfold afterBytes at here
  by_cases long : 10 ≤ old.length
  · rw [if_pos long, Option.bind_some] at here
    constructor
    · intro header rest is whole some
      have left := (isHeader_append flg byte long).mp ⟨header, is, whole⟩
      rw [left] at here
      obtain ⟨le, behind⟩ := here
      have inside : ¬ start ≥ old.length := by
        intro past
        rw [List.drop_eq_nil_of_le past] at behind
        exact some behind.symm
      rw [if_neg inside, behind]
    · intro empty
      cases left : afterFields flg (old.drop 10) with
      | none =>
          rw [left] at here
          exact if_pos (Nat.le_of_lt here)
      | some rest =>
          obtain ⟨header, is, whole⟩ := (isHeader_append flg byte long).mpr left
          have nothing := empty header rest is whole
          subst nothing
          rw [left] at here
          exact if_pos (List.drop_eq_nil_iff.mp here.2)
  · rw [if_neg long] at here
    rw [if_pos (Nat.le_of_lt here)]
    exact handed_short (Nat.le_of_not_le long)

/-- For every buffer, the header is skipped as the grammar has it, and no byte of it is looked for behind
the end. -/
theorem gzip_skips (old : Bytes) :
    (∀ a ∈ (uncompressgzipped old).events, ∃ i, a = .read i ∧ i < old.length) ∧
    ∃ out, (uncompressgzipped old).value = some out ∧ Handed old out := by
  have meets : Meets (within old.length 0) 0 (uncompressgzipped old) (Handed old) := by
    apply Meets.ite
    · intro short
      exact Meets.pure (handed_short (by omega))
    intro four
    apply Meets.bind (readAt_meets (by omega))
    rintro flg rfl
    have byte : old[3]? = some (old.getD 3 0) := by
      rw [List.getD_eq_getElem _ _ (by omega), List.getElem?_eq_getElem]
    generalize old.getD 3 0 = flg at byte
    have first : At old 10 (afterBytes 10 old) := by
      have start : At old 0 (some old) := ⟨Nat.zero_le _, rfl⟩
      simpa only [Nat.zero_add, Option.bind_some] using at_afterBytes 10 start
    have extra := meets_ifFlag flg FEXTRA (AtOrErr old) (meets_skipExtra first)
      (show AtOrErr old (afterBytes 10 old) (some 10) from first)
    apply Meets.bind extra
    intro start hstart
    have fields : (afterBytes 10 old).bind (afterFields flg) =
        ((((afterBytes 10 old).bind (afterField (flg &&& FEXTRA != 0) afterExtra)).bind
          (afterField (flg &&& FNAME != 0) afterText)).bind (afterField (flg &&& FCOMMENT != 0) afterText)).bind
            (afterField (flg &&& FHCRC != 0) (afterBytes 2)) := by
      cases afterBytes 10 old <;> rfl
    cases start with
    | none =>
        apply Meets.pure
        have past : At old (old.length + 1) ((afterBytes 10 old).bind (afterFields flg)) := by
          rw [fields, show _ = none from hstart]
          exact Nat.lt_succ_self _
        simpa only [if_pos (Nat.le_succ old.length)] using handed_of_left byte past
    | some start =>
        have skipped {start : Nat} {left : Option Bytes} (bit : UInt8) (here : At old start left) :=
          meets_ifFlag flg bit (fun left start => At old start left) (meets_skipText here) here
        apply Meets.bind (skipped FNAME hstart)
        intro name hname
        apply Meets.bind (skipped FCOMMENT hname)
        intro comment hcomment
        have crc : At old (if flg &&& FHCRC ≠ 0 then comment + 2 else comment)
            ((afterBytes 10 old).bind (afterFields flg)) := by
          rw [fields]
          cases set : flg &&& FHCRC != 0 with
          | true =>
              rw [if_pos ((flag_iff flg FHCRC).mpr set)]
              exact at_afterBytes 2 hcomment
          | false =>
              rw [if_neg (fun holds => Bool.false_ne_true (set.symm.trans ((flag_iff flg FHCRC).mp holds))),
                bind_absent]
              exact hcomment
        have handed := handed_of_left byte crc
        apply Meets.ite
        · intro past
          rw [if_pos past] at handed
          exact Meets.pure handed
        · intro inside
          rw [if_neg inside] at handed
          exact Meets.pure handed
  refine ⟨?_, meets.value_post⟩
  intro a done
  have allowed := meets.allowed a done
  cases a with
  | read i => exact ⟨i, rfl, allowed⟩
  | write i => exact absurd allowed (Nat.not_lt_zero i)

end Libmagic.Compress
