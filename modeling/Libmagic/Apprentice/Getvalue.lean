import Libmagic.Apprentice.Number
import Libmagic.Softmagic.Match
import Libmagic.Softmagic.Numeric

/-!
# `apprentice.c`: the value of a numeric test

`getvalue` reads the literal of a line, checks that it fits the type, and keeps it as
`file_signextend` leaves it. The last section says for which literals this is exact: the
literal is accepted if and only if it is in the range of the type, and the test compares the
number in the file with it modulo the width.
-/
namespace Libmagic.Apprentice

open Softmagic

/-- The names in `type_tbl`, in its order. -/
def typeTbl : List String :=
  ["invalid", "byte", "short", "default", "long", "string", "date", "beshort", "belong", "bedate",
    "leshort", "lelong", "ledate", "pstring", "ldate", "beldate", "leldate", "regex", "bestring16",
    "lestring16", "search", "medate", "meldate", "melong", "quad", "lequad", "bequad", "qdate",
    "leqdate", "beqdate", "qldate", "leqldate", "beqldate", "float", "befloat", "lefloat", "double",
    "bedouble", "ledouble", "leid3", "beid3", "indirect", "qwdate", "leqwdate", "beqwdate", "name",
    "use", "clear", "der", "guid", "leguid", "beguid", "offset", "bevarint", "levarint", "msdosdate",
    "lemsdosdate", "bemsdosdate", "msdostime", "lemsdostime", "bemsdostime", "octal"]

/-- `type_tbl[type].name`. -/
def typeName (type : MType) : Bytes := asc (typeTbl.getD type.code "")

/-- `typesize`; `none` is `FILE_BADSIZE`. -/
def typesize : MType → Option Nat
  | .byte => some 1
  | .short | .leshort | .beshort | .msdosdate | .bemsdosdate | .lemsdosdate | .msdostime
  | .bemsdostime | .lemsdostime => some 2
  | .long | .lelong | .belong | .melong => some 4
  | .date | .ledate | .bedate | .medate | .ldate | .leldate | .beldate | .meldate | .float | .befloat
  | .lefloat | .beid3 | .leid3 => some 4
  | .quad | .bequad | .lequad | .qdate | .leqdate | .beqdate | .qldate | .leqldate | .beqldate
  | .qwdate | .leqwdate | .beqwdate | .double | .bedouble | .ledouble | .offset | .bevarint
  | .levarint => some 8
  | .leguid | .beguid | .guid => some 16
  | _ => none

/-- `x && y`, where `x` is what is left of `ull` above `ts` bytes. -/
def overflows (ts ull : Nat) : Bool :=
  if ts = 8 then false
  else
    let x := ull / 256 ^ ts * 256 ^ ts
    x != 0 && x != 2 ^ 64 - 256 ^ ts

/-- `eatsize`. -/
def eatsize (l : Bytes) : Bytes :=
  let l := if l.head?.any (tolower · == 0x75) then l.tail else l
  if l.head?.any fun c => (asc "lshbc").contains (tolower c) then l.tail else l

/-- What is left of the sign when the size is checked. -/
def Number.checked (n : Number) : Nat :=
  let ull := n.strtoull.1
  if n.negative ∧ ull ≠ 2 ^ 64 - 1 then (2 ^ 64 - ull) % 2 ^ 64 else ull

/-- `getvalue` for the types that are not read as a text, a floating-point number or a GUID, with
a relation other than `x`: `m->value.q` and the rest of the line, or the warning before
`return -1`. -/
def getvalue (m : Magic) (p : Bytes) : Except Bytes (Nat × Bytes) :=
  match readNumber p with
  | none => .error (asc "Unparsable number `" ++ p ++ asc "'")
  | some n =>
      match typesize m.type with
      | none => .error (asc "Expected numeric type got `" ++ typeName m.type ++ asc "'")
      | some ts =>
          if overflows ts n.checked then
            .error (asc "Overflow for numeric type `" ++ typeName m.type ++ asc "' value " ++
              asc "0x" ++ asc (String.ofList (Nat.toDigits 16 n.checked)))
          else
            .ok (fileSignextend m n.strtoull.1, if n.strtoull.2 then p else eatsize n.rest)

/-- The line with the value of its literal and a relation. -/
def valued (host : Host) (m : Magic) (q : Nat) (reln : Reln) : Magic :=
  { m with value := m.value.store host 8 q, reln }

/-- A numeric test of the data in `v`; `none` is an error or data that cannot be read. -/
def testNumber (host : Host) (flags : Nat) (m : Magic) (flip : Bool) (v : Value) (search : Search)
    (io : Io) : Option Bool :=
  match mconvert host m flip v io with
  | (true, v, io) => (magiccheck host flags m v search io).matched
  | (false, _, _) => none

/-! ## Literals that fit -/

/-- The range of a type of `w` bits, signed or not. -/
def InRange (w : Nat) (x : Int) : Prop := -2 ^ (w - 1) ≤ x ∧ x < 2 ^ w

/-- `file_signextend` extends the sign from the width of the type. -/
def extends' (m : Magic) : Bool :=
  !has m.flag UNSIGNED && match m.type with
    | .msdosdate | .bemsdosdate | .lemsdosdate | .msdostime | .bemsdostime | .lemsdostime => false
    | _ => true

/-- A literal means what it says: it is accepted just in the range, and `=` and `!` compare the
number in the file with it modulo `2 ^ w`, in every byte order. -/
structure Exact (host : Host) (m : Magic) (order : ByteOrder) (n : Nat) (text : Bytes) : Prop where
  accepted : (∃ q rest, getvalue m text = .ok (q, rest)) ↔
    ∃ number, readNumber text = some number ∧ InRange (8 * n) number.value
  tested : ∀ q rest number, getvalue m text = .ok (q, rest) → readNumber text = some number →
    ∀ flags flip v search io,
      testNumber host flags (valued host m q .eq) flip v search io =
        some (decide ((fileNumber host order n flip v : Int) ≡ number.value [ZMOD 2 ^ (8 * n)])) ∧
      testNumber host flags (valued host m q .ne) flip v search io =
        some (!decide ((fileNumber host order n flip v : Int) ≡ number.value [ZMOD 2 ^ (8 * n)]))

/-- The literals for which this holds. -/
def Fits (w : Nat) (extended : Bool) (x : Int) : Prop :=
  (0 ≤ x ∧ (x < 2 ^ w ∨ x < 2 ^ 64 - 2 ^ w)) ∨
    (x < 0 ∧ ((-2 ^ (w - 1) ≤ x ∧ (extended = true ∨ w = 64)) ∨ (x ≤ -2 ^ w ∧ -(2 ^ 64 - 2 ^ w) < x)))

section
variable {host : Host} {m : Magic} {n : Nat} {order : ByteOrder}

theorem typesize_number (number : m.type.number = some (n, order)) : typesize m.type = some n := by
  cases type : m.type
  all_goals
    rw [type] at number
    cases number
  all_goals rfl

theorem strtoull_lt (number : Number) : number.strtoull.1 < 2 ^ 64 := by
  simp only [Number.strtoull]
  split_ifs <;> omega

theorem checked_lt (number : Number) : number.checked < 2 ^ 64 := by
  have := strtoull_lt number
  simp only [Number.checked]
  split_ifs <;> omega

/-- The size check lets through what is below `2 ^ w`, and the last `2 ^ w` numbers of 64 bits. -/
theorem overflows_eq_false {ull : Nat} (width : n = 1 ∨ n = 2 ∨ n = 4) (lt : ull < 2 ^ 64) :
    overflows n ull = false ↔ ull < 256 ^ n ∨ 2 ^ 64 - 256 ^ n ≤ ull := by
  rcases width with rfl | rfl | rfl
  all_goals
    simp only [overflows]
    norm_num
    omega

/-- What is checked of a literal: its magnitude, but all ones for `-1` and what is too large. -/
theorem checked_eq (number : Number) :
    number.checked = if 2 ^ 64 ≤ number.magnitude ∨ number.value = -1 then 2 ^ 64 - 1 else number.magnitude := by
  obtain ⟨negative, magnitude, rest⟩ := number
  cases negative
  · have other : (Number.mk false magnitude rest).value ≠ -1 := by
      change (magnitude : Int) ≠ -1
      omega
    simp only [Number.checked, Number.strtoull, Bool.false_eq_true, if_false, false_and, other, or_false]
    split_ifs <;> omega
  · simp only [Number.checked, Number.strtoull, Number.value, if_true, true_and]
    split_ifs <;> omega

theorem getvalue_ok (number : m.type.number = some (n, order)) {text : Bytes} {literal : Number}
    (read : readNumber text = some literal) :
    (∃ q rest, getvalue m text = .ok (q, rest)) ↔ overflows n literal.checked = false := by
  rw [getvalue, read, typesize_number number]
  dsimp only
  by_cases overflow : overflows n literal.checked = true
  · rw [if_pos overflow, overflow]
    simp
  · rw [if_neg overflow]
    simp [overflow]

theorem fits_iff_range (width : n = 1 ∨ n = 2 ∨ n = 4 ∨ n = 8) (literal : Number) :
    (overflows n literal.checked = false ↔ InRange (8 * n) literal.value) ↔
      Fits (8 * n) true literal.value := by
  have lt := checked_lt literal
  have magnitude : literal.value = literal.magnitude ∨
      (literal.value = -literal.magnitude) := by
    simp only [Number.value]
    split_ifs
    · exact .inr rfl
    · exact .inl rfl
  by_cases wide : n = 8
  · subst wide
    simp only [overflows, if_true, true_iff, InRange, Fits, true_or, and_true]
    norm_num
    omega
  · rw [overflows_eq_false (by omega) lt, checked_eq]
    have signs : (literal.value = literal.magnitude ∧ 0 ≤ literal.value) ∨
        (literal.value = -literal.magnitude ∧ literal.value ≤ 0) := by
      omega
    rcases width with rfl | rfl | rfl | rfl
    · simp only [InRange, Fits, true_or, and_true]
      norm_num
      split_ifs <;> omega
    · simp only [InRange, Fits, true_or, and_true]
      norm_num
      split_ifs <;> omega
    · simp only [InRange, Fits, true_or, and_true]
      norm_num
      split_ifs <;> omega
    · exact absurd rfl wide

/-! ## The test -/

theorem fileSignextend_lt (m : Magic) {x : Nat} (lt : x < 2 ^ 64) : fileSignextend m x < 2 ^ 64 := by
  rw [fileSignextend]
  split_ifs
  · exact lt
  · split
    all_goals
      first
      | exact uN_lt 64 _
      | exact lt
      | exact Nat.sub_lt (by decide) (by decide)

/-- The test of a number compares what `file_signextend` makes of it with the value of the line. -/
theorem testNumber_eq (unmasked : m.Unmasked host) (number : m.type.number = some (n, order)) {q : Nat}
    (lt : q < 2 ^ 64) {reln : Reln} {matched : Bool} {flip : Bool} {v : Value}
    (compared : compareInt (has m.flag UNSIGNED) reln
      (fileSignextend m (fileNumber host order n flip v)) q = some matched)
    (flags : Nat) (search : Search) (io : Io) :
    testNumber host flags (valued host m q reln) flip v search io = some matched := by
  have stored : (m.value.store host 8 q).load host 8 = q := load_store m.value host (by decide) lt
  obtain ⟨v', converted, loaded⟩ := @mconvert_number host (valued host m q reln) n order
    ⟨unmasked.op, unmasked.mask⟩ number flip v io
  rw [testNumber, converted]
  apply @magiccheck_number host (valued host m q reln) n order flags number
  rw [loaded]
  simp only [valued, stored]
  exact compared

theorem strtoull_inRange (width : n = 1 ∨ n = 2 ∨ n = 4 ∨ n = 8) {literal : Number}
    (range : InRange (8 * n) literal.value) : literal.strtoull.1 = uN 64 literal.value := by
  have range' : -2 ^ 63 ≤ literal.value ∧ literal.value < 2 ^ 64 := by
    obtain ⟨low, high⟩ := range
    rcases width with rfl | rfl | rfl | rfl <;> norm_num at low high <;> omega
  obtain ⟨negative, magnitude, rest⟩ := literal
  cases negative
  · simp only [Number.value, Number.strtoull, uN, Bool.false_eq_true, if_false] at range' ⊢
    split_ifs <;> omega
  · simp only [Number.value, Number.strtoull, uN, if_true] at range' ⊢
    split_ifs <;> omega

theorem fileSignextend_wide (number : m.type.number = some (8, order)) (x : Nat) :
    fileSignextend m x = x := by
  by_cases unsigned : has m.flag UNSIGNED = true
  · rw [fileSignextend, if_pos unsigned]
  · cases type : m.type
    all_goals
      rw [type] at number
      cases number
    all_goals rw [fileSignextend, if_neg unsigned, type]

/-- Signed types but the MS-DOS ones: both sides are extended from the width. -/
theorem fileSignextend_extended (number : m.type.number = some (n, order)) (extended : extends' m = true)
    (narrow : n ≠ 8) (x : Nat) : fileSignextend m x = uN 64 (sN (8 * n) x) := by
  obtain ⟨signed, other⟩ := Bool.and_eq_true_iff.mp extended
  rw [fileSignextend, if_neg (by simpa using signed)]
  cases type : m.type
  all_goals
    rw [type] at number other
    cases number
    try cases other
    try exact absurd rfl narrow
  all_goals rfl

/-- Unsigned and MS-DOS types: nothing is changed, or the low 32 bits are extended. -/
theorem fileSignextend_kept (number : m.type.number = some (n, order)) (kept : extends' m = false) :
    (∀ x, fileSignextend m x = x) ∨ n = 2 ∧ ∀ x, fileSignextend m x = uN 64 (sN 32 x) := by
  by_cases unsigned : has m.flag UNSIGNED = true
  · refine .inl ?_
    intro x
    rw [fileSignextend, if_pos unsigned]
  · refine .inr ?_
    simp only [extends', unsigned] at kept
    cases type : m.type
    all_goals
      rw [type] at number kept
      cases number
      try cases kept
    all_goals
      refine ⟨rfl, ?_⟩
      intro x
      rw [fileSignextend, if_neg unsigned, type]

/-- A literal in the range compares as it says, if it is not negative or its sign is extended. -/
theorem fileSignextend_eq_iff (number : m.type.number = some (n, order)) {d : Nat} (lt : d < 256 ^ n)
    {x : Int} (range : InRange (8 * n) x) (good : 0 ≤ x ∨ extends' m = true ∨ 8 * n = 64) :
    fileSignextend m d = fileSignextend m (uN 64 x) ↔ (d : Int) ≡ x [ZMOD 2 ^ (8 * n)] := by
  obtain ⟨width, -⟩ := number_size number
  have le : 8 * n ≤ 64 := by omega
  have literal : (uN 64 x : Int) ≡ x [ZMOD 2 ^ (8 * n)] := (uN_modEq 64 x).of_dvd (pow_dvd_pow 2 le)
  by_cases wide : n = 8
  · subst wide
    rw [fileSignextend_wide number, fileSignextend_wide number]
    rw [← uN_eq_iff, uN_natCast lt]
  by_cases extended : extends' m = true
  · rw [fileSignextend_extended number extended wide, fileSignextend_extended number extended wide,
      uN_sN_eq_iff le]
    constructor
    · intro same
      exact same.trans literal
    · intro same
      exact same.trans literal.symm
  · have positive : 0 ≤ x := by
      rcases good with positive | extended' | wide'
      · exact positive
      · exact absurd extended' extended
      · omega
    have small : x < 2 ^ (8 * n) := range.2
    have same : uN 64 x = x.toNat := by
      have cast := uN_cast 64 x
      have below : (2 : Int) ^ (8 * n) ≤ 2 ^ 64 := pow_le_pow_right₀ (by decide) le
      rw [Int.emod_eq_of_lt positive (small.trans_le below)] at cast
      omega
    have value : (d : Int) ≡ x [ZMOD 2 ^ (8 * n)] ↔ d = x.toNat := by
      have lt' : (d : Int) < 2 ^ (8 * n) := by
        rw [pow_mul]
        exact_mod_cast lt
      rw [Int.ModEq, Int.emod_eq_of_lt (Int.natCast_nonneg d) lt', Int.emod_eq_of_lt positive small]
      omega
    rw [same, value]
    rcases fileSignextend_kept number (Bool.not_eq_true _ ▸ extended) with kept | ⟨rfl, kept⟩
    · rw [kept, kept]
    · rw [kept, kept, uN_sN_eq_iff (by decide), Int.ModEq]
      norm_num at lt small
      omega

/-- A literal that is not extended from the width differs from the number that is congruent to it. -/
theorem fileSignextend_ne (number : m.type.number = some (n, order)) (narrow : n ≠ 8)
    (kept : extends' m = false) {x : Int} (range : InRange (8 * n) x) {d : Nat}
    (congruent : (d : Int) = x + 2 ^ (8 * n)) :
    fileSignextend m d ≠ fileSignextend m (uN 64 x) := by
  obtain ⟨width, -⟩ := number_size number
  obtain ⟨low, -⟩ := range
  have cast := uN_cast 64 x
  intro same
  rcases fileSignextend_kept number kept with kept | ⟨rfl, kept⟩
  · rw [kept, kept] at same
    subst same
    rcases width with rfl | rfl | rfl | rfl
    · norm_num at low congruent cast
      omega
    · norm_num at low congruent cast
      omega
    · norm_num at low congruent cast
      omega
    · exact absurd rfl narrow
  · rw [kept, kept, uN_sN_eq_iff (by decide)] at same
    have low' : (d : Int) ≡ x [ZMOD 2 ^ 32] := same.trans ((uN_modEq 64 x).of_dvd (by decide))
    simp only [Int.ModEq] at low'
    norm_num at low congruent low'
    omega

theorem fits_split {w : Nat} (positive : 0 < w) (extended : Bool) (x : Int) :
    Fits w extended x ↔ Fits w true x ∧ (InRange w x → 0 ≤ x ∨ extended = true ∨ w = 64) := by
  have double : (2 : Int) ^ w = 2 * 2 ^ (w - 1) := by
    rw [← pow_succ', Nat.sub_add_cancel positive]
  have half : (0 : Int) < 2 ^ (w - 1) := by positivity
  constructor
  · rintro (⟨nonneg, high⟩ | ⟨negative, ⟨low, good⟩ | far⟩)
    · exact ⟨.inl ⟨nonneg, high⟩, fun _ => .inl nonneg⟩
    · exact ⟨.inr ⟨negative, .inl ⟨low, .inl rfl⟩⟩, fun _ => .inr good⟩
    · refine ⟨.inr ⟨negative, .inr far⟩, ?_⟩
      rintro ⟨low, -⟩
      omega
  · rintro ⟨⟨nonneg, high⟩ | ⟨negative, ⟨low, -⟩ | far⟩, good⟩
    · exact .inl ⟨nonneg, high⟩
    · have range : InRange w x := ⟨low, by omega⟩
      rcases good range with nonneg | good
      · omega
      · exact .inr ⟨negative, .inl ⟨low, good⟩⟩
    · exact .inr ⟨negative, .inr far⟩

theorem getvalue_value (number : m.type.number = some (n, order)) {text rest : Bytes} {literal : Number}
    {q : Nat} (read : readNumber text = some literal) (ok : getvalue m text = .ok (q, rest)) :
    q = fileSignextend m literal.strtoull.1 := by
  rw [getvalue, read, typesize_number number] at ok
  dsimp only at ok
  split_ifs at ok
  all_goals
    cases ok
  all_goals rfl

theorem exists_fileNumber (host : Host) (number : m.type.number = some (n, order)) {d : Nat}
    (lt : d < 256 ^ n) : ∃ v, fileNumber host order n false v = d := by
  obtain ⟨width, middle⟩ := number_size number
  obtain ⟨bs, length, read⟩ := exists_read host middle lt
  refine ⟨Value.zero.write 0 bs, ?_⟩
  have fits : bs.length ≤ 128 := by omega
  have flipped : order.flipped false = order := by cases order <;> rfl
  rw [fileNumber, flipped, ← length, write_take Value.zero fits, read]

/-- The literal is accepted just in the range if and only if it fits, were its sign extended. -/
theorem accepted_iff (number : m.type.number = some (n, order)) {text : Bytes} {literal : Number}
    (read : readNumber text = some literal) :
    ((∃ q rest, getvalue m text = .ok (q, rest)) ↔
      ∃ number, readNumber text = some number ∧ InRange (8 * n) number.value) ↔
      Fits (8 * n) true literal.value := by
  have here : (∃ number, readNumber text = some number ∧ InRange (8 * n) number.value) ↔
      InRange (8 * n) literal.value := by
    simp [read]
  rw [here, getvalue_ok number read]
  exact fits_iff_range (number_size number).1 literal

/-- A negative literal that is not extended is never matched by the number it is congruent to. -/
theorem Exact.sign {text : Bytes} {literal : Number} (exact' : Exact host m order n text)
    (number : m.type.number = some (n, order)) (unmasked : m.Unmasked host)
    (read : readNumber text = some literal) (range : InRange (8 * n) literal.value) :
    0 ≤ literal.value ∨ extends' m = true ∨ 8 * n = 64 := by
  by_contra bad
  rw [not_or, not_or, Int.not_le, Bool.not_eq_true] at bad
  obtain ⟨negative, kept, narrow⟩ := bad
  obtain ⟨width, -⟩ := number_size number
  obtain ⟨q, rest, ok⟩ := exact'.accepted.mpr ⟨literal, read, range⟩
  have value := getvalue_value number read ok
  rw [strtoull_inRange width range] at value
  have low := range.1
  have double : (2 : Int) ^ (8 * n) = 2 * 2 ^ (8 * n - 1) := by
    rw [← pow_succ', Nat.sub_add_cancel (by omega)]
  have half : (0 : Int) < 2 ^ (8 * n - 1) := by positivity
  obtain ⟨d, congruent⟩ : ∃ d : Nat, (d : Int) = literal.value + 2 ^ (8 * n) :=
    ⟨(literal.value + 2 ^ (8 * n)).toNat, Int.toNat_of_nonneg (by omega)⟩
  have lt : d < 256 ^ n := by
    have lt : (d : Int) < 2 ^ (8 * n) := by omega
    rw [pow_mul] at lt
    exact_mod_cast lt
  obtain ⟨v, reads⟩ := exists_fileNumber host number lt
  have ne := fileSignextend_ne number (by omega) kept range congruent
  obtain ⟨tested, -⟩ := exact'.tested q rest literal ok read 0 false v ⟨none, 0, 0, 0⟩
    ⟨none, false, 0, 0, 0⟩
  have lt' : q < 2 ^ 64 := value ▸ fileSignextend_lt m (uN_lt 64 _)
  have unequal := @testNumber_eq host m n order unmasked number q lt' .eq false false v
    (by rw [reads, compareInt, value]; simpa using ne) 0 ⟨none, 0, 0, 0⟩ ⟨none, false, 0, 0, 0⟩
  rw [unequal, reads, Option.some.injEq, eq_comm, decide_eq_false_iff_not] at tested
  apply tested
  rw [congruent]
  exact Int.modEq_iff_dvd.mpr ⟨-1, by ring⟩

end

/-- A literal means what it says if and only if it fits; texts that are not numbers are refused. -/
theorem getvalue_exact_iff (host : Host) (m : Magic) (n : Nat) (order : ByteOrder) (text : Bytes)
    (number : m.type.number = some (n, order)) (unmasked : m.Unmasked host) :
    Exact host m order n text ↔
      ∀ literal, readNumber text = some literal → Fits (8 * n) (extends' m) literal.value := by
  obtain ⟨width, -⟩ := number_size number
  cases read : readNumber text with
  | none =>
      have refused : getvalue m text = .error (asc "Unparsable number `" ++ text ++ asc "'") := by
        rw [getvalue, read]
      constructor
      · intro _ literal impossible
        cases impossible
      · intro _
        constructor
        · simp [refused, read]
        · intro q rest literal ok
          rw [refused] at ok
          cases ok
  | some literal =>
      constructor
      · intro exact' literal' same
        obtain rfl := Option.some.inj same
        rw [fits_split (by omega)]
        exact ⟨(accepted_iff number read).mp exact'.accepted, exact'.sign number unmasked read⟩
      · intro fits
        obtain ⟨range, good⟩ := (fits_split (by omega) _ _).mp (fits literal rfl)
        have accepted := (accepted_iff number read).mpr range
        refine ⟨accepted, ?_⟩
        intro q rest literal' ok read' flags flip v search io
        obtain rfl := Option.some.inj (read.symm.trans read')
        obtain ⟨number', read'', inside⟩ := accepted.mp ⟨q, rest, ok⟩
        obtain rfl := Option.some.inj (read.symm.trans read'')
        have value := getvalue_value number read ok
        rw [strtoull_inRange width inside] at value
        have lt : q < 2 ^ 64 := value ▸ fileSignextend_lt m (uN_lt 64 _)
        have same := fileSignextend_eq_iff number (fileNumber_lt host flip v number) inside (good inside)
        rw [← value] at same
        constructor
        · apply testNumber_eq unmasked number lt
          simp only [compareInt, ← same]
          rw [beq_eq_decide]
        · apply testNumber_eq unmasked number lt
          simp only [compareInt, ← same, bne]
          rw [beq_eq_decide]

/-- `byte =200`. -/
theorem getvalue_exact_byte : Exact plainHost plainLine .native 1 (asc "200") := by
  apply (getvalue_exact_iff plainHost plainLine 1 .native (asc "200") rfl ⟨rfl, rfl⟩).mpr
  have read : readNumber (asc "200") = some ⟨false, 200, []⟩ := by decide +kernel
  intro literal same
  obtain rfl := Option.some.inj (read.symm.trans same)
  exact .inl ⟨by decide, .inl (by decide)⟩

/-- `byte =18446744073709551616` is accepted, and `ubyte =-1` does not match a byte `ff`. -/
theorem getvalue_inexact :
    ¬ Exact plainHost plainLine .native 1 (asc "18446744073709551616") ∧
      ¬ Exact plainHost { plainLine with flag := UNSIGNED } .native 1 (asc "-1") := by
  constructor
  · intro exact'
    have ok : getvalue plainLine (asc "18446744073709551616") =
        .ok (2 ^ 64 - 1, asc "18446744073709551616") := by
      decide +kernel
    have read : readNumber (asc "18446744073709551616") = some ⟨false, 2 ^ 64, []⟩ := by
      decide +kernel
    obtain ⟨literal, same, -, high⟩ := exact'.accepted.mp ⟨_, _, ok⟩
    obtain rfl := Option.some.inj (read.symm.trans same)
    exact absurd high (by decide)
  · intro exact'
    have ok : getvalue { plainLine with flag := UNSIGNED } (asc "-1") = .ok (2 ^ 64 - 1, []) := by
      decide +kernel
    have read : readNumber (asc "-1") = some ⟨true, 1, []⟩ := by decide +kernel
    obtain ⟨tested, -⟩ := exact'.tested _ _ _ ok read 0 false (Value.zero.write 0 [0xff])
      ⟨none, 0, 0, 0⟩ ⟨none, false, 0, 0, 0⟩
    revert tested
    decide +kernel

end Libmagic.Apprentice
