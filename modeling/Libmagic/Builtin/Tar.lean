import Libmagic.Memory
import Libmagic.Scan
import Libmagic.Softmagic.Types

/-!
# `is_tar.c`: the checksum of a tar header

The bytes of the header are added up as `unsigned char`, but the checksum field is taken out of the
sum as `char`, whose sign is up to the compiler.
-/
namespace Libmagic.Builtin

open Softmagic

namespace Tar

def RECORDSIZE : Nat := 512

/-- The members of `struct header` that are looked at. -/
def name : Field := ⟨0, 100⟩
def chksum : Field := ⟨148, 8⟩
def magic : Field := ⟨257, 8⟩

/-- `isspace` in the C locale. -/
def isspace (b : UInt8) : Bool := b == 32 || (9 ≤ b && b ≤ 13)

def isodigit (b : UInt8) : Bool := 48 ≤ b && b ≤ 55

/-- A `char`. -/
def char (signed : Bool) (b : UInt8) : Int := if signed && 128 ≤ b then (b.toNat : Int) - 256 else b.toNat

/-- The loop over the octal digits: the number, and what is behind them. -/
def octal : (value : Nat) → Bytes → Nat × Bytes
  | value, [] => (value, [])
  | value, b :: bs =>
      if isodigit b then octal (value <<< 3 ||| (b.toNat - 48)) bs else (value, b :: bs)

/-- `from_oct`. -/
def fromOct (field : Bytes) : Int :=
  match field.dropWhile isspace with
  | [] => -1
  | bs =>
      let (value, rest) := octal 0 bs
      match rest with
      | [] => value
      | b :: _ => if b ≠ 0 ∧ !isspace b then -1 else value

/-- `"/gpkg-1"`, with its NUL. -/
def gpkgMatch : Bytes := [47, 103, 112, 107, 103, 45, 49, 0]

/-- The name ends like that of a package. -/
def isGpkg (buf : Bytes) : Bool :=
  let name := name.get buf
  match name.idxOf? 0 with
  | none => false
  | some nulp => 8 ≤ nulp && (⟨nulp - 8 + 1, 8⟩ : Field).get name == gpkgMatch

def GNUTMAGIC : Bytes := [117, 115, 116, 97, 114, 32, 32, 0]
def TMAGIC : Bytes := [117, 115, 116, 97, 114, 0]

/-- The sum of the header with the checksum field as blanks. -/
def sum (signed : Bool) (buf : Bytes) : Int :=
  let sum := (buf.take RECORDSIZE).foldl (fun sum b => sum + (b.toNat : Int)) 0
  let sum := (chksum.get buf).foldl (fun sum b => sum - char signed b) sum
  sum + 32 * 8

/-- `is_tar`. -/
def isTar (signed : Bool) (buf : Bytes) : Nat :=
  if buf.length < RECORDSIZE then 0
  else if isGpkg buf then 0
  else if sum signed buf ≠ fromOct (chksum.get buf) then 0
  else if magic.get buf = GNUTMAGIC then 3
  else if (magic.get buf).take 6 = TMAGIC then 2
  else 1

/-! ## The number in the field -/

/-- The number that digits are in octal. -/
def number (digits : Bytes) : Nat := digits.foldl (fun value b => value * 8 + (b.toNat - 48)) 0

/-- Blanks, octal digits, and then a blank, a NUL or the end of the field. -/
def Decodes (field : Bytes) (value : Nat) : Prop :=
  ∃ blanks digits tail, field = blanks ++ (digits ++ tail) ∧ (∀ b ∈ blanks, isspace b) ∧ digits ≠ [] ∧
    (∀ b ∈ digits, isodigit b) ∧ (∀ b ∈ tail.head?, b = 0 ∨ isspace b) ∧ value = number digits

theorem isodigit_iff (b : UInt8) : isodigit b = true ↔ 48 ≤ b.toNat ∧ b.toNat ≤ 55 := by
  rw [isodigit, Bool.and_eq_true, decide_eq_true_iff, decide_eq_true_iff, UInt8.le_iff_toNat_le,
    UInt8.le_iff_toNat_le]
  rfl

theorem isspace_iff (b : UInt8) : isspace b = true ↔ b.toNat = 32 ∨ (9 ≤ b.toNat ∧ b.toNat ≤ 13) := by
  rw [isspace, Bool.or_eq_true, Bool.and_eq_true, beq_iff_eq, decide_eq_true_iff, decide_eq_true_iff,
    UInt8.le_iff_toNat_le, UInt8.le_iff_toNat_le, ← UInt8.toNat_inj]
  rfl

theorem not_isspace {b : UInt8} (digit : isodigit b) : isspace b = false := by
  rw [isodigit_iff] at digit
  apply Bool.eq_false_iff.mpr
  intro space
  rw [isspace_iff] at space
  omega

theorem not_isodigit {b : UInt8} (stop : b = 0 ∨ isspace b = true) : isodigit b = false := by
  apply Bool.eq_false_iff.mpr
  intro digit
  rcases stop with rfl | space
  · cases digit
  · exact Bool.false_ne_true ((not_isspace digit).symm.trans space)

theorem digit_step (value : Nat) {b : UInt8} (digit : isodigit b) :
    value <<< 3 ||| (b.toNat - 48) = value * 8 + (b.toNat - 48) := by
  have small : b.toNat - 48 < 2 ^ 3 := by
    rw [isodigit_iff] at digit
    omega
  rw [← Nat.shiftLeft_add_eq_or_of_lt small, Nat.shiftLeft_eq]

theorem octal_eq (value : Nat) (bs : Bytes) :
    octal value bs = ((bs.takeWhile isodigit).foldl (fun value b => value * 8 + (b.toNat - 48)) value,
      bs.dropWhile isodigit) := by
  induction bs generalizing value with
  | nil => rfl
  | cons b bs ih =>
      rw [octal]
      by_cases digit : isodigit b
      · rw [if_pos digit, ih, digit_step value digit, List.takeWhile_cons_of_pos digit,
          List.dropWhile_cons_of_pos digit]
        rfl
      · rw [if_neg digit, List.takeWhile_cons_of_neg digit, List.dropWhile_cons_of_neg digit]
        rfl

/-- A field that does not decode is not taken for a number, but for the number 0 if there is no digit. -/
theorem fromOct_eq (field : Bytes) {value : Nat} (pos : 0 < value) :
    fromOct field = value ↔ Decodes field value := by
  constructor
  · intro decoded
    unfold fromOct at decoded
    have blanks : ∀ b ∈ field.takeWhile isspace, isspace b := fun b member => List.mem_takeWhile_imp member
    have whole := List.takeWhile_append_dropWhile (p := isspace) (l := field)
    generalize field.dropWhile isspace = bs at decoded whole
    cases bs with
    | nil =>
        exact absurd decoded (by dsimp only; omega)
    | cons first bs =>
        dsimp only at decoded
        rw [octal_eq] at decoded
        have digits : ∀ b ∈ (first :: bs).takeWhile isodigit, isodigit b :=
          fun b member => List.mem_takeWhile_imp member
        have split := List.takeWhile_append_dropWhile (p := isodigit) (l := first :: bs)
        generalize (first :: bs).dropWhile isodigit = tail at decoded split
        generalize (first :: bs).takeWhile isodigit = ds at decoded split digits
        have some : ds ≠ [] := by
          rintro rfl
          cases tail with
          | nil =>
              have zero : (0 : Int) = value := decoded
              omega
          | cons b tail =>
              dsimp only at decoded
              split at decoded
              · omega
              · have zero : (0 : Int) = value := decoded
                omega
        refine ⟨field.takeWhile isspace, ds, tail, by rw [split, whole], blanks, some, digits, ?_⟩
        cases tail with
        | nil =>
            refine ⟨fun b first => ?_, (Int.ofNat_inj.mp decoded).symm⟩
            cases first
        | cons b tail =>
            dsimp only at decoded
            by_cases bad : b ≠ 0 ∧ (!isspace b) = true
            · rw [if_pos bad] at decoded
              omega
            · rw [if_neg bad] at decoded
              refine ⟨?_, (Int.ofNat_inj.mp decoded).symm⟩
              rintro b ⟨⟩
              by_cases zero : b = 0
              · exact .inl zero
              · right
                by_contra space
                exact bad ⟨zero, by rw [Bool.eq_false_iff.mpr space]; rfl⟩
  · rintro ⟨blanks, digits, tail, rfl, spaces, some, digit, stop, rfl⟩
    have first : ∀ b ∈ (digits ++ tail).head?, isspace b = false := by
      cases digits with
      | nil => exact absurd rfl some
      | cons d digits =>
          rintro b ⟨⟩
          exact not_isspace (digit d List.mem_cons_self)
    have last : ∀ b ∈ tail.head?, isodigit b = false := fun b member => not_isodigit (stop b member)
    have rest := (takeWhile_split spaces first).2
    unfold fromOct
    rw [rest]
    cases digits with
    | nil => exact absurd rfl some
    | cons d digits =>
        rw [List.cons_append]
        dsimp only
        have split := takeWhile_split digit last
        rw [List.cons_append] at split
        rw [octal_eq, split.1, split.2]
        cases tail with
        | nil => rfl
        | cons b tail =>
            dsimp only
            have fine : ¬ (b ≠ 0 ∧ (!isspace b) = true) := by
              rintro ⟨nonzero, space⟩
              rcases stop b rfl with zero | blank
              · exact nonzero zero
              · rw [blank] at space
                cases space
            rw [if_neg fine]
            rfl

/-! ## The sum of the header -/

/-- The bytes added up as unsigned values. -/
def total (bs : Bytes) : Int := (bs.map (fun b => (b.toNat : Int))).sum

/-- The sum of the header with eight blanks for the checksum field. -/
def checksum (buf : Bytes) : Int := total (buf.take 148) + 8 * 32 + total ((buf.take RECORDSIZE).drop 156)

/-- The bytes of the field that are negative as a `char`. -/
def negative (signed : Bool) (field : Bytes) : Nat := if signed then field.countP (128 ≤ ·) else 0

theorem foldl_add (bs : Bytes) (sum : Int) :
    bs.foldl (fun sum b => sum + (b.toNat : Int)) sum = sum + total bs := by
  induction bs generalizing sum with
  | nil => exact (Int.add_zero sum).symm
  | cons b bs ih =>
      rw [List.foldl_cons, ih, total, total, List.map_cons, List.sum_cons]
      omega

theorem foldl_sub (signed : Bool) (bs : Bytes) (sum : Int) :
    bs.foldl (fun sum b => sum - char signed b) sum = sum - total bs + 256 * negative signed bs := by
  induction bs generalizing sum with
  | nil =>
      have none : negative signed [] = 0 := by cases signed <;> rfl
      rw [none, List.foldl_nil, total, List.map_nil, List.sum_nil]
      omega
  | cons b bs ih =>
      have first : char signed b = b.toNat - 256 * ((negative signed (b :: bs) : Int) - negative signed bs) := by
        unfold char negative
        cases signed with
        | false => simp
        | true =>
            rw [List.countP_cons, Bool.true_and]
            by_cases high : 128 ≤ b <;> simp [high]
      rw [List.foldl_cons, ih, first]
      simp only [total, List.map_cons, List.sum_cons]
      omega

theorem total_append (bs bs' : Bytes) : total (bs ++ bs') = total bs + total bs' := by
  rw [total, List.map_append, List.sum_append]
  rfl

theorem total_nonneg (bs : Bytes) : 0 ≤ total bs := by
  induction bs with
  | nil => exact Int.le_refl 0
  | cons b bs ih =>
      unfold total at ih ⊢
      rw [List.map_cons, List.sum_cons]
      omega

/-- Where `char` is signed, each high byte of the field counts 256 too much. -/
theorem sum_eq (signed : Bool) (buf : Bytes) :
    sum signed buf = checksum buf + 256 * negative signed (chksum.get buf) := by
  have split : buf.take RECORDSIZE = buf.take 148 ++ (chksum.get buf ++ (buf.take RECORDSIZE).drop 156) := by
    have field : chksum.get buf = ((buf.take RECORDSIZE).drop 148).take 8 := by
      rw [Field.get, chksum, List.drop_take, List.take_take]
      rfl
    have back : (buf.take RECORDSIZE).drop 156 = ((buf.take RECORDSIZE).drop 148).drop 8 := by
      rw [List.drop_drop]
    have front : buf.take 148 = (buf.take RECORDSIZE).take 148 := by
      rw [List.take_take]
      rfl
    rw [field, back, List.take_append_drop, front, List.take_append_drop]
  have whole := congrArg total split
  rw [total_append, total_append] at whole
  unfold sum checksum
  dsimp only
  rw [foldl_add, foldl_sub, whole]
  omega

/-- A header whose checksum field says what the bytes add up to, in any way that the field can say it. -/
def Sound (buf : Bytes) : Prop := ∃ value, Decodes (chksum.get buf) value ∧ (value : Int) = checksum buf

theorem sound_iff (buf : Bytes) : Sound buf ↔ fromOct (chksum.get buf) = checksum buf := by
  have front := total_nonneg (buf.take 148)
  have back := total_nonneg ((buf.take RECORDSIZE).drop 156)
  have pos : 0 < checksum buf := by
    unfold checksum
    omega
  obtain ⟨n, hn⟩ := Int.eq_ofNat_of_zero_le (Int.le_of_lt pos)
  rw [hn, fromOct_eq _ (by omega)]
  constructor
  · rintro ⟨value, decodes, same⟩
    have : value = n := by omega
    exact this ▸ decodes
  · intro decodes
    exact ⟨n, decodes, hn.symm⟩

theorem isTar_ne_zero {signed : Bool} {buf : Bytes} (long : RECORDSIZE ≤ buf.length)
    (other : isGpkg buf = false) : isTar signed buf ≠ 0 ↔ sum signed buf = fromOct (chksum.get buf) := by
  have size : ¬ buf.length < RECORDSIZE := Nat.not_lt.mpr long
  unfold isTar
  rw [if_neg size, other, if_neg Bool.false_ne_true]
  by_cases same : sum signed buf = fromOct (chksum.get buf)
  · rw [if_neg (not_not_intro same)]
    refine iff_of_true ?_ same
    split
    · decide
    · split <;> decide
  · rw [if_pos same]
    exact iff_of_false (fun ne => ne rfl) same

/-- The field says neither the true sum nor the one that is too large. -/
def SaysNeither (signed : Bool) (buf : Bytes) : Prop :=
  ∀ value, Decodes (chksum.get buf) value →
    (value : Int) ≠ checksum buf ∧ (value : Int) ≠ checksum buf + 256 * negative signed (chksum.get buf)

/-- A header is taken for one of a tar archive exactly if its checksum is right, unless a byte of the
checksum field is negative as a `char`. -/
theorem isTar_iff_sound (signed : Bool) (buf : Bytes) (long : RECORDSIZE ≤ buf.length)
    (other : isGpkg buf = false) :
    (isTar signed buf ≠ 0 ↔ Sound buf) ↔
      (signed = false ∨ (∀ b ∈ chksum.get buf, b < 128) ∨ SaysNeither signed buf) := by
  have none_negative : signed = false ∨ (∀ b ∈ chksum.get buf, b < 128) ↔
      negative signed (chksum.get buf) = 0 := by
    unfold negative
    cases signed with
    | false => exact iff_of_true (.inl rfl) rfl
    | true =>
        rw [if_pos rfl, List.countP_eq_zero]
        simp
  have front := total_nonneg (buf.take 148)
  have back := total_nonneg ((buf.take RECORDSIZE).drop 156)
  have pos : 0 < checksum buf := by
    unfold checksum
    omega
  rw [isTar_ne_zero long other, sum_eq, sound_iff, ← or_assoc, none_negative]
  generalize hn : negative signed (chksum.get buf) = n
  constructor
  · intro same
    by_cases zero : n = 0
    · exact .inl zero
    · right
      intro value decodes
      by_cases none_said : value = 0
      · subst none_said
        omega
      · have said := (fromOct_eq _ (Nat.pos_of_ne_zero none_said)).mpr decodes
        rw [said] at same
        rw [hn]
        omega
  · rintro (rfl | neither)
    · rw [Int.natCast_zero, Int.mul_zero, Int.add_zero]
      exact eq_comm
    · have rejects : ∀ m : Int, 0 < m → fromOct (chksum.get buf) = m →
          m ≠ checksum buf ∧ m ≠ checksum buf + 256 * n := by
        intro m hm said
        obtain ⟨value, rfl⟩ := Int.eq_ofNat_of_zero_le (Int.le_of_lt hm)
        have := neither value ((fromOct_eq _ (by omega)).mp said)
        rwa [hn] at this
      constructor
      · intro large
        exact absurd rfl (rejects _ (by omega) large.symm).2
      · intro right
        exact absurd rfl (rejects _ pos right).1

/-- A header of zeros with a checksum field. -/
def zeros (field : Bytes) : Bytes := List.replicate 148 0 ++ field ++ List.replicate 356 0

theorem zeros_facts (field : Bytes) (size : field.length = 8) :
    (zeros field).length = RECORDSIZE ∧ chksum.get (zeros field) = field := by
  constructor
  · rw [zeros, List.length_append, List.length_append, List.length_replicate, List.length_replicate, size]
    rfl
  · rw [Field.get, chksum, zeros, List.append_assoc, List.drop_left' List.length_replicate, List.take_left' size]

/-- `400` and zeros: the sum is 256. -/
theorem isTar_sound_zeros :
    (RECORDSIZE ≤ (zeros [52, 48, 48, 0, 0, 0, 0, 0]).length ∧ isGpkg (zeros [52, 48, 48, 0, 0, 0, 0, 0]) = false) ∧
    (isTar true (zeros [52, 48, 48, 0, 0, 0, 0, 0]) ≠ 0 ↔ Sound (zeros [52, 48, 48, 0, 0, 0, 0, 0])) := by
  obtain ⟨length, field⟩ := zeros_facts [52, 48, 48, 0, 0, 0, 0, 0] rfl
  have long : RECORDSIZE ≤ (zeros [52, 48, 48, 0, 0, 0, 0, 0]).length := Nat.le_of_eq length.symm
  have other : isGpkg (zeros [52, 48, 48, 0, 0, 0, 0, 0]) = false := by decide +kernel
  refine ⟨⟨long, other⟩, (isTar_iff_sound true _ long other).mpr (.inr (.inl ?_))⟩
  rw [field]
  decide +kernel

/-- The same with a high byte behind the number, which is right and yet not found to be. -/
theorem isTar_not_sound :
    isGpkg (zeros [52, 48, 48, 0, 0, 0, 0, 128]) = false ∧
    ¬ (isTar true (zeros [52, 48, 48, 0, 0, 0, 0, 128]) ≠ 0 ↔ Sound (zeros [52, 48, 48, 0, 0, 0, 0, 128])) := by
  refine ⟨by decide +kernel, ?_⟩
  rw [sound_iff]
  decide +kernel

end Tar

end Libmagic.Builtin
