import Mathlib.Data.Int.Bitwise
import Libmagic.Softmagic.Numeric

/-!
# `softmagic.c`: `do_ops`

The operation is exact as long as the product fits in 64 bits. The lower bound of the result is not
tested.
-/
namespace Libmagic.Softmagic

/-! ## Operations on integers -/

/-- `lhs op off`, where 0 as the right operand stands for none. -/
def opExact (op : Nat) (lhs off : Int) : Int :=
  if off = 0 then lhs
  else match op with
    | 0 => Int.land lhs off
    | 1 => Int.lor lhs off
    | 2 => Int.xor lhs off
    | 3 => lhs + off
    | 4 => lhs - off
    | 5 => lhs * off
    | 6 => lhs.tdiv off
    | _ => lhs.tmod off

/-- The result, with the complement. -/
def resultExact (inOp : Nat) (lhs off : Int) : Int :=
  if has inOp FILE_OPINVERSE then -opExact (inOp % 8) lhs off - 1 else opExact (inOp % 8) lhs off

/-- The operands that `do_ops` admits. -/
def Admitted (x : Int) : Prop := -2 ^ 31 < x ∧ x < 2 ^ 32 - 1

/-- A value of an `intmax_t`. -/
def FitsIntmax (x : Int) : Prop := -2 ^ 63 ≤ x ∧ x < 2 ^ 63

/-- What the operator divides by. -/
def divisor (inOp : Nat) (off : Int) : Option Int :=
  if off ≠ 0 ∧ (inOp % 8 = 6 ∨ inOp % 8 = 7) then some off else none

/-- `do_ops` computes without overflow and without a division by 0, and succeeds with the exact
result just when that is an offset. -/
structure ExactOps (inOp : Nat) (lhs off : Int) : Prop where
  op : FitsIntmax (opExact (inOp % 8) lhs off)
  complement : FitsIntmax (resultExact inOp lhs off)
  division : ∀ d, divisor inOp off = some d → d ≠ 0
  value : doOps inOp lhs off =
    if -2 ^ 31 ≤ resultExact inOp lhs off ∧ resultExact inOp lhs off < 2 ^ 32 - 1 then
      some (uN 32 (resultExact inOp lhs off))
    else none

/-- A product fits in 64 bits, and the result is not below the offsets. -/
structure OpsInRange (inOp : Nat) (lhs off : Int) : Prop where
  product : inOp % 8 = 5 → FitsIntmax (lhs * off)
  low : if has inOp FILE_OPINVERSE then opExact (inOp % 8) lhs off < 2 ^ 31
    else -2 ^ 31 ≤ opExact (inOp % 8) lhs off

/-! ## Bits -/

theorem testBit_uN (w : Nat) (x : Int) (i : Nat) : (uN w x).testBit i = (decide (i < w) && x.testBit i) := by
  cases x with
  | ofNat m =>
      have low : uN w (Int.ofNat m) = m % 2 ^ w := by
        have cast := uN_cast w m
        exact_mod_cast cast
      rw [low, Nat.testBit_mod_two_pow]
      rfl
  | negSucc m =>
      have lt := Nat.mod_lt m (Nat.two_pow_pos w)
      have low : uN w (Int.negSucc m) = 2 ^ w - (m % 2 ^ w + 1) := by
        have same : (Int.negSucc m) ≡ ((2 ^ w - (m % 2 ^ w + 1) : Nat) : Int) [ZMOD 2 ^ w] := by
          have mod : ((m % 2 ^ w : Nat) : Int) ≡ m [ZMOD 2 ^ w] := by
            push_cast
            exact Int.mod_modEq _ _
          have cast : ((2 ^ w - (m % 2 ^ w + 1) : Nat) : Int) = 2 ^ w - ((m % 2 ^ w : Nat) + 1) := by
            rw [Int.ofNat_sub lt]
            push_cast
            rfl
          rw [cast, Int.negSucc_eq]
          have shifted : (2 ^ w : Int) - ((m % 2 ^ w : Nat) + 1) ≡ 0 - (m + 1) [ZMOD 2 ^ w] :=
            Int.ModEq.sub (Int.modEq_zero_iff_dvd.mpr (dvd_refl _)) (mod.add_right 1)
          rw [zero_sub] at shifted
          exact shifted.symm
        rw [(uN_eq_iff w _ _).mpr same, uN_natCast (by omega)]
      rw [low, Nat.testBit_two_pow_sub_succ lt, Nat.testBit_mod_two_pow]
      change _ = (decide (i < w) && !m.testBit i)
      by_cases small : i < w
      · simp [small]
      · simp [small]

/-- A bitwise operation on an `intmax_t` is the one on integers, when that fits. -/
theorem bitwise64_eq {f : Nat → Nat → Nat} {g : Int → Int → Int} {h : Bool → Bool → Bool} {a b : Int}
    (bits : ∀ x y i, (f x y).testBit i = h (x.testBit i) (y.testBit i)) (ints : ∀ i, (g a b).testBit i =
      h (a.testBit i) (b.testBit i)) (none : h false false = false) (fits : FitsIntmax (g a b)) :
    bitwise64 f a b = g a b := by
  have low : f (uN 64 a) (uN 64 b) = uN 64 (g a b) := by
    apply Nat.eq_of_testBit_eq
    intro i
    rw [bits, testBit_uN, testBit_uN, testBit_uN, ints]
    by_cases small : i < 64
    · simp [small]
    · simp [small, none]
  rw [bitwise64, low, sN_congr (uN_modEq 64 _), sN_of_range (by decide) fits.1 fits.2]

/-- The results of the bitwise operations on the operands. -/
theorem bits_range {a b : Int} (ha : -2 ^ 32 ≤ a ∧ a < 2 ^ 32) (hb : -2 ^ 32 ≤ b ∧ b < 2 ^ 32) :
    (-2 ^ 32 ≤ Int.land a b ∧ Int.land a b < 2 ^ 32) ∧ (-2 ^ 32 ≤ Int.lor a b ∧ Int.lor a b < 2 ^ 32) ∧
      (-2 ^ 32 ≤ Int.xor a b ∧ Int.xor a b < 2 ^ 32) := by
  have nat : ∀ {k : Nat}, k < 2 ^ 32 → -2 ^ 32 ≤ (k : Int) ∧ (k : Int) < 2 ^ 32 := by
    intro k lt
    omega
  have neg : ∀ {k : Nat}, k < 2 ^ 32 → -2 ^ 32 ≤ Int.negSucc k ∧ Int.negSucc k < 2 ^ 32 := by
    intro k lt
    omega
  cases a with
  | ofNat m =>
      have hm : m < 2 ^ 32 := by
        have : (m : Int) < 2 ^ 32 := ha.2
        omega
      cases b with
      | ofNat n =>
          have hn : n < 2 ^ 32 := by
            have : (n : Int) < 2 ^ 32 := hb.2
            omega
          exact ⟨nat (Nat.and_lt_two_pow m hn), nat (Nat.or_lt_two_pow hm hn), nat (Nat.xor_lt_two_pow hm hn)⟩
      | negSucc n =>
          have hn : n < 2 ^ 32 := by omega
          exact ⟨nat (Nat.bitwise_lt_two_pow hm hn), neg (Nat.bitwise_lt_two_pow hn hm),
            neg (Nat.xor_lt_two_pow hm hn)⟩
  | negSucc m =>
      have hm : m < 2 ^ 32 := by omega
      cases b with
      | ofNat n =>
          have hn : n < 2 ^ 32 := by
            have : (n : Int) < 2 ^ 32 := hb.2
            omega
          exact ⟨nat (Nat.bitwise_lt_two_pow hn hm), neg (Nat.bitwise_lt_two_pow hm hn),
            neg (Nat.xor_lt_two_pow hm hn)⟩
      | negSucc n =>
          have hn : n < 2 ^ 32 := by omega
          exact ⟨neg (Nat.or_lt_two_pow hm hn), neg (Nat.and_lt_two_pow m hn), nat (Nat.xor_lt_two_pow hm hn)⟩

/-! ## `do_ops` -/

/-- `lhs op off` with the operators of an `intmax_t`. -/
def opCoded (op : Nat) (lhs off : Int) : Int :=
  if off = 0 then lhs
  else match op with
    | 0 => bitwise64 (· &&& ·) lhs off
    | 1 => bitwise64 (· ||| ·) lhs off
    | 2 => bitwise64 (· ^^^ ·) lhs off
    | 3 => lhs + off
    | 4 => lhs - off
    | 5 => sN 64 (lhs * off)
    | 6 => lhs.tdiv off
    | _ => lhs.tmod off

/-- The end of `do_ops`. -/
def opEnd (inOp : Nat) (offset : Int) : Option Nat :=
  let offset := if has inOp FILE_OPINVERSE then -offset - 1 else offset
  if offset ≥ 2 ^ 32 - 1 then none else some (uN 32 offset)

theorem doOps_coded {inOp : Nat} {lhs off : Int}
    (admitted : ¬ (lhs ≥ 2 ^ 32 - 1 ∨ lhs ≤ -2 ^ 31 ∨ off ≥ 2 ^ 32 - 1 ∨ off ≤ -2 ^ 31)) :
    doOps inOp lhs off = opEnd inOp (opCoded (inOp % 8) lhs off) := by
  unfold doOps
  rw [if_neg admitted]
  rfl

section DoOps

variable {inOp : Nat} {lhs off : Int} (left : Admitted lhs) (right : Admitted off)

include left right

/-- All results but the product are small. -/
theorem opExact_range {op : Nat} (product : op ≠ 5) :
    -2 ^ 34 ≤ opExact op lhs off ∧ opExact op lhs off < 2 ^ 34 := by
  obtain ⟨low, high⟩ := left
  obtain ⟨low', high'⟩ := right
  obtain ⟨land, lor, xor⟩ := bits_range (a := lhs) (b := off) (by omega) (by omega)
  have small {x : Int} (le : x.natAbs ≤ lhs.natAbs) : -2 ^ 32 < x ∧ x < 2 ^ 32 := by
    omega
  have quotient := small (Int.natAbs_tdiv_le_natAbs lhs off)
  have remainder : -2 ^ 32 < lhs.tmod off ∧ lhs.tmod off < 2 ^ 32 := by
    apply small
    rw [Int.natAbs_tmod]
    exact Nat.mod_le _ _
  clear small
  unfold opExact
  split
  · omega
  split
  · omega
  · omega
  · omega
  · omega
  · omega
  · exact absurd rfl product
  · omega
  · omega

theorem opExact_fits (product : inOp % 8 = 5 → FitsIntmax (lhs * off)) :
    FitsIntmax (opExact (inOp % 8) lhs off) := by
  by_cases times : inOp % 8 = 5
  · have fits := product times
    unfold opExact
    rw [times]
    split
    · obtain ⟨low, high⟩ := left
      exact ⟨by omega, by omega⟩
    · exact fits
  · have := opExact_range left right times
    exact ⟨by omega, by omega⟩

/-- The operation as the code does it. -/
theorem opCoded_eq (product : inOp % 8 = 5 → FitsIntmax (lhs * off)) :
    opCoded (inOp % 8) lhs off = opExact (inOp % 8) lhs off := by
  have fits := opExact_fits left right product
  unfold opCoded opExact at *
  split
  · rfl
  rename_i zero
  rw [if_neg zero] at fits
  split
  · rename_i op
    rw [op] at fits
    exact bitwise64_eq Nat.testBit_and (Int.testBit_land lhs off) rfl fits
  · rename_i op
    rw [op] at fits
    exact bitwise64_eq Nat.testBit_or (Int.testBit_lor lhs off) rfl fits
  · rename_i op
    rw [op] at fits
    exact bitwise64_eq Nat.testBit_xor (Int.testBit_lxor lhs off) rfl fits
  · rfl
  · rfl
  · rename_i op
    obtain ⟨low, high⟩ := product op
    exact sN_of_range (by decide) low high
  · rfl
  · rfl

/-- `do_ops` goes by the exact result when a product fits. -/
theorem doOps_value (product : inOp % 8 = 5 → FitsIntmax (lhs * off)) :
    doOps inOp lhs off = if resultExact inOp lhs off ≥ 2 ^ 32 - 1 then none
      else some (uN 32 (resultExact inOp lhs off)) := by
  have admitted : ¬ (lhs ≥ 2 ^ 32 - 1 ∨ lhs ≤ -2 ^ 31 ∨ off ≥ 2 ^ 32 - 1 ∨ off ≤ -2 ^ 31) := by
    obtain ⟨low, high⟩ := left
    obtain ⟨low', high'⟩ := right
    omega
  rw [doOps_coded admitted, opCoded_eq left right product]
  rfl

/-- For operands that are admitted, `do_ops` is exact just when a product fits in 64 bits and the
result is not below the offsets. -/
theorem exactOps_iff : ExactOps inOp lhs off ↔ OpsInRange inOp lhs off := by
  constructor
  · intro exact
    have product : inOp % 8 = 5 → FitsIntmax (lhs * off) := by
      intro times
      have fits := exact.op
      unfold opExact at fits
      rw [times] at fits
      split at fits
      · rename_i zero
        rw [zero, mul_zero]
        exact ⟨by decide, by decide⟩
      · exact fits
    refine ⟨product, ?_⟩
    have value := exact.value
    rw [doOps_value left right product] at value
    have low : ¬ resultExact inOp lhs off < -2 ^ 31 := by
      intro below
      rw [if_neg (by omega), if_neg (fun both => absurd both.1 (by omega))] at value
      cases value
    unfold resultExact at low
    split
    · rename_i inverse
      rw [if_pos inverse] at low
      omega
    · rename_i inverse
      rw [if_neg inverse] at low
      omega
  · rintro ⟨product, low⟩
    have fits := opExact_fits left right product
    have result : -2 ^ 31 ≤ resultExact inOp lhs off := by
      unfold resultExact
      split
      · rename_i inverse
        rw [if_pos inverse] at low
        omega
      · rename_i inverse
        rw [if_neg inverse] at low
        exact low
    refine ⟨fits, ?_, ?_, ?_⟩
    · obtain ⟨least, most⟩ := fits
      unfold resultExact
      split
      · exact ⟨by omega, by omega⟩
      · exact ⟨least, most⟩
    · intro d hd
      unfold divisor at hd
      split at hd
      · rename_i both
        obtain rfl := Option.some.inj hd
        exact both.1
      · cases hd
    · rw [doOps_value left right product]
      by_cases large : resultExact inOp lhs off ≥ 2 ^ 32 - 1
      · rw [if_pos large, if_neg (fun both => absurd both.2 (by omega))]
      · rw [if_neg large, if_pos ⟨result, by omega⟩]

end DoOps

theorem exactOps_sum : (Admitted 4 ∧ Admitted (-6)) ∧ ExactOps 3 4 (-6) := by
  have left : Admitted 4 := ⟨by decide, by decide⟩
  have right : Admitted (-6) := ⟨by decide, by decide⟩
  refine ⟨⟨left, right⟩, (exactOps_iff left right).mpr ⟨nofun, ?_⟩⟩
  decide

/-- The product of the two greatest operands does not fit in 64 bits. -/
theorem product_inexact :
    Admitted (2 ^ 32 - 2) ∧ ¬ ExactOps 5 (2 ^ 32 - 2) (2 ^ 32 - 2) := by
  refine ⟨⟨by decide, by decide⟩, fun exact => ?_⟩
  have fits : (opExact (5 % 8) (2 ^ 32 - 2) (2 ^ 32 - 2)) < 2 ^ 63 := exact.op.2
  exact absurd fits (by decide)

end Libmagic.Softmagic
