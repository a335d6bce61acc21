import Libmagic.Softmagic.Match
import Libmagic.Softmagic.Numeric

/-!
# `softmagic.c`: masks

`cvt_8`, `cvt_16`, `cvt_32` and `cvt_64` as arithmetic of bit vectors. The source computes on the
promoted type, which for 8 and 16 bits is `int`.
-/
namespace Libmagic.Softmagic

/-- `data op mask`, on integers of `w` bits. -/
def maskResult {w : Nat} (unsigned : Bool) (op : Nat) (x k : BitVec w) : BitVec w :=
  match op with
  | 0 => x &&& k
  | 1 => x ||| k
  | 2 => x ^^^ k
  | 3 => x + k
  | 4 => x - k
  | 5 => x * k
  | 6 => if unsigned then x / k else x.sdiv k
  | _ => if unsigned then x % k else x.srem k

/-- The value that a mask is to give: no mask keeps the data, and either is complemented if that is
asked for. -/
def maskValue {w : Nat} (unsigned : Bool) (maskOp mask : Nat) (x : BitVec w) : BitVec w :=
  let r := if mask = 0 then x else maskResult unsigned (maskOp % 8) x (BitVec.ofNat w mask)
  if has maskOp FILE_OPINVERSE then ~~~r else r

/-- A division or a remainder. -/
def divides (maskOp mask : Nat) : Prop := mask ≠ 0 ∧ (maskOp % 8 = 6 ∨ maskOp % 8 = 7)

/-- The divisions that are refused: by 0, and of the least number by -1 in 32 and 64 signed bits. -/
def Refused {w : Nat} (unsigned : Bool) (maskOp mask : Nat) (x : BitVec w) : Prop :=
  divides maskOp mask ∧ (BitVec.ofNat w mask = 0 ∨
    unsigned = false ∧ (w = 32 ∨ w = 64) ∧ x = BitVec.intMin w ∧ BitVec.ofNat w mask = -1)

/-- A division that the machine stops at: by 0, or of the least number of the promoted signed type
by -1. -/
def Traps {w : Nat} (unsigned : Bool) (maskOp mask : Nat) (x : BitVec w) : Prop :=
  divides maskOp mask ∧ (BitVec.ofNat w mask = 0 ∨
    unsigned = false ∧ x.toInt = -2 ^ (max w 32 - 1) ∧ (BitVec.ofNat w mask).toInt = -1)

/-! ## The operations -/

section Operations

variable {w : Nat} (x k : BitVec w)

theorem toInt_modEq (y : BitVec w) : y.toInt ≡ y.toNat [ZMOD 2 ^ w] := by
  have same := Int.bmod_emod (x := y.toNat) (m := 2 ^ w)
  rw [BitVec.toInt_eq_toNat_bmod, Int.ModEq]
  exact_mod_cast same

theorem sN_toNat (pos : 0 < w) : sN w x.toNat = x.toInt := by
  rw [← sN_congr (toInt_modEq x)]
  exact sN_of_range pos (BitVec.le_toInt x) (BitVec.toInt_lt)

theorem uN_toInt (y : BitVec w) : uN w y.toInt = y.toNat := by
  rw [(uN_eq_iff w _ _).mpr (toInt_modEq y), uN_natCast y.isLt]

theorem uN_sub : uN w ((x.toNat : Int) - k.toNat) = (x - k).toNat := by
  have lt := k.isLt
  have same : (x.toNat : Int) - k.toNat ≡ ((2 ^ w - k.toNat + x.toNat : Nat) : Int) [ZMOD 2 ^ w] := by
    have shifted : ((2 ^ w - k.toNat + x.toNat : Nat) : Int) = (x.toNat - k.toNat) + 2 ^ w := by
      push_cast [Nat.le_of_lt lt]
      ring
    rw [shifted]
    exact (Int.add_modEq_right).symm
  rw [(uN_eq_iff w _ _).mpr same, uN_natCast_mod, BitVec.toNat_sub]

/-- A quotient or a remainder of signed numbers is the one of their bits. -/
theorem uN_of_toInt (y : BitVec w) {z : Int} (same : y.toInt = z.bmod (2 ^ w)) : uN w z = y.toNat := by
  have low : z ≡ y.toInt [ZMOD 2 ^ w] := by
    have := Int.bmod_emod (x := z) (m := 2 ^ w)
    rw [same, Int.ModEq]
    exact_mod_cast this.symm
  rw [(uN_eq_iff w _ _).mpr low, uN_toInt]

theorem uN_tdiv (pos : 0 < w) : uN w ((sN w x.toNat).tdiv (sN w k.toNat)) = (x.sdiv k).toNat := by
  rw [sN_toNat x pos, sN_toNat k pos]
  exact uN_of_toInt _ (BitVec.toInt_sdiv x k)

theorem uN_tmod (pos : 0 < w) : uN w ((sN w x.toNat).tmod (sN w k.toNat)) = (x.srem k).toNat := by
  rw [sN_toNat x pos, sN_toNat k pos, ← BitVec.toInt_srem, uN_toInt]

theorem eq_intMin_iff (pos : 0 < w) : x.toNat = 2 ^ (w - 1) ↔ x = BitVec.intMin w := by
  have min : (BitVec.intMin w).toNat = 2 ^ (w - 1) := by
    rw [BitVec.toNat_intMin, Nat.mod_eq_of_lt (Nat.pow_lt_pow_right (by decide) (by omega))]
  rw [← BitVec.toNat_inj, min]

theorem neg_one_eq : (-1 : BitVec w) = BitVec.allOnes w := BitVec.neg_one_eq_allOnes

theorem eq_neg_one_iff : k.toNat = 2 ^ w - 1 ↔ k = -1 := by
  have ones : (-1 : BitVec w).toNat = 2 ^ w - 1 := by
    rw [neg_one_eq, BitVec.toNat_allOnes]
  rw [← BitVec.toNat_inj, ones]

end Operations

/-! ## `DO_CVT1` -/

section Cvt

variable {w : Nat} (pos : 0 < w) (unsigned : Bool) (maskOp mask : Nat) (x : BitVec w)

/-- The test of a division in the source. -/
def refuses : Bool :=
  (!unsigned && (w == 32 || w == 64) && x.toNat == 2 ^ (w - 1) && mask % 2 ^ w == 2 ^ w - 1) || mask % 2 ^ w == 0

include pos

theorem refuses_iff : refuses unsigned mask x = true ↔ BitVec.ofNat w mask = 0 ∨
    unsigned = false ∧ (w = 32 ∨ w = 64) ∧ x = BitVec.intMin w ∧ BitVec.ofNat w mask = -1 := by
  have toNat : mask % 2 ^ w = (BitVec.ofNat w mask).toNat := rfl
  have zero : mask % 2 ^ w = 0 ↔ BitVec.ofNat w mask = 0 := by
    rw [toNat, ← BitVec.toNat_inj]
    rfl
  have ones : mask % 2 ^ w = 2 ^ w - 1 ↔ BitVec.ofNat w mask = -1 := by
    rw [toNat, eq_neg_one_iff]
  unfold refuses
  rw [Bool.or_eq_true, Bool.and_eq_true, Bool.and_eq_true, Bool.and_eq_true, Bool.or_eq_true, beq_iff_eq,
    beq_iff_eq, beq_iff_eq, beq_iff_eq, beq_iff_eq, eq_intMin_iff x pos, ones, zero, Bool.not_eq_true',
    and_assoc, and_assoc]
  exact or_comm

/-- The value before it is complemented. -/
theorem doCvt_masked (some : mask ≠ 0) :
    doCvt w unsigned maskOp mask x.toNat =
      if (maskOp % 8 = 6 ∨ maskOp % 8 = 7) ∧ refuses unsigned mask x = true then none
      else Option.some (maskValue unsigned maskOp mask x).toNat := by
  have toNat : mask % 2 ^ w = (BitVec.ofNat w mask).toNat := rfl
  have complement : ∀ y : BitVec w, (if has maskOp FILE_OPINVERSE then 2 ^ w - 1 - y.toNat else y.toNat) =
      (if has maskOp FILE_OPINVERSE then ~~~y else y).toNat := by
    intro y
    split
    · rw [BitVec.toNat_not]
    · rfl
  have lt : maskOp % 8 < 8 := Nat.mod_lt _ (by decide)
  unfold doCvt maskValue
  dsimp only
  rw [if_neg some, if_neg some]
  rw [toNat, ← complement]
  have plain : maskOp % 8 < 6 → ¬ ((maskOp % 8 = 6 ∨ maskOp % 8 = 7) ∧ refuses unsigned mask x = true) := by
    intro small both
    have := both.1
    omega
  have divided : ∀ {r : Nat}, (maskOp % 8 = 6 ∨ maskOp % 8 = 7) →
      (if refuses unsigned mask x = true then none else Option.some r) =
        if (maskOp % 8 = 6 ∨ maskOp % 8 = 7) ∧ refuses unsigned mask x = true then none else Option.some r := by
    intro r op
    simp only [op, true_and]
  have test : (!unsigned && (w == 32 || w == 64) && x.toNat == 2 ^ (w - 1) &&
      (BitVec.ofNat w mask).toNat == 2 ^ w - 1 || (BitVec.ofNat w mask).toNat == 0) = refuses unsigned mask x := rfl
  -- one case for each operation
  rcases (by omega : maskOp % 8 = 0 ∨ maskOp % 8 = 1 ∨ maskOp % 8 = 2 ∨ maskOp % 8 = 3 ∨ maskOp % 8 = 4 ∨
    maskOp % 8 = 5 ∨ maskOp % 8 = 6 ∨ maskOp % 8 = 7) with op | op | op | op | op | op | op | op
  · rw [if_neg (plain (by omega)), op]
    rfl
  · rw [if_neg (plain (by omega)), op]
    rfl
  · rw [if_neg (plain (by omega)), op]
    rfl
  · have sum : uN w ((x.toNat : Int) + (BitVec.ofNat w mask).toNat) = (x + BitVec.ofNat w mask).toNat := by
      rw [← Int.natCast_add, uN_natCast_mod, BitVec.toNat_add]
    rw [if_neg (plain (by omega)), op]
    rw [sum]
    rfl
  · rw [if_neg (plain (by omega)), op]
    rw [uN_sub]
    rfl
  · have product : uN w ((x.toNat : Int) * (BitVec.ofNat w mask).toNat) = (x * BitVec.ofNat w mask).toNat := by
      rw [← Int.natCast_mul, uN_natCast_mod, BitVec.toNat_mul]
    rw [if_neg (plain (by omega)), op]
    rw [product]
    rfl
  · rw [← divided (.inl op), op]
    rw [test, uN_tdiv x _ pos]
    unfold maskResult
    cases refuses unsigned mask x <;> cases unsigned <;> rfl
  · rw [← divided (.inr op), op]
    rw [test, uN_tmod x _ pos]
    unfold maskResult
    cases refuses unsigned mask x <;> cases unsigned <;> rfl

theorem doCvt_some_iff {r : Nat} :
    doCvt w unsigned maskOp mask x.toNat = some r ↔
      ¬ Refused unsigned maskOp mask x ∧ r = (maskValue unsigned maskOp mask x).toNat := by
  by_cases none : mask = 0
  · have kept : doCvt w unsigned maskOp mask x.toNat = some (maskValue unsigned maskOp mask x).toNat := by
      unfold doCvt maskValue
      dsimp only
      rw [if_pos none, if_pos none, Option.map_some]
      split
      · rw [BitVec.toNat_not]
      · rfl
    rw [kept, Option.some.injEq]
    exact ⟨fun same => ⟨fun refused => refused.1.1 none, same.symm⟩, fun both => both.2.symm⟩
  · have refused : Refused unsigned maskOp mask x ↔
        (maskOp % 8 = 6 ∨ maskOp % 8 = 7) ∧ refuses unsigned mask x = true := by
      rw [Refused, divides, refuses_iff pos, and_iff_right none]
    rw [doCvt_masked pos unsigned maskOp mask x none, refused]
    split
    · rename_i both
      exact ⟨nofun, fun free => absurd both free.1⟩
    · rename_i free
      rw [Option.some.injEq]
      exact ⟨fun same => ⟨free, same.symm⟩, fun both => both.2.symm⟩

/-- Every division that the machine would stop at is refused. -/
theorem refused_of_traps (width : w = 8 ∨ w = 16 ∨ w = 32 ∨ w = 64) (traps : Traps unsigned maskOp mask x) :
    Refused unsigned maskOp mask x := by
  obtain ⟨division, zero | ⟨signed, least, minus⟩⟩ := traps
  · exact ⟨division, .inl zero⟩
  · have low := BitVec.le_toInt x
    have wide : w = 32 ∨ w = 64 := by
      rcases width with rfl | rfl | rfl | rfl
      · norm_num at low least
        omega
      · norm_num at low least
        omega
      · exact .inl rfl
      · exact .inr rfl
    have min : x = BitVec.intMin w := by
      apply BitVec.eq_of_toInt_eq
      rw [least, BitVec.toInt_intMin_of_pos pos]
      rcases wide with rfl | rfl <;> rfl
    have one : BitVec.ofNat w mask = -1 := by
      apply BitVec.eq_of_toInt_eq
      rw [minus, neg_one_eq, BitVec.toInt_allOnes, if_pos pos]
    exact ⟨division, .inr ⟨signed, wide, min, one⟩⟩

end Cvt

/-! ## `cvt_8`, `cvt_16`, `cvt_32` and `cvt_64` -/

theorem load_lt (v : Value) (host : Host) {n : Nat} (fits : n ≤ 128) : v.load host n < 2 ^ (8 * n) := by
  have length := take_length v fits
  have same : 2 ^ (8 * n) = 256 ^ n := pow_mul 2 8 n
  rw [Value.load, same]
  split
  · have := beNat_lt (v.bytes.take n)
    rwa [length] at this
  · have := leNat_lt (v.bytes.take n)
    rwa [length] at this

/-- A number is stored without a change of the bytes behind it. -/
theorem store_drop (v : Value) (host : Host) {n : Nat} (fits : n ≤ 128) (x : Nat) :
    (v.store host n x).bytes.drop n = v.bytes.drop n := by
  have write : ∀ bs : Bytes, bs.length = n → (v.write 0 bs).bytes.drop n = v.bytes.drop n := by
    rintro bs rfl
    have size := v.size
    simp only [Value.write, List.take_zero, List.nil_append, Nat.zero_add]
    rw [List.take_of_length_le (by rw [List.length_append, List.length_drop]; omega), List.drop_left]
  unfold Value.store
  apply write
  split
  · rw [List.length_reverse, leBytes_length]
  · exact leBytes_length n x

/-- The number in the union, as a bit vector. -/
def Value.vector (v : Value) (host : Host) (n : Nat) : BitVec (8 * n) := BitVec.ofNat (8 * n) (v.load host n)

/-- A mask operation gives the number that the operation gives modulo 2^w and keeps the other bytes
of the union. It is refused for the divisions by 0 and the ones that would overflow, and what is not
refused does not trap. -/
theorem cvt_modular (host : Host) (m : Magic) (v : Value) {n : Nat} (width : n = 1 ∨ n = 2 ∨ n = 4 ∨ n = 8) :
    (cvtInt host m n v = none ↔
      Refused (has m.flag UNSIGNED) m.maskOp (m.numMask host) (v.vector host n)) ∧
    (∀ v', cvtInt host m n v = some v' →
      v'.vector host n = maskValue (has m.flag UNSIGNED) m.maskOp (m.numMask host) (v.vector host n) ∧
        v'.bytes.drop n = v.bytes.drop n ∧
        ¬ Traps (has m.flag UNSIGNED) m.maskOp (m.numMask host) (v.vector host n)) := by
  have pos : 0 < 8 * n := by omega
  have fits : n ≤ 128 := by omega
  have toNat : (v.vector host n).toNat = v.load host n := Nat.mod_eq_of_lt (load_lt v host fits)
  have spec := @doCvt_some_iff _ pos (has m.flag UNSIGNED) m.maskOp (m.numMask host) (v.vector host n)
  rw [toNat] at spec
  have value : ∀ v', cvtInt host m n v = some v' ↔
      ¬ Refused (has m.flag UNSIGNED) m.maskOp (m.numMask host) (v.vector host n) ∧
        v' = v.store host n (maskValue (has m.flag UNSIGNED) m.maskOp (m.numMask host) (v.vector host n)).toNat := by
    intro v'
    rw [cvtInt, Option.map_eq_some_iff]
    constructor
    · rintro ⟨r, hr, rfl⟩
      obtain ⟨free, rfl⟩ := spec.mp hr
      exact ⟨free, rfl⟩
    · rintro ⟨free, rfl⟩
      exact ⟨_, spec.mpr ⟨free, rfl⟩, rfl⟩
  constructor
  · constructor
    · intro none
      by_contra free
      have some := (value _).mpr ⟨free, rfl⟩
      rw [none] at some
      cases some
    · intro refused
      cases got : cvtInt host m n v with
      | none => rfl
      | some v' => exact absurd refused ((value v').mp got).1
  · intro v' got
    obtain ⟨free, rfl⟩ := (value v').mp got
    refine ⟨?_, store_drop v host fits _, fun traps => free ?_⟩
    · apply BitVec.eq_of_toNat_eq
      have lt := (maskValue (has m.flag UNSIGNED) m.maskOp (m.numMask host) (v.vector host n)).isLt
      rw [Value.vector, load_store v host fits (by rwa [pow_mul 2 8 n] at lt)]
      exact Nat.mod_eq_of_lt lt
    · exact refused_of_traps pos _ _ _ _ (by omega) traps

/-- A `long` that is divided by -1. -/
def leastLine : Magic := { plainLine with type := .long, maskOp := 6, strRange := 2 ^ 32 - 1, strFlags := 2 ^ 32 - 1 }

theorem cvt_modular_leastLine :
    (4 = 1 ∨ 4 = 2 ∨ 4 = 4 ∨ 4 = 8) ∧ cvtInt plainHost leastLine 4 (Value.zero.store plainHost 4 (2 ^ 31)) = none := by
  refine ⟨by decide, (cvt_modular plainHost leastLine _ (by decide)).1.mpr ⟨⟨by decide, .inl rfl⟩, .inr ?_⟩⟩
  exact ⟨rfl, .inl rfl, by decide, by decide⟩

end Libmagic.Softmagic
