import Libmagic.Unicode.Utf8

/-!
# UTF-16 and UTF-32 code units

Code units are natural numbers below `2 ^ 16` and `2 ^ 32`. A list of UTF-16
units has an unpaired surrogate exactly when no list of characters denotes it.
-/
namespace Unicode

def HighSurrogate (u : Nat) : Prop := 0xD800 ≤ u ∧ u ≤ 0xDBFF

def LowSurrogate (u : Nat) : Prop := 0xDC00 ≤ u ∧ u ≤ 0xDFFF

def Surrogate (u : Nat) : Prop := HighSurrogate u ∨ LowSurrogate u

instance (u : Nat) : Decidable (HighSurrogate u) := inferInstanceAs (Decidable (_ ∧ _))

instance (u : Nat) : Decidable (LowSurrogate u) := inferInstanceAs (Decidable (_ ∧ _))

instance (u : Nat) : Decidable (Surrogate u) := inferInstanceAs (Decidable (_ ∨ _))

theorem scalar_iff (u : Nat) : Scalar u ↔ u ≤ 0x10FFFF ∧ ¬ Surrogate u := by
  simp only [Scalar, Nat.isValidChar, Surrogate, HighSurrogate, LowSurrogate]
  omega

theorem not_surrogate_toNat (c : Char) : ¬ Surrogate c.toNat :=
  ((scalar_iff _).mp (scalar_toNat c)).2

/-- The code units of one character. -/
def utf16EncodeChar (c : Char) : List Nat :=
  if c.toNat < 0x10000 then [c.toNat]
  else [0xD800 + (c.toNat - 0x10000) / 0x400, 0xDC00 + (c.toNat - 0x10000) % 0x400]

/-- The UTF-16 code units that denote `cs`. -/
def utf16 (cs : List Char) : List Nat := cs.flatMap utf16EncodeChar

@[simp] theorem utf16_nil : utf16 [] = [] := rfl

@[simp] theorem utf16_cons (c : Char) (cs : List Char) :
    utf16 (c :: cs) = utf16EncodeChar c ++ utf16 cs := rfl

theorem utf16EncodeChar_scalar {n : Nat} (h : Scalar n) (bmp : n < 0x10000) :
    utf16EncodeChar h.char = [n] := by
  rw [utf16EncodeChar, Scalar.toNat_char, if_pos bmp]

/-- The scalar value of a surrogate pair. -/
theorem pair_scalar {hi lo : Nat} (h : HighSurrogate hi) (l : LowSurrogate lo) :
    Scalar (0x10000 + 0x400 * (hi - 0xD800) + (lo - 0xDC00)) := by
  have := h.1; have := h.2; have := l.1; have := l.2
  exact .inr (by omega)

theorem utf16EncodeChar_pair {hi lo : Nat} (h : HighSurrogate hi) (l : LowSurrogate lo) :
    utf16EncodeChar (pair_scalar h l).char = [hi, lo] := by
  have := h.1; have := h.2; have := l.1; have := l.2
  rw [utf16EncodeChar, Scalar.toNat_char, if_neg (by omega)]
  simp only [List.cons.injEq, and_true]
  omega

/-- The 16-bit units of a byte stream; an odd byte at the end is no unit. -/
def units16 (bigend : Bool) : List UInt8 → List Nat
  | a :: b :: rest =>
      (if bigend then a.toNat * 256 + b.toNat else b.toNat * 256 + a.toNat) :: units16 bigend rest
  | _ => []

theorem units16_lt (bigend : Bool) (bytes : List UInt8) : ∀ u ∈ units16 bigend bytes, u < 0x10000 := by
  induction bytes using units16.induct with
  | case1 a b rest ih =>
      have ha := a.toNat_lt
      have hb := b.toNat_lt
      simp only [units16, List.mem_cons, forall_eq_or_imp]
      exact ⟨by split <;> omega, ih⟩
  | case2 bytes short => cases bigend <;> simp [units16]

theorem length_units16_le (bigend : Bool) (bytes : List UInt8) :
    2 * (units16 bigend bytes).length ≤ bytes.length := by
  induction bytes using units16.induct with
  | case1 a b rest ih =>
      simp only [units16, List.length_cons]
      omega
  | case2 bytes short => simp [units16]

/-- The 32-bit units of a byte stream. -/
def units32 (bigend : Bool) : List UInt8 → List Nat
  | a :: b :: c :: d :: rest =>
      (if bigend then ((a.toNat * 256 + b.toNat) * 256 + c.toNat) * 256 + d.toNat
        else ((d.toNat * 256 + c.toNat) * 256 + b.toNat) * 256 + a.toNat) :: units32 bigend rest
  | _ => []

theorem length_units32_le (bigend : Bool) (bytes : List UInt8) :
    4 * (units32 bigend bytes).length ≤ bytes.length := by
  induction bytes using units32.induct with
  | case1 a b c d rest ih =>
      simp only [units32, List.length_cons]
      omega
  | case2 bytes short => simp [units32]

end Unicode
