import Mathlib.Data.List.Basic
import Mathlib.Data.List.Infix

/-!
# UTF-8 as a prefix code on scalar values

A `Char` is a Unicode scalar value, and `String.utf8EncodeChar` is its RFC 3629
encoding. This file adds what a recogniser needs about them: the encoding of a
list, the pieces of it that a buffer can end with, and the bytes of one
character written as linear arithmetic. Nothing here names a program.
-/
namespace Unicode

/-- A property of all bytes can be checked on the 256 of them. -/
theorem forall_byte {P : UInt8 → Prop} (h : ∀ n : Fin 256, P (UInt8.ofNat n)) (b : UInt8) : P b := by
  have hb := h ⟨b.toNat, b.toNat_lt⟩
  simpa using hb

/-- The well-formed UTF-8 text that denotes `cs`. -/
def utf8 (cs : List Char) : List UInt8 := cs.flatMap String.utf8EncodeChar

@[simp] theorem utf8_nil : utf8 [] = [] := rfl

@[simp] theorem utf8_cons (c : Char) (cs : List Char) :
    utf8 (c :: cs) = String.utf8EncodeChar c ++ utf8 cs := rfl

@[simp] theorem utf8_append (cs ds : List Char) : utf8 (cs ++ ds) = utf8 cs ++ utf8 ds := by
  simp only [utf8, List.flatMap_append]

theorem length_le_length_utf8 (cs : List Char) : cs.length ≤ (utf8 cs).length := by
  induction cs with
  | nil => exact Nat.le_refl 0
  | cons c cs ih =>
      have hc : 0 < (String.utf8EncodeChar c).length :=
        List.length_pos_iff.mpr String.utf8EncodeChar_ne_nil
      simp only [utf8_cons, List.length_append, List.length_cons]
      omega

/-- What can be left when a buffer ends inside a character: a proper prefix of
one encoding, possibly empty. -/
def Truncated (rest : List UInt8) : Prop :=
  ∃ c : Char, rest <+: String.utf8EncodeChar c ∧ rest ≠ String.utf8EncodeChar c

theorem truncated_nil : Truncated [] :=
  ⟨'a', List.nil_prefix, fun h => String.utf8EncodeChar_ne_nil h.symm⟩

/-- A text cut inside a character extends to a whole text. -/
theorem Truncated.extends {rest : List UInt8} (h : Truncated rest) (cs : List Char) :
    ∃ text, utf8 cs ++ rest <+: utf8 text := by
  obtain ⟨c, hp, -⟩ := h
  refine ⟨cs ++ [c], ?_⟩
  simp only [utf8_append, utf8_cons, utf8_nil, List.append_nil]
  exact (List.prefix_append_right_inj _).mpr hp

/-- Every prefix of a text is a text followed by one truncated character. -/
theorem prefix_utf8 {text : List Char} {buf : List UInt8} (h : buf <+: utf8 text) :
    ∃ cs rest, buf = utf8 cs ++ rest ∧ Truncated rest := by
  induction text generalizing buf with
  | nil =>
      obtain rfl : buf = [] := List.prefix_nil.mp h
      exact ⟨[], [], rfl, truncated_nil⟩
  | cons c text ih =>
      rw [utf8_cons] at h
      rcases List.prefix_or_prefix_of_prefix h (List.prefix_append _ _) with inside | ⟨tail, rfl⟩
      · by_cases whole : buf = String.utf8EncodeChar c
        · exact ⟨[c], [], by simp [whole], truncated_nil⟩
        · exact ⟨[], buf, rfl, c, inside, whole⟩
      · obtain ⟨cs, rest, rfl, cut⟩ := ih ((List.prefix_append_right_inj _).mp h)
        exact ⟨c :: cs, rest, by simp, cut⟩

/-- A Unicode scalar value: a code point that is not a surrogate. -/
def Scalar (n : Nat) : Prop := n.isValidChar

theorem Scalar.lt {n : Nat} (h : Scalar n) : n < 0x110000 := by
  rcases h with h | h
  · omega
  · exact h.2

theorem scalar_toNat (c : Char) : Scalar c.toNat := c.valid

/-- The character of a scalar value. -/
def Scalar.char {n : Nat} (h : Scalar n) : Char := Char.ofNatAux n h

@[simp] theorem Scalar.toNat_char {n : Nat} (h : Scalar n) : h.char.toNat = n := by
  rfl

/-- A list of scalar values is a list of characters. -/
theorem exists_map_toNat (us : List Nat) :
    (∃ cs : List Char, us = cs.map Char.toNat) ↔ ∀ x ∈ us, Scalar x := by
  constructor
  · rintro ⟨cs, rfl⟩ x member
    obtain ⟨c, -, rfl⟩ := List.mem_map.mp member
    exact scalar_toNat c
  · intro scalars
    induction us with
    | nil => exact ⟨[], rfl⟩
    | cons x us ih =>
        rw [List.forall_mem_cons] at scalars
        obtain ⟨cs, rfl⟩ := ih scalars.2
        exact ⟨scalars.1.char :: cs, by rw [List.map_cons, Scalar.toNat_char]⟩

/-- The encoding of a scalar value, with the remainders that cannot matter dropped. -/
def encode (n : Nat) : List Nat :=
  if n ≤ 0x7f then [n]
  else if n ≤ 0x7ff then [n / 64 + 0xc0, n % 64 + 0x80]
  else if n ≤ 0xffff then [n / 4096 + 0xe0, n / 64 % 64 + 0x80, n % 64 + 0x80]
  else [n / 262144 + 0xf0, n / 4096 % 64 + 0x80, n / 64 % 64 + 0x80, n % 64 + 0x80]

theorem utf8EncodeChar_eq (c : Char) :
    String.utf8EncodeChar c = (encode c.toNat).map UInt8.ofNat := by
  have lt := (scalar_toNat c).lt
  change String.utf8EncodeChar c = (encode c.val.toNat).map UInt8.ofNat
  change c.val.toNat < 0x110000 at lt
  unfold String.utf8EncodeChar encode
  dsimp only
  generalize c.val.toNat = n at *
  split
  · rfl
  split
  · rw [show n / 64 % 32 = n / 64 by omega]; rfl
  split
  · rw [show n / 4096 % 16 = n / 4096 by omega]; rfl
  · rw [show n / 262144 % 8 = n / 262144 by omega]; rfl

/-! ## Decoding, one length class at a time -/

theorem encode_two {b t v : Nat} (hb : 0xC2 ≤ b ∧ b < 0xE0) (ht : 0x80 ≤ t ∧ t < 0xC0)
    (hv : v = (b - 0xC0) * 64 + (t - 0x80)) : Scalar v ∧ 0x7f < v ∧ encode v = [b, t] := by
  refine ⟨.inl (by omega), by omega, ?_⟩
  rw [encode, if_neg (by omega), if_pos (by omega)]
  simp only [List.cons.injEq, and_true]
  omega

theorem encode_three {b t u v : Nat} (hb : 0xE0 ≤ b ∧ b < 0xF0) (ht : 0x80 ≤ t ∧ t < 0xC0)
    (hu : 0x80 ≤ u ∧ u < 0xC0) (low : b = 0xE0 → 0xA0 ≤ t) (surr : b = 0xED → t ≤ 0x9F)
    (hv : v = ((b - 0xE0) * 64 + (t - 0x80)) * 64 + (u - 0x80)) :
    Scalar v ∧ 0x7f < v ∧ encode v = [b, t, u] := by
  have scalar : v < 0xd800 ∨ 0xdfff < v ∧ v < 0x110000 := by omega
  refine ⟨scalar, by omega, ?_⟩
  rw [encode, if_neg (by omega), if_neg (by omega), if_pos (by omega)]
  simp only [List.cons.injEq, and_true]
  omega

theorem encode_four {b t u w v : Nat} (hb : 0xF0 ≤ b ∧ b ≤ 0xF4) (ht : 0x80 ≤ t ∧ t < 0xC0)
    (hu : 0x80 ≤ u ∧ u < 0xC0) (hw : 0x80 ≤ w ∧ w < 0xC0) (low : b = 0xF0 → 0x90 ≤ t)
    (high : b = 0xF4 → t ≤ 0x8F)
    (hv : v = (((b - 0xF0) * 64 + (t - 0x80)) * 64 + (u - 0x80)) * 64 + (w - 0x80)) :
    Scalar v ∧ 0x7f < v ∧ encode v = [b, t, u, w] := by
  refine ⟨.inr (by omega), by omega, ?_⟩
  rw [encode, if_neg (by omega), if_neg (by omega), if_neg (by omega)]
  simp only [List.cons.injEq, and_true]
  omega

/-- Bytes that spell out `encode n` are the encoding of the character `n`. -/
theorem Scalar.utf8EncodeChar_char {n : Nat} (h : Scalar n) {bytes : List UInt8}
    (hb : encode n = bytes.map UInt8.toNat) : String.utf8EncodeChar h.char = bytes := by
  rw [utf8EncodeChar_eq, Scalar.toNat_char, hb, List.map_map]
  exact List.map_id'' (fun _ => UInt8.ofNat_toNat) bytes

end Unicode
