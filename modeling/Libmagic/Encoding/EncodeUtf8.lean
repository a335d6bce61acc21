import Mathlib
import Libmagic.Encoding.Utf8Exact

/-!
# `ascmagic.c`: `encode_utf8`, and the round trip with `file_looks_utf8`

The encoder still knows the 5- and 6-byte forms. On scalar values it writes the
RFC 3629 encoding, so that the decoder and it are inverse to each other.
-/
namespace Libmagic.Encoding
open Unicode

/-- The label `out<k>` and the stores it falls through. -/
def outBytes : Nat → Nat → List UInt8
  | 0, _ => []
  | k + 1, u => UInt8.ofNat (((u >>> (6 * k)) &&& 0x3f) + 0x80) :: outBytes k u

/-- One iteration of `encode_utf8` with `room = end - buf`: the bytes stored, or
`none` for `return NULL`. -/
def encodeStep (room u : Nat) : Option (List UInt8) :=
  if u ≤ 0x7f then
    if room < 1 then none else some [UInt8.ofNat u]
  else if u ≤ 0x7ff then
    if room < 2 then none else some (UInt8.ofNat ((u >>> 6) + 0xc0) :: outBytes 1 u)
  else if u ≤ 0xffff then
    if room < 3 then none else some (UInt8.ofNat ((u >>> 12) + 0xe0) :: outBytes 2 u)
  else if u ≤ 0x1fffff then
    if room < 4 then none else some (UInt8.ofNat ((u >>> 18) + 0xf0) :: outBytes 3 u)
  else if u ≤ 0x3ffffff then
    if room < 5 then none else some (UInt8.ofNat ((u >>> 24) + 0xf8) :: outBytes 4 u)
  else if u ≤ 0x7fffffff then
    if room < 6 then none else some (UInt8.ofNat ((u >>> 30) + 0xfc) :: outBytes 5 u)
  else none

/-- `encode_utf8(buf, len, ubuf, ulen)`: the bytes stored at `buf`, and whether a
pointer behind them is returned rather than `NULL`. -/
def encodeUtf8 (len : Nat) : List Nat → List UInt8 × Bool
  | [] => ([], true)
  | u :: us =>
      match encodeStep len u with
      | none => ([], false)
      | some bytes =>
          let r := encodeUtf8 (len - bytes.length) us
          (bytes ++ r.1, r.2)

/-- The bytes the encoder needs for `u`. -/
def encodedLength (u : Nat) : Nat :=
  if u ≤ 0x7f then 1
  else if u ≤ 0x7ff then 2
  else if u ≤ 0xffff then 3
  else if u ≤ 0x1fffff then 4
  else if u ≤ 0x3ffffff then 5
  else 6

theorem length_outBytes (k u : Nat) : (outBytes k u).length = k := by
  induction k with
  | zero => rfl
  | succ k ih => rw [outBytes, List.length_cons, ih]

/-- The bound is checked before the first store of a character. -/
theorem encodeStep_spec (room u : Nat) :
    (encodeStep room u = none ∧ (0x7fffffff < u ∨ room < encodedLength u)) ∨
      (u ≤ 0x7fffffff ∧ encodedLength u ≤ room ∧
        ∃ bytes, encodeStep room u = some bytes ∧ bytes.length = encodedLength u) := by
  simp only [encodeStep, encodedLength]
  split_ifs <;>
    first
      | exact .inl ⟨rfl, by omega⟩
      | exact .inr ⟨by omega, by omega, _, rfl, by simp only [List.length_cons, length_outBytes,
          List.length_nil]⟩

/-- What is stored never exceeds `len`, and `NULL` is returned exactly when a
character is invalid or the whole text does not fit. -/
theorem encodeUtf8_bound (len : Nat) (us : List Nat) :
    (encodeUtf8 len us).1.length ≤ len ∧
      ((encodeUtf8 len us).2 = false ↔
        (∃ u ∈ us, 0x7fffffff < u) ∨ len < (us.map encodedLength).sum) := by
  induction us generalizing len with
  | nil => simp [encodeUtf8]
  | cons u us ih =>
      rw [encodeUtf8]
      rcases encodeStep_spec len u with ⟨refused, reason⟩ | ⟨valid, fits, bytes, stored, size⟩
      · rw [refused]
        refine ⟨Nat.zero_le _, iff_of_true rfl ?_⟩
        rcases reason with invalid | full
        · exact .inl ⟨u, List.mem_cons_self, invalid⟩
        · rw [List.map_cons, List.sum_cons]
          exact .inr (by omega)
      · have rest : len - bytes.length < (us.map encodedLength).sum ↔
            len < encodedLength u + (us.map encodedLength).sum := by omega
        obtain ⟨within, null⟩ := ih (len - bytes.length)
        rw [stored]
        refine ⟨?_, null.trans (or_congr ?_ rest)⟩
        · rw [List.length_append]
          omega
        · simp only [List.mem_cons, exists_eq_or_imp, Nat.not_lt.mpr valid, false_or]

/-! ## On scalar values -/

theorem and_0x3f (n : Nat) : n &&& 0x3f = n % 64 := by
  rw [show (0x3f : Nat) = 2 ^ 6 - 1 from rfl, Nat.and_two_pow_sub_one_eq_mod]

theorem outBytes_one (u : Nat) : outBytes 1 u = [UInt8.ofNat (u % 64 + 0x80)] := by
  simp only [outBytes, and_0x3f, Nat.mul_zero, Nat.shiftRight_zero]

theorem outBytes_two (u : Nat) :
    outBytes 2 u = [UInt8.ofNat (u / 64 % 64 + 0x80), UInt8.ofNat (u % 64 + 0x80)] := by
  rw [outBytes, outBytes_one, and_0x3f, Nat.shiftRight_eq_div_pow]

theorem outBytes_three (u : Nat) :
    outBytes 3 u = [UInt8.ofNat (u / 4096 % 64 + 0x80), UInt8.ofNat (u / 64 % 64 + 0x80),
      UInt8.ofNat (u % 64 + 0x80)] := by
  rw [outBytes, outBytes_two, and_0x3f, Nat.shiftRight_eq_div_pow]

/-- With enough room the encoder writes the RFC 3629 form of a scalar value. -/
theorem encodeStep_char {room : Nat} (c : Char)
    (fits : (String.utf8EncodeChar c).length ≤ room) :
    encodeStep room c.toNat = some (String.utf8EncodeChar c) := by
  have lt := (scalar_toNat c).lt
  rw [utf8EncodeChar_eq] at fits ⊢
  generalize c.toNat = n at *
  by_cases one : n ≤ 0x7f
  · rw [encode, if_pos one] at fits ⊢
    have room1 : ¬ room < 1 := Nat.not_lt.mpr fits
    rw [encodeStep, if_pos one, if_neg room1, List.map_singleton]
  by_cases two : n ≤ 0x7ff
  · rw [encode, if_neg one, if_pos two] at fits ⊢
    have room2 : ¬ room < 2 := Nat.not_lt.mpr fits
    rw [encodeStep, if_neg one, if_pos two, if_neg room2, outBytes_one, Nat.shiftRight_eq_div_pow]
    rfl
  by_cases three : n ≤ 0xffff
  · rw [encode, if_neg one, if_neg two, if_pos three] at fits ⊢
    have room3 : ¬ room < 3 := Nat.not_lt.mpr fits
    rw [encodeStep, if_neg one, if_neg two, if_pos three, if_neg room3, outBytes_two,
      Nat.shiftRight_eq_div_pow]
    rfl
  · rw [encode, if_neg one, if_neg two, if_neg three] at fits ⊢
    have room4 : ¬ room < 4 := Nat.not_lt.mpr fits
    have four : n ≤ 0x1fffff := by omega
    rw [encodeStep, if_neg one, if_neg two, if_neg three, if_pos four, if_neg room4, outBytes_three,
      Nat.shiftRight_eq_div_pow]
    rfl

theorem encodeUtf8_utf8 (cs : List Char) {len : Nat} (fits : (utf8 cs).length ≤ len) :
    encodeUtf8 len (cs.map Char.toNat) = (utf8 cs, true) := by
  induction cs generalizing len with
  | nil => rfl
  | cons c cs ih =>
      rw [utf8_cons, List.length_append] at fits
      have rest : (utf8 cs).length ≤ len - (String.utf8EncodeChar c).length := by omega
      rw [List.map_cons, encodeUtf8, encodeStep_char c (by omega)]
      simp only [ih rest, utf8_cons]

theorem length_utf8_le (cs : List Char) : (utf8 cs).length ≤ 6 * cs.length := by
  induction cs with
  | nil => exact Nat.le_refl 0
  | cons c cs ih =>
      have short : (String.utf8EncodeChar c).length ≤ 4 := by
        rw [utf8EncodeChar_eq, List.length_map, encode]
        split_ifs <;> simp
      rw [utf8_cons, List.length_append, List.length_cons]
      omega

/-- `text_chars` lets the code point through: it is no control outside text. -/
def plainText (u : Nat) : Bool := decide (0x80 ≤ u) || textChars u == .T

theorem oddControl_eq (c : Char) : oddControl c = !plainText c.toNat := by
  simp only [oddControl, plainText, Bool.not_or, ← decide_not, Nat.not_le]
  rfl

/-- Decoding a whole text gives its code points. -/
theorem fileLooksUtf8_utf8 (cs : List Char) {u : Unichars}
    (room : (utf8 cs).length ≤ u.cells.length) :
    ∃ v, fileLooksUtf8 (utf8 cs) (some u) =
        (verdict (cs.any oddControl) (cs.any isMultibyte), some v) ∧
      v.text = cs.map Char.toNat ∧ v.ulen = cs.length := by
  have run := looksUtf8_text cs truncated_nil (some u.reset) false false
  have short := length_le_length_utf8 cs
  rw [List.append_nil] at run
  refine ⟨_, run, (Unichars.pushAll_text _ ?_).1, ?_⟩
  · simp only [Unichars.reset, List.length_map]
    omega
  · simp [Unichars.reset]

/-- `encode_utf8` and `file_looks_utf8` are inverse to each other: on scalar
values without odd controls, on complete well-formed buffers, and no destination
length is ever exceeded. -/
theorem encodeUtf8_roundTrip :
    (∀ us len, (∀ u ∈ us, Scalar u ∧ plainText u) → 6 * us.length ≤ len →
      ∃ bytes, encodeUtf8 len us = (bytes, true) ∧
        ∀ ubuf : Unichars, bytes.length ≤ ubuf.cells.length →
          ∃ v, (fileLooksUtf8 bytes (some ubuf)).2 = some v ∧
            0 < (fileLooksUtf8 bytes (some ubuf)).1 ∧ v.text = us ∧ v.ulen = us.length) ∧
    (∀ cs len, ∀ ubuf : Unichars, (utf8 cs).length ≤ ubuf.cells.length → (utf8 cs).length ≤ len →
      ∃ v, (fileLooksUtf8 (utf8 cs) (some ubuf)).2 = some v ∧
        encodeUtf8 len v.text = (utf8 cs, true)) ∧
    ∀ len us, (encodeUtf8 len us).1.length ≤ len ∧
      ((encodeUtf8 len us).2 = false ↔
        (∃ u ∈ us, 0x7fffffff < u) ∨ len < (us.map encodedLength).sum) := by
  refine ⟨?_, ?_, encodeUtf8_bound⟩
  · intro us len plain room
    obtain ⟨cs, rfl⟩ := (exists_map_toNat us).mpr (fun u member => (plain u member).1)
    have bound := length_utf8_le cs
    rw [List.length_map] at room ⊢
    refine ⟨utf8 cs, encodeUtf8_utf8 cs (by omega), fun ubuf space => ?_⟩
    obtain ⟨v, run, text, len⟩ := fileLooksUtf8_utf8 cs space
    have none : cs.any oddControl = false := by
      simp only [List.any_eq_false, oddControl_eq, Bool.not_eq_true', Bool.not_eq_false]
      exact fun c member => (plain _ (List.mem_map_of_mem member)).2
    refine ⟨v, by rw [run], ?_, text, len⟩
    rw [run, none]
    change 0 < verdict false (cs.any isMultibyte)
    cases cs.any isMultibyte <;> decide
  · intro cs len ubuf space fits
    obtain ⟨v, run, text, -⟩ := fileLooksUtf8_utf8 cs space
    exact ⟨v, by rw [run], text ▸ encodeUtf8_utf8 cs fits⟩

end Libmagic.Encoding
