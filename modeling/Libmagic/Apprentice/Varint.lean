import Mathlib.Data.Nat.Digits.Defs
import Libmagic.Cells
import Libmagic.Memory
import Libmagic.Softmagic.Types

/-!
# `apprentice.c`: variable-length integers

`file_varint2uintmax_t` gathers groups of seven bits. In the big-endian order it shifts in front of
each group but the first, in the little-endian order behind each group, the last one too.
-/
namespace Libmagic.Apprentice

open Softmagic (Bytes MType)
open Run Cells

/-! ## The routine -/

/-- A round of `for (c = us; *c; c++)` that looks for the last byte. -/
def levarintRound (us : Bytes) (c : Nat) : Run CellAccess (Nat ⊕ Nat) := do
  let b ← readAt us c
  if b = 0 ∨ b &&& 0x80 = 0 then pure (.inr c) else pure (.inl (c + 1))

/-- `for (; c >= us; c--)`, with the number of bytes that are left. -/
def levarintGather (us : Bytes) : (left : Nat) → (x : Nat) → Run CellAccess Nat
  | 0, x => pure x
  | c + 1, x => do
      let b ← readAt us c
      levarintGather us c ((x ||| (b &&& 0x7f).toNat) <<< 7 % 2 ^ 64)

/-- A round of the other `for (c = us; *c; c++)`, with `c` and `x`. -/
def bevarintRound (us : Bytes) (t : Nat × Nat) : Run CellAccess ((Nat × Nat) ⊕ (Nat × Nat)) := do
  let b ← readAt us t.1
  if b = 0 then pure (.inr t)
  else
    let x := t.2 ||| (b &&& 0x7f).toNat
    if b &&& 0x80 = 0 then pure (.inr (t.1, x)) else pure (.inl (t.1 + 1, x <<< 7 % 2 ^ 64))

/-- `file_varint2uintmax_t(us, t, l)`: the number and `*l`. -/
def fileVarint2uintmax (us : Bytes) (t : MType) : Run CellAccess (Nat × Nat) :=
  if t = .levarint then do
    let c ← loop (levarintRound us) (us.length + 1) 0
    let x ← levarintGather us (c + 1) 0
    pure (x, c + 1)
  else do
    let r ← loop (bevarintRound us) (us.length + 1) (0, 0)
    pure (r.2, r.1 + 1)

/-! ## Groups of seven bits -/

/-- The groups as bytes, where all but the last have their high bit set. -/
def continued : List Nat → Bytes
  | [] => []
  | [g] => [UInt8.ofNat g]
  | g :: g' :: gs => UInt8.ofNat (g + 128) :: continued (g' :: gs)

/-- The number that the groups are. -/
def grouped : Order → List Nat → Nat
  | .little, gs => Nat.ofDigits 128 gs
  | .big, gs => Nat.ofDigits 128 gs.reverse

/-- Bytes that are a number in groups of seven bits. Groups of zeros may stand at its high end. -/
inductive Encodes (order : Order) : (n : Nat) → (bs : Bytes) → Prop
  | intro {gs : List Nat} (some : gs ≠ []) (bits : ∀ g ∈ gs, g < 128) : Encodes order (grouped order gs) (continued gs)

/-- The shortest groups of a number, the lowest first. -/
def groups (n : Nat) : List Nat := if n = 0 then [0] else Nat.digits 128 n

def encode (order : Order) (n : Nat) : Bytes :=
  continued (match order with | .little => groups n | .big => (groups n).reverse)

/-! ## Bytes of groups -/

section

variable {gs : List Nat} {us : Bytes} {c d w : Nat}

theorem continued_length (gs : List Nat) : (continued gs).length = gs.length := by
  induction gs with
  | nil => rfl
  | cons g gs ih =>
      cases gs with
      | nil => rfl
      | cons g' gs => exact congrArg (· + 1) ih

/-- The byte of a group, where `more` groups follow. -/
def groupByte (g more : Nat) : UInt8 := UInt8.ofNat (if more = 0 then g else g + 128)

theorem groupByte_bits (more : Nat) {g : Nat} (bits : g < 128) :
    (groupByte g more &&& 0x7f).toNat = g ∧ (groupByte g more &&& 0x80 = 0 ↔ more = 0) ∧
      (groupByte g more = 0 ↔ more = 0 ∧ g = 0) := by
  have last : ∀ g < 128, (UInt8.ofNat g &&& 0x7f).toNat = g ∧ UInt8.ofNat g &&& 0x80 = 0 ∧ (UInt8.ofNat g = 0 ↔ g = 0) := by
    decide +kernel
  have other : ∀ g < 128, (UInt8.ofNat (g + 128) &&& 0x7f).toNat = g ∧ UInt8.ofNat (g + 128) &&& 0x80 ≠ 0 ∧
      UInt8.ofNat (g + 128) ≠ 0 := by
    decide +kernel
  rw [groupByte]
  by_cases none : more = 0
  · obtain ⟨low, high, zero⟩ := last g bits
    rw [if_pos none]
    exact ⟨low, iff_of_true high none, zero.trans (and_iff_right none).symm⟩
  · obtain ⟨low, high, zero⟩ := other g bits
    rw [if_neg none]
    exact ⟨low, iff_of_false high none, iff_of_false zero (fun both => none both.1)⟩

theorem getD_continued (rest : Bytes) (inside : c < gs.length) :
    (continued gs ++ rest).getD c 0 = groupByte (gs.getD c 0) (gs.length - (c + 1)) := by
  induction gs generalizing c with
  | nil => cases inside
  | cons g gs ih =>
      cases gs with
      | nil =>
          obtain rfl := Nat.lt_one_iff.mp inside
          rfl
      | cons g' gs =>
          cases c with
          | zero => rfl
          | succ c =>
              rw [continued, List.cons_append, List.getD_cons_succ, List.getD_cons_succ,
                ih (Nat.lt_of_succ_lt_succ inside)]
              exact congrArg (groupByte _) (Nat.add_sub_add_right _ 1 _).symm

/-- What the groups are, one byte after the other. -/
structure Holds (us : Bytes) (gs : List Nat) : Prop where
  bits : ∀ g ∈ gs, g < 128
  bytes : ∀ c < gs.length, us.getD c 0 = groupByte (gs.getD c 0) (gs.length - (c + 1))

theorem Holds.getD_lt (holds : Holds us gs) (inside : c < gs.length) : gs.getD c 0 < 128 := by
  rw [List.getD_eq_getElem _ _ inside]
  exact holds.bits _ (List.getElem_mem inside)

/-! ## Adding a group -/

/-- The low seven bits of a number that was shifted are free. -/
theorem shifted_or (n : Nat) {g : Nat} (bits : g < 128) :
    n * 128 % 2 ^ 64 ||| g = (n * 128 + g) % 2 ^ 64 := by
  have free : n * 128 % 2 ^ 64 = n % 2 ^ 57 * 2 ^ 7 := by omega
  rw [free, ← Nat.shiftLeft_eq, ← Nat.shiftLeft_add_eq_or_of_lt bits, Nat.shiftLeft_eq]
  omega

theorem shift_mod (n : Nat) : (n % 2 ^ 64) <<< 7 % 2 ^ 64 = n * 128 % 2 ^ 64 := by
  rw [Nat.shiftLeft_eq, Nat.mod_mul_mod]

theorem grouped_little_drop (inside : c < gs.length) :
    grouped .little (gs.drop c) = grouped .little (gs.drop (c + 1)) * 128 + gs.getD c 0 := by
  rw [grouped, List.drop_eq_getElem_cons inside, Nat.ofDigits_cons, List.getD_eq_getElem _ _ inside, grouped]
  ring

theorem grouped_big_take (inside : c < gs.length) :
    grouped .big (gs.take (c + 1)) = grouped .big (gs.take c) * 128 + gs.getD c 0 := by
  rw [grouped, List.take_succ_eq_append_getElem inside, List.reverse_append, List.reverse_singleton,
    List.singleton_append, Nat.ofDigits_cons, List.getD_eq_getElem _ _ inside, grouped]
  ring

/-! ## The loops -/

theorem levarintRound_meets (holds : Holds us gs) (inside : c < gs.length) :
    Meets (within gs.length w) d (levarintRound us c)
      (Sum.elim (fun c' => c' < gs.length ∧ gs.length - c' < gs.length - c) (fun c' => c' + 1 = gs.length)) := by
  obtain ⟨-, high, zero⟩ := groupByte_bits (gs.length - (c + 1)) (holds.getD_lt inside)
  apply Meets.bind (readAt_meets inside)
  rintro b rfl
  rw [holds.bytes c inside]
  apply Meets.ite
  · intro stops
    have last : gs.length - (c + 1) = 0 := stops.elim (fun nul => (zero.mp nul).1) high.mp
    exact Meets.pure (by dsimp only [Sum.elim_inr]; omega)
  · intro goes
    have more : gs.length - (c + 1) ≠ 0 := fun last => goes (.inr (high.mpr last))
    exact Meets.pure ⟨by omega, by omega⟩

theorem levarintGather_meets (holds : Holds us gs) (le : c ≤ gs.length) :
    Meets (within gs.length w) d (levarintGather us c (grouped .little (gs.drop c) * 128 % 2 ^ 64))
      (· = grouped .little gs * 128 % 2 ^ 64) := by
  induction c with
  | zero => exact Meets.pure rfl
  | succ c ih =>
      have bits := holds.getD_lt le
      apply Meets.bind (readAt_meets le)
      rintro b rfl
      rw [holds.bytes c le, (groupByte_bits _ bits).1, shifted_or _ bits, shift_mod, ← grouped_little_drop le]
      exact ih (Nat.le_of_succ_le le)

/-- The groups in front of `c` are gathered and shifted. -/
def Gathered (gs : List Nat) (t : Nat × Nat) : Prop :=
  t.1 < gs.length ∧ t.2 = grouped .big (gs.take t.1) * 128 % 2 ^ 64

theorem bevarintRound_meets (holds : Holds us gs) {t : Nat × Nat} (gathered : Gathered gs t) :
    Meets (within gs.length w) d (bevarintRound us t)
      (Sum.elim (fun t' => Gathered gs t' ∧ gs.length - t'.1 < gs.length - t.1)
        (fun t' => t'.1 + 1 = gs.length ∧ t'.2 = grouped .big gs % 2 ^ 64)) := by
  obtain ⟨c, x⟩ := t
  obtain ⟨inside, value⟩ := gathered
  dsimp only at inside value ⊢
  subst value
  have bits := holds.getD_lt inside
  obtain ⟨low, high, zero⟩ := groupByte_bits (gs.length - (c + 1)) bits
  have next := grouped_big_take inside
  have whole (last : gs.length - (c + 1) = 0) : gs.take (c + 1) = gs := List.take_of_length_le (by omega)
  apply Meets.bind (readAt_meets inside)
  rintro b rfl
  rw [holds.bytes c inside]
  apply Meets.ite
  · intro nul
    obtain ⟨last, none⟩ := zero.mp nul
    rw [whole last, none, Nat.add_zero] at next
    exact Meets.pure ⟨by dsimp only; omega, by rw [next]⟩
  · intro _
    rw [low, shifted_or _ bits, ← next]
    apply Meets.ite
    · intro stops
      have last := high.mp stops
      exact Meets.pure ⟨by dsimp only; omega, by rw [whole last]⟩
    · intro goes
      have more : gs.length - (c + 1) ≠ 0 := fun last => goes (high.mpr last)
      exact Meets.pure ⟨⟨by dsimp only; omega, shift_mod _⟩, by dsimp only; omega⟩

/-- The number that is read: the one of the groups, times 128 in the little-endian order. -/
def readVarint (order : Order) (gs : List Nat) : Nat :=
  match order with
  | .little => grouped .little gs * 128 % 2 ^ 64
  | .big => grouped .big gs % 2 ^ 64

def varintType : Order → MType
  | .little => .levarint
  | .big => .bevarint

theorem fileVarint2uintmax_meets (order : Order) (holds : Holds us gs) (some : 0 < gs.length)
    (fits : gs.length ≤ us.length) :
    Meets (within gs.length w) d (fileVarint2uintmax us (varintType order)) (· = (readVarint order gs, gs.length)) := by
  cases order with
  | little =>
      have whole : grouped .little (gs.drop gs.length) * 128 % 2 ^ 64 = 0 := by
        rw [List.drop_length]
        rfl
      apply Meets.bind (Meets.loop (fun c inside => levarintRound_meets holds inside) (us.length + 1) 0 some (by omega))
      rintro c last
      rw [last]
      have gathers := levarintGather_meets (d := d) (w := w) holds (Nat.le_refl gs.length)
      rw [whole] at gathers
      apply Meets.bind gathers
      rintro x rfl
      exact Meets.pure rfl
  | big =>
      have start : Gathered gs (0, 0) := ⟨some, rfl⟩
      apply Meets.bind (Meets.loop (fun t gathered => bevarintRound_meets holds gathered) (us.length + 1) (0, 0) start
        (by dsimp only; omega))
      rintro ⟨c, x⟩ ⟨last, rfl⟩
      exact Meets.pure (by rw [← last]; rfl)

end

/-! ## Numbers -/

theorem groups_digits (n : Nat) : groups n ≠ [] ∧ (∀ g ∈ groups n, g < 128) ∧ Nat.ofDigits 128 (groups n) = n := by
  rw [groups]
  split_ifs with zero
  · subst zero
    decide
  · exact ⟨Nat.digits_ne_nil_iff_ne_zero.mpr zero, fun g mem => Nat.digits_lt_base (by decide) mem,
      Nat.ofDigits_digits 128 n⟩

theorem encode_encodes (order : Order) (n : Nat) : Encodes order n (encode order n) := by
  obtain ⟨some, bits, value⟩ := groups_digits n
  cases order with
  | little =>
      have encodes := @Encodes.intro .little _ some bits
      rwa [grouped, value] at encodes
  | big =>
      have encodes := @Encodes.intro .big _ (List.reverse_ne_nil_iff.mpr some)
        (fun g mem => bits g (List.mem_reverse.mp mem))
      rwa [grouped, List.reverse_reverse, value] at encodes

theorem varint_exact_iff (order : Order) {n : Nat} (small : n < 2 ^ 63) {bs : Bytes} (encodes : Encodes order n bs)
    (rest : Bytes) :
    (∀ e ∈ (fileVarint2uintmax (bs ++ rest) (varintType order)).events, e.within bs.length 0) ∧
      ((fileVarint2uintmax (bs ++ rest) (varintType order)).value = some (n, bs.length) ↔ order = .big ∨ n = 0) := by
  obtain @⟨gs, some, bits⟩ := encodes
  have holds : Holds (continued gs ++ rest) gs := ⟨bits, fun c inside => getD_continued rest inside⟩
  have fits : gs.length ≤ (continued gs ++ rest).length := by
    rw [List.length_append, continued_length]
    exact Nat.le_add_right _ _
  obtain ⟨allowed, -, _, value, rfl⟩ :=
    fileVarint2uintmax_meets (d := 0) (w := 0) order holds (List.length_pos_iff.mpr some) fits
  rw [continued_length, value]
  refine ⟨allowed, ?_⟩
  simp only [Option.some.injEq, Prod.mk.injEq, and_true]
  cases order with
  | little =>
      simp only [readVarint, reduceCtorEq, false_or]
      omega
  | big =>
      simp only [readVarint, true_or, iff_true]
      exact Nat.mod_eq_of_lt (by omega)

theorem varint_exact_hundreds :
    (fileVarint2uintmax ([0x83, 0x00] ++ [0xff]) .bevarint).value = some (384, 2) :=
  ((varint_exact_iff .big (n := 384) (by decide) (encode_encodes .big 384) [0xff]).2.mpr (.inl rfl))

/-- The little-endian encoding of 1. -/
theorem levarint_of_one : Encodes .little 1 [0x01] ∧ (fileVarint2uintmax [0x01] .levarint).value = some (128, 1) :=
  ⟨@Encodes.intro .little [1] (List.cons_ne_nil _ _) (by decide), by decide⟩

end Libmagic.Apprentice
