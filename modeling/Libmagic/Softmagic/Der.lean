import Libmagic.Ber
import Libmagic.Softmagic.Check
import Libmagic.Softmagic.Numeric

/-!
# `der.c`: tags and lengths

What `gettag` and `getlength` make of the octets in front of the contents of an element. A buffer has
less than 2^63 bytes, as every object of the machine has.
-/
namespace Libmagic.Softmagic

open Ber

/-! ## `getlength` -/

section
variable {c : Bytes} {p : Nat}

/-- The length is read exactly when its octets are whole and the contents fit, and `p` is then behind them. -/
def LengthExact (c : Bytes) (p : Nat) : Prop :=
  ((getlength c p c.length).1 ≠ DER_BAD ↔
    ∃ size len, lengthAt (c.drop p) = some (size, len) ∧ p + size + len ≤ c.length) ∧
  ∀ size len, lengthAt (c.drop p) = some (size, len) → (getlength c p c.length).1 ≠ DER_BAD →
    getlength c p c.length = (len, p + size)

/-- Contents of `len` bytes behind `start` pass the checks of the long form, in a buffer of `l` bytes. -/
def LengthPasses (start len l : Nat) : Prop :=
  start < l ∧ len % 2 ^ 32 ≠ DER_BAD ∧
    (start + len ≤ l ∧ (start + len < 2 ^ 32 ∨ 2 ^ 32 ≤ start) ∨
      2 ^ 32 ≤ start ∧ 2 ^ 64 ≤ start + len ∧ start + len < 2 ^ 64 + 2 ^ 32)

instance (start len l : Nat) : Decidable (LengthPasses start len l) :=
  inferInstanceAs (Decidable (_ ∧ _ ∧ (_ ∨ _)))

/-- The buffer does not end where the contents of the short form do. In the long form it does not end with the
length octets, contents that fit are within the first 4 GiB or shorter than that, and a number of
contents that do not fit is not taken for a smaller one. -/
def LengthKept (c : Bytes) (p : Nat) : Prop :=
  ∀ size len, lengthAt (c.drop p) = some (size, len) →
    if c.getD p 0 < 0x80 then p + size + len ≠ c.length
    else if p + size + len ≤ c.length then
      p + size ≠ c.length ∧ (p + size + len < 2 ^ 32 ∨ 2 ^ 32 ≤ p + size ∧ len < DER_BAD)
    else ¬ LengthPasses (p + size) (len % 2 ^ 64) c.length

theorem lengthAt_drop (inside : p < c.length) : lengthAt (c.drop p) =
    if c.getD p 0 < 0x80 then some (1, (c.getD p 0).toNat)
    else if (c.getD p 0).toNat % 128 ≤ c.length - (p + 1) then
      some ((c.getD p 0).toNat % 128 + 1, beNat ((c.drop (p + 1)).take ((c.getD p 0).toNat % 128)))
    else none := by
  rw [List.drop_eq_getElem_cons inside, lengthAt, List.length_drop, ← List.getD_eq_getElem _ 0 inside,
    beNat_eq_load]

theorem getlength_short (inside : p < c.length) (short : c.getD p 0 < 0x80) :
    getlength c p c.length =
      if p + 1 + (c.getD p 0).toNat < c.length then ((c.getD p 0).toNat, p + 1) else (DER_BAD, p + 1) := by
  have small : (c.getD p 0).toNat < 128 := UInt8.lt_iff_toNat_lt.mp short
  rw [getlength, if_neg (by omega)]
  dsimp only
  rw [Nat.mod_eq_of_lt small, if_pos (show (c.getD p 0).toNat < 0x80 from small)]
  split_ifs <;> first | rfl | omega

theorem getlength_long (size : c.length < 2 ^ 63) (inside : p < c.length) (long : ¬ c.getD p 0 < 0x80) {start len : Nat}
    (hstart : start = p + 1 + (c.getD p 0).toNat % 128)
    (hlen : len = beNat ((c.drop (p + 1)).take ((c.getD p 0).toNat % 128)) % 2 ^ 64) :
    ((getlength c p c.length).1 ≠ DER_BAD ↔ LengthPasses start len c.length) ∧
      ((getlength c p c.length).1 ≠ DER_BAD → getlength c p c.length = (len % 2 ^ 32, start)) := by
  have large : ¬ (c.getD p 0).toNat < 0x80 := fun small => long (UInt8.lt_iff_toNat_lt.mpr small)
  have bound : len < 2 ^ 64 := hlen ▸ Nat.mod_lt _ (by decide)
  have limit : (uN 64 (2 ^ 32 - 1 - start) : Int) = (2 ^ 32 - 1 - start) % 2 ^ 64 := uN_cast _ _
  rw [getlength, if_neg (by omega)]
  dsimp only
  rw [if_neg large, ← hstart, ← hlen]
  have behind : 2 ≤ start ∨ start = p + 1 := by omega
  simp only [LengthPasses, DER_BAD]
  split_ifs with cut wide
  · exact ⟨iff_of_false (fun h => h rfl) (by omega), fun h => absurd rfl h⟩
  · exact ⟨iff_of_false (fun h => h rfl) (by omega), fun h => absurd rfl h⟩
  · exact ⟨by dsimp only; omega, fun _ => rfl⟩

theorem lengthPasses_iff {start len l : Nat} (behind : 2 ≤ start ∨ len = 0) (inside : start ≤ l) (size : l < 2 ^ 63) :
    ((LengthPasses start (len % 2 ^ 64) l ↔ start + len ≤ l) ∧
        (LengthPasses start (len % 2 ^ 64) l → len % 2 ^ 64 % 2 ^ 32 = len)) ↔
      if start + len ≤ l then start ≠ l ∧ (start + len < 2 ^ 32 ∨ 2 ^ 32 ≤ start ∧ len < DER_BAD)
      else ¬ LengthPasses start (len % 2 ^ 64) l := by
  simp only [LengthPasses, DER_BAD]
  split_ifs with fits
  · have word : len % 2 ^ 64 = len := Nat.mod_eq_of_lt (by omega)
    rw [word]
    omega
  · omega

section
variable {size len : Nat}

theorem lengthExact_iff (found : lengthAt (c.drop p) = some (size, len)) : LengthExact c p ↔
    ((getlength c p c.length).1 ≠ DER_BAD ↔ p + size + len ≤ c.length) ∧
      ((getlength c p c.length).1 ≠ DER_BAD → getlength c p c.length = (len, p + size)) := by
  constructor
  · rintro ⟨accepts, result⟩
    refine ⟨accepts.trans ⟨?_, fun fits => ⟨size, len, found, fits⟩⟩, result size len found⟩
    rintro ⟨size', len', found', fits⟩
    obtain ⟨rfl, rfl⟩ := Prod.mk.inj (Option.some.inj (found.symm.trans found'))
    exact fits
  · rintro ⟨accepts, result⟩
    refine ⟨accepts.trans ⟨fun fits => ⟨size, len, found, fits⟩, ?_⟩, ?_⟩
    · rintro ⟨size', len', found', fits⟩
      obtain ⟨rfl, rfl⟩ := Prod.mk.inj (Option.some.inj (found.symm.trans found'))
      exact fits
    · intro size' len' found' read
      obtain ⟨rfl, rfl⟩ := Prod.mk.inj (Option.some.inj (found.symm.trans found'))
      exact result read

theorem lengthKept_iff (found : lengthAt (c.drop p) = some (size, len)) : LengthKept c p ↔
    if c.getD p 0 < 0x80 then p + size + len ≠ c.length
    else if p + size + len ≤ c.length then
      p + size ≠ c.length ∧ (p + size + len < 2 ^ 32 ∨ 2 ^ 32 ≤ p + size ∧ len < DER_BAD)
    else ¬ LengthPasses (p + size) (len % 2 ^ 64) c.length := by
  constructor
  · exact fun kept => kept size len found
  · intro kept size' len' found'
    obtain ⟨rfl, rfl⟩ := Prod.mk.inj (Option.some.inj (found.symm.trans found'))
    exact kept

theorem getlength_exact_short (inside : p < c.length) (short : c.getD p 0 < 0x80) :
    LengthExact c p ↔ LengthKept c p := by
  have small : (c.getD p 0).toNat < 128 := UInt8.lt_iff_toNat_lt.mp short
  have found : lengthAt (c.drop p) = some (1, (c.getD p 0).toNat) := by rw [lengthAt_drop inside, if_pos short]
  rw [lengthExact_iff found, lengthKept_iff found, if_pos short, getlength_short inside short, DER_BAD]
  generalize (c.getD p 0).toNat = n at small
  split_ifs
  · exact iff_of_true ⟨iff_of_true (by dsimp only; omega) (by omega), fun _ => rfl⟩ (by omega)
  · simp only [ne_eq, not_true_eq_false, false_iff, IsEmpty.forall_iff, and_true]
    omega

theorem getlength_exact_long (bound : c.length < 2 ^ 63) (inside : p < c.length) (long : ¬ c.getD p 0 < 0x80) :
    LengthExact c p ↔ LengthKept c p := by
  obtain ⟨accepts, result⟩ := getlength_long bound inside long rfl rfl
  have octets := lengthAt_drop inside
  have none : (c.getD p 0).toNat % 128 = 0 → beNat ((c.drop (p + 1)).take ((c.getD p 0).toNat % 128)) = 0 := by
    intro none
    rw [none, List.take_zero]
    rfl
  rw [if_neg long] at octets
  generalize (c.getD p 0).toNat % 128 = n at accepts result none octets
  generalize beNat ((c.drop (p + 1)).take n) = len at accepts result none octets
  rw [Nat.add_right_comm, Nat.add_assoc p n 1] at accepts result
  by_cases whole : n ≤ c.length - (p + 1)
  · rw [if_pos whole] at octets
    rw [lengthExact_iff octets, lengthKept_iff octets, if_neg long, accepts]
    have arith := @lengthPasses_iff (p + (n + 1)) len c.length (by omega) (by omega) bound
    rw [← arith]
    refine and_congr_right (fun fits => forall_congr' (fun passes => ?_))
    rw [result (accepts.mpr passes), Prod.mk.injEq, and_iff_left rfl]
  · rw [if_neg whole] at octets
    have cut : ¬ LengthPasses (p + (n + 1)) (len % 2 ^ 64) c.length := fun passes => by
      have := passes.1
      omega
    simp only [LengthExact, LengthKept, octets, accepts, cut, reduceCtorEq, false_and, exists_false, IsEmpty.forall_iff,
      implies_true, and_self]

end

/-- The routine reads a length as it should exactly when the contents do not end the buffer, do not lie too far in
it, and are not as many as a word cannot say. -/
theorem getlength_exact_iff (bound : c.length < 2 ^ 63) : LengthExact c p ↔ LengthKept c p := by
  by_cases inside : p < c.length
  · by_cases short : c.getD p 0 < 0x80
    · exact getlength_exact_short inside short
    · exact getlength_exact_long bound inside short
  · rw [LengthExact, LengthKept, List.drop_eq_nil_of_le (Nat.not_lt.mp inside), getlength, if_pos (Nat.not_lt.mp inside)]
    exact iff_of_true ⟨iff_of_false (fun h => h rfl) (by rintro ⟨size, len, ⟨⟩, -⟩), fun _ _ found => by cases found⟩
      (fun _ _ found => by cases found)

/-- A boolean that is not at the end of its buffer. -/
theorem getlength_exact_short_inside : LengthExact [0x01, 0xff, 0x00] 0 :=
  (getlength_exact_iff (by decide)).mpr ((lengthKept_iff rfl).mpr (by decide))

/-- The last element of a buffer is not read. -/
theorem getlength_not_exact : ¬ ∀ (c : Bytes) (p : Nat), p < c.length → LengthExact c p := by
  intro exact
  have length : (getlength [0x01, 0xff] 0 2).1 ≠ DER_BAD :=
    (lengthExact_iff rfl).mp (exact [0x01, 0xff] 0 (by decide)) |>.1.mpr (by decide)
  exact length (by decide)

/-- A length that is read leaves `p` behind its octets. -/
theorem getlength_end (bound : c.length < 2 ^ 63) {size len : Nat} (found : lengthAt (c.drop p) = some (size, len))
    (read : (getlength c p c.length).1 ≠ DER_BAD) : (getlength c p c.length).2 = p + size := by
  by_cases inside : p < c.length
  · have octets := lengthAt_drop inside
    by_cases short : c.getD p 0 < 0x80
    · rw [if_pos short, found, Option.some.injEq, Prod.mk.injEq] at octets
      rw [getlength_short inside short, octets.1]
      split_ifs <;> rfl
    · have result := (getlength_long bound inside short rfl rfl).2 read
      rw [if_neg short, found] at octets
      split_ifs at octets with whole
      rw [Option.some.injEq, Prod.mk.injEq] at octets
      rw [result, octets.1, Nat.add_right_comm, Nat.add_assoc]
  · rw [getlength, if_pos (Nat.not_lt.mp inside)] at read
    exact absurd rfl read

end

/-! ## `gettag` -/

section
variable {cls : Fin 4} {constructed : Bool} {number : Nat} {pre rest : Bytes}

/-- `gettag` gives the tag number, and leaves `p` where the length is then read. -/
def TagRead (cls : Fin 4) (constructed : Bool) (number : Nat) (pre rest : Bytes) : Prop :=
  let id := identifier cls constructed number
  let c := pre ++ (id ++ rest)
  let tag := gettag (some c) pre.length c.length
  tag = (number, pre.length + id.length) ∧
    ∀ size len, lengthAt rest = some (size, len) → (getlength c tag.2 c.length).1 ≠ DER_BAD →
      (getlength c tag.2 c.length).2 = pre.length + id.length + size

/-- The loop stops in front of the last octet of a long tag. -/
theorem gettagLong_stops {front : Bytes} {last : UInt8} (more : ∀ b ∈ front, 0x80 ≤ b) (ends : last < 0x80) (n tag : Nat)
    (enough : front.length < n) :
    (gettagLong (pre ++ (front ++ last :: rest)) (pre ++ (front ++ last :: rest)).length n tag pre.length).2 =
      pre.length + front.length := by
  induction front generalizing pre n tag with
  | nil =>
      cases n with
      | zero => cases enough
      | succ n =>
          have head : (pre ++ ([] ++ last :: rest)).getD pre.length 0 = last := by
            rw [List.getD_append_right _ _ _ _ (Nat.le_refl _), Nat.sub_self, List.nil_append, List.getD_cons_zero]
          have small : last.toNat < 0x80 := UInt8.lt_iff_toNat_lt.mp ends
          rw [gettagLong, head, if_pos small]
          rfl
  | cons b front ih =>
      cases n with
      | zero => cases enough
      | succ n =>
          have head : (pre ++ (b :: front ++ last :: rest)).getD pre.length 0 = b := by
            rw [List.getD_append_right _ _ _ _ (Nat.le_refl _), Nat.sub_self, List.cons_append, List.getD_cons_zero]
          have large : ¬ b.toNat < 0x80 :=
            Nat.not_lt.mpr (UInt8.le_iff_toNat_le.mp (more b List.mem_cons_self))
          have split : pre ++ (b :: front ++ last :: rest) = (pre ++ [b]) ++ (front ++ last :: rest) := by
            rw [List.append_assoc, List.singleton_append, List.cons_append]
          have next : (pre ++ [b]).length = pre.length + 1 := List.length_append
          have more' : ∀ b' ∈ front, 0x80 ≤ b' := fun b' member => more b' (List.mem_cons_of_mem b member)
          rw [gettagLong, head, if_neg large, if_neg (by simp only [List.length_append, List.length_cons]; omega), split, ← next,
            ih more' _ _ (by rw [List.length_cons] at enough; omega), next, List.length_cons]
          omega

theorem gettag_low (low : number < 31) :
    gettag (some (pre ++ (identifier cls constructed number ++ rest))) pre.length
        (pre ++ (identifier cls constructed number ++ rest)).length =
      (number, pre.length + (identifier cls constructed number).length) := by
  have octet : (lead cls constructed number).toNat % 32 = number := lead_toNat cls constructed (by omega)
  have head : (pre ++ ([lead cls constructed number] ++ rest)).getD pre.length 0 = lead cls constructed number := by
    rw [List.getD_append_right _ _ _ _ (Nat.le_refl _), Nat.sub_self, List.singleton_append, List.getD_cons_zero]
  rw [identifier, if_pos low]
  dsimp only [gettag]
  rw [head, octet, if_neg (by simp only [List.length_append, List.length_cons]; omega), if_pos (by omega),
    List.length_singleton]

/-- The last octet of a long tag is left to `getlength`. -/
theorem gettag_high (high : ¬ number < 31) :
    (gettag (some (pre ++ (identifier cls constructed number ++ rest))) pre.length
        (pre ++ (identifier cls constructed number ++ rest)).length).2 + 1 =
      pre.length + (identifier cls constructed number).length := by
  have octet : (lead cls constructed 31).toNat % 32 = 31 := lead_toNat cls constructed (by decide)
  obtain ⟨front, last, groups_eq, more, ends⟩ := groups_split number
  have head : (pre ++ (lead cls constructed 31 :: groups number ++ rest)).getD pre.length 0 = lead cls constructed 31 := by
    rw [List.getD_append_right _ _ _ _ (Nat.le_refl _), Nat.sub_self, List.cons_append, List.getD_cons_zero]
  have split : pre ++ (lead cls constructed 31 :: groups number ++ rest) =
      (pre ++ [lead cls constructed 31]) ++ (front ++ last :: rest) := by
    rw [groups_eq, List.append_assoc, List.singleton_append, List.cons_append, List.append_assoc, List.singleton_append]
  have next : (pre ++ [lead cls constructed 31]).length = pre.length + 1 := List.length_append
  rw [identifier, if_neg high]
  dsimp only [gettag]
  rw [head, octet]
  rw [if_neg (by simp only [List.length_append, List.length_cons]; omega), if_neg (by decide),
    if_neg (by rw [groups_eq]; simp only [List.length_append, List.length_cons]; omega), split, ← next,
    gettagLong_stops more ends _ _ (by simp only [List.length_append, List.length_cons]; omega), next, groups_eq]
  simp only [List.length_append, List.length_cons, List.length_nil]
  omega

/-- A tag is read whole exactly in the form of one octet. -/
theorem gettag_iff (bound : (pre ++ (identifier cls constructed number ++ rest)).length < 2 ^ 63) :
    TagRead cls constructed number pre rest ↔ number < 31 := by
  constructor
  · rintro ⟨read, -⟩
    by_contra high
    have short := @gettag_high cls constructed number pre rest high
    rw [read] at short
    omega
  · intro low
    have behind : (pre ++ (identifier cls constructed number ++ rest)).drop
        (pre.length + (identifier cls constructed number).length) = rest := by
      rw [← List.append_assoc, ← List.length_append, List.drop_left]
    refine ⟨gettag_low low, fun size len found => ?_⟩
    rw [gettag_low low]
    rw [← behind] at found
    exact getlength_end bound found

/-- The tag of a sequence. -/
theorem gettag_sequence : TagRead 0 true 0x10 [] [0x01, 0x00, 0x00] :=
  (gettag_iff (by decide)).mpr (by decide)

/-- The tag number 31 is found, and its octet is then taken for a length. -/
theorem gettag_not_read :
    ¬ ∀ (cls : Fin 4) (constructed : Bool) (number : Nat) (pre rest : Bytes), number < 2 ^ 32 →
      TagRead cls constructed number pre rest := by
  intro read
  have tag := (read 0 false 31 [] [] (by decide)).1
  have id : identifier 0 false 31 = [0x1f, 0x1f] := by
    rw [identifier, if_neg (by decide), groups]
    simp [lead]
  rw [id] at tag
  exact absurd tag (by decide)

end

end Libmagic.Softmagic
