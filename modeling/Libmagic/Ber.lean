import Libmagic.Memory

/-!
# Identifiers and lengths of X.690

What stands in front of the contents of an element: its identifier octets, with a tag number of any
size, and its length octets in the short and in the long form. Nothing here bounds a number.
-/
namespace Libmagic.Ber

/-- A number in groups of seven bits, the highest first; every octet but the last has its high bit
set, and the first group is not zero. -/
def groups (n : Nat) : List UInt8 :=
  (Nat.digits 128 (n / 128)).reverse.map (fun d => UInt8.ofNat (d + 128)) ++ [UInt8.ofNat (n % 128)]

/-- The first octet of an identifier, with a tag number below 32 in it. -/
def lead (cls : Fin 4) (constructed : Bool) (low : Nat) : UInt8 :=
  UInt8.ofNat (cls.val * 64 + (if constructed then 32 else 0) + low)

/-- The identifier octets of an element. -/
def identifier (cls : Fin 4) (constructed : Bool) (number : Nat) : List UInt8 :=
  if number < 31 then [lead cls constructed number] else lead cls constructed 31 :: groups number

/-- How many length octets there are at the front, and the length they announce; `none` says that
they are cut off. The long form with no more octets has the length 0. -/
def lengthAt : List UInt8 → Option (Nat × Nat)
  | [] => none
  | first :: rest =>
      if first < 0x80 then some (1, first.toNat)
      else if first.toNat % 128 ≤ rest.length then
        some (first.toNat % 128 + 1, Order.big.load (rest.take (first.toNat % 128)))
      else none

theorem lead_toNat (cls : Fin 4) (constructed : Bool) {low : Nat} (small : low < 32) :
    (lead cls constructed low).toNat % 32 = low := by
  rw [lead, UInt8.toNat_ofNat']
  cases constructed <;> simp <;> omega

/-- The last octet is the only one without its high bit. -/
theorem groups_split (n : Nat) :
    ∃ front last, groups n = front ++ [last] ∧ (∀ b ∈ front, 0x80 ≤ b) ∧ last < 0x80 := by
  refine ⟨_, _, rfl, ?_, ?_⟩
  · intro b hb
    obtain ⟨d, member, rfl⟩ := List.mem_map.mp hb
    have digit : d < 128 := Nat.digits_lt_base (by decide) (List.mem_reverse.mp member)
    rw [UInt8.le_iff_toNat_le, UInt8.toNat_ofNat', Nat.mod_eq_of_lt (by omega)]
    exact Nat.le_add_left 128 d
  · have low : n % 128 < 128 := Nat.mod_lt n (by decide)
    rw [UInt8.lt_iff_toNat_lt, UInt8.toNat_ofNat', Nat.mod_eq_of_lt (by omega)]
    exact low

end Libmagic.Ber
