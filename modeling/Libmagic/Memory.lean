import Mathlib.Data.Nat.Digits.Defs

/-!
# Words and fields in memory

Unsigned numbers in a number of bytes, in either byte order, and the fields of a
structure at their offsets in a block of memory.
-/
namespace Libmagic

inductive Order where
  | little | big
  deriving DecidableEq, Repr

namespace Order

def flip : Order → Order
  | little => big
  | big => little

/-- The number that the bytes are in this order. -/
def load : Order → List UInt8 → Nat
  | little, bs => Nat.ofDigits 256 (bs.map UInt8.toNat)
  | big, bs => Nat.ofDigits 256 (bs.reverse.map UInt8.toNat)

/-- The low `n` bytes of a number, the lowest first. -/
def lowBytes : Nat → Nat → List UInt8
  | 0, _ => []
  | n + 1, x => UInt8.ofNat x :: lowBytes n (x / 256)

/-- The `n` bytes of a number in this order. -/
def store : Order → Nat → Nat → List UInt8
  | little, n, x => lowBytes n x
  | big, n, x => (lowBytes n x).reverse

/-- The number of `n` bytes with its bytes in the opposite order. -/
def swap (n x : Nat) : Nat := big.load (little.store n x)

@[simp] theorem flip_flip (o : Order) : o.flip.flip = o := by cases o <;> rfl

theorem lowBytes_length (n x : Nat) : (lowBytes n x).length = n := by
  induction n generalizing x with
  | zero => rfl
  | succ n ih => rw [lowBytes, List.length_cons, ih]

@[simp] theorem store_length (o : Order) (n x : Nat) : (o.store n x).length = n := by
  cases o with
  | little => exact lowBytes_length n x
  | big => rw [store, List.length_reverse, lowBytes_length]

theorem ofDigits_lowBytes (n x : Nat) :
    Nat.ofDigits 256 ((lowBytes n x).map UInt8.toNat) = x % 256 ^ n := by
  induction n generalizing x with
  | zero => rw [Nat.pow_zero, Nat.mod_one, lowBytes, List.map_nil, Nat.ofDigits_nil]
  | succ n ih =>
      have low : (UInt8.ofNat x).toNat = x % 256 := UInt8.toNat_ofNat'
      rw [lowBytes, List.map_cons, Nat.ofDigits_cons, ih, low, Nat.pow_succ', Nat.mod_mul]

theorem lowBytes_ofDigits (bs : List UInt8) :
    lowBytes bs.length (Nat.ofDigits 256 (bs.map UInt8.toNat)) = bs := by
  induction bs with
  | nil => rfl
  | cons b bs ih =>
      have low : b.toNat < 256 := b.toNat_lt
      rw [List.length_cons, lowBytes, List.map_cons, Nat.ofDigits_cons]
      congr 1
      · apply UInt8.toNat_inj.mp
        rw [UInt8.toNat_ofNat']
        omega
      · rw [Nat.add_mul_div_left _ _ (by decide), Nat.div_eq_of_lt low, Nat.zero_add, ih]

theorem load_store (o : Order) (n x : Nat) : o.load (o.store n x) = x % 256 ^ n := by
  cases o with
  | little => exact ofDigits_lowBytes n x
  | big => rw [store, load, List.reverse_reverse, ofDigits_lowBytes]

theorem store_load (o : Order) {n : Nat} {bs : List UInt8} (size : bs.length = n) :
    o.store n (o.load bs) = bs := by
  subst size
  cases o with
  | little => exact lowBytes_ofDigits bs
  | big =>
      have same := lowBytes_ofDigits bs.reverse
      rw [List.length_reverse] at same
      rw [store, load, same, List.reverse_reverse]

@[simp] theorem load_reverse (o : Order) (bs : List UInt8) : o.load bs.reverse = o.flip.load bs := by
  cases o with
  | little => rfl
  | big => rw [flip, load, load, List.reverse_reverse]

/-- Swapping a number in memory turns its bytes around. -/
theorem store_swap_load (o : Order) {n : Nat} {bs : List UInt8} (size : bs.length = n) :
    o.store n (swap n (o.load bs)) = bs.reverse := by
  have size' : bs.reverse.length = n := by rw [List.length_reverse, size]
  cases o with
  | little =>
      rw [swap, store_load little size]
      exact store_load little size'
  | big =>
      have turned : little.store n (big.load bs) = bs.reverse := store_load little size'
      rw [swap, turned]
      exact store_load big size'

theorem swap_load (o : Order) {n : Nat} {bs : List UInt8} (size : bs.length = n) :
    swap n (o.load bs) = o.flip.load bs := by
  have size' : bs.reverse.length = n := by rw [List.length_reverse, size]
  cases o with
  | little => rw [swap, store_load little size, flip]
  | big =>
      have turned : little.store n (big.load bs) = bs.reverse := store_load little size'
      rw [swap, turned, load_reverse]

theorem load_lt (o : Order) (bs : List UInt8) : o.load bs < 256 ^ bs.length := by
  have bound (l : List UInt8) : Nat.ofDigits 256 (l.map UInt8.toNat) < 256 ^ l.length := by
    have size : (l.map UInt8.toNat).length = l.length := List.length_map _
    rw [← size]
    apply Nat.ofDigits_lt_base_pow_length (by decide)
    intro d hd
    obtain ⟨b, _, rfl⟩ := List.mem_map.mp hd
    exact b.toNat_lt
  cases o with
  | little => exact bound bs
  | big => simpa only [load, List.length_reverse] using bound bs.reverse

theorem load_inj (o : Order) {bs bs' : List UInt8} (size : bs.length = bs'.length) :
    o.load bs = o.load bs' ↔ bs = bs' := by
  constructor
  · intro same
    rw [← store_load o size, same, store_load o (Eq.refl bs'.length)]
  · rintro rfl
    rfl

end Order

/-- A member of a structure: where it starts and how many bytes it has. -/
structure Field where
  off : Nat
  size : Nat
  deriving DecidableEq, Repr

namespace Field

/-- The bytes of the field. -/
def get (f : Field) (mem : List UInt8) : List UInt8 := (mem.drop f.off).take f.size

/-- The block with other bytes in the field; a write beyond the block is none. -/
def set (f : Field) (mem bs : List UInt8) : List UInt8 :=
  if f.off + bs.length ≤ mem.length then
    mem.take f.off ++ bs ++ mem.drop (f.off + bs.length)
  else mem

def Disjoint (f g : Field) : Prop := f.off + f.size ≤ g.off ∨ g.off + g.size ≤ f.off

instance (f g : Field) : Decidable (f.Disjoint g) := inferInstanceAs (Decidable (_ ∨ _))

theorem Disjoint.symm {f g : Field} (disjoint : f.Disjoint g) : g.Disjoint f := Or.symm disjoint

variable {f g : Field} {mem bs : List UInt8}

theorem get_length (inside : f.off + f.size ≤ mem.length) : (f.get mem).length = f.size := by
  rw [get, List.length_take, List.length_drop]
  omega

@[simp] theorem set_length (f : Field) (mem bs : List UInt8) : (f.set mem bs).length = mem.length := by
  unfold set
  split
  · rw [List.length_append, List.length_append, List.length_take, List.length_drop]
    omega
  · rfl

theorem get_set_self (inside : f.off + f.size ≤ mem.length) (size : bs.length = f.size) :
    f.get (f.set mem bs) = bs := by
  have start : (mem.take f.off).length = f.off := by
    rw [List.length_take]
    omega
  rw [set, if_pos (by omega), get, List.append_assoc, List.drop_left' start, List.take_left' size]

theorem get_set_disjoint (disjoint : f.Disjoint g) (size : bs.length = g.size) :
    f.get (g.set mem bs) = f.get mem := by
  unfold set
  split
  · rename_i inside
    apply List.ext_getElem?
    intro i
    rw [get, get, List.getElem?_take, List.getElem?_take]
    split
    · rename_i lt
      rw [List.getElem?_drop, List.getElem?_drop]
      have start : (mem.take g.off).length = g.off := by
        rw [List.length_take]
        omega
      rcases disjoint with before | behind
      · rw [List.append_assoc, List.getElem?_append_left (by omega), List.getElem?_take,
          if_pos (by omega)]
      · rw [List.getElem?_append_right (by rw [List.length_append]; omega), List.getElem?_drop,
          List.length_append]
        congr 1
        omega
    · rfl
  · rfl

/-- A field that one part of a concatenation fills. -/
theorem get_append {start rest : List UInt8} (off : start.length = f.off) (size : bs.length = f.size) :
    f.get (start ++ (bs ++ rest)) = bs := by
  rw [get, List.drop_left' off, List.take_left' size]

/-- Two fields side by side. -/
theorem get_split (off a b : Nat) (mem : List UInt8) :
    (⟨off, a + b⟩ : Field).get mem = (⟨off, a⟩ : Field).get mem ++ (⟨off + a, b⟩ : Field).get mem := by
  simp only [get, List.take_add, List.drop_drop]

end Field

end Libmagic
