import Mathlib.Data.Int.ModEq
import Libmagic.Memory
import Libmagic.Softmagic.Check

/-!
# `softmagic.c`: tests of numbers

For the integer, date and MS-DOS types: the number that the bytes of the file are, and what
`mconvert` and `magiccheck` make of them when the line has no mask.
-/
namespace Libmagic.Softmagic

/-! ## Conversions -/

theorem sN_modEq (w : Nat) (x : Int) : sN w x ≡ x [ZMOD 2 ^ w] := by
  have same : (x + 2 ^ (w - 1)) % 2 ^ w ≡ x + 2 ^ (w - 1) [ZMOD 2 ^ w] := Int.mod_modEq _ _
  simpa [sN] using same.sub_right (2 ^ (w - 1))

theorem sN_congr {w : Nat} {x y : Int} (same : x ≡ y [ZMOD 2 ^ w]) : sN w x = sN w y := by
  have shifted : x + 2 ^ (w - 1) ≡ y + 2 ^ (w - 1) [ZMOD 2 ^ w] := same.add_right _
  rw [sN, sN, shifted]

/-- A number that fits is kept. -/
theorem sN_of_range {w : Nat} (pos : 0 < w) {x : Int} (low : -2 ^ (w - 1) ≤ x) (high : x < 2 ^ (w - 1)) :
    sN w x = x := by
  have half : (2 : Int) ^ w = 2 ^ (w - 1) + 2 ^ (w - 1) := by
    rw [← two_mul, ← pow_succ', Nat.sub_add_cancel pos]
  rw [sN, Int.emod_eq_of_lt (by omega) (by omega)]
  ring

theorem uN_cast (w : Nat) (x : Int) : (uN w x : Int) = x % 2 ^ w :=
  Int.toNat_of_nonneg (Int.emod_nonneg x (by positivity))

theorem uN_lt (w : Nat) (x : Int) : uN w x < 2 ^ w := by
  have lt := Int.emod_lt_of_pos x (show (0 : Int) < 2 ^ w by positivity)
  rw [← uN_cast] at lt
  exact_mod_cast lt

theorem uN_modEq (w : Nat) (x : Int) : (uN w x : Int) ≡ x [ZMOD 2 ^ w] := by
  rw [uN_cast]
  exact Int.mod_modEq x _

theorem uN_eq_iff (w : Nat) (x y : Int) : uN w x = uN w y ↔ x ≡ y [ZMOD 2 ^ w] := by
  rw [Int.ModEq, ← uN_cast, ← uN_cast, Nat.cast_inj]

theorem uN_natCast {w x : Nat} (lt : x < 2 ^ w) : uN w x = x := by
  have cast := uN_cast w x
  rw [Int.emod_eq_of_lt (Int.natCast_nonneg x) (by exact_mod_cast lt)] at cast
  exact_mod_cast cast

/-- Two numbers that are extended from `w` bits are the same if and only if their low bits are. -/
theorem uN_natCast_mod (w n : Nat) : uN w n = n % 2 ^ w := by
  have cast := uN_cast w n
  exact_mod_cast cast

theorem uN_sN_eq_iff {w v : Nat} (le : w ≤ v) (x y : Int) :
    uN v (sN w x) = uN v (sN w y) ↔ x ≡ y [ZMOD 2 ^ w] := by
  constructor
  · intro same
    have wide := (uN_eq_iff v _ _).mp same
    have low : sN w x ≡ sN w y [ZMOD 2 ^ w] := wide.of_dvd (pow_dvd_pow 2 le)
    exact (sN_modEq w x).symm.trans (low.trans (sN_modEq w y))
  · intro same
    rw [sN_congr same]

/-! ## Numbers in the union -/

theorem leNat_eq_load (bs : Bytes) : leNat bs = Order.little.load bs := by
  induction bs with
  | nil => rfl
  | cons b bs ih => rw [leNat, ih, Order.load, Order.load, List.map_cons, Nat.ofDigits_cons]

theorem beNat_eq_load (bs : Bytes) : beNat bs = Order.big.load bs := by
  rw [beNat, leNat_eq_load, Order.load_reverse]
  rfl

theorem leBytes_eq_store (n x : Nat) : leBytes n x = Order.little.store n x := by
  induction n generalizing x with
  | zero => rfl
  | succ n ih =>
      have low : UInt8.ofNat (x % 256) = UInt8.ofNat x := by
        apply UInt8.toNat_inj.mp
        rw [UInt8.toNat_ofNat', UInt8.toNat_ofNat']
        omega
      rw [leBytes, low, ih]
      rfl

theorem leBytes_length (n x : Nat) : (leBytes n x).length = n := by
  rw [leBytes_eq_store, Order.store_length]

theorem leNat_leBytes (n x : Nat) : leNat (leBytes n x) = x % 256 ^ n := by
  rw [leNat_eq_load, leBytes_eq_store, Order.load_store]

theorem leNat_lt (bs : Bytes) : leNat bs < 256 ^ bs.length := by
  induction bs with
  | nil => exact Nat.one_pos
  | cons b bs ih =>
      have := b.toNat_lt
      rw [leNat, List.length_cons, Nat.pow_succ']
      omega

theorem beNat_lt (bs : Bytes) : beNat bs < 256 ^ bs.length := by
  have := leNat_lt bs.reverse
  rwa [List.length_reverse] at this

theorem meNat_lt (bs : Bytes) : meNat bs < 2 ^ 32 := by
  have byte (i : Nat) : (bs.getD i 0).toNat < 256 := (bs.getD i 0).toNat_lt
  have := byte 0
  have := byte 1
  have := byte 2
  have := byte 3
  simp only [meNat]
  omega

theorem write_take (v : Value) {bs : Bytes} (fits : bs.length ≤ 128) :
    (v.write 0 bs).bytes.take bs.length = bs := by
  simp only [Value.write, List.take_zero, List.nil_append, List.take_take]
  rw [Nat.min_eq_left fits, List.take_left]

theorem ext_getD {l l' : Bytes} (length : l.length = l'.length) (same : ∀ i, l.getD i 0 = l'.getD i 0) :
    l = l' := by
  apply List.ext_getElem length
  intro i h h'
  rw [← List.getD_eq_getElem _ 0 h, ← List.getD_eq_getElem _ 0 h', same]

theorem Value.write_getD (v : Value) (bs : Bytes) {i : Nat} (lt : i < 128) :
    (v.write 0 bs).bytes.getD i 0 = if i < bs.length then bs.getD i 0 else v.bytes.getD i 0 := by
  simp only [Value.write, List.take_zero, List.nil_append, Nat.zero_add]
  rw [List.getD_eq_getElem?_getD, List.getElem?_take_of_lt lt, ← List.getD_eq_getElem?_getD]
  split_ifs with front
  · rw [List.getD_append _ _ _ _ front]
  · rw [List.getD_append_right _ _ _ _ (Nat.not_lt.mp front), List.getD_eq_getElem?_getD, List.getElem?_drop,
      Nat.add_sub_cancel' (Nat.not_lt.mp front), ← List.getD_eq_getElem?_getD]

theorem getD_drop (bs : Bytes) (j i : Nat) : (bs.drop j).getD i 0 = bs.getD (j + i) 0 := by
  rw [List.getD_eq_getElem?_getD, List.getElem?_drop, ← List.getD_eq_getElem?_getD]

theorem getD_take_drop (bs : Bytes) (j n i : Nat) :
    ((bs.drop j).take n).getD i 0 = if i < n then bs.getD (j + i) 0 else 0 := by
  rw [List.getD_eq_getElem?_getD, List.getElem?_take]
  split_ifs
  · rw [List.getElem?_drop, List.getD_eq_getElem?_getD]
  · rfl

theorem load_store (v : Value) (host : Host) {n x : Nat} (fits : n ≤ 128) (lt : x < 256 ^ n) :
    (v.store host n x).load host n = x := by
  have size (bs : Bytes) (length : bs.length = n) : (v.write 0 bs).bytes.take n = bs := by
    subst length
    exact write_take v fits
  rw [Value.store, Value.load]
  split_ifs
  · rw [size _ (by rw [List.length_reverse, leBytes_length]), beNat, List.reverse_reverse, leNat_leBytes,
      Nat.mod_eq_of_lt lt]
  · rw [size _ (leBytes_length n x), leNat_leBytes, Nat.mod_eq_of_lt lt]

theorem take_length (v : Value) {n : Nat} (fits : n ≤ 128) : (v.bytes.take n).length = n := by
  rw [List.length_take, v.size, Nat.min_eq_left fits]

/-! ## The types -/

inductive ByteOrder where
  | native | big | little | middle
  deriving DecidableEq, Repr

/-- The number that the bytes are. -/
def ByteOrder.read (order : ByteOrder) (host : Host) (bs : Bytes) : Nat :=
  match order with
  | .native => if host.bigendian then beNat bs else leNat bs
  | .big => beNat bs
  | .little => leNat bs
  | .middle => meNat bs

/-- The order in a call of `match` whose `flip` is set. -/
def ByteOrder.flipped (flip : Bool) : ByteOrder → ByteOrder
  | .big => if flip then .little else .big
  | .little => if flip then .big else .little
  | order => order

/-- The bytes and their order in the integer, date and MS-DOS types. -/
def MType.number : MType → Option (Nat × ByteOrder)
  | .byte => some (1, .native)
  | .short | .msdosdate | .msdostime => some (2, .native)
  | .beshort | .bemsdosdate | .bemsdostime => some (2, .big)
  | .leshort | .lemsdosdate | .lemsdostime => some (2, .little)
  | .long | .date | .ldate => some (4, .native)
  | .belong | .bedate | .beldate => some (4, .big)
  | .lelong | .ledate | .leldate => some (4, .little)
  | .melong | .medate | .meldate => some (4, .middle)
  | .quad | .qdate | .qldate | .qwdate => some (8, .native)
  | .bequad | .beqdate | .beqldate | .beqwdate => some (8, .big)
  | .lequad | .leqdate | .leqldate | .leqwdate => some (8, .little)
  | _ => none

theorem cvtFlip_number {type : MType} {n : Nat} {order : ByteOrder} (flip : Bool)
    (number : type.number = some (n, order)) :
    (cvtFlip type flip).number = some (n, order.flipped flip) := by
  cases flip <;> cases type <;> cases number <;> rfl

theorem number_size {type : MType} {n : Nat} {order : ByteOrder}
    (number : type.number = some (n, order)) :
    (n = 1 ∨ n = 2 ∨ n = 4 ∨ n = 8) ∧ (order = .middle → n = 4) := by
  cases type <;> cases number <;> decide

theorem read_lt {order : ByteOrder} (host : Host) {bs : Bytes} (middle : order = .middle → bs.length = 4) :
    order.read host bs < 256 ^ bs.length := by
  cases order with
  | native =>
      rw [ByteOrder.read]
      split_ifs
      · exact beNat_lt bs
      · exact leNat_lt bs
  | big => exact beNat_lt bs
  | little => exact leNat_lt bs
  | middle =>
      rw [middle rfl]
      exact meNat_lt bs

/-- Every number of the width is read off some bytes. -/
theorem exists_read (host : Host) {order : ByteOrder} {n x : Nat} (middle : order = .middle → n = 4)
    (lt : x < 256 ^ n) : ∃ bs : Bytes, bs.length = n ∧ order.read host bs = x := by
  have little : leNat (leBytes n x) = x := by rw [leNat_leBytes, Nat.mod_eq_of_lt lt]
  have big : beNat (leBytes n x).reverse = x := by rw [beNat, List.reverse_reverse, little]
  have length := leBytes_length n x
  have length' : (leBytes n x).reverse.length = n := by rw [List.length_reverse, length]
  cases order with
  | native =>
      by_cases bigendian : host.bigendian = true
      · exact ⟨_, length', by rw [ByteOrder.read, if_pos bigendian, big]⟩
      · exact ⟨_, length, by rw [ByteOrder.read, if_neg bigendian, little]⟩
  | big => exact ⟨_, length', big⟩
  | little => exact ⟨_, length, little⟩
  | middle =>
      obtain rfl := middle rfl
      let byte (k : Nat) : UInt8 := UInt8.ofNat (x / 256 ^ k % 256)
      refine ⟨[byte 2, byte 3, byte 0, byte 1], rfl, ?_⟩
      have value (k : Nat) : (byte k).toNat = x / 256 ^ k % 256 := by
        simp only [byte, UInt8.toNat_ofNat']
        omega
      simp only [ByteOrder.read, meNat, List.getD_cons_zero, List.getD_cons_succ, value]
      omega

/-! ## `mconvert` and `magiccheck` -/

/-- A line without a mask. -/
structure Magic.Unmasked (m : Magic) (host : Host) : Prop where
  op : m.maskOp = 0
  mask : m.numMask host = 0

/-- The number in the file that a line of a type of `n` bytes tests. -/
def fileNumber (host : Host) (order : ByteOrder) (n : Nat) (flip : Bool) (v : Value) : Nat :=
  (order.flipped flip).read host (v.bytes.take n)

section
variable {host : Host} {m : Magic} {n : Nat} {order : ByteOrder}

theorem doCvt_unmasked (w : Nat) (unsigned : Bool) (x : Nat) : doCvt w unsigned 0 0 x = some x := by
  simp [doCvt, has, FILE_OPINVERSE]

theorem cvtInt_unmasked (unmasked : m.Unmasked host) (n : Nat) (v : Value) :
    cvtInt host m n v = some (v.store host n (v.load host n)) := by
  rw [cvtInt, unmasked.op, unmasked.mask, doCvt_unmasked, Option.map_some]

theorem fileNumber_lt (host : Host) (flip : Bool) (v : Value) (number : m.type.number = some (n, order)) :
    fileNumber host order n flip v < 256 ^ n := by
  obtain ⟨width, middle⟩ := number_size (cvtFlip_number flip number)
  have length : (v.bytes.take n).length = n := take_length v (by omega)
  have lt := @read_lt (order.flipped flip) host (v.bytes.take n) fun is => length.trans (middle is)
  rwa [length] at lt

theorem mconvert_read (unmasked : m.Unmasked host) {flip : Bool}
    (number : (cvtFlip m.type flip).number = some (n, order)) (v : Value) (io : Io) :
    ∃ v', mconvert host m flip v io = (true, v', io) ∧
      v'.load host n = order.read host (v.bytes.take n) := by
  obtain ⟨width, middle⟩ := number_size number
  have fits : n ≤ 128 := by omega
  have lt : order.read host (v.bytes.take n) < 256 ^ n := by
    have length := take_length v fits
    have lt := @read_lt order host (v.bytes.take n) fun is => length.trans (middle is)
    rwa [length] at lt
  -- a field in the machine's order is stored back as it is
  have native (same : order = .native) :
      (v.store host n (v.load host n)).load host n = order.read host (v.bytes.take n) := by
    subst same
    exact load_store v host fits lt
  have swapped : ((v.store host n (order.read host (v.bytes.take n))).store host n
      ((v.store host n (order.read host (v.bytes.take n))).load host n)).load host n =
      order.read host (v.bytes.take n) := by
    rw [load_store v host fits lt, load_store _ host fits lt]
  unfold mconvert
  simp only [cvtInt_unmasked unmasked]
  cases type : cvtFlip m.type flip
  all_goals
    rw [type] at number
    cases number
  all_goals
    first
    | exact ⟨_, rfl, native rfl⟩
    | exact ⟨_, rfl, swapped⟩

/-- `mconvert` leaves the number in the file in the union, in the machine's order. -/
theorem mconvert_number (unmasked : m.Unmasked host) (number : m.type.number = some (n, order))
    (flip : Bool) (v : Value) (io : Io) :
    ∃ v', mconvert host m flip v io = (true, v', io) ∧ v'.load host n = fileNumber host order n flip v :=
  mconvert_read unmasked (cvtFlip_number flip number) v io

theorem magiccheck_number (flags : Nat) (number : m.type.number = some (n, order)) (v : Value)
    (search : Search) (io : Io) {matched : Bool}
    (compared : compareInt (has m.flag UNSIGNED) m.reln (fileSignextend m (v.load host n))
      (m.value.load host 8) = some matched) :
    (magiccheck host flags m v search io).matched = some matched := by
  unfold magiccheck
  cases type : m.type
  all_goals
    rw [type] at number
    cases number
  all_goals
    dsimp only
    rw [compared]

end

end Libmagic.Softmagic
