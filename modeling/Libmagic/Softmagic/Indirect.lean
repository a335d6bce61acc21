import Libmagic.Softmagic.Enough
import Libmagic.Softmagic.Numeric

/-!
# `softmagic.c`: the operands of an indirect offset

The first operand is read from the union, which `mcopy` has filled from the offset plus the base of the
enclosing `use`; the test that it is inside the buffer leaves the base out. The second operand is read
from the buffer itself, without the base and without the conversion of ID3 lengths.
-/
namespace Libmagic.Softmagic

/-! ## Integers in a file -/

/-- The size of an operand, its byte order, and whether it has 7-bit groups. -/
def MType.operand : MType → Option (Nat × ByteOrder × Bool)
  | .byte => some (1, .native, false)
  | .short => some (2, .native, false)
  | .beshort => some (2, .big, false)
  | .leshort => some (2, .little, false)
  | .long => some (4, .native, false)
  | .belong => some (4, .big, false)
  | .lelong => some (4, .little, false)
  | .melong => some (4, .middle, false)
  | .beid3 => some (4, .big, true)
  | .leid3 => some (4, .little, true)
  | .quad => some (8, .native, false)
  | .bequad => some (8, .big, false)
  | .lequad => some (8, .little, false)
  | _ => none

/-- The number of the 7-bit groups. -/
def ByteOrder.readId3 (order : ByteOrder) (bs : Bytes) : Nat :=
  Nat.ofDigits 128 ((if order = .big then bs.reverse else bs).map (·.toNat % 128))

/-- The integer that the bytes encode. -/
def encoded (host : Host) (order : ByteOrder) (id3 signed : Bool) (bs : Bytes) : Int :=
  let number := if id3 then order.readId3 bs else order.read host bs
  if signed then sN (8 * bs.length) number else number

def Inside (bb : Window) (w : Nat) (position : Int) : Prop := 0 ≤ position ∧ position + w ≤ flen bb

instance (bb : Window) (w : Nat) (position : Int) : Decidable (Inside bb w position) :=
  inferInstanceAs (Decidable (_ ∧ _))

/-- The bytes of the buffer at a position. -/
def bytesAt (bb : Window) (w : Nat) (position : Int) : Bytes := ((bb.getD []).drop position.toNat).take w

/-- The operands that the file has for a line; the position of the second one counts from `origin`. -/
def encodedOperands (host : Host) (m : Magic) (flip : Bool) (bb : Window) (w : Nat) (order : ByteOrder)
    (id3 : Bool) (position : Nat) (origin : Int) : Option (Int × Int) :=
  let read (position : Int) : Option Int :=
    if Inside bb w position then
      some (encoded host (order.flipped flip) id3 (has m.inOp FILE_OPSIGNED) (bytesAt bb w position))
    else none
  (read position).bind fun lhs =>
    (if has m.inOp FILE_OPINDIRECT then read (origin + m.inOffset) else some m.inOffset).map fun off => (lhs, off)

/-! ## The operands of `do_ops` -/

/-- The left operand of `do_ops`; `none` is `return 0`. -/
def indirectLeft (host : Host) (m : Magic) (flip : Bool) (v : Value) (nbytes offset : Nat) : Option Int :=
  let signed := has m.inOp FILE_OPSIGNED
  match cvtFlip m.inType flip with
  | .octal =>
      if offsetOob nbytes offset m.vallen then none
      else some (sext signed 64 (strtoull 8 v.str).1)
  | type =>
      match indirectOperand host type v.bytes with
      | none => none
      | some (n, p) =>
          if offsetOob nbytes offset n then none
          else
            let p := if type = .beid3 ∨ type = .leid3 then cvtId3 p else p
            some (sext signed (8 * n) p)

/-- What `mget` gives to `do_ops`; `none` is `return 0`. -/
def indirectOperands (host : Host) (m : Magic) (flip : Bool) (v : Value) (bb : Window) (offset : Nat) :
    Option (Int × Int) :=
  let off := if has m.inOp FILE_OPINDIRECT then indirectOff host m flip v (bb.getD []) (flen bb) offset
    else some m.inOffset
  off.bind fun off => (indirectLeft host m flip v (flen bb) offset).map fun lhs => (lhs, off)

/-- `mget` behind `do_ops`, for a line under `INDIROFFADD`. -/
def indirectAdd (m : Magic) (contLevel : Nat) (s : Scan) (offset : Nat) : Option Nat :=
  if !has m.flag INDIROFFADD then some offset
  else if contLevel = 0 then none
  else
    let offset := uN 32 (offset + (s.c.li (contLevel - 1)).off)
    if offset = 0 then none else some offset

theorem indirectLhs_eq (host : Host) (m : Magic) (flip : Bool) (v : Value) (nbytes offset : Nat) (off : Int) :
    indirectLhs host m flip v nbytes offset off =
      (indirectLeft host m flip v nbytes offset).bind fun lhs => doOps m.inOp lhs off := by
  rcases eq_or_ne (cvtFlip m.inType flip) .octal with octal | other
  · simp only [indirectLhs, indirectLeft, octal]
    split <;> rfl
  · simp only [indirectLhs, indirectLeft]
    cases indirectOperand host (cvtFlip m.inType flip) v.bytes with
    | none => rfl
    | some p =>
        dsimp only
        split_ifs <;> rfl

theorem indirectTarget_eq (host : Host) (m : Magic) (bb : Window) (call : Call) (level : Nat) (s : Scan) :
    indirectTarget host m bb call level s =
      ((indirectOperands host m call.flip s.value bb s.offset).bind fun r => doOps m.inOp r.1 r.2).bind
        (indirectAdd m level s) := by
  have lhs := indirectLhs_eq host m call.flip s.value (flen bb) s.offset
  simp only [indirectTarget, indirectOperands]
  generalize (if has m.inOp FILE_OPINDIRECT then
    indirectOff host m call.flip s.value (bb.getD []) (flen bb) s.offset else some m.inOffset) = off
  cases off with
  | none => rfl
  | some off =>
      rw [Option.bind_some, Option.bind_some, lhs]
      cases indirectLeft host m call.flip s.value (flen bb) s.offset with
      | none => rfl
      | some lhs =>
          rw [Option.bind_some, Option.map_some, Option.bind_some]
          cases doOps m.inOp lhs off <;> rfl

/-! ## When they are the ones of the file -/

/-- Byte `i` of the union. -/
def unionByte (host : Host) (m : Magic) (bb : Window) (position i : Nat) : UInt8 :=
  let position := position % 2 ^ 32
  if m.type = .offset then
    (if host.bigendian then (leBytes 8 position).reverse else leBytes 8 position).getD i 0
  else if position + i < flen bb % 2 ^ 32 then (bb.getD []).getD (position + i) 0
  else 0

/-- What a byte of an operand counts. -/
def digit (id3 : Bool) (b : UInt8) : Nat := if id3 then b.toNat % 128 else b.toNat

def OperandsInside (m : Magic) (bb : Window) (w : Nat) (position origin : Int) : Prop :=
  Inside bb w position ∧ (has m.inOp FILE_OPINDIRECT → Inside bb w (origin + m.inOffset))

instance (m : Magic) (bb : Window) (w : Nat) (position origin : Int) :
    Decidable (OperandsInside m bb w position origin) :=
  inferInstanceAs (Decidable (_ ∧ (_ → _)))

/-- An unsigned number of 8 bytes is an `intmax_t`. -/
def UnsignedFits (host : Host) (m : Magic) (flip : Bool) (order : ByteOrder) (bs : Bytes) : Prop :=
  bs.length = 8 → has m.inOp FILE_OPSIGNED = false → (order.flipped flip).read host bs < 2 ^ 63

/-- The first operand: byte for byte what is in the union is what is in the file; for an ID3 length only 7
bits count, but `cvt_flip` leaves its order. -/
structure FirstAlike (host : Host) (m : Magic) (flip : Bool) (bb : Window) (w : Nat) (order : ByteOrder)
    (id3 : Bool) (position : Nat) : Prop where
  bytes : ∀ i < w, digit id3 (unionByte host m bb position i) =
    digit id3 ((bb.getD []).getD (position + if id3 && flip then w - 1 - i else i) 0)
  fits : UnsignedFits host m flip order (bytesAt bb w position)

/-- The second operand: what is at the offset is what is at `origin`, and for an ID3 length the number is the
same without the conversion. -/
def SecondAlike (host : Host) (m : Magic) (flip : Bool) (bb : Window) (w : Nat) (order : ByteOrder) (id3 : Bool)
    (offset : Nat) (origin : Int) : Prop :=
  let here := bytesAt bb w (offset + m.inOffset)
  let there := bytesAt bb w (origin + m.inOffset)
  if id3 then order.read host here = (order.flipped flip).readId3 there
  else here = there ∧ UnsignedFits host m flip order there

structure OperandsAlike (host : Host) (m : Magic) (flip : Bool) (bb : Window) (w : Nat) (order : ByteOrder)
    (id3 : Bool) (offset base : Nat) (origin : Int) : Prop where
  /-- The tests leave the base out, and there is no native quad. -/
  tests : OperandsInside m bb w ↑(offset + base) origin ↔
    m.inType ≠ .quad ∧ OperandsInside m bb w offset offset
  first : OperandsInside m bb w ↑(offset + base) origin → FirstAlike host m flip bb w order id3 (offset + base)
  second : OperandsInside m bb w ↑(offset + base) origin → has m.inOp FILE_OPINDIRECT →
    SecondAlike host m flip bb w order id3 offset origin

/-! ## Numbers -/

theorem meNat_take (bs : Bytes) : meNat (bs.take 4) = meNat bs := by
  have byte {i : Nat} (lt : i < 4) : (bs.take 4).getD i 0 = bs.getD i 0 := by
    rw [List.getD_eq_getElem?_getD, List.getElem?_take_of_lt lt, ← List.getD_eq_getElem?_getD]
  simp only [meNat, byte (show 0 < 4 by decide), byte (show 1 < 4 by decide), byte (show 2 < 4 by decide),
    byte (show 3 < 4 by decide)]

theorem meNat_inj {bs bs' : Bytes} (length : bs.length = 4) (length' : bs'.length = 4)
    (same : meNat bs = meNat bs') : bs = bs' := by
  have byte (l : Bytes) (i : Nat) : (l.getD i 0).toNat < 256 := (l.getD i 0).toNat_lt
  have := byte bs 0
  have := byte bs 1
  have := byte bs 2
  have := byte bs 3
  have := byte bs' 0
  have := byte bs' 1
  have := byte bs' 2
  have := byte bs' 3
  simp only [meNat] at same
  apply ext_getD (length.trans length'.symm)
  intro i
  apply UInt8.toNat_inj.mp
  obtain rfl | rfl | rfl | rfl | behind : i = 0 ∨ i = 1 ∨ i = 2 ∨ i = 3 ∨ 4 ≤ i := by omega
  · omega
  · omega
  · omega
  · omega
  · rw [List.getD_eq_default _ _ (by omega), List.getD_eq_default _ _ (by omega)]

theorem read_inj (host : Host) {order : ByteOrder} {bs bs' : Bytes} (length : bs.length = bs'.length)
    (middle : order = .middle → bs.length = 4) : order.read host bs = order.read host bs' ↔ bs = bs' := by
  refine ⟨fun same => ?_, congrArg _⟩
  have little (same : leNat bs = leNat bs') : bs = bs' := by
    rw [leNat_eq_load, leNat_eq_load] at same
    exact (Order.load_inj .little length).mp same
  have big (same : beNat bs = beNat bs') : bs = bs' := by
    rw [beNat_eq_load, beNat_eq_load] at same
    exact (Order.load_inj .big length).mp same
  cases order with
  | native =>
      rw [ByteOrder.read, ByteOrder.read] at same
      split_ifs at same
      · exact big same
      · exact little same
  | big => exact big same
  | little => exact little same
  | middle => exact meNat_inj (middle rfl) (length ▸ middle rfl) same

/-- The numbers of a width are kept apart, and an unsigned one may leave an `intmax_t`. -/
theorem sext_eq_iff {signed : Bool} {w a b : Nat} (width : w = 8 ∨ w = 16 ∨ w = 32 ∨ w = 64)
    (ha : a < 2 ^ w) (hb : b < 2 ^ w) :
    sext signed w a = (if signed then sN w b else b) ↔ a = b ∧ (w = 64 → signed = false → b < 2 ^ 63) := by
  cases signed with
  | true =>
      simp only [sext, if_true, sN]
      rcases width with rfl | rfl | rfl | rfl <;> simp <;> omega
  | false =>
      simp only [sext, Bool.false_eq_true, if_false, sN, uN]
      rcases width with rfl | rfl | rfl | rfl <;> simp <;> omega

theorem exists_four {bs : Bytes} (length : bs.length = 4) : ∃ a b c d, bs = [a, b, c, d] := by
  match bs, length with
  | [a, b, c, d], _ => exact ⟨a, b, c, d, rfl⟩

section
variable {order : ByteOrder} {bs bs' : Bytes}

theorem cvtId3_read (host : Host) (ends : order = .big ∨ order = .little) (length : bs.length = 4) :
    cvtId3 (order.read host bs) = order.readId3 bs := by
  obtain ⟨a, b, c, d, rfl⟩ := exists_four length
  have := a.toNat_lt
  have := b.toNat_lt
  have := c.toNat_lt
  have := d.toNat_lt
  rcases ends with rfl | rfl
  all_goals
    simp [ByteOrder.read, ByteOrder.readId3, beNat, leNat, cvtId3, Nat.ofDigits_cons]
    omega

theorem readId3_lt (order : ByteOrder) (length : bs.length = 4) : order.readId3 bs < 2 ^ 28 := by
  obtain ⟨a, b, c, d, rfl⟩ := exists_four length
  rw [ByteOrder.readId3]
  split_ifs
  all_goals
    simp [Nat.ofDigits_cons]
    omega

theorem readId3_eq_iff {flip : Bool} (ends : order = .big ∨ order = .little) (length : bs.length = 4)
    (length' : bs'.length = 4) : order.readId3 bs = (order.flipped flip).readId3 bs' ↔
      ∀ i < 4, digit true (bs.getD i 0) = digit true (bs'.getD (if flip then 4 - 1 - i else i) 0) := by
  obtain ⟨a, b, c, d, rfl⟩ := exists_four length
  obtain ⟨a', b', c', d', rfl⟩ := exists_four length'
  have four (P : Nat → Prop) : (∀ i < 4, P i) ↔ P 0 ∧ P 1 ∧ P 2 ∧ P 3 := by
    constructor
    · exact fun h => ⟨h 0 (by decide), h 1 (by decide), h 2 (by decide), h 3 (by decide)⟩
    · rintro ⟨h0, h1, h2, h3⟩ i lt
      obtain rfl | rfl | rfl | rfl : i = 0 ∨ i = 1 ∨ i = 2 ∨ i = 3 := by omega
      · exact h0
      · exact h1
      · exact h2
      · exact h3
  rw [four]
  rcases ends with rfl | rfl <;> cases flip
  all_goals
    simp [ByteOrder.readId3, ByteOrder.flipped, digit, Nat.ofDigits_cons]
    omega

end

/-! ## The operands, read and encoded -/

theorem offsetOob_inside (bb : Window) (w : Nat) (position : Int) :
    offsetOob (flen bb) position w = !decide (Inside bb w position) := by
  rw [offsetOob]
  by_cases inside : Inside bb w position
  · obtain ⟨low, high⟩ := inside
    rw [decide_eq_true (show Inside bb w position from ⟨low, high⟩), if_neg (by omega), if_neg (by omega)]
    exact decide_eq_false (by omega)
  · rw [decide_eq_false inside]
    split_ifs with below above
    · rfl
    · rfl
    · exact decide_eq_true (not_le.mp fun le => inside ⟨by omega, by omega⟩)

theorem bytesAt_length {bb : Window} {w : Nat} {position : Int} (inside : Inside bb w position) :
    (bytesAt bb w position).length = w := by
  obtain ⟨low, high⟩ := inside
  rw [flen] at high
  rw [bytesAt, List.length_take, List.length_drop]
  omega

section
variable {host : Host} {m : Magic} {flip : Bool} {bb : Window} {w : Nat} {order : ByteOrder} {id3 : Bool}

@[simp] theorem flipped_false (order : ByteOrder) : order.flipped false = order := by
  cases order <;> rfl

theorem operand_size {type : MType} (operand : type.operand = some (w, order, id3)) :
    (w = 1 ∨ w = 2 ∨ w = 4 ∨ w = 8) ∧ (order = .middle → w = 4) ∧
      (id3 = true → w = 4 ∧ (order = .big ∨ order = .little)) := by
  cases type <;> cases operand <;> decide

/-- What the switches know of a type; `cvt_flip` leaves the ID3 lengths alone. -/
theorem indirectOperand_eq {type : MType} (operand : type.operand = some (w, order, id3)) (flip : Bool) (bs : Bytes) :
    indirectOperand host (cvtFlip type flip) bs =
      if type = .quad then none
      else some (w, (order.flipped (flip && !id3)).read host (bs.take w)) := by
  cases type <;> cases operand
  case melong => cases flip <;> exact congrArg (fun p => some (4, p)) (meNat_take bs).symm
  all_goals cases flip <;> rfl

theorem cvtFlip_id3 {type : MType} (operand : type.operand = some (w, order, id3)) (flip : Bool) :
    (cvtFlip type flip = .beid3 ∨ cvtFlip type flip = .leid3) ↔ id3 = true := by
  cases type <;> cases operand <;> cases flip <;> decide

theorem cvtFlip_octal {type : MType} (operand : type.operand = some (w, order, id3)) (flip : Bool) :
    cvtFlip type flip ≠ .octal := by
  cases type <;> cases operand <;> cases flip <;> decide

theorem indirectLeft_eq (operand : m.inType.operand = some (w, order, id3)) (v : Value) (offset : Nat) :
    indirectLeft host m flip v (flen bb) offset =
      if m.inType ≠ .quad ∧ Inside bb w offset then
        some (sext (has m.inOp FILE_OPSIGNED) (8 * w)
          (if id3 then cvtId3 (order.read host (v.bytes.take w)) else (order.flipped flip).read host (v.bytes.take w)))
      else none := by
  have other := cvtFlip_octal operand flip
  simp only [indirectLeft, indirectOperand_eq operand, cvtFlip_id3 operand]
  by_cases quad : m.inType = .quad
  · rw [if_neg (not_and_of_not_left _ (not_not.mpr quad))]
    simp only [quad, if_true]
  · simp only [quad, if_false, offsetOob_inside, ne_eq, not_false_eq_true, true_and]
    by_cases inside : Inside bb w offset
    · rw [decide_eq_true inside]
      cases id3 <;> simp [inside]
    · rw [decide_eq_false inside, if_neg inside]
      rfl

theorem indirectOff_eq (operand : m.inType.operand = some (w, order, id3)) (v : Value) (offset : Nat) :
    indirectOff host m flip v (bb.getD []) (flen bb) offset =
      if m.inType ≠ .quad ∧ Inside bb w (offset + m.inOffset) then
        some (sext (has m.inOp FILE_OPSIGNED) (8 * w)
          ((order.flipped (flip && !id3)).read host (bytesAt bb w (offset + m.inOffset))))
      else none := by
  have other := cvtFlip_octal operand flip
  simp only [indirectOff, indirectOperand_eq operand, offsetOob_inside]
  by_cases quad : m.inType = .quad
  · rw [if_neg (not_and_of_not_left (Inside bb w (offset + m.inOffset)) (not_not.mpr quad))]
    simp only [quad, if_true, ite_self]
  · by_cases inside : Inside bb w (offset + m.inOffset)
    · have start : Inside bb 0 (offset + m.inOffset) := ⟨inside.1, by have := inside.2; omega⟩
      simp [quad, inside, start, bytesAt]
    · by_cases start : Inside bb 0 (offset + m.inOffset)
      · simp [quad, inside, start]
      · simp [inside, start]

theorem indirectOperands_eq (operand : m.inType.operand = some (w, order, id3)) (v : Value) (offset : Nat) :
    indirectOperands host m flip v bb offset =
      if m.inType ≠ .quad ∧ OperandsInside m bb w offset offset then
        some (sext (has m.inOp FILE_OPSIGNED) (8 * w)
            (if id3 then cvtId3 (order.read host (v.bytes.take w)) else (order.flipped flip).read host (v.bytes.take w)),
          if has m.inOp FILE_OPINDIRECT then sext (has m.inOp FILE_OPSIGNED) (8 * w)
            ((order.flipped (flip && !id3)).read host (bytesAt bb w (offset + m.inOffset)))
          else m.inOffset)
      else none := by
  simp only [indirectOperands, indirectLeft_eq operand, indirectOff_eq operand, OperandsInside]
  by_cases known : m.inType ≠ .quad
  · by_cases first : Inside bb w offset
    · by_cases two : has m.inOp FILE_OPINDIRECT = true
      · by_cases second : Inside bb w (offset + m.inOffset) <;> simp [known, first, second, two]
      · simp [known, first, two]
    · simp [first]
  · simp [known]

theorem encodedOperands_eq (position : Nat) (origin : Int) :
    encodedOperands host m flip bb w order id3 position origin =
      if OperandsInside m bb w position origin then
        some (encoded host (order.flipped flip) id3 (has m.inOp FILE_OPSIGNED) (bytesAt bb w position),
          if has m.inOp FILE_OPINDIRECT then
            encoded host (order.flipped flip) id3 (has m.inOp FILE_OPSIGNED) (bytesAt bb w (origin + m.inOffset))
          else m.inOffset)
      else none := by
  simp only [encodedOperands, OperandsInside]
  by_cases first : Inside bb w position
  · by_cases two : has m.inOp FILE_OPINDIRECT = true
    · by_cases second : Inside bb w (origin + m.inOffset) <;> simp [first, second, two]
    · simp [first, two]
  · simp [first]

theorem some_ite_eq_iff {α : Type} {p q : Prop} [Decidable p] [Decidable q] {x y : α} :
    ((if p then some x else none) = if q then some y else none) ↔ (q ↔ p) ∧ (q → x = y) := by
  by_cases hp : p <;> by_cases hq : q <;> simp [hp, hq]

/-- Bytes as a number of the switches and as one of the file. -/
theorem plain_eq_iff (operand : m.inType.operand = some (w, order, false)) {bs bs' : Bytes} (length : bs.length = w)
    (length' : bs'.length = w) :
    sext (has m.inOp FILE_OPSIGNED) (8 * w) ((order.flipped flip).read host bs) =
        encoded host (order.flipped flip) false (has m.inOp FILE_OPSIGNED) bs' ↔
      bs = bs' ∧ UnsignedFits host m flip order bs' := by
  obtain ⟨size, middle, _⟩ := operand_size operand
  have turned : order.flipped flip = .middle → w = 4 := by
    intro is
    apply middle
    cases order <;> cases flip <;> cases is <;> rfl
  have lt {l : Bytes} (length : l.length = w) : (order.flipped flip).read host l < 2 ^ (8 * w) := by
    have := @read_lt (order.flipped flip) host l fun is => length.trans (turned is)
    rwa [length, show (256 : Nat) = 2 ^ 8 from rfl, ← pow_mul] at this
  have width : 8 * w = 8 ∨ 8 * w = 16 ∨ 8 * w = 32 ∨ 8 * w = 64 := by omega
  have same := @sext_eq_iff (has m.inOp FILE_OPSIGNED) (8 * w) _ _ width (lt length) (lt length')
  rw [encoded, length', if_neg Bool.false_ne_true, same,
    read_inj host (length.trans length'.symm) fun is => length.trans (turned is), UnsignedFits, length']
  refine and_congr_right' ?_
  constructor
  · exact fun h eight => h (by omega)
  · exact fun h wide => h (by omega)

/-- An ID3 length is the same as a signed number. -/
theorem encoded_id3 {bs : Bytes} (length : bs.length = 4) (signed : Bool) :
    encoded host order true signed bs = order.readId3 bs := by
  have lt := readId3_lt order length
  have width : 8 * bs.length = 32 := by omega
  simp only [encoded, width, if_true]
  cases signed with
  | false => simp only [Bool.false_eq_true, if_false]
  | true =>
      simp only [if_true, sN]
      omega

theorem sext_id3 {x : Nat} (signed : Bool) (lt : x < 2 ^ 28) (y : Nat) (lt' : y < 2 ^ 32) :
    sext signed 32 y = (x : Int) ↔ y = x := by
  cases signed with
  | false =>
      simp only [sext, Bool.false_eq_true, if_false, sN, uN]
      omega
  | true =>
      simp only [sext, if_true, sN]
      omega

theorem first_eq_iff (operand : m.inType.operand = some (w, order, id3)) {position : Nat}
    (inside : Inside bb w position) {v : Value}
    (union : ∀ i < w, v.bytes.getD i 0 = unionByte host m bb position i) :
    sext (has m.inOp FILE_OPSIGNED) (8 * w)
        (if id3 then cvtId3 (order.read host (v.bytes.take w)) else (order.flipped flip).read host (v.bytes.take w)) =
      encoded host (order.flipped flip) id3 (has m.inOp FILE_OPSIGNED) (bytesAt bb w position) ↔
      FirstAlike host m flip bb w order id3 position := by
  have length : (v.bytes.take w).length = w := take_length v (by have := (operand_size operand).1; omega)
  have length' := bytesAt_length inside
  have front {i : Nat} (lt : i < w) : (v.bytes.take w).getD i 0 = unionByte host m bb position i := by
    rw [List.getD_eq_getElem?_getD, List.getElem?_take_of_lt lt, ← List.getD_eq_getElem?_getD, union i lt]
  have field {i : Nat} (lt : i < w) : (bytesAt bb w position).getD i 0 = (bb.getD []).getD (position + i) 0 := by
    rw [bytesAt, getD_take_drop, if_pos lt, Int.toNat_natCast]
  cases id3 with
  | false =>
      have digits : v.bytes.take w = bytesAt bb w position ↔ ∀ i < w, digit false (unionByte host m bb position i) =
          digit false ((bb.getD []).getD (position + if false && flip then w - 1 - i else i) 0) := by
        constructor
        · intro same i lt
          have here : unionByte host m bb position i = (bb.getD []).getD (position + i) 0 := by
            rw [← front lt, ← field lt, same]
          exact congrArg (digit false) here
        · intro same
          apply ext_getD (length.trans length'.symm)
          intro i
          by_cases lt : i < w
          · rw [front lt, field lt]
            exact UInt8.toNat_inj.mp (same i lt)
          · rw [List.getD_eq_default _ _ (by omega), List.getD_eq_default _ _ (by omega)]
      rw [if_neg Bool.false_ne_true, plain_eq_iff operand length length', digits]
      exact ⟨fun h => ⟨h.1, h.2⟩, fun h => ⟨h.bytes, h.fits⟩⟩
  | true =>
      obtain ⟨four, ends⟩ := (operand_size operand).2.2 rfl
      subst four
      have lt : cvtId3 (order.read host (v.bytes.take 4)) < 2 ^ 32 := by
        have := readId3_lt order length
        rw [cvtId3_read host ends length]
        omega
      have digits : (∀ i < 4, digit true ((v.bytes.take 4).getD i 0) =
          digit true ((bytesAt bb 4 position).getD (if flip then 4 - 1 - i else i) 0)) ↔
          ∀ i < 4, digit true (unionByte host m bb position i) =
            digit true ((bb.getD []).getD (position + if true && flip then 4 - 1 - i else i) 0) := by
        apply forall₂_congr
        intro i lt
        rw [front lt, field (by split_ifs <;> omega), Bool.true_and]
      have small : ¬ (bytesAt bb 4 position).length = 8 := by omega
      rw [if_pos rfl, encoded_id3 length', sext_id3 _ (readId3_lt _ length') _ lt, cvtId3_read host ends length,
        readId3_eq_iff ends length length', digits]
      exact ⟨fun h => ⟨h, fun eight => absurd eight small⟩, FirstAlike.bytes⟩

theorem second_eq_iff (operand : m.inType.operand = some (w, order, id3)) {offset : Nat} {origin : Int}
    (inside : Inside bb w (offset + m.inOffset)) (inside' : Inside bb w (origin + m.inOffset)) :
    sext (has m.inOp FILE_OPSIGNED) (8 * w)
        ((order.flipped (flip && !id3)).read host (bytesAt bb w (offset + m.inOffset))) =
      encoded host (order.flipped flip) id3 (has m.inOp FILE_OPSIGNED) (bytesAt bb w (origin + m.inOffset)) ↔
      SecondAlike host m flip bb w order id3 offset origin := by
  have length := bytesAt_length inside
  have length' := bytesAt_length inside'
  cases id3 with
  | false => rw [Bool.not_false, Bool.and_true, plain_eq_iff operand length length', SecondAlike, if_neg Bool.false_ne_true]
  | true =>
      obtain ⟨four, ends⟩ := (operand_size operand).2.2 rfl
      subst four
      have lt : order.read host (bytesAt bb 4 (offset + m.inOffset)) < 2 ^ 32 := by
        have := @read_lt order host _ fun _ => length
        rwa [length] at this
      rw [Bool.not_true, Bool.and_false, flipped_false, encoded_id3 length', sext_id3 _ (readId3_lt _ length') _ lt,
        SecondAlike, if_pos rfl]

theorem union_byte (regexMax : Nat) (v : Value) (search : Search) (position : Nat) {i : Nat} (lt : i < 8) :
    (mcopy regexMax v search host m.type true bb (uN 32 position) (uN 32 (flen bb)) m).1.bytes.getD i 0 =
      unionByte host m bb position i := by
  have zero : Value.zero.bytes.getD i 0 = 0 := by
    rw [Value.zero, List.getD_eq_getElem?_getD, List.getElem?_replicate]
    split_ifs <;> rfl
  simp only [mcopy, unionByte, uN_natCast_mod, if_true]
  by_cases number : m.type = .offset
  · rw [if_pos number, if_pos number, Value.store, Value.write_getD _ _ (by omega), if_pos]
    split_ifs
    · rwa [List.length_reverse, leBytes_length]
    · rwa [leBytes_length]
  · rw [if_neg number, if_neg number]
    simp only [Bool.not_true, Bool.false_and, Bool.false_eq_true, if_false]
    generalize position % 2 ^ 32 = start
    by_cases behind : start ≥ flen bb % 2 ^ 32
    · rw [if_pos behind, if_neg (by omega), zero]
    · have size : (if flen bb % 2 ^ 32 - start < 128 then flen bb % 2 ^ 32 - start else 128) =
          min (flen bb % 2 ^ 32 - start) 128 := by
        split_ifs <;> omega
      have some : flen bb % 2 ^ 32 ≤ (bb.getD []).length := Nat.mod_le _ _
      rw [if_neg behind, size, Value.write_getD _ _ (by omega), List.length_take, List.length_drop, getD_take_drop, zero]
      split_ifs <;> first | rfl | omega

end

/-! ## `mget` -/

section
variable {recur : Recur} {env : Env} {m : Magic} {bb : Window} {call : Call} {level : Nat} {s : Scan} {w : Nat}
  {order : ByteOrder} {id3 : Bool}

/-- What `mget` gives to `do_ops` for a line. -/
def fedOperands (env : Env) (m : Magic) (bb : Window) (call : Call) (s : Scan) : Option (Int × Int) :=
  let s := s.copy env m true bb (uN 32 (s.offset + call.offset)) (uN 32 (flen bb))
  indirectOperands env.host m call.flip s.value bb s.offset

theorem resolve_fed (indirect : has m.flag INDIR = true) :
    (resolve env m bb call level s).1 =
      ((fedOperands env m bb call s).bind fun r => doOps m.inOp r.1 r.2).bind (indirectAdd m level s) := by
  have target := indirectTarget_eq env.host m bb call level
    (s.copy env m true bb (uN 32 (s.offset + call.offset)) (uN 32 (flen bb)))
  have run : (resolve env m bb call level s).1 = indirectTarget env.host m bb call level
      (s.copy env m true bb (uN 32 (s.offset + call.offset)) (uN 32 (flen bb))) := by
    simp only [resolve, indirect, Bool.not_true, Bool.false_eq_true, if_false]
    split
    · exact (‹_ = none›).symm
    · exact (‹_ = some _›).symm
  rw [run, target]
  rfl

/-- What `mget` gives to `do_ops` are the operands of the file, and without them it returns 0. -/
structure OperandsDecoded (recur : Recur) (env : Env) (m : Magic) (bb : Window) (call : Call) (level : Nat)
    (s : Scan) (w : Nat) (order : ByteOrder) (id3 : Bool) (origin : Int) : Prop where
  fed : fedOperands env m bb call s =
    encodedOperands env.host m call.flip bb w order id3 (s.offset + call.offset) origin
  target : (resolve env m bb call level s).1 =
    ((encodedOperands env.host m call.flip bb w order id3 (s.offset + call.offset) origin).bind fun r =>
      doOps m.inOp r.1 r.2).bind (indirectAdd m level s)
  refused : s.indirCount < env.indirMax → s.nameCount < env.nameMax →
    encodedOperands env.host m call.flip bb w order id3 (s.offset + call.offset) origin = none →
      (mget recur env m bb call level s).rv = some false

theorem fed_eq_iff (operand : m.inType.operand = some (w, order, id3)) (origin : Int) :
    fedOperands env m bb call s =
        encodedOperands env.host m call.flip bb w order id3 (s.offset + call.offset) origin ↔
      OperandsAlike env.host m call.flip bb w order id3 s.offset call.offset origin := by
  have size := (operand_size operand).1
  rw [fedOperands, indirectOperands_eq operand, encodedOperands_eq, some_ite_eq_iff, Prod.mk.injEq]
  have parts (tests : OperandsInside m bb w ↑(s.offset + call.offset) origin ↔
      m.inType ≠ .quad ∧ OperandsInside m bb w s.offset s.offset)
      (inside : OperandsInside m bb w ↑(s.offset + call.offset) origin) := by
    have union : ∀ i < w, (s.copy env m true bb (uN 32 (s.offset + call.offset)) (uN 32 (flen bb))).value.bytes.getD i 0 =
        unionByte env.host m bb (s.offset + call.offset) i := by
      intro i lt
      exact union_byte env.regexMax s.value s.search (s.offset + call.offset) (by omega)
    have first := @first_eq_iff env.host m call.flip bb w order id3 operand _ inside.1 _ union
    have second (two : has m.inOp FILE_OPINDIRECT = true) :=
      @second_eq_iff env.host m call.flip bb w order id3 operand s.offset origin ((tests.mp inside).2.2 two)
        (inside.2 two)
    exact And.intro first second
  constructor
  · rintro ⟨tests, same⟩
    refine ⟨tests, fun inside => (parts tests inside).1.mp (same inside).1, fun inside two => ?_⟩
    have := (same inside).2
    rw [if_pos two, if_pos two] at this
    exact ((parts tests inside).2 two).mp this
  · rintro ⟨tests, first, second⟩
    refine ⟨tests, fun inside => ⟨(parts tests inside).1.mpr (first inside), ?_⟩⟩
    split_ifs with two
    · exact ((parts tests inside).2 two).mpr (second inside two)
    · rfl

/-- When the operands are the ones of the file. -/
theorem operands_decoded_iff (recur : Recur) (env : Env) (bb : Window) (call : Call) (level : Nat) (s : Scan)
    (origin : Int) (operand : m.inType.operand = some (w, order, id3)) (indirect : has m.flag INDIR = true) :
    OperandsDecoded recur env m bb call level s w order id3 origin ↔
      OperandsAlike env.host m call.flip bb w order id3 s.offset call.offset origin := by
  rw [← fed_eq_iff operand]
  refine ⟨OperandsDecoded.fed, fun fed => ⟨fed, ?_, fun indirs names nowhere => ?_⟩⟩
  · rw [resolve_fed indirect, fed]
  · have nothing : (resolve env m bb call level s).1 = none := by
      rw [resolve_fed indirect, fed, nowhere]
      rfl
    rw [mget, if_neg (not_le.mpr indirs), if_neg (not_le.mpr names)]
    rcases run : resolve env m bb call level s with ⟨_ | offset, s'⟩
    · rfl
    · rw [run] at nothing
      cases nothing

end

/-- `0 (0.T+(4)) byte x`. -/
def operandLine (inType : MType) : Magic :=
  { plainLine with flag := INDIR, inType, inOp := 3 ||| FILE_OPINDIRECT, inOffset := 4 }

/-- `(0.L+(4))` in eight bytes. -/
theorem operands_decoded_belong : OperandsDecoded (matchMagic (plainEnv [] [])) (plainEnv [] []) (operandLine .belong)
    (some [0, 0, 0, 0, 0, 0, 1, 0]) plainCall 0 (plainScan [0, 0, 0, 0, 0, 0, 1, 0]) 4 .big false 0 := by
  refine (operands_decoded_iff _ _ _ _ _ _ 0 rfl rfl).mpr ⟨by decide, fun _ => ⟨by decide, nofun⟩, ?_⟩
  intro _ _
  exact ⟨rfl, nofun⟩

/-- `(0.I+(4))`: the length 128 is taken for 256. -/
theorem operands_not_decoded : ¬ OperandsDecoded (matchMagic (plainEnv [] [])) (plainEnv [] []) (operandLine .beid3)
    (some [0, 0, 0, 0, 0, 0, 1, 0]) plainCall 0 (plainScan [0, 0, 0, 0, 0, 0, 1, 0]) 4 .big true 0 := by
  intro decoded
  have fed := decoded.fed
  have here : fedOperands (plainEnv [] []) (operandLine .beid3) (some [0, 0, 0, 0, 0, 0, 1, 0]) plainCall
      (plainScan [0, 0, 0, 0, 0, 0, 1, 0]) = some (0, 256) := by decide +kernel
  have there : encodedOperands plainHost (operandLine .beid3) false (some [0, 0, 0, 0, 0, 0, 1, 0]) 4 .big true 0 0 =
      some (0, 128) := by decide +kernel
  exact absurd (here.symm.trans (fed.trans there)) (by decide)

end Libmagic.Softmagic
