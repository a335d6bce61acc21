import Libmagic.Apprentice.Database
import Libmagic.Apprentice.Getvalue
import Libmagic.Softmagic.Check

/-!
# `apprentice.c`: the strength of an entry

`file_magic_strength` on the bytes of a `struct magic`. A call that comes to `abort`, or that
divides by a factor of 0, has no value.
-/
namespace Libmagic.Apprentice

open Softmagic (Bytes MType asc cstring)

/-- The types that have a number, in the order of `FILE_*`. -/
def namedTypes : List MType :=
  [.invalid, .byte, .short, .default, .long, .string, .date, .beshort, .belong, .bedate, .leshort,
    .lelong, .ledate, .pstring, .ldate, .beldate, .leldate, .regex, .bestring16, .lestring16, .search,
    .medate, .meldate, .melong, .quad, .lequad, .bequad, .qdate, .leqdate, .beqdate, .qldate, .leqldate,
    .beqldate, .float, .befloat, .lefloat, .double, .bedouble, .ledouble, .beid3, .leid3, .indirect,
    .qwdate, .leqwdate, .beqwdate, .name, .use, .clear, .der, .guid, .leguid, .beguid, .offset,
    .bevarint, .levarint, .msdosdate, .lemsdosdate, .bemsdosdate, .msdostime, .lemsdostime,
    .bemsdostime, .octal]

/-- `m->type`. -/
def typeOf (m : Bytes) : MType := (namedTypes[typeCode m]?).getD (.other (typeCode m))

/-- A member of one byte. -/
def byteOf (f : Field) (m : Bytes) : Nat := Order.little.load (f.get m)

/-- The loop of `nonmagic`. Every round uses up a byte, so the length bounds the rounds. -/
def nonmagicFrom : Nat → Bytes → Nat
  | 0, _ => 0
  | _, [] => 0
  | k + 1, c :: p =>
      if c = 0x5c then 1 + nonmagicFrom k p.tail
      else if (asc "?*.+^$").contains c then nonmagicFrom k p
      -- the bracket that closes is counted in the next round
      else if c = 0x5b then nonmagicFrom k (p.dropWhile (· != 0x5d))
      else if c = 0x7b then nonmagicFrom k (p.dropWhile (· != 0x7d)).tail
      else 1 + nonmagicFrom k p

/-- `nonmagic`. -/
def nonmagic (str : Bytes) : Nat :=
  let rv := nonmagicFrom str.length str
  if rv = 0 then 1 else rv

def MULT : Nat := 10

/-- What the type adds to the baseline. -/
def typeStrength (m : Bytes) : Option Nat :=
  let vallen := byteOf Member.vallen m
  match typeOf m with
  | .pstring | .string | .octal => some (vallen * MULT)
  | .bestring16 | .lestring16 => some (vallen * MULT / 2)
  | .search => some (if vallen = 0 then 0 else vallen * max (MULT / vallen) 1)
  | .regex =>
      let v := nonmagic (cstring (m.drop Member.value.off))
      some (v * max (MULT / v) 1)
  | .default | .indirect | .name | .use | .clear => some 0
  | .der => some MULT
  | type => (typesize type).map (· * MULT)

/-- What the relation makes of the value. -/
def relnStrength (reln : Nat) (val : Int) : Option Int :=
  if reln = 0x78 ∨ reln = 0x21 then some 0
  else if reln = 0x3d then some (val + MULT)
  else if reln = 0x3e ∨ reln = 0x3c then some (val - 2 * MULT)
  else if reln = 0x5e ∨ reln = 0x26 then some (val - MULT)
  else none

/-- `apprentice_magic_strength_1`. -/
def apprenticeMagicStrength1 (m : Bytes) : Option Int :=
  if typeOf m = .default then some 0
  else (typeStrength m).bind fun ts => relnStrength (byteOf Member.reln m) (2 * MULT + ts)

/-- What `m->factor_op` makes of the value. -/
def factorStrength (factorOp : Nat) (factor : Nat) (val : Int) : Option Int :=
  if factorOp = 0 then some val
  else if factorOp = 0x2b then some (val + factor)
  else if factorOp = 0x2d then some (val - factor)
  else if factorOp = 0x2a then some (val * factor)
  else if factorOp = 0x2f ∧ factor ≠ 0 then some (val.tdiv factor)
  else none

/-- `file_magic_strength`. -/
def fileMagicStrength (m : Bytes) : Option Nat :=
  match apprenticeMagicStrength1 m with
  | none => none
  | some val =>
      match factorStrength (byteOf Member.factorOp m) (byteOf Member.factor m) val with
      | none => none
      | some val =>
          let val := if val ≤ 0 then 1 else val
          some ((if (Member.desc.get m).head? = some 0 then val + 1 else val).toNat)

/-- No entry has strength 0. -/
theorem one_le_strength {m : Bytes} {s : Nat} (weighed : fileMagicStrength m = some s) : 1 ≤ s := by
  rw [fileMagicStrength] at weighed
  split at weighed
  · cases weighed
  · split at weighed
    · cases weighed
    · obtain rfl := Option.some.inj weighed
      split_ifs <;> omega

end Libmagic.Apprentice
