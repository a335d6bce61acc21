import Libmagic.Encoding.LooksUtf8

/-!
# `encoding.c`: `looks_ucs16` and `looks_ucs32`
-/
namespace Libmagic.Encoding

/-- `UCS16_NOCHAR`. -/
def ucs16Nochar (c : Nat) : Bool := decide (c ≥ 0xfdd0) && decide (c ≤ 0xfdef)

/-- `UCS16_HISURR`. -/
def ucs16Hisurr (c : Nat) : Bool := decide (c ≥ 0xd800) && decide (c ≤ 0xdbff)

/-- `UCS16_LOSURR`. -/
def ucs16Losurr (c : Nat) : Bool := decide (c ≥ 0xdc00) && decide (c ≤ 0xdfff)

/-- `NOTTEXT`. -/
def nottext (c : Nat) : Bool := decide (c < 128) && textChars c != .T && c != 0

/-- The assignment `uc = 0x10000 + 0x400 * (hi - 1) + (uc - 0xdc00)` under `if (hi)`. -/
def ucs16Combine (hi uc : Nat) : Nat :=
  if hi ≠ 0 then 0x10000 + 0x400 * (hi - 1) + (uc - 0xdc00) else uc

/-- `for (i = 2; i + 1 < nbytes; i += 2)`. The flag says whether the loop ran
to its end; `return 0` inside the body clears it. -/
def ucs16Loop (bigend : Bool) : (hi : Nat) → Unichars → List UInt8 → Bool × Unichars
  | hi, ubf, a :: b :: rest =>
      let uc :=
        if bigend then b.toNat ||| (a.toNat <<< 8) else a.toNat ||| (b.toNat <<< 8)
      let uc := uc &&& 0xffff
      if uc = 0xfffe ∨ uc = 0xffff then (false, ubf)
      else if ucs16Nochar uc then (false, ubf)
      else if hi ≠ 0 ∧ ¬ ucs16Losurr uc then (false, ubf)
      else
        let uc := ucs16Combine hi uc
        if nottext uc then (false, ubf)
        else
          let ubf := ubf.push uc
          let hi := if ucs16Hisurr uc then uc - 0xd800 + 1 else 0
          if ucs16Losurr uc then (false, ubf) else ucs16Loop bigend hi ubf rest
  | _, ubf, _ => (true, ubf)

/-- The byte-order marks `looks_ucs16` accepts. -/
def ucs16Bom : List UInt8 → Option (Bool × List UInt8)
  | 0xff :: 0xfe :: rest => some (false, rest)
  | 0xfe :: 0xff :: rest => some (true, rest)
  | _ => none

/-- `looks_ucs16(bf, nbytes, ubf, ulen)`. -/
def looksUcs16 (bf : List UInt8) (ubf : Unichars) : Nat × Unichars :=
  match ucs16Bom bf with
  | none => (0, ubf)
  | some (bigend, rest) =>
      let r := ucs16Loop bigend 0 ubf.reset rest
      (if r.1 then 1 + bigend.toNat else 0, r.2)

/-- `for (i = 4; i + 3 < nbytes; i += 4)`: the unit is stored before it is checked. -/
def ucs32Loop (bigend : Bool) : Unichars → List UInt8 → Bool × Unichars
  | ubf, a :: b :: c :: d :: rest =>
      let uc :=
        if bigend then d.toNat ||| (c.toNat <<< 8) ||| (b.toNat <<< 16) ||| (a.toNat <<< 24)
        else a.toNat ||| (b.toNat <<< 8) ||| (c.toNat <<< 16) ||| (d.toNat <<< 24)
      let ubf := ubf.push uc
      if uc = 0xfffe ∨ nottext uc then (false, ubf) else ucs32Loop bigend ubf rest
  | ubf, _ => (true, ubf)

/-- The byte-order marks `looks_ucs32` accepts. -/
def ucs32Bom : List UInt8 → Option (Bool × List UInt8)
  | 0xff :: 0xfe :: 0 :: 0 :: rest => some (false, rest)
  | 0 :: 0 :: 0xfe :: 0xff :: rest => some (true, rest)
  | _ => none

/-- `looks_ucs32(bf, nbytes, ubf, ulen)`. -/
def looksUcs32 (bf : List UInt8) (ubf : Unichars) : Nat × Unichars :=
  match ucs32Bom bf with
  | none => (0, ubf)
  | some (bigend, rest) =>
      let r := ucs32Loop bigend ubf.reset rest
      (if r.1 then 1 + bigend.toNat else 0, r.2)

/-- A BMP text with an ASCII letter and a surrogate pair. -/
example : (looksUcs16 [0xff, 0xfe, 0x41, 0, 0x3d, 0xd8, 0, 0xde] ⟨[0, 0, 0, 0], 9⟩) =
    (1, ⟨[0x41, 0xd83d, 0x1f600, 0], 3⟩) := by decide

end Libmagic.Encoding
