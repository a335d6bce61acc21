import Libmagic.Softmagic.Output

/-!
# Numbers in a magic file

`strtoull` and `strtol` with base 0 read blanks, a sign, a prefix that names the base, and
digits. `readNumber` keeps the sign and the whole magnitude, and what is left of the text.
-/
namespace Libmagic.Apprentice

open Softmagic (Bytes isspace isdigit isupper islower)

/-- The value of a digit; what is no digit in any base is 36. -/
def digitValue (c : UInt8) : Nat :=
  if isdigit c then c.toNat - 0x30
  else if islower c then c.toNat - 0x61 + 10
  else if isupper c then c.toNat - 0x41 + 10
  else 36

/-- Base 0: `0x` before a hexadecimal digit, `0`, or neither. -/
def splitBase (s : Bytes) : Nat × Bytes :=
  match s with
  | 0x30 :: x :: d :: rest =>
      if (x = 0x78 ∨ x = 0x58) ∧ digitValue d < 16 then (16, d :: rest) else (8, s)
  | 0x30 :: _ => (8, s)
  | _ => (10, s)

structure Number where
  negative : Bool
  magnitude : Nat
  rest : Bytes
  deriving DecidableEq

def readDigits (base : Nat) (s : Bytes) : Option (Nat × Bytes) :=
  let run := s.takeWhile (fun c => decide (digitValue c < base))
  if run = [] then none
  else some (run.foldl (fun n c => n * base + digitValue c) 0, s.drop run.length)

/-- The text behind `strtoull(s, &end, 0)`; `none` is `end == s`. -/
def readNumber (s : Bytes) : Option Number :=
  let body := s.dropWhile isspace
  let negative := body.head? == some 0x2d
  let unsigned := if negative || body.head? == some 0x2b then body.tail else body
  let based := splitBase unsigned
  match readDigits based.1 based.2 with
  | none => none
  | some (magnitude, rest) => some { negative, magnitude, rest }

/-- The integer that the text says. -/
def Number.value (n : Number) : Int := if n.negative then -n.magnitude else n.magnitude

/-- What `strtoull` returns, with `true` for `ERANGE`. -/
def Number.strtoull (n : Number) : Nat × Bool :=
  if n.magnitude ≥ 2 ^ 64 then (2 ^ 64 - 1, true)
  else (if n.negative then (2 ^ 64 - n.magnitude) % 2 ^ 64 else n.magnitude, false)

end Libmagic.Apprentice
