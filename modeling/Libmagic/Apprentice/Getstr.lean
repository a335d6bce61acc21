import Libmagic.Apprentice.Number
import Libmagic.Softmagic.Pstring

/-!
# `apprentice.c`: the string of a test

`getstr` reads a string with its escapes into the value of a line. Its warnings go to the
standard error output and are left out.
-/
namespace Libmagic.Apprentice

open Softmagic (Bytes Magic Value isspace pstringLengthSize)

/-- `hextoint`. -/
def hextoint (c : UInt8) : Option Nat := if digitValue c < 16 then some (digitValue c) else none

/-- `*s` is from `0` to `7`. -/
def isoctal (c : UInt8) : Bool := decide (0x30 ≤ c) && decide (c ≤ 0x37)

/-- Up to two more digits behind `val`. -/
def octalTail : (more : Nat) → (val : Nat) → Bytes → UInt8 × Bytes
  | more + 1, val, c :: s =>
      if isoctal c then octalTail more (val * 8 + (c.toNat - 0x30)) s else (UInt8.ofNat val, c :: s)
  | _, val, s => (UInt8.ofNat val, s)

/-- Up to two digits behind `\x`. -/
def hexTail (s : Bytes) : UInt8 × Bytes :=
  match (s.headD 0 |> hextoint), (s.tail.headD 0 |> hextoint) with
  | none, _ => (0x78, s)
  | some val, none => (UInt8.ofNat val, s.tail)
  | some val, some c => (UInt8.ofNat (val * 16 + c), s.tail.tail)

/-- The character behind a backslash, and what is left; `none` is the end of the line. -/
def escape : Bytes → Option (UInt8 × Bytes)
  | [] => none
  | c :: s =>
      if c = 0 then none
      else if c = 0x61 then some (0x07, s)
      else if c = 0x62 then some (0x08, s)
      else if c = 0x66 then some (0x0c, s)
      else if c = 0x6e then some (0x0a, s)
      else if c = 0x72 then some (0x0d, s)
      else if c = 0x74 then some (0x09, s)
      else if c = 0x76 then some (0x0b, s)
      else if isoctal c then some (octalTail 2 (c.toNat - 0x30) s)
      else if c = 0x78 then some (hexTail s)
      else some (c, s)

/-- The loop of `getstr`, with what is in front of `p`. Every round uses up a character, so the length of
the text bounds the rounds. -/
def getstrFrom : (rounds : Nat) → (text s : Bytes) → Option (Bytes × Bytes)
  | 0, _, _ => none
  | rounds + 1, text, s =>
      match s with
      | [] => some (text, [])
      | c :: s' =>
          if c = 0 ∨ isspace c then some (text, s)
          else if text.length ≥ 127 then none
          else if c ≠ 0x5c then getstrFrom rounds (text ++ [c]) s'
          else
            match escape s' with
            | none => some (text, s')
            | some (b, s') => getstrFrom rounds (text ++ [b]) s'

/-- What `getstr` reads, and what is left of the line. -/
def getstrText (s : Bytes) : Option (Bytes × Bytes) := getstrFrom (s.length + 1) [] s

/-- `getstr(ms, m, s, warn)`: the line with its value, and the rest; `none` is `NULL`. -/
def getstr (m : Magic) (s : Bytes) : Option (Magic × Bytes) :=
  match getstrText s with
  | none => none
  | some (text, rest) =>
      if text.length > 128 then none
      else
        let m := { m with value := m.value.write 0 (text ++ [0]), vallen := text.length % 256 }
        if m.type = .pstring then
          match pstringLengthSize m with
          | none => none
          | some l => if m.vallen + l > 128 then none else some ({ m with vallen := (m.vallen + l) % 256 }, rest)
        else some (m, rest)

theorem getstrFrom_length {rounds : Nat} {text s : Bytes} {r : Bytes × Bytes} (short : text.length ≤ 127)
    (h : getstrFrom rounds text s = some r) : r.1.length ≤ 127 := by
  induction rounds generalizing text s with
  | zero => cases h
  | succ rounds ih =>
      have one (b : UInt8) (room : ¬ text.length ≥ 127) : (text ++ [b]).length ≤ 127 := by
        rw [List.length_append, List.length_singleton]
        omega
      unfold getstrFrom at h
      split at h
      · obtain rfl := Option.some.inj h
        exact short
      · split_ifs at h with stops full plain
        · obtain rfl := Option.some.inj h
          exact short
        · exact ih (one _ full) h
        · split at h
          · obtain rfl := Option.some.inj h
            exact short
          · exact ih (one _ full) h

/-- What `getstr` makes of a `pstring` line. -/
theorem getstr_pstring {m m' : Magic} {s rest : Bytes} {form : Nat × Order} (type : m.type = .pstring)
    (known : m.lengthForm = some form) (read : getstr m s = some (m', rest)) :
    ∃ text, getstrText s = some (text, rest) ∧ text.length + form.1 ≤ 128 ∧ text.length ≤ 127 ∧
      m' = { m with value := m.value.write 0 (text ++ [0]), vallen := text.length + form.1 } := by
  rw [getstr] at read
  cases found : getstrText s with
  | none =>
      rw [found] at read
      cases read
  | some r =>
      obtain ⟨text, rest'⟩ := r
      have short : text.length ≤ 127 := getstrFrom_length (Nat.zero_le _) found
      have size (value : Value) (vallen : Nat) : pstringLengthSize { m with value, vallen } = some form.1 := by
        change m.lengthForm.map Prod.fst = some form.1
        rw [known, Option.map_some]
      rw [found] at read
      dsimp only at read
      rw [if_neg (by omega), if_pos type, size, Nat.mod_eq_of_lt (show text.length < 256 by omega)] at read
      dsimp only at read
      split_ifs at read with long
      rw [Nat.mod_eq_of_lt (show text.length + form.1 < 256 by omega)] at read
      obtain ⟨rfl, rfl⟩ := Prod.mk.inj (Option.some.inj read)
      exact ⟨text, rfl, by omega, short, rfl⟩

end Libmagic.Apprentice
