import Libmagic.Softmagic.Cstring
import Libmagic.Softmagic.Match

/-!
# `funcs.c`: `file_getbuffer`

What is not printable is written in octal digits. The locale says what the characters are; where it finds none, the
bytes are taken one by one.
-/
namespace Libmagic.Funcs

open Softmagic

/-- The locale. `mbrtowc` has a state, so that the calls are numbered. -/
structure Locale where
  mbrtowc : (call : Nat) → Bytes → Option (Nat × Nat)
  iswprint : Nat → Bool
  isprint : UInt8 → Bool

/-- Each character has a byte or more, and they are there. -/
def Locale.Converts (l : Locale) : Prop :=
  ∀ call s n c, l.mbrtowc call s = some (n, c) → 1 ≤ n ∧ n ≤ s.length

/-- `OCTALIFY`. -/
def octalify (c : UInt8) : Bytes :=
  [0x5c, UInt8.ofNat (c.toNat / 64 % 4 + 0x30), UInt8.ofNat (c.toNat / 8 % 8 + 0x30), UInt8.ofNat (c.toNat % 8 + 0x30)]

/-- The loop over the characters: what it writes, and whether it comes to the end. No result when it takes more rounds
than that. -/
def wideLoop (l : Locale) : (rounds call : Nat) → (op : Bytes) → Option (Bytes × Bool)
  | 0, _, op => if op = [] then some ([], true) else none
  | rounds + 1, call, op =>
      if op = [] then some ([], true)
      else match l.mbrtowc call op with
        | none => some ([], false)
        | some (n, c) =>
            let char := if l.iswprint c then op.take n else (op.take n).flatMap octalify
            (wideLoop l rounds (call + 1) (op.drop n)).map fun r => (char ++ r.1, r.2)

/-- The loop over the bytes. -/
def byteLoop (l : Locale) (op : Bytes) : Bytes := op.flatMap fun c => if l.isprint c then [c] else octalify c

/-- What `file_getbuffer` returns, and the state. -/
def fileGetbuffer (host : Host) (l : Locale) (flags : Nat) (io : Io) : Option (Option Bytes × Io) :=
  if io.hadErr then some (none, io)
  else if has flags MAGIC_RAW then some (io.buf, io)
  else match io.buf with
    | none => some (none, io)
    | some buf =>
        let text := cstring buf
        let io' := { io with tick := io.tick + 1 }
        if (2 ^ 64 - 2) / 4 < text.length then some (none, fileOomem host text.length io)
        else if !host.malloc io.tick then some (none, fileOomem host (text.length * 4 + 1) io')
        else (wideLoop l text.length 0 text).map fun r => (some (if r.2 then r.1 else byteLoop l text), io')

/-! ## Reading the octal digits -/

def isodigit (c : UInt8) : Bool := decide (0x30 ≤ c) && decide (c ≤ 0x37)

/-- The text that was written, if it has no backslash. -/
def unoctal : Bytes → Bytes
  | [] => []
  | 0x5c :: a :: b :: c :: s => UInt8.ofNat ((a.toNat - 0x30) * 64 + (b.toNat - 0x30) * 8 + (c.toNat - 0x30)) :: unoctal s
  | c :: s => c :: unoctal s

/-- A character is written as it is when it may be printed, and otherwise byte by byte. -/
inductive Written (may : Bytes → Prop) : Bytes → Bytes → Prop where
  | nil : Written may [] []
  | printed {char text out : Bytes} (print : may char) (rest : Written may text out) :
      Written may (char ++ text) (char ++ out)
  | octal {c : UInt8} {text out : Bytes} (rest : Written may text out) : Written may (c :: text) (octalify c ++ out)

theorem unoctal_octalify (c : UInt8) (s : Bytes) : unoctal (octalify c ++ s) = c :: unoctal s := by
  have digit {n : Nat} (small : n < 8) : (UInt8.ofNat (n + 0x30)).toNat - 0x30 = n := by
    rw [UInt8.toNat_ofNat_of_lt' (Nat.lt_of_lt_of_le (Nat.add_lt_add_right small _) (by decide)), Nat.add_sub_cancel]
  have byte := c.toNat_lt
  have high : c.toNat / 64 % 4 < 8 := Nat.lt_of_lt_of_le (Nat.mod_lt _ (by decide)) (by decide)
  have middle : c.toNat / 8 % 8 < 8 := Nat.mod_lt _ (by decide)
  have low : c.toNat % 8 < 8 := Nat.mod_lt _ (by decide)
  have value : c.toNat / 64 % 4 * 64 + c.toNat / 8 % 8 * 8 + c.toNat % 8 = c.toNat := by omega
  rw [octalify, List.cons_append, List.cons_append, List.cons_append, List.cons_append, List.nil_append, unoctal, digit high,
    digit middle, digit low, value, UInt8.ofNat_toNat]

theorem unoctal_plain {char : Bytes} (plain : 0x5c ∉ char) (s : Bytes) : unoctal (char ++ s) = char ++ unoctal s := by
  induction char with
  | nil => rfl
  | cons c char ih =>
      obtain ⟨other, rest⟩ := List.ne_and_not_mem_of_not_mem_cons plain
      rw [List.cons_append, List.cons_append, unoctal, ih rest]
      rintro _ _ _ _ rfl
      exact absurd rfl other

theorem octalify_length (c : UInt8) : (octalify c).length = 4 := rfl

section

variable {may : Bytes → Prop} {text more out out' : Bytes}

theorem Written.append (front : Written may text out) (back : Written may more out') :
    Written may (text ++ more) (out ++ out') := by
  induction front with
  | nil => exact back
  | printed print _ ih =>
      rw [List.append_assoc, List.append_assoc]
      exact ih.printed print
  | octal _ ih =>
      rw [List.cons_append, List.append_assoc]
      exact ih.octal

theorem Written.octals (char : Bytes) : Written may char (char.flatMap octalify) := by
  induction char with
  | nil => exact .nil
  | cons c char ih => exact ih.octal

theorem Written.char {char : Bytes} (print : may char) : Written may char char := by
  have one := Written.nil.printed print
  rwa [List.append_nil] at one

/-- Four bytes for each byte of the text are enough. -/
theorem Written.length (written : Written may text out) : out.length ≤ 4 * text.length := by
  induction written with
  | nil => exact Nat.le_refl 0
  | @printed char text out _ _ ih =>
      rw [List.length_append, List.length_append]
      omega
  | octal _ ih =>
      rw [List.length_append, List.length_cons, octalify_length]
      omega

theorem Written.unoctal (written : Written may text out) (plain : 0x5c ∉ text) : unoctal out = text := by
  induction written with
  | nil => rfl
  | printed _ _ ih =>
      rw [List.mem_append, not_or] at plain
      rw [unoctal_plain plain.1, ih plain.2]
  | octal _ ih =>
      rw [unoctal_octalify, ih (List.not_mem_of_not_mem_cons plain)]

end

/-! ## The two loops -/

/-- What may be printed: a character of the locale, or a byte of it. -/
def Locale.Wide (l : Locale) (char : Bytes) : Prop :=
  ∃ call rest c, l.mbrtowc call (char ++ rest) = some (char.length, c) ∧ l.iswprint c = true

def Locale.Narrow (l : Locale) (char : Bytes) : Prop := ∃ c, char = [c] ∧ l.isprint c = true

theorem byteLoop_written (l : Locale) (op : Bytes) : Written l.Narrow op (byteLoop l op) := by
  induction op with
  | nil => exact .nil
  | cons c op ih =>
      rw [byteLoop, List.flatMap_cons]
      split
      next print => exact ih.printed ⟨c, rfl, print⟩
      next => exact ih.octal

/-- The characters in front of the one where the conversion ends. -/
theorem wideLoop_written {l : Locale} (converts : l.Converts) {rounds : Nat} (call : Nat) {op : Bytes}
    (enough : op.length ≤ rounds) :
    ∃ out conv text rest, wideLoop l rounds call op = some (out, conv) ∧ op = text ++ rest ∧ Written l.Wide text out ∧
      (conv = true → rest = []) := by
  induction rounds generalizing call op with
  | zero =>
      obtain rfl := List.length_eq_zero_iff.mp (Nat.le_zero.mp enough)
      exact ⟨[], true, [], [], rfl, rfl, .nil, fun _ => rfl⟩
  | succ rounds ih =>
      rw [wideLoop]
      split
      next none =>
        subst none
        exact ⟨[], true, [], [], rfl, rfl, .nil, fun _ => rfl⟩
      next =>
        cases found : l.mbrtowc call op with
        | none => exact ⟨[], false, [], op, rfl, rfl, .nil, nofun⟩
        | some r =>
            obtain ⟨n, c⟩ := r
            obtain ⟨one, there⟩ := converts call op n c found
            have short : (op.drop n).length ≤ rounds := by
              rw [List.length_drop]
              omega
            obtain ⟨out, conv, text, rest, result, same, written, all⟩ := ih (call + 1) short
            have whole : op = (op.take n ++ text) ++ rest := by
              rw [List.append_assoc, ← same, List.take_append_drop]
            have char : Written l.Wide (op.take n) (if l.iswprint c then op.take n else (op.take n).flatMap octalify) := by
              split
              next print =>
                refine .char ⟨call, op.drop n, c, ?_, print⟩
                rw [List.take_append_drop, List.length_take, Nat.min_eq_left there, found]
              next => exact .octals _
            exact ⟨_, conv, op.take n ++ text, rest, by dsimp only; rw [result]; rfl, whole, char.append written, all⟩

theorem wideLoop_fits {l : Locale} (converts : l.Converts) {op : Bytes} {w : Bytes × Bool}
    (loop : wideLoop l op.length 0 op = some w) : w.1.length ≤ 4 * op.length := by
  obtain ⟨out, conv, text, rest, result, same, written, _⟩ := wideLoop_written converts 0 (Nat.le_refl op.length)
  rw [loop] at result
  cases result
  have fits := written.length
  have length := congrArg List.length same
  rw [List.length_append] at length
  dsimp only
  omega

/-- What is returned without `MAGIC_RAW`. -/
structure Printable (l : Locale) (text out : Bytes) : Prop where
  written : Written l.Wide text out ∨ Written l.Narrow text out
  fits : out.length + 1 ≤ text.length * 4 + 1
  reads : 0x5c ∉ text → unoctal out = text

theorem Printable.of {l : Locale} {text out : Bytes} (written : Written l.Wide text out ∨ Written l.Narrow text out) :
    Printable l text out := by
  refine ⟨written, ?_, fun plain => written.elim (·.unoctal plain) (·.unoctal plain)⟩
  have := written.elim Written.length Written.length
  omega

/-- The locale of bytes in which those of ASCII may be printed. -/
def asciiLocale : Locale where
  mbrtowc := fun _ s => s.head?.map fun c => (1, c.toNat)
  iswprint := fun c => decide (0x20 ≤ c ∧ c < 0x7f)
  isprint := Softmagic.isprint

theorem asciiLocale_converts : asciiLocale.Converts := by
  intro call s n c found
  cases s with
  | nil => cases found
  | cons b s =>
      cases found
      exact ⟨Nat.le_refl 1, Nat.succ_le_succ (Nat.zero_le _)⟩

/-- Two letters with a tab between them. -/
def tabbed : Io := ⟨some [0x61, 9, 0x62], false, 0, 0, 0⟩

example : (fileGetbuffer plainHost asciiLocale 0 tabbed).map Prod.fst = some (some (asc "a\\011b")) := by decide

end Libmagic.Funcs
