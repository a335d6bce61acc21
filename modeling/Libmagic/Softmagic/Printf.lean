import Mathlib.Data.Nat.Digits.Defs
import Libmagic.Softmagic.Cstring
import Libmagic.Format.Fits

/-!
# `funcs.c`: what `file_printf` adds to the output

The messages of the library have no other directives than `%s` and `%zu`. A machine that is standard prints them as
documented and has memory.
-/
namespace Libmagic.Softmagic

/-- The text of a format. -/
def expand : Bytes → List Arg → Option Bytes
  | [], _ => some []
  | c :: fmt, args =>
      if c ≠ 0x25 then (expand fmt args).map (c :: ·)
      else match fmt, args with
        | 0x73 :: fmt, .str s :: args => (expand fmt args).map (cstring s ++ ·)
        | 0x7a :: 0x75 :: fmt, .uint n :: args => (expand fmt args).map (decimal n ++ ·)
        | _, _ => none

structure Standard (host : Host) : Prop where
  malloc : ∀ n, host.malloc n = true
  vasprintf : ∀ fmt args text, expand fmt args = some text → host.vasprintf fmt args = some text

/-- The second state is the first with more output. -/
structure Appends (text : Bytes) (io io' : Io) : Prop where
  buf : io'.buf.getD [] = io.buf.getD [] ++ text
  hadErr : io'.hadErr = false

/-- A call that prints the text. -/
structure Shows (call : Bytes × List Arg) (text : Bytes) : Prop where
  checked : fileCheckfmt call.1 = none
  expands : expand call.1 call.2 = some text
  short : text.length ≤ 1024

/-- Calls of `file_printf`, until one fails. -/
def prints (host : Host) : List (Bytes × List Arg) → Io → Bool × Io
  | [], io => (true, io)
  | call :: calls, io =>
      let r := filePrintf host call.1 call.2 io
      if r.1 then prints host calls r.2 else r

/-! ## Formats -/

theorem expand_plain {fmt : Bytes} (plain : 0x25 ∉ fmt) (args : List Arg) : expand fmt args = some fmt := by
  induction fmt with
  | nil => rfl
  | cons c fmt ih =>
      obtain ⟨other, rest⟩ := List.ne_and_not_mem_of_not_mem_cons plain
      rw [expand.eq_def]
      dsimp only
      rw [if_pos (Ne.symm other), ih rest]
      rfl

theorem Shows.plain {text : Bytes} (plain : 0x25 ∉ text) (short : text.length ≤ 1024) : Shows (text, []) text :=
  ⟨Format.fileCheckfmt_none plain, expand_plain plain [], short⟩

theorem Shows.str {s : Bytes} (clean : 0 ∉ s) (short : s.length ≤ 1024) : Shows (asc "%s", [.str s]) s := by
  have checked : fileCheckfmt (asc "%s") = none := by decide
  refine ⟨checked, ?_, short⟩
  change (some []).map (cstring s ++ ·) = some s
  rw [Option.map_some, List.append_nil, cstring_self clean]

/-! ## Numbers -/

theorem decimal_eq (n : Nat) : decimal n = (Nat.toDigits 10 n).map (fun c => UInt8.ofNat c.toNat) := by
  have repr : toString (n : Int) = Nat.repr n := rfl
  rw [decimal, asc, repr, Nat.repr, String.toList_ofList]

/-- The digits are characters of 7 bits. -/
theorem digit_toNat {n : Nat} {c : Char} (mem : c ∈ Nat.toDigits 10 n) :
    0x30 ≤ c.toNat ∧ c.toNat ≤ 0x39 ∧ (UInt8.ofNat c.toNat).toNat = c.toNat := by
  have digit := Nat.isDigit_of_mem_toDigits (by decide) (by decide) mem
  rw [Char.isDigit, Bool.and_eq_true, decide_eq_true_iff, decide_eq_true_iff] at digit
  have up : c.toNat ≤ 0x39 := digit.2
  exact ⟨digit.1, up, UInt8.toNat_ofNat_of_lt' (Nat.lt_of_le_of_lt up (by decide))⟩

theorem decimal_digit {n : Nat} {b : UInt8} (mem : b ∈ decimal n) : isdigit b = true := by
  rw [decimal_eq] at mem
  obtain ⟨c, digit, rfl⟩ := List.mem_map.mp mem
  obtain ⟨low, up, value⟩ := digit_toNat digit
  rw [isdigit, Bool.and_eq_true, decide_eq_true_iff, decide_eq_true_iff, UInt8.le_iff_toNat_le, UInt8.le_iff_toNat_le, value]
  exact ⟨low, up⟩

theorem decimal_injective {m n : Nat} (same : decimal m = decimal n) : m = n := by
  have back (k : Nat) : (decimal k).map (fun b => Char.ofNat b.toNat) = Nat.toDigits 10 k := by
    rw [decimal_eq, List.map_map]
    conv_rhs => rw [← List.map_id (Nat.toDigits 10 k)]
    refine List.map_congr_left fun c mem => ?_
    rw [Function.comp_apply, (digit_toNat mem).2.2, Char.ofNat_toNat]
    rfl
  rw [← @Nat.ofDigitChars_toDigits 10 m (by decide) (by decide), ← back m, same, back n,
    Nat.ofDigitChars_toDigits (by decide) (by decide)]

theorem decimal_length {n : Nat} (lt : n < 2 ^ 64) : (decimal n).length ≤ 20 := by
  have short := Nat.repr_length n 20 (by decide) (by omega)
  rw [Nat.repr, String.length_ofList] at short
  rwa [decimal_eq, List.length_map]

/-! ## Output -/

section

variable {host : Host} {io io' io'' : Io} {text more : Bytes}

theorem Appends.refl (err : io.hadErr = false) : Appends [] io io := ⟨(List.append_nil _).symm, err⟩

theorem Appends.trans (first : Appends text io io') (second : Appends more io' io'') :
    Appends (text ++ more) io io'' := by
  refine ⟨?_, second.hadErr⟩
  rw [second.buf, first.buf, List.append_assoc]

theorem Appends.blen (appends : Appends text io io') : blen io' = blen io + text.length := by
  rw [Softmagic.blen, Softmagic.blen, appends.buf, List.length_append]

theorem filePrintf_appends (standard : Standard host) {call : Bytes × List Arg} (shows' : Shows call text)
    (err : io.hadErr = false) (room : blen io + text.length ≤ 1024 * 1024) :
    (filePrintf host call.1 call.2 io).1 = true ∧ Appends text io (filePrintf host call.1 call.2 io).2 := by
  obtain ⟨checked, expands, short⟩ := shows'
  have printed := standard.vasprintf _ _ _ expands
  have fits : ¬ (text.length > 1024 ∨ text.length + blen { io with tick := io.tick + 1 } > 1024 * 1024) := by
    have same : blen { io with tick := io.tick + 1 } = blen io := rfl
    omega
  have calm : ¬ io.hadErr = true := Bool.not_eq_true _ ▸ err
  unfold filePrintf vprintf
  rw [if_neg calm, checked]
  dsimp only
  rw [printed]
  dsimp only
  rw [if_neg fits]
  cases buf : io.buf with
  | none => exact ⟨rfl, congrArg (·.getD [] ++ text) buf.symm, err⟩
  | some old =>
      dsimp only
      rw [if_pos (standard.malloc _)]
      exact ⟨rfl, congrArg (·.getD [] ++ text) buf.symm, err⟩

theorem prints_appends (standard : Standard host) {calls : List (Bytes × List Arg)} {texts : List Bytes}
    (shows' : List.Forall₂ Shows calls texts) (err : io.hadErr = false)
    (room : blen io + texts.flatten.length ≤ 1024 * 1024) :
    (prints host calls io).1 = true ∧ Appends texts.flatten io (prints host calls io).2 := by
  induction shows' generalizing io with
  | nil => exact ⟨rfl, .refl err⟩
  | cons first _ ih =>
      rw [List.flatten_cons, List.length_append] at room
      obtain ⟨ok, appends⟩ := filePrintf_appends standard first err (by omega)
      obtain ⟨done, rest⟩ := ih appends.hadErr (by rw [appends.blen]; omega)
      rw [prints, if_pos ok, List.flatten_cons]
      exact ⟨done, appends.trans rest⟩

end

end Libmagic.Softmagic
