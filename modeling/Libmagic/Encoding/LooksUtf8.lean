import Libmagic.Unicode.Utf8

/-!
# `encoding.c`: the text table and `file_looks_utf8`

The two tables are the source's own, row by row. A buffer is a list of bytes, so
the index `i` of the C loop is the suffix still to be read.
-/
namespace Libmagic.Encoding

/-- Classes of `text_chars`: `F` never appears in text, `T` appears in plain
ASCII text, `I` in ISO-8859 text, `X` in non-ISO extended ASCII. -/
inductive TextClass where
  | F | T | I | X
  deriving DecidableEq, Repr

open TextClass in
def textTable : List TextClass := [
  F, F, F, F, F, F, F, T, T, T, T, T, T, T, T, T,
  F, F, F, F, F, F, F, F, F, F, T, T, F, F, F, F,
  T, T, T, T, T, T, T, T, T, T, T, T, T, T, T, T,
  T, T, T, T, T, T, T, T, T, T, T, T, T, T, T, T,
  T, T, T, T, T, T, T, T, T, T, T, T, T, T, T, T,
  T, T, T, T, T, T, T, T, T, T, T, T, T, T, T, T,
  T, T, T, T, T, T, T, T, T, T, T, T, T, T, T, T,
  T, T, T, T, T, T, T, T, T, T, T, T, T, T, T, F,
  X, X, X, X, X, T, X, X, X, X, X, X, X, X, X, X,
  X, X, X, X, X, X, X, X, X, X, X, X, X, X, X, X,
  I, I, I, I, I, I, I, I, I, I, I, I, I, I, I, I,
  I, I, I, I, I, I, I, I, I, I, I, I, I, I, I, I,
  I, I, I, I, I, I, I, I, I, I, I, I, I, I, I, I,
  I, I, I, I, I, I, I, I, I, I, I, I, I, I, I, I,
  I, I, I, I, I, I, I, I, I, I, I, I, I, I, I, I,
  I, I, I, I, I, I, I, I, I, I, I, I, I, I, I, I]

/-- `text_chars[c]`. -/
def textChars (c : Nat) : TextClass := textTable.getD c .F

/-- The array `ubuf` a caller passes, with the count `*ulen`. A store beyond
the array has no effect here; the callers promise that there is none. -/
structure Unichars where
  cells : List Nat
  ulen : Nat
  deriving DecidableEq, Repr

namespace Unichars

/-- `ubuf[(*ulen)++] = c`. -/
def push (u : Unichars) (c : Nat) : Unichars := ⟨u.cells.set u.ulen c, u.ulen + 1⟩

/-- `ubuf[0..*ulen)`. -/
def text (u : Unichars) : List Nat := u.cells.take u.ulen

/-- `*ulen = 0`. -/
def reset (u : Unichars) : Unichars := { u with ulen := 0 }

@[simp] theorem push_ulen (u : Unichars) (c : Nat) : (u.push c).ulen = u.ulen + 1 := rfl

@[simp] theorem push_cells_length (u : Unichars) (c : Nat) :
    (u.push c).cells.length = u.cells.length := by simp [push]

@[simp] theorem reset_text (u : Unichars) : u.reset.text = [] := rfl

theorem push_text {u : Unichars} {c : Nat} (room : u.ulen < u.cells.length) :
    (u.push c).text = u.text ++ [c] := by
  simp only [push, text]
  rw [List.take_add_one, List.take_set_of_le (Nat.le_refl _)]
  simp [room]

/-- Several stores in a row. -/
def pushAll (u : Unichars) (cs : List Nat) : Unichars := cs.foldl push u

@[simp] theorem pushAll_nil (u : Unichars) : u.pushAll [] = u := rfl

@[simp] theorem pushAll_cons (u : Unichars) (c : Nat) (cs : List Nat) :
    u.pushAll (c :: cs) = (u.push c).pushAll cs := rfl

@[simp] theorem pushAll_ulen (u : Unichars) (cs : List Nat) :
    (u.pushAll cs).ulen = u.ulen + cs.length := by
  induction cs generalizing u with
  | nil => rfl
  | cons c cs ih =>
      rw [pushAll_cons, ih, push_ulen, List.length_cons]
      omega

/-- A large enough array receives the stores in order, and nothing else changes. -/
theorem pushAll_text {u : Unichars} (cs : List Nat) (room : u.ulen + cs.length ≤ u.cells.length) :
    (u.pushAll cs).text = u.text ++ cs ∧
      (u.pushAll cs).cells.drop (u.ulen + cs.length) = u.cells.drop (u.ulen + cs.length) := by
  induction cs generalizing u with
  | nil => exact ⟨by simp, rfl⟩
  | cons c cs ih =>
      rw [List.length_cons] at room ⊢
      obtain ⟨text, beyond⟩ := ih (u := u.push c)
        (by rw [push_ulen, push_cells_length]; omega)
      rw [push_ulen, Nat.add_right_comm, Nat.add_assoc] at beyond
      refine ⟨?_, ?_⟩
      · rw [pushAll_cons, text, push_text (by omega), List.append_assoc, List.singleton_append]
      · rw [pushAll_cons, beyond]
        exact List.drop_set_of_lt (by omega)

end Unichars

/-- Values of the table `first`: size in the low nibble, index of the accept
range in the high one. -/
def XX : UInt8 := 0xF1
def AS : UInt8 := 0xF0
def S1 : UInt8 := 0x02
def S2 : UInt8 := 0x13
def S3 : UInt8 := 0x03
def S4 : UInt8 := 0x23
def S5 : UInt8 := 0x34
def S6 : UInt8 := 0x04
def S7 : UInt8 := 0x44

def firstTable : List UInt8 := [
  AS, AS, AS, AS, AS, AS, AS, AS, AS, AS, AS, AS, AS, AS, AS, AS,
  AS, AS, AS, AS, AS, AS, AS, AS, AS, AS, AS, AS, AS, AS, AS, AS,
  AS, AS, AS, AS, AS, AS, AS, AS, AS, AS, AS, AS, AS, AS, AS, AS,
  AS, AS, AS, AS, AS, AS, AS, AS, AS, AS, AS, AS, AS, AS, AS, AS,
  AS, AS, AS, AS, AS, AS, AS, AS, AS, AS, AS, AS, AS, AS, AS, AS,
  AS, AS, AS, AS, AS, AS, AS, AS, AS, AS, AS, AS, AS, AS, AS, AS,
  AS, AS, AS, AS, AS, AS, AS, AS, AS, AS, AS, AS, AS, AS, AS, AS,
  AS, AS, AS, AS, AS, AS, AS, AS, AS, AS, AS, AS, AS, AS, AS, AS,
  XX, XX, XX, XX, XX, XX, XX, XX, XX, XX, XX, XX, XX, XX, XX, XX,
  XX, XX, XX, XX, XX, XX, XX, XX, XX, XX, XX, XX, XX, XX, XX, XX,
  XX, XX, XX, XX, XX, XX, XX, XX, XX, XX, XX, XX, XX, XX, XX, XX,
  XX, XX, XX, XX, XX, XX, XX, XX, XX, XX, XX, XX, XX, XX, XX, XX,
  XX, XX, S1, S1, S1, S1, S1, S1, S1, S1, S1, S1, S1, S1, S1, S1,
  S1, S1, S1, S1, S1, S1, S1, S1, S1, S1, S1, S1, S1, S1, S1, S1,
  S2, S3, S3, S3, S3, S3, S3, S3, S3, S3, S3, S3, S3, S4, S3, S3,
  S5, S6, S6, S6, S7, XX, XX, XX, XX, XX, XX, XX, XX, XX, XX, XX]

/-- `first[b]`. -/
def first (b : UInt8) : UInt8 := firstTable.getD b.toNat XX

structure AcceptRange where
  lo : UInt8
  hi : UInt8

def acceptRanges : List AcceptRange :=
  [⟨0x80, 0xBF⟩, ⟨0xA0, 0xBF⟩, ⟨0x80, 0x9F⟩, ⟨0x90, 0xBF⟩, ⟨0x80, 0x8F⟩]

/-- `accept_ranges[x >> 4]`; the unlisted entries of the 16 are zero. -/
def acceptRange (x : UInt8) : AcceptRange := acceptRanges.getD (x.toNat >>> 4) ⟨0, 0⟩

/-- The `if` ladder on the lead byte: its payload bits and `following`. -/
def leadByte (b : UInt8) : Option (Nat × Nat) :=
  if b &&& 0x20 = 0 then some ((b &&& 0x1f).toNat, 1)
  else if b &&& 0x10 = 0 then some ((b &&& 0x0f).toNat, 2)
  else if b &&& 0x08 = 0 then some ((b &&& 0x07).toNat, 3)
  else if b &&& 0x04 = 0 then some ((b &&& 0x03).toNat, 4)
  else if b &&& 0x02 = 0 then some ((b &&& 0x01).toNat, 5)
  else none

/-- How the loop over the `following` bytes ends: `return -1`, `goto done`, or
with a code point and the suffix after it. -/
inductive Tail where
  | bad
  | cut
  | ok (c : Nat) (rest : List UInt8)

/-- `for (n = 0; n < following; n++)`, entered with `k = following - n` to go. -/
def tailBytes (ar : AcceptRange) : (n k c : Nat) → List UInt8 → Tail
  | _, 0, c, buf => .ok c buf
  | _, _ + 1, _, [] => .cut
  | n, k + 1, c, b :: buf =>
      if n = 0 ∧ (b < ar.lo ∨ b > ar.hi) then .bad
      else if b &&& 0x80 = 0 ∨ b &&& 0x40 ≠ 0 then .bad
      else tailBytes ar (n + 1) k ((c <<< 6) + (b &&& 0x3f).toNat) buf

/-- The multibyte branch at lead byte `b`. -/
def multibyte (b : UInt8) (buf : List UInt8) : Tail :=
  if first b = XX then .bad
  else match leadByte b with
    | none => .bad
    | some (c, following) => tailBytes (acceptRange (first b)) 0 following c buf

theorem tailBytes_length {ar : AcceptRange} {n k c : Nat} {buf rest : List UInt8} {d : Nat}
    (h : tailBytes ar n k c buf = .ok d rest) : rest.length ≤ buf.length := by
  induction k generalizing n c buf with
  | zero => cases h; exact Nat.le_refl _
  | succ k ih =>
      cases buf with
      | nil => cases h
      | cons b buf =>
          simp only [tailBytes] at h
          split at h
          · cases h
          split at h
          · cases h
          · exact Nat.le_succ_of_le (ih h)

theorem multibyte_length {b : UInt8} {buf rest : List UInt8} {d : Nat}
    (h : multibyte b buf = .ok d rest) : rest.length ≤ buf.length := by
  unfold multibyte at h
  split at h
  · cases h
  split at h
  · cases h
  · exact tailBytes_length h

/-- `if (ubuf) ubuf[(*ulen)++] = c`. -/
def store (u : Option Unichars) (c : Nat) : Option Unichars := u.map (·.push c)

/-- The main loop of `file_looks_utf8` from the suffix `buf`. -/
def looksUtf8 (u : Option Unichars) (ctrl gotone : Bool) (buf : List UInt8) :
    Int × Option Unichars :=
  match buf with
  | [] => (if ctrl then 0 else if gotone then 2 else 1, u)
  | b :: buf =>
      if b &&& 0x80 = 0 then
        looksUtf8 (store u b.toNat) (ctrl || textChars b.toNat != .T) gotone buf
      else if b &&& 0x40 = 0 then (-1, u)
      else match h : multibyte b buf with
        | .bad => (-1, u)
        | .cut => (if ctrl then 0 else if gotone then 2 else 1, u)
        | .ok c rest =>
            have := multibyte_length h
            looksUtf8 (store u c) ctrl true rest
  termination_by buf.length

/-- `file_looks_utf8(buf, nbytes, ubuf, ulen)`; `none` is a `NULL` `ubuf`. -/
def fileLooksUtf8 (buf : List UInt8) (u : Option Unichars) : Int × Option Unichars :=
  looksUtf8 (u.map Unichars.reset) false false buf

end Libmagic.Encoding
