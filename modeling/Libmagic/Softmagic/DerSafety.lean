import Libmagic.Cells
import Libmagic.Softmagic.Cstring
import Libmagic.Softmagic.DerWalk

/-!
# `der.c`: what is read and written

The routines of `der.c` with every byte that they read of the search region, and every byte that they write
to the buffer of `der_cmp`. A region is the first `l` bytes of what its pointer points to.
-/
namespace Libmagic.Softmagic

open Run Cells

/-! ## The routines -/

/-- The body of the loop of `gettag`. -/
def gettagRound (c : Bytes) (l : Nat) (s : Nat × Nat) : Run CellAccess ((Nat × Nat) ⊕ (Nat × Nat)) := do
  let b ← Cells.readAt c s.2
  if b.toNat < 0x80 then pure (.inr s)
  else do
    let b ← Cells.readAt c s.2
    let tag := (s.1 * 128 + b.toNat - 0x80) % 2 ^ 32
    if s.2 + 1 ≥ l then pure (.inr (DER_BAD, s.2 + 1)) else pure (.inl (tag, s.2 + 1))

def gettagIn (c : Window) (p l : Nat) : Run CellAccess (Nat × Nat) :=
  match c with
  | none => pure (DER_BAD, p)
  | some c =>
      if p ≥ l then pure (DER_BAD, p)
      else do
        let b ← Cells.readAt c p
        if b.toNat % 32 ≠ 0x1f then pure (b.toNat % 32, p + 1)
        else if p + 1 ≥ l then pure (DER_BAD, p + 1)
        else loop (gettagRound c l) l (b.toNat % 32, p + 1)

/-- The loop over the octets of a long length. -/
def lengthOctets (c : Bytes) : (digits p len : Nat) → Run CellAccess Nat
  | 0, _, len => pure len
  | digits + 1, p, len => do
      let b ← Cells.readAt c p
      lengthOctets c digits (p + 1) (len * 256 % 2 ^ 64 + b.toNat)

def getlengthIn (c : Bytes) (p l : Nat) : Run CellAccess (Nat × Nat) :=
  if p ≥ l then pure (DER_BAD, p)
  else do
    let onebyte ← Cells.readAt c p
    let b ← Cells.readAt c p
    let digits := b.toNat % 128
    if p + 1 + digits ≥ l then pure (DER_BAD, p + 1)
    else if onebyte.toNat < 0x80 then pure (digits, p + 1)
    else do
      let len ← lengthOctets c digits (p + 1) 0
      let p := p + 1 + digits
      if len > uN 64 (2 ^ 32 - 1 - p) ∨ (p + len) % 2 ^ 64 > l then pure (DER_BAD, p) else pure (len % 2 ^ 32, p)

/-- `snprintf(buf + i, size, ...)` of a text, where `size` is not 0. -/
def printInto (buf : Bytes) (i size : Nat) (text : Bytes) : Run CellAccess Bytes :=
  writeAll (text.take (size - 1) ++ [0]) i buf

def derTagIn (buf : Bytes) (tag : Nat) : Run CellAccess Bytes := printInto buf 0 128 (derTag tag)

/-- The text of `%.*s`, with the reads of its argument. -/
def readText (c : Bytes) : (len q : Nat) → Run CellAccess Bytes
  | 0, _ => pure []
  | len + 1, q => do
      let b ← Cells.readAt c q
      if b = 0 then pure []
      else do
        let text ← readText c len (q + 1)
        pure (b :: text)

/-- So many bytes. -/
def readBytes (c : Bytes) : (len q : Nat) → Run CellAccess Bytes
  | 0, _ => pure []
  | len + 1, q => do
      let b ← Cells.readAt c q
      let text ← readBytes c len (q + 1)
      pure (b :: text)

/-- The format of a time, with `d[0]` to `d[11]`. -/
def utctime (d : Bytes) : Bytes :=
  let pair (i : Nat) := (d.drop i).take 2
  asc "20" ++ pair 0 ++ asc "-" ++ pair 2 ++ asc "-" ++ pair 4 ++ asc " " ++ pair 6 ++ asc ":" ++ pair 8 ++
    asc ":" ++ pair 10 ++ asc " GMT"

/-- The loop of `der_data` from the index `i` on. -/
def hexBytes (c : Bytes) (q : Nat) : (todo i : Nat) → Bytes → Run CellAccess Bytes
  | 0, _, buf => pure buf
  | todo + 1, i, buf => do
      let z := i * 2 % 2 ^ 32
      if z < 126 then do
        let d ← Cells.readAt c (q + i)
        let buf ← printInto buf z (128 - z) (hexPadded false 2 d.toNat)
        hexBytes c q todo (i + 1) buf
      else hexBytes c q todo (i + 1) buf

/-- `der_data(buf, 128, tag, c + q, len)`. -/
def derDataIn (c buf : Bytes) (tag q len : Nat) : Run CellAccess Bytes :=
  if tag = 0x13 ∨ tag = 0x0c ∨ tag = 0x16 then do
    let text ← readText c len q
    printInto buf 0 128 text
  else if tag = 0x17 ∧ len ≥ 12 then do
    let d ← readBytes c 12 q
    printInto buf 0 128 (utctime d)
  else hexBytes c q len 0 buf

/-- `der_cmp(ms, m)`, where `buf` has any contents at first. -/
def derCmpIn (m : Magic) (search : Search) (v : Value) (buf : Bytes) : Run CellAccess (Option Bool × Value) := do
  let tag ← gettagIn search.s 0 search.sLen
  if tag.1 = DER_BAD then pure (none, v)
  else do
    let b := search.s.getD []
    let tlen ← getlengthIn b tag.2 search.sLen
    if tlen.1 = DER_BAD then pure (none, v)
    else do
      let buf ← derTagIn buf tag.1
      let name := cstring buf
      if !name.isPrefixOf m.value.str then pure (some false, v)
      else
        let s := m.value.str.drop name.length
        let digits := s.takeWhile isdigit
        let slen := digits.foldl (fun n c => n * 10 + (c.toNat - 0x30)) 0 % 2 ^ 64
        if digits ≠ [] ∧ tlen.1 ≠ slen then pure (some false, v)
        else match s.drop digits.length with
          | [] => pure (some true, v)
          | 0x3d :: s => do
              let buf ← derDataIn b buf tag.1 tlen.2 tlen.1
              let data := cstring buf
              if data ≠ s ∧ s ≠ asc "x" then pure (some false, v) else pure (some true, v.write 0 (data ++ [0]))
          | _ => pure (some false, v)

def derOffsIn (m : Magic) (search : Search) (offset nbytes : Nat) : Run CellAccess (Int × Option Int) := do
  let len := if search.sLen ≠ 0 then search.sLen else nbytes
  let tag ← gettagIn search.s 0 len
  if tag.1 = DER_BAD then pure (-1, none)
  else do
    let tlen ← getlengthIn (search.s.getD []) tag.2 len
    if tlen.1 = DER_BAD then pure (-1, none)
    else
      let offs := tlen.2 + uN 32 (offset + m.offset)
      if m.contLevel = 0 then pure (sN 32 offs, none)
      else if offs + tlen.1 > nbytes then pure (-1, none)
      else pure (sN 32 offs, some (sN 32 (offs + tlen.1)))

/-! ## Tag and length -/

section
variable {c : Bytes} {p l w : Nat}

theorem gettagLoop_meets (k tag : Nat) (inside : p < l) (enough : l ≤ p + k) :
    Meets (within l w) 0 (loop (gettagRound c l) k (tag, p)) (· = gettagLong c l k tag p) := by
  induction k generalizing tag p with
  | zero => exact absurd inside (by omega)
  | succ k ih =>
      have round : Meets (within l w) 0 (gettagRound c l (tag, p)) (fun r => r =
          if (c.getD p 0).toNat < 0x80 then .inr (tag, p)
          else if p + 1 ≥ l then .inr (DER_BAD, p + 1)
          else .inl ((tag * 128 + (c.getD p 0).toNat - 0x80) % 2 ^ 32, p + 1)) := by
        apply Meets.bind (readAt_meets inside)
        rintro b rfl
        apply Meets.ite
        · intro small
          exact Meets.pure (if_pos small).symm
        · intro large
          apply Meets.bind (readAt_meets inside)
          rintro b' rfl
          rw [if_neg large]
          apply Meets.ite
          · intro ends
            exact Meets.pure (if_pos ends).symm
          · intro more
            exact Meets.pure (if_neg more).symm
      apply Meets.bind round
      rintro r rfl
      rw [gettagLong]
      split_ifs with small ends
      · exact Meets.pure rfl
      · exact Meets.pure rfl
      · exact ih _ (by omega) (by omega)

theorem gettagIn_meets (c : Window) (p l : Nat) : Meets (within l w) 0 (gettagIn c p l) (· = gettag c p l) := by
  cases c with
  | none => exact Meets.pure rfl
  | some c =>
      rw [gettagIn, gettag]
      by_cases past : p ≥ l
      · rw [if_pos past, if_pos past]
        exact Meets.pure rfl
      · rw [if_neg past, if_neg past]
        apply Meets.bind (readAt_meets (Nat.not_le.mp past))
        rintro b rfl
        apply Meets.ite
        · intro low
          rw [if_pos low]
          exact Meets.pure rfl
        · intro high
          rw [if_neg high]
          apply Meets.ite
          · intro ends
            rw [if_pos ends]
            exact Meets.pure rfl
          · intro more
            rw [if_neg more]
            exact gettagLoop_meets l _ (by omega) (by omega)

theorem beNat_cons (b : UInt8) (bs : Bytes) : beNat (b :: bs) = b.toNat * 256 ^ bs.length + beNat bs := by
  rw [beNat_eq_load, beNat_eq_load, Order.load, Order.load, List.reverse_cons, List.map_append, List.map_singleton,
    Nat.ofDigits_append, List.length_map, List.length_reverse, Nat.ofDigits_singleton]
  ring

theorem lengthOctets_meets (digits : Nat) {len : Nat} (word : len < 2 ^ 64) (inside : p + digits ≤ l) (region : l ≤ c.length) :
    Meets (within l w) 0 (lengthOctets c digits p len)
      (· = (len * 256 ^ digits + beNat ((c.drop p).take digits)) % 2 ^ 64) := by
  induction digits generalizing p len with
  | zero =>
      apply Meets.pure
      rw [Nat.pow_zero, Nat.mul_one, List.take_zero]
      exact (Nat.mod_eq_of_lt word).symm
  | succ digits ih =>
      have octet : p < c.length := by omega
      have small : (c.getD p 0).toNat < 256 := (c.getD p 0).toNat_lt
      apply Meets.bind (readAt_meets (show p < l by omega))
      rintro b rfl
      refine (@ih (p + 1) (len * 256 % 2 ^ 64 + (c.getD p 0).toNat) (by omega) (by omega)).mono (Nat.le_refl 0) ?_
      rintro r rfl
      have rest : ((c.drop (p + 1)).take digits).length = digits := by
        rw [List.length_take, List.length_drop]
        omega
      rw [List.drop_eq_getElem_cons octet, List.take_succ_cons, ← List.getD_eq_getElem _ 0 octet, beNat_cons, rest]
      have shifted : len * 256 % 2 ^ 64 + (c.getD p 0).toNat ≡ len * 256 + (c.getD p 0).toNat [MOD 2 ^ 64] :=
        (Nat.mod_modEq _ _).add_right _
      refine ((shifted.mul_right _).add_right _).trans ?_
      rw [show (len * 256 + (c.getD p 0).toNat) * 256 ^ digits + beNat ((c.drop (p + 1)).take digits) =
        len * 256 ^ (digits + 1) + ((c.getD p 0).toNat * 256 ^ digits + beNat ((c.drop (p + 1)).take digits)) by ring]

theorem getlengthIn_meets (region : l ≤ c.length) : Meets (within l w) 0 (getlengthIn c p l) (· = getlength c p l) := by
  rw [getlengthIn, getlength]
  by_cases past : p ≥ l
  · rw [if_pos past, if_pos past]
    exact Meets.pure rfl
  · rw [if_neg past, if_neg past]
    apply Meets.bind (readAt_meets (Nat.not_le.mp past))
    rintro onebyte rfl
    apply Meets.bind (readAt_meets (Nat.not_le.mp past))
    rintro b rfl
    dsimp only
    apply Meets.ite
    · intro cut
      rw [if_pos cut]
      exact Meets.pure rfl
    · intro whole
      rw [if_neg whole]
      apply Meets.ite
      · intro short
        rw [if_pos short]
        exact Meets.pure rfl
      · intro long
        rw [if_neg long]
        apply Meets.bind (lengthOctets_meets ((c.getD p 0).toNat % 128) (by decide) (by omega) region)
        rintro len rfl
        rw [Nat.zero_mul, Nat.zero_add]
        apply Meets.ite
        · intro wide
          rw [if_pos wide]
          exact Meets.pure rfl
        · intro fits
          rw [if_neg fits]
          exact Meets.pure rfl

end

/-! ## The buffer -/

section
variable {buf text : Bytes} {i r w : Nat}

/-- The buffer has 128 bytes, with the text and a NUL behind its first bytes. -/
structure Holds (out front text : Bytes) : Prop where
  length : out.length = 128
  front : out.take (front.length + text.length + 1) = front ++ text ++ [0]

theorem printInto_meets (size : buf.length = 128) (room : i + text.length < 128) :
    Meets (within r 128) 0 (printInto buf i (128 - i) text) (fun out => Holds out (buf.take i) text) := by
  have whole : text.take (128 - i - 1) = text := List.take_of_length_le (by omega)
  have start : (buf.take i).length = i := by
    rw [List.length_take]
    omega
  have more : (text ++ [0]).length = text.length + 1 := List.length_append
  rw [printInto, whole]
  refine (writeAll_meets (by omega) (le_of_eq size)).mono (Nat.le_refl 0) ?_
  rintro out rfl
  constructor
  · rw [List.length_append, List.length_append, start, more, List.length_drop]
    omega
  · rw [List.take_append_of_le_length (by rw [List.length_append, more]; omega), List.append_assoc]
    exact List.take_of_length_le (by rw [List.length_append, more]; omega)

/-- A text that is cut where the buffer ends. -/
theorem printInto_cut (size : buf.length = 128) :
    Meets (within r 128) 0 (printInto buf 0 128 text) (fun out => Holds out [] (text.take 127)) := by
  have room : 0 + (text.take 127).length < 128 := by
    rw [List.length_take]
    omega
  have cut := printInto_meets (r := r) size room
  rwa [printInto, List.take_take] at cut

theorem Holds.cstring_eq {out front text : Bytes} (holds : Holds out front text) :
    cstring out = cstring (front ++ text) := by
  rw [← List.take_append_drop (front.length + text.length + 1) out, holds.front, List.append_assoc,
    List.singleton_append, cstring_append_zero]

theorem Holds.terminated {out front text : Bytes} (holds : Holds out front text) : 0 ∈ out := by
  have mem : 0 ∈ out.take (front.length + text.length + 1) := by
    rw [holds.front]
    exact List.mem_append_right _ (List.mem_singleton_self 0)
  exact List.mem_of_mem_take mem

end

/-! ## `der_data` -/

section
variable {c buf : Bytes} {q l w : Nat}

theorem readText_meets (len : Nat) (inside : q + len ≤ l) (region : l ≤ c.length) :
    Meets (within l w) 0 (readText c len q) (· = cstring ((c.drop q).take len)) := by
  induction len generalizing q with
  | zero =>
      apply Meets.pure
      rw [List.take_zero]
      rfl
  | succ len ih =>
      have octet : q < c.length := by omega
      have head : (c.drop q).take (len + 1) = c.getD q 0 :: (c.drop (q + 1)).take len := by
        rw [List.drop_eq_getElem_cons octet, List.take_succ_cons, List.getD_eq_getElem]
      apply Meets.bind (readAt_meets (show q < l by omega))
      rintro b rfl
      rw [head, cstring, List.takeWhile_cons]
      apply Meets.ite
      · intro zero
        rw [zero]
        exact Meets.pure rfl
      · intro char
        rw [if_pos (bne_iff_ne.mpr char)]
        apply Meets.bind (ih (by omega))
        rintro text rfl
        exact Meets.pure rfl

theorem readBytes_meets (len : Nat) (inside : q + len ≤ l) (region : l ≤ c.length) :
    Meets (within l w) 0 (readBytes c len q) (· = (c.drop q).take len) := by
  induction len generalizing q with
  | zero => exact Meets.pure (List.take_zero).symm
  | succ len ih =>
      have octet : q < c.length := by omega
      apply Meets.bind (readAt_meets (show q < l by omega))
      rintro b rfl
      apply Meets.bind (ih (by omega))
      rintro text rfl
      apply Meets.pure
      rw [List.drop_eq_getElem_cons octet, List.take_succ_cons, List.getD_eq_getElem]

/-- The digits of the bytes that have room. -/
def hexText (bs : Bytes) : Bytes := (bs.take 63).flatMap (fun b => hexPadded false 2 b.toNat)

/-- The buffer after rounds over the bytes `bs`, which held `old` before. -/
def HexState (old bs buf : Bytes) : Prop := if bs = [] then buf = old else Holds buf [] (hexText bs)

theorem hexText_length (bs : Bytes) : (hexText bs).length = 2 * (bs.take 63).length := by
  rw [hexText]
  induction bs.take 63 with
  | nil => rfl
  | cons b bs ih =>
      rw [List.flatMap_cons, List.length_append, ih, hexPadded_length, List.length_cons]
      ring

theorem hexText_concat (bs : Bytes) (b : UInt8) (room : bs.length < 63) :
    hexText (bs ++ [b]) = hexText bs ++ hexPadded false 2 b.toNat := by
  rw [hexText, hexText, List.take_of_length_le (by rw [List.length_append, List.length_singleton]; omega),
    List.take_of_length_le (by omega), List.flatMap_append, List.flatMap_singleton]

theorem hexText_full (bs : Bytes) (b : UInt8) (full : 63 ≤ bs.length) : hexText (bs ++ [b]) = hexText bs := by
  rw [hexText, hexText, List.take_append_of_le_length full]

theorem HexState.length {old bs buf : Bytes} (size : old.length = 128) (state : HexState old bs buf) : buf.length = 128 := by
  rw [HexState] at state
  split_ifs at state
  · rw [state, size]
  · exact state.length

theorem HexState.front {old bs buf : Bytes} (state : HexState old bs buf) : buf.take (hexText bs).length = hexText bs := by
  rw [HexState] at state
  split_ifs at state with none
  · rw [none]
    exact List.take_zero
  · have front := state.front
    rw [List.length_nil, Nat.zero_add, List.nil_append] at front
    have cut := congrArg (List.take (hexText bs).length) front
    rwa [List.take_take, Nat.min_eq_left (Nat.le_succ _), List.take_left] at cut

/-- One more byte. -/
theorem hexState_concat {old bs buf : Bytes} {b : UInt8} (holds : Holds buf [] (hexText (bs ++ [b]))) :
    HexState old (bs ++ [b]) buf := by
  rw [HexState, if_neg (List.append_ne_nil_of_right_ne_nil _ (List.cons_ne_nil _ _))]
  exact holds

theorem hexBytes_meets {old : Bytes} (size : old.length = 128) (region : l ≤ c.length) (todo i : Nat)
    (inside : q + (i + todo) ≤ l) (small : i + todo < 2 ^ 31) (state : HexState old ((c.drop q).take i) buf) :
    Meets (within l 128) 0 (hexBytes c q todo i buf) (HexState old ((c.drop q).take (i + todo))) := by
  induction todo generalizing i buf with
  | zero => exact Meets.pure state
  | succ todo ih =>
      have octet : i < (c.drop q).length := by
        rw [List.length_drop]
        omega
      have next : (c.drop q).take (i + 1) = (c.drop q).take i ++ [c.getD (q + i) 0] := by
        rw [List.take_succ_eq_append_getElem octet, List.getElem_drop, List.getD_eq_getElem]
      have done : ((c.drop q).take i).length = i := by
        rw [List.length_take]
        omega
      have word : i * 2 % 2 ^ 32 = i * 2 := Nat.mod_eq_of_lt (by omega)
      rw [hexBytes, word, show i + (todo + 1) = i + 1 + todo by omega]
      apply Meets.ite
      · intro room
        have digits : (hexText ((c.drop q).take i)).length = i * 2 := by
          rw [hexText_length, List.take_of_length_le (by omega), done, Nat.mul_comm]
        apply Meets.bind (readAt_meets (show q + i < l by omega))
        rintro d rfl
        apply Meets.bind (printInto_meets (state.length size) (by rw [hexPadded_length]; omega))
        intro out holds
        apply ih (i + 1) (by omega) (by omega)
        rw [next]
        apply hexState_concat
        rw [hexText_concat _ _ (by omega)]
        rw [← digits, state.front] at holds
        refine ⟨holds.length, ?_⟩
        have front := holds.front
        rwa [List.length_nil, Nat.zero_add, List.nil_append, List.length_append]
      · intro full
        apply ih (i + 1) (by omega) (by omega)
        rw [next]
        apply hexState_concat
        rw [hexText_full _ _ (by omega)]
        rw [HexState, if_neg (fun none => by rw [none, List.length_nil] at done; omega)] at state
        exact state

theorem zero_notMem_hexPadded (upper : Bool) (width n : Nat) : 0 ∉ hexPadded upper width n := by
  induction width generalizing n with
  | zero => exact List.not_mem_nil
  | succ width ih =>
      rw [hexPadded, List.mem_append, List.mem_singleton]
      rintro (mem | zero)
      · exact ih _ mem
      · exact hexDigit_ne_zero upper (Nat.mod_lt _ (by decide)) zero.symm

theorem zero_notMem_hexText (bs : Bytes) : 0 ∉ hexText bs := by
  intro mem
  obtain ⟨b, -, mem⟩ := List.mem_flatMap.mp mem
  exact zero_notMem_hexPadded _ _ _ mem

theorem utctime_take (d : Bytes) : utctime (d.take 12) = utctime d := by
  have pair (i : Nat) (inside : i + 2 ≤ 12) : ((d.take 12).drop i).take 2 = (d.drop i).take 2 := by
    rw [List.drop_take, List.take_take, Nat.min_eq_left (by omega)]
  simp only [utctime, pair 0 (by decide), pair 2 (by decide), pair 4 (by decide), pair 6 (by decide),
    pair 8 (by decide), pair 10 (by decide)]

theorem utctime_length (d : Bytes) : (utctime d).length ≤ 127 := by
  have pair (i : Nat) : ((d.drop i).take 2).length ≤ 2 := List.length_take_le _ _
  have := pair 0
  have := pair 2
  have := pair 4
  have := pair 6
  have := pair 8
  have := pair 10
  have literals : (asc "20").length = 2 ∧ (asc "-").length = 1 ∧ (asc " ").length = 1 ∧ (asc ":").length = 1 ∧
      (asc " GMT").length = 4 := by decide
  simp only [utctime, List.length_append]
  omega

/-- A string that ends in the buffer of `der_cmp`. -/
structure Terminated (buf : Bytes) : Prop where
  length : buf.length = 128
  zero : 0 ∈ buf

/-- `der_data` reads the contents and leaves a string in the buffer. -/
theorem derDataIn_meets {len : Nat} (tag : Nat) (terminated : Terminated buf) (inside : q + len ≤ l) (region : l ≤ c.length)
    (small : len < 2 ^ 31) :
    Meets (within l 128) 0 (derDataIn c buf tag q len)
      (fun out => Terminated out ∧ cstring out = derData (cstring buf) tag (c.drop q) len) := by
  rw [derDataIn, derData]
  apply Meets.ite
  · intro string
    rw [if_pos string]
    apply Meets.bind (readText_meets len inside region)
    rintro text rfl
    refine (printInto_cut terminated.length).mono (Nat.le_refl 0) fun out holds => ⟨⟨holds.length, holds.terminated⟩, ?_⟩
    rw [holds.cstring_eq, List.nil_append]
    exact cstring_self fun mem => zero_notMem_cstring _ (List.mem_of_mem_take mem)
  · intro other
    rw [if_neg other]
    apply Meets.ite
    · intro time
      rw [if_pos time]
      apply Meets.bind (readBytes_meets 12 (by omega) region)
      rintro d rfl
      refine (printInto_cut terminated.length).mono (Nat.le_refl 0) fun out holds => ⟨⟨holds.length, holds.terminated⟩, ?_⟩
      rw [holds.cstring_eq, List.nil_append, utctime_take, List.take_of_length_le (utctime_length _)]
      rfl
    · intro plain
      rw [if_neg plain]
      have start : HexState buf ((c.drop q).take 0) buf := by rw [HexState, List.take_zero, if_pos rfl]
      refine (hexBytes_meets terminated.length region len 0 (by omega) (by omega) start).mono (Nat.le_refl 0) fun out state => ?_
      rw [Nat.zero_add, HexState] at state
      by_cases empty : len = 0
      · rw [if_pos (by rw [empty, List.take_zero])] at state
        rw [if_pos empty, state]
        exact ⟨terminated, rfl⟩
      · have some : (c.drop q).take len ≠ [] := by
          rw [← List.length_pos_iff_ne_nil, List.length_take, List.length_drop]
          omega
        rw [if_neg some] at state
        rw [if_neg empty]
        refine ⟨⟨state.length, state.terminated⟩, ?_⟩
        rw [state.cstring_eq, List.nil_append, cstring_self (zero_notMem_hexText _)]
        rfl

end

/-! ## `der_cmp` and `der_offs` -/

theorem derTags_clean : ∀ name ∈ derTags, 0 ∉ asc name ∧ (asc name).length ≤ 127 := by decide

theorem zero_notMem_toDigits (n : Nat) : 0 ∉ asc (String.ofList (Nat.toDigits 16 n)) := by
  have digit : ∀ d < 16, UInt8.ofNat (Nat.digitChar d).toNat ≠ 0 := by decide
  rw [asc, String.toList_ofList]
  induction n using Nat.strongRecOn with
  | ind n ih =>
      rw [Nat.toDigits_eq_if (by decide)]
      split_ifs with small
      · rw [List.map_singleton, List.mem_singleton]
        exact fun zero => digit n small zero.symm
      · rw [List.map_append, List.mem_append, List.map_singleton, List.mem_singleton]
        rintro (mem | zero)
        · exact ih _ (Nat.div_lt_self (by omega) (by decide)) mem
        · exact digit _ (Nat.mod_lt _ (by decide)) zero.symm

theorem derTag_clean {tag : Nat} (word : tag < 2 ^ 32) : 0 ∉ derTag tag ∧ (derTag tag).length ≤ 127 := by
  rw [derTag]
  cases found : derTags[tag]? with
  | some name => exact derTags_clean name (List.mem_of_getElem? found)
  | none =>
      have digits : (asc (String.ofList (Nat.toDigits 16 tag))).length ≤ 8 := by
        rw [asc, List.length_map, String.toList_ofList, Nat.length_toDigits_le_iff (by decide) (by decide)]
        exact word
      constructor
      · rw [List.mem_append]
        rintro (mem | mem)
        · exact absurd mem (by decide)
        · exact zero_notMem_toDigits tag mem
      · rw [List.length_append]
        have front : (asc "0x").length = 2 := rfl
        omega

theorem gettagLong_lt (c : Bytes) (l n : Nat) {tag : Nat} (word : tag < 2 ^ 32) (p : Nat) : (gettagLong c l n tag p).1 < 2 ^ 32 := by
  induction n generalizing tag p with
  | zero => exact (by decide : DER_BAD < 2 ^ 32)
  | succ n ih =>
      rw [gettagLong]
      split_ifs
      · exact word
      · exact (by decide : DER_BAD < 2 ^ 32)
      · exact ih (Nat.mod_lt _ (by decide)) _

theorem gettag_lt (c : Window) (p l : Nat) : (gettag c p l).1 < 2 ^ 32 := by
  cases c with
  | none => exact (by decide : DER_BAD < 2 ^ 32)
  | some c =>
      have low : (c.getD p 0).toNat % 32 < 32 := Nat.mod_lt _ (by decide)
      simp only [gettag]
      split_ifs
      · exact (by decide : DER_BAD < 2 ^ 32)
      · exact Nat.lt_of_lt_of_le low (by decide)
      · exact (by decide : DER_BAD < 2 ^ 32)
      · exact gettagLong_lt c l l (Nat.lt_of_lt_of_le low (by decide)) _

section
variable {buf : Bytes} {r : Nat}

theorem derTagIn_meets (size : buf.length = 128) {tag : Nat} (word : tag < 2 ^ 32) :
    Meets (within r 128) 0 (derTagIn buf tag) (fun out => Terminated out ∧ cstring out = derTag tag) := by
  obtain ⟨clean, short⟩ := derTag_clean word
  refine (printInto_cut size).mono (Nat.le_refl 0) fun out holds => ⟨⟨holds.length, holds.terminated⟩, ?_⟩
  rw [holds.cstring_eq, List.nil_append, List.take_of_length_le short, cstring_self clean]

end

section
variable {m : Magic} {search : Search} {v : Value} {buf : Bytes} (region : search.sLen ≤ flen search.s)
include region

theorem derCmpIn_meets (small : search.sLen < 2 ^ 31) (size : buf.length = 128) :
    Meets (within search.sLen 128) 0 (derCmpIn m search v buf) (· = derCmp m search v) := by
  rw [derCmpIn, derCmp]
  apply Meets.bind (gettagIn_meets search.s 0 search.sLen)
  rintro tag rfl
  apply Meets.ite
  · intro bad
    rw [if_pos bad]
    exact Meets.pure rfl
  · intro good
    dsimp only
    rw [if_neg good]
    apply Meets.bind (getlengthIn_meets region)
    rintro tlen rfl
    apply Meets.ite
    · intro bad
      rw [if_pos bad]
      exact Meets.pure rfl
    · intro good'
      rw [if_neg good']
      apply Meets.bind (derTagIn_meets size (gettag_lt _ _ _))
      rintro buf' ⟨terminated, name⟩
      rw [name]
      have word : search.sLen < 2 ^ 32 := Nat.lt_trans small (by decide)
      have inside := getlength_inside word good'
      generalize gettag search.s 0 search.sLen = tag at good good' inside name ⊢
      generalize getlength (search.s.getD []) tag.2 search.sLen = tlen at good' inside ⊢
      apply Meets.ite
      · intro other
        rw [if_pos other]
        exact Meets.pure rfl
      · intro same
        rw [if_neg same]
        apply Meets.ite
        · intro other
          rw [if_pos other]
          exact Meets.pure rfl
        · intro length
          rw [if_neg length]
          generalize (m.value.str.drop (derTag tag.1).length).drop
            ((m.value.str.drop (derTag tag.1).length).takeWhile isdigit).length = rest
          split
          · exact Meets.pure rfl
          · apply Meets.bind (derDataIn_meets tag.1 terminated inside region (by omega))
            rintro buf'' ⟨-, data⟩
            rw [data, name]
            apply Meets.ite
            · exact fun other => Meets.pure (if_pos other).symm
            · exact fun same => Meets.pure (if_neg same).symm
          · rename_i none some
            apply Meets.pure
            grind

theorem derOffsIn_meets (nonempty : search.sLen ≠ 0) (offset nbytes : Nat) :
    Meets (within search.sLen 128) 0 (derOffsIn m search offset nbytes) (· = derOffs m search offset nbytes) := by
  rw [derOffsIn, derOffs, if_pos nonempty]
  apply Meets.bind (gettagIn_meets search.s 0 search.sLen)
  rintro tag rfl
  apply Meets.ite
  · intro bad
    rw [if_pos bad]
    exact Meets.pure rfl
  · intro good
    rw [if_neg good]
    apply Meets.bind (getlengthIn_meets region)
    rintro tlen rfl
    apply Meets.ite
    · intro bad
      rw [if_pos bad]
      exact Meets.pure rfl
    · intro good'
      rw [if_neg good']
      dsimp only
      split_ifs
      all_goals exact Meets.pure rfl

/-- `der_cmp` reads only the search region, where the contents that it compares are, and writes only its buffer, where
`der_data` leaves a string; behind a match `der_offs` reads only the region. -/
theorem der_safe (m : Magic) (v : Value) (small : search.sLen < 2 ^ 31) (size : buf.length = 128) :
    ((∀ e ∈ (derCmpIn m search v buf).events, e.within search.sLen 128) ∧
        (derCmpIn m search v buf).value = some (derCmp m search v)) ∧
      (∀ tag tlen, gettag search.s 0 search.sLen = tag → tag.1 ≠ DER_BAD →
        getlength (search.s.getD []) tag.2 search.sLen = tlen → tlen.1 ≠ DER_BAD →
        tlen.2 + tlen.1 ≤ search.sLen ∧
          ∀ buf', Terminated buf' →
            (∀ e ∈ (derDataIn (search.s.getD []) buf' tag.1 tlen.2 tlen.1).events, e.within search.sLen 128) ∧
              ∃ out, (derDataIn (search.s.getD []) buf' tag.1 tlen.2 tlen.1).value = some out ∧ Terminated out ∧
                cstring out = derData (cstring buf') tag.1 ((search.s.getD []).drop tlen.2) tlen.1) ∧
      ((derCmp m search v).1 = some true → ∀ offset nbytes,
        (∀ e ∈ (derOffsIn m search offset nbytes).events, e.within search.sLen 128) ∧
          (derOffsIn m search offset nbytes).value = some (derOffs m search offset nbytes)) := by
  refine ⟨?_, ?_, ?_⟩
  · obtain ⟨allowed, -, r, value, rfl⟩ := derCmpIn_meets (m := m) (v := v) region small size
    exact ⟨allowed, value⟩
  · rintro tag tlen rfl - rfl good
    have inside := getlength_inside (Nat.lt_trans small (by decide)) good
    refine ⟨inside, fun buf' terminated => ?_⟩
    obtain ⟨allowed, -, out, value, done⟩ := derDataIn_meets _ terminated inside region
      (Nat.lt_of_le_of_lt (Nat.le_trans (Nat.le_add_left _ _) inside) small)
    exact ⟨allowed, out, value, done⟩
  · intro matched offset nbytes
    obtain ⟨allowed, -, r, value, rfl⟩ :=
      derOffsIn_meets (m := m) region (derCmp_hasElement matched).nonempty offset nbytes
    exact ⟨allowed, value⟩

/-- `der int1=05`. -/
def intLine : Magic := { plainLine with type := .der, value := Value.zero.write 0 (asc "int1=05") }

def oneInteger : Search := ⟨some [0x02, 0x01, 0x05, 0xff], 4, 0, 0⟩

omit region in
/-- The one byte of an integer is compared. -/
theorem der_safe_int :
    (derCmpIn intLine oneInteger .zero (List.replicate 128 0xff)).value = some (derCmp intLine oneInteger .zero) ∧
      ∀ e ∈ (derCmpIn intLine oneInteger .zero (List.replicate 128 0xff)).events, e.within 4 128 := by
  have region : oneInteger.sLen ≤ flen oneInteger.s := by decide
  have run := (der_safe region intLine .zero (by decide) (List.length_replicate (a := (0xff : UInt8)))).1
  exact ⟨run.2, run.1⟩

end

end Libmagic.Softmagic
