import Libmagic.Cells
import Libmagic.Softmagic.Numeric
import Libmagic.Softmagic.RegexWindow

/-!
# `softmagic.c`: `mcopy` in memory

`mcopy` with every byte that it reads of the buffer and writes to the union, and what the union or the
window holds in the terms of the buffer.
-/
namespace Libmagic.Softmagic

open Run

/-! ## The routine -/

/-- The end of `mcopy`, for a value of so many bytes. -/
def copyIn (size : Nat) (s : Bytes) (offset : Nat) (p : Bytes) : Run CellAccess Bytes :=
  if offset ≥ s.length then Cells.writeAll (List.replicate 128 0) 0 p
  else do
    let n := if s.length - offset < size then s.length - offset else size
    let p ← Cells.memcpy s n offset 0 p
    if n < 128 then Cells.writeAll (List.replicate (128 - n) 0) n p else pure p

/-- `src` and `dst` as indices, and the union. -/
structure Copying16 where
  src : Nat
  dst : Nat
  p : Bytes

/-- Whether the other byte of a unit is there and not 0. -/
def wide16 (big : Bool) (s : Bytes) (src : Nat) : Run CellAccess Bool :=
  if big then do
    let x ← Cells.readAt s (src - 1)
    pure (decide (x ≠ 0))
  else if src + 1 < s.length then do
    let x ← Cells.readAt s (src + 1)
    pure (decide (x ≠ 0))
  else pure false

def string16Round (big : Bool) (s : Bytes) (t : Copying16) : Run CellAccess (Copying16 ⊕ Copying16) :=
  if t.src ≥ s.length then pure (.inr t)
  else if t.dst ≥ 127 then pure (.inr t)
  else do
    let c ← Cells.readAt s t.src
    let p ← Cells.writeAt t.p t.dst c
    if c = 0 then do
      let wide ← wide16 big s t.src
      if wide then do
        let p ← Cells.writeAt p t.dst 0x20
        pure (.inl ⟨t.src + 2, t.dst + 1, p⟩)
      else pure (.inl ⟨t.src + 2, t.dst + 1, p⟩)
    else pure (.inl ⟨t.src + 2, t.dst + 1, p⟩)

/-- The `FILE_BESTRING16` and `FILE_LESTRING16` cases, where `offset` is inside. -/
def string16In (big : Bool) (s : Bytes) (offset : Nat) (p : Bytes) : Run CellAccess Bytes := do
  let t ← loop (string16Round big s) 128 ⟨if big then offset + 1 else offset, 0, p⟩
  let p ← Cells.writeAt t.p 127 0
  Cells.writeAt p t.dst 0

/-- `memchr(s + i, c, l)`. -/
def memchrIn (s : Bytes) (c : UInt8) : (l i : Nat) → Run CellAccess (Option Nat)
  | 0, _ => pure none
  | l + 1, i => do
      let x ← Cells.readAt s i
      if x = c then pure (some i) else memchrIn s c l (i + 1)

/-- From the line end at `b`, the one byte or the two that the loop goes on. -/
def skipEndIn (s : Bytes) (fin b : Nat) : Run CellAccess Nat := do
  let b ← (if b + 1 < fin then do
      let x ← Cells.readAt s b
      if x = 0x0d then do
        let y ← Cells.readAt s (b + 1)
        pure (if y = 0x0a then b + 1 else b)
      else pure b
    else pure b)
  if b + 1 < fin then do
    let x ← Cells.readAt s b
    pure (if x = 0x0a then b + 1 else b)
  else pure b

/-- The loop over lines of the `FILE_REGEX` case, up to `fin`. -/
def regexLinesIn (s : Bytes) (fin : Nat) : (lines b last : Nat) → Run CellAccess (Nat × Nat)
  | 0, _, last => pure (0, last)
  | lines + 1, b, last =>
      if fin ≤ b then pure (lines + 1, last)
      else do
        let lf ← memchrIn s 0x0a (fin - b) b
        let found ← (match lf with
          | some b => pure (some b)
          | none => memchrIn s 0x0d (fin - b) b)
        match found with
        | none => pure (lines + 1, last)
        | some b => do
            let b ← skipEndIn s fin b
            regexLinesIn s fin lines (b + 1) b

/-- The `FILE_REGEX` case. -/
def mcopyRegexIn (regexMax : Nat) (m : Magic) (s : Window) (offset : Nat) (search : Search) : Run CellAccess Search :=
  match s with
  | none => pure { search with sLen := 0, s := none }
  | some s =>
      if s.length < offset then pure { search with sLen := 0, s := none }
      else do
        let lineCount := has m.strFlags REGEX_LINE_COUNT
        let linecnt := if lineCount then m.strRange else 0
        let bytecnt := if lineCount then linecnt * 80 else m.strRange
        let bytecnt := if bytecnt = 0 ∨ bytecnt > s.length - offset then s.length - offset else bytecnt
        let bytecnt := if bytecnt > regexMax then regexMax else bytecnt
        let fin := offset + bytecnt
        let r ← regexLinesIn s fin linecnt offset fin
        let last := if r.1 ≠ 0 then fin else r.2
        pure { s := some (s.drop offset), sLen := last - offset, offset, rmLen := 0 }

/-- `size`, with the string range of a direct `FILE_STRING` or `FILE_PSTRING`. -/
def copySize (type : MType) (indir : Bool) (m : Magic) : Nat :=
  if ¬ indir ∧ (type = .string ∨ type = .pstring) ∧ m.strRange ≠ 0 ∧ m.strRange < 128 then m.strRange else 128

/-- `mcopy(ms, p, type, indir, s, offset, nbytes, m)` of all `nbytes` bytes of `s`: the union and `ms->search`. -/
def mcopyIn (regexMax : Nat) (v : Value) (search : Search) (host : Host) (type : MType) (indir : Bool) (s : Window)
    (offset : Nat) (m : Magic) : Run CellAccess (Bytes × Search) := do
  let text := s.getD []
  let string16 := type = .bestring16 ∨ type = .lestring16
  if ¬ indir ∧ (type = .der ∨ type = .search) then
    let offset := if offset > flen s then flen s else offset
    pure (v.bytes, { search with s := s.map (·.drop offset), sLen := flen s - offset, offset })
  else if ¬ indir ∧ type = .regex then do
    let search ← mcopyRegexIn regexMax m s offset search
    pure (v.bytes, search)
  else if ¬ indir ∧ string16 ∧ offset < flen s then do
    let p ← string16In (type == .bestring16) text offset v.bytes
    pure (p, search)
  else if type = .offset then do
    let p ← Cells.writeAll (List.replicate 128 0) 0 v.bytes
    let p ← Cells.writeAll (if host.bigendian then (leBytes 8 offset).reverse else leBytes 8 offset) 0 p
    pure (p, search)
  else do
    let p ← copyIn (copySize type indir m) text offset v.bytes
    pure (p, search)

/-! ## Bytes that are copied -/

section

variable {s p : Bytes} {offset size : Nat}

/-- Bytes at the front of the union, and zeros behind them. -/
def padded (bs : Bytes) : Bytes := bs ++ List.replicate (128 - bs.length) 0

theorem zero_write {bs : Bytes} (fits : bs.length ≤ 128) : (Value.zero.write 0 bs).bytes = padded bs := by
  have whole : (bs ++ List.replicate (128 - bs.length) (0 : UInt8)).length ≤ 128 := by
    rw [List.length_append, List.length_replicate]
    omega
  simp only [Value.write, Value.zero, List.take_zero, List.nil_append, Nat.zero_add, List.drop_replicate]
  exact List.take_of_length_le whole

theorem fill_meets {text : Bytes} {i r : Nat} (length : p.length = 128) (fills : i + text.length = 128) :
    Meets (Cells.within r 128) 0 (Cells.writeAll text i p) (· = p.take i ++ text) := by
  refine (Cells.writeAll_meets (by omega) (Nat.le_of_eq length)).mono (Nat.le_refl 0) ?_
  rintro p' rfl
  rw [List.drop_eq_nil_of_le (by omega), List.append_nil]

theorem copyIn_meets (fits : size ≤ 128) (length : p.length = 128) :
    Meets (Cells.within s.length 128) 0 (copyIn size s offset p) (· = padded ((s.drop offset).take size)) := by
  apply Meets.ite
  · intro behind
    have none : (s.drop offset).take size = [] := by rw [List.drop_eq_nil_of_le behind, List.take_nil]
    rw [none]
    refine (fill_meets length (by rw [List.length_replicate])).mono (Nat.le_refl 0) ?_
    rintro p' rfl
    rw [List.take_zero, List.nil_append, padded, List.nil_append, List.length_nil, Nat.sub_zero]
  · intro inside
    have count : (if s.length - offset < size then s.length - offset else size) = ((s.drop offset).take size).length := by
      rw [List.length_take, List.length_drop]
      split_ifs <;> omega
    have most : ((s.drop offset).take size).length ≤ 128 := Nat.le_trans (List.length_take_le _ _) fits
    have short : offset + ((s.drop offset).take size).length ≤ s.length := by
      rw [List.length_take, List.length_drop]
      omega
    have source : ∀ i, i < ((s.drop offset).take size).length →
        s.getD (offset + i) 0 = ((s.drop offset).take size).getD i 0 := by
      intro i lt
      rw [getD_take_drop, if_pos (Nat.lt_of_lt_of_le lt (List.length_take_le _ _))]
    dsimp only
    rw [count]
    apply Meets.bind (Cells.memcpy_meets short source (by omega) (Nat.le_of_eq length))
    rintro p' ⟨length', front⟩
    rw [Nat.zero_add, List.take_zero, List.nil_append] at front
    apply Meets.ite
    · intro less
      refine (fill_meets (length'.trans length) (by rw [List.length_replicate]; omega)).mono (Nat.le_refl 0) ?_
      rintro p'' rfl
      rw [front, padded]
    · intro full
      apply Meets.pure
      have all : ((s.drop offset).take size).length = 128 := by omega
      rw [all, List.take_of_length_le (by omega)] at front
      rw [front, padded, all, Nat.sub_self, List.replicate_zero, List.append_nil]

end

/-! ## Two-byte characters -/

/-- The units of a text as their low and high bytes. -/
def units16 (big : Bool) : Bytes → List (UInt8 × UInt8)
  | a :: b :: s => (if big then (b, a) else (a, b)) :: units16 big s
  | [a] => if big then [] else [(a, 0)]
  | [] => []

/-- The low byte, or a blank for a NUL with a high byte. -/
def shown16 (u : UInt8 × UInt8) : UInt8 := if u.1 = 0 ∧ u.2 ≠ 0 then 0x20 else u.1

/-- What the union holds of the units. -/
def text16 (big : Bool) (s : Bytes) : Bytes := ((units16 big s).take 127).map shown16

theorem mcopyString16_eq (big : Bool) (room : Nat) (s : Bytes) :
    mcopyString16 big room s = ((units16 big s).take room).map shown16 := by
  induction room generalizing s with
  | zero => rfl
  | succ room ih =>
      match s with
      | [] => rfl
      | [a] =>
          cases big with
          | true => rfl
          | false => simp [mcopyString16, units16, shown16]
      | a :: b :: s => cases big <;> simp [mcopyString16, units16, shown16, ih]

section

variable {big : Bool} {s v : Bytes} {offset u : Nat}

theorem units16_cons (inside : u < s.length) (both : big = true → u + 1 < s.length) :
    units16 big (s.drop u) = (if big then (s.getD (u + 1) 0, s.getD u 0) else (s.getD u 0, s.getD (u + 1) 0)) ::
      units16 big (s.drop (u + 2)) := by
  have first : s.drop u = s.getD u 0 :: s.drop (u + 1) := by
    rw [List.drop_eq_getElem_cons inside, List.getD_eq_getElem _ _ inside]
  rw [first]
  by_cases more : u + 1 < s.length
  · have second : s.drop (u + 1) = s.getD (u + 1) 0 :: s.drop (u + 2) := by
      rw [List.drop_eq_getElem_cons more, List.getD_eq_getElem _ _ more]
    rw [second, units16]
  · cases big with
    | true => exact absurd (both rfl) more
    | false =>
        have behind := Nat.not_lt.mp more
        rw [List.drop_eq_nil_of_le behind, List.drop_eq_nil_of_le (Nat.le_succ_of_le behind),
          List.getD_eq_default _ _ behind]
        rfl

theorem units16_none (behind : s.length ≤ u + big.toNat) : units16 big (s.drop u) = [] := by
  cases big with
  | false =>
      have behind : s.length ≤ u := behind
      rw [List.drop_eq_nil_of_le behind]
      rfl
  | true =>
      have short : (s.drop u).length ≤ 1 := by
        rw [List.length_drop]
        change s.length ≤ u + 1 at behind
        omega
      match rest : s.drop u with
      | [] => rfl
      | [a] => rfl
      | a :: b :: l =>
          rw [rest, List.length_cons, List.length_cons] at short
          omega

/-- What the loop has stored, with the units that are left, where the unit at `u` comes next. -/
structure Stored16 (big : Bool) (s v : Bytes) (offset : Nat) (t : Copying16) (front : Bytes) (u : Nat) : Prop where
  src : t.src = u + big.toNat
  dst : t.dst = front.length
  unit : u = offset + 2 * t.dst
  room : t.dst ≤ 127
  p : t.p = front ++ v.drop front.length
  text : text16 big (s.drop offset) = front ++ ((units16 big (s.drop u)).take (127 - t.dst)).map shown16

/-- What it leaves. -/
def Ended16 (big : Bool) (s v : Bytes) (offset : Nat) (t : Copying16) : Prop :=
  t.dst = (text16 big (s.drop offset)).length ∧
    t.p = text16 big (s.drop offset) ++ v.drop (text16 big (s.drop offset)).length

theorem Stored16.ended {t : Copying16} {front : Bytes} (stored : Stored16 big s v offset t front u)
    (last : (units16 big (s.drop u)).take (127 - t.dst) = []) : Ended16 big s v offset t := by
  have text := stored.text
  rw [last, List.map_nil, List.append_nil] at text
  rw [Ended16, text]
  exact ⟨stored.dst, stored.p⟩

/-- A character more. -/
theorem Stored16.next {t : Copying16} {front : Bytes} (stored : Stored16 big s v offset t front u) (size : v.length = 128)
    (inside : t.src < s.length) (more : t.dst < 127) {p : Bytes} {c : UInt8} (write : p = t.p.set t.dst c)
    (char : c = shown16 (if big then (s.getD (u + 1) 0, s.getD u 0) else (s.getD u 0, s.getD (u + 1) 0))) :
    Stored16 big s v offset ⟨t.src + 2, t.dst + 1, p⟩ (front ++ [c]) (u + 2) where
  src := by
    have src := stored.src
    dsimp only
    omega
  dst := by rw [stored.dst, List.length_append, List.length_singleton]
  unit := by
    have unit := stored.unit
    dsimp only
    omega
  room := more
  p := by
    have there : front.length < v.length := by
      rw [← stored.dst, size]
      exact Nat.lt_succ_of_lt more
    rw [write, stored.p, stored.dst, List.drop_eq_getElem_cons there, List.set_append_right _ _ (Nat.le_refl _),
      Nat.sub_self, List.set_cons_zero, List.length_append, List.length_singleton, List.append_assoc, List.singleton_append]
  text := by
    have src := stored.src
    have here : u < s.length := by omega
    have both : big = true → u + 1 < s.length := by
      rintro rfl
      rwa [src] at inside
    have left : 127 - t.dst = (127 - (t.dst + 1)) + 1 := by omega
    rw [stored.text, units16_cons here both, left, List.take_succ_cons, List.map_cons, ← char, List.append_assoc,
      List.singleton_append]

theorem wide16_meets {w d : Nat} (src : Nat) (unit : src = u + big.toNat) (inside : src < s.length) :
    Meets (Cells.within s.length w) d (wide16 big s src)
      (· = decide ((if big then s.getD u 0 else s.getD (u + 1) 0) ≠ 0)) := by
  cases big with
  | true =>
      have before : src - 1 = u := by rw [unit]; rfl
      rw [wide16, if_pos rfl]
      apply Meets.bind (Cells.readAt_meets (Nat.lt_of_le_of_lt (Nat.sub_le _ _) inside))
      rintro x rfl
      exact Meets.pure (by rw [before]; rfl)
  | false =>
      obtain rfl : src = u := unit
      rw [wide16, if_neg Bool.false_ne_true]
      apply Meets.ite
      · intro more
        apply Meets.bind (Cells.readAt_meets more)
        rintro x rfl
        exact Meets.pure rfl
      · intro last
        refine Meets.pure ?_
        rw [if_neg Bool.false_ne_true, List.getD_eq_default _ _ (Nat.not_lt.mp last)]
        rfl

theorem string16Round_meets (size : v.length = 128) (t : Copying16)
    (inv : ∃ front u, Stored16 big s v offset t front u) :
    Meets (Cells.within s.length 128) 0 (string16Round big s t)
      (Sum.elim (fun t' => (∃ front u, Stored16 big s v offset t' front u) ∧ 127 - t'.dst < 127 - t.dst)
        (Ended16 big s v offset)) := by
  obtain ⟨front, u, stored⟩ := inv
  apply Meets.ite
  · intro behind
    have none : units16 big (s.drop u) = [] := units16_none (stored.src ▸ behind)
    exact Meets.pure (stored.ended (by rw [none, List.take_nil]))
  · intro inside
    have inside := Nat.not_le.mp inside
    apply Meets.ite
    · intro full
      have left : 127 - t.dst = 0 := Nat.sub_eq_zero_of_le full
      exact Meets.pure (stored.ended (by rw [left, List.take_zero]))
    · intro room
      have room := Nat.not_le.mp room
      have lower : 127 - (t.dst + 1) < 127 - t.dst := by omega
      have unit (c : UInt8) : c = s.getD t.src 0 → c = (if big then (s.getD (u + 1) 0, s.getD u 0)
          else (s.getD u 0, s.getD (u + 1) 0)).1 := by
        rintro rfl
        rw [stored.src]
        cases big <;> rfl
      apply Meets.bind (Cells.readAt_meets inside)
      intro c read
      have low := unit c read
      apply Meets.bind (Cells.writeAt_meets c (Nat.lt_succ_of_lt room))
      rintro p rfl
      apply Meets.ite
      · intro nul
        apply Meets.bind (wide16_meets t.src stored.src inside)
        rintro wide rfl
        have high : (if big then (s.getD (u + 1) 0, s.getD u 0) else (s.getD u 0, s.getD (u + 1) 0)).2 =
            if big then s.getD u 0 else s.getD (u + 1) 0 := by cases big <;> rfl
        apply Meets.ite
        · intro wide
          apply Meets.bind (Cells.writeAt_meets 0x20 (Nat.lt_succ_of_lt room))
          rintro p rfl
          refine Meets.pure ⟨⟨_, _, stored.next size inside room (List.set_set c) ?_⟩, lower⟩
          rw [shown16, ← low, high, if_pos ⟨nul, of_decide_eq_true wide⟩]
        · intro narrow
          refine Meets.pure ⟨⟨_, _, stored.next size inside room rfl ?_⟩, lower⟩
          rw [shown16, ← low, high, if_neg (fun both => narrow (decide_eq_true both.2))]
      · intro char
        refine Meets.pure ⟨⟨_, _, stored.next size inside room rfl ?_⟩, lower⟩
        rw [shown16, ← low, if_neg (fun both => char both.1)]

theorem text16_length_le (big : Bool) (s : Bytes) : (text16 big s).length ≤ 127 := by
  rw [text16, List.length_map]
  exact List.length_take_le _ _

theorem string16In_meets (size : v.length = 128) :
    Meets (Cells.within s.length 128) 0 (string16In big s offset v)
      (· = ((text16 big (s.drop offset) ++ v.drop (text16 big (s.drop offset)).length).set 127 0).set
        (text16 big (s.drop offset)).length 0) := by
  have start : Stored16 big s v offset ⟨if big then offset + 1 else offset, 0, v⟩ [] offset :=
    { src := by cases big <;> rfl
      dst := rfl
      unit := rfl
      room := Nat.zero_le _
      p := rfl
      text := rfl }
  apply Meets.bind (Meets.loop (string16Round_meets size) 128 _ ⟨[], offset, start⟩ (Nat.lt_succ_self 127))
  rintro ⟨src, dst, p⟩ ⟨length, stored⟩
  dsimp only at length stored
  subst length stored
  apply Meets.bind (Cells.writeAt_meets 0 (by decide))
  rintro p rfl
  exact Cells.writeAt_meets 0 (Nat.lt_succ_of_le (text16_length_le _ _))

theorem write_one (v : Value) {i : Nat} (inside : i < 128) (b : UInt8) : (v.write i [b]).bytes = v.bytes.set i b := by
  have size := v.size
  have there : i < v.bytes.length := by omega
  have short : (v.bytes.take i ++ [b] ++ v.bytes.drop (i + 1)).length ≤ 128 := by
    rw [List.length_append, List.length_append, List.length_take, List.length_drop, List.length_singleton]
    omega
  have same : v.bytes.take i ++ b :: v.bytes.drop (i + 1) = v.bytes.take i ++ [b] ++ v.bytes.drop (i + 1) := by
    rw [List.append_assoc, List.singleton_append]
  rw [List.set_eq_take_append_cons_drop, if_pos there, same]
  exact List.take_of_length_le short

theorem write_front (v : Value) {bs : Bytes} (fits : bs.length ≤ 128) :
    (v.write 0 bs).bytes = bs ++ v.bytes.drop bs.length := by
  have size := v.size
  have short : (v.bytes.take 0 ++ bs ++ v.bytes.drop bs.length).length ≤ 128 := by
    rw [List.take_zero, List.nil_append, List.length_append, List.length_drop]
    omega
  simp only [Value.write, Nat.zero_add, List.take_of_length_le short]
  rfl

/-- The union behind the two-byte characters. -/
theorem string16_bytes (v : Value) (big : Bool) (s : Bytes) :
    ((v.write 0 (text16 big s)).write 127 [0] |>.write (text16 big s).length [0]).bytes =
      ((text16 big s ++ v.bytes.drop (text16 big s).length).set 127 0).set (text16 big s).length 0 := by
  have short := text16_length_le big s
  rw [write_one _ (Nat.lt_succ_of_le short), write_one _ (by decide), write_front _ (Nat.le_succ_of_le short)]

/-- The text ends with a NUL. -/
theorem string16_front (size : v.length = 128) (big : Bool) (s : Bytes) :
    (((text16 big s ++ v.drop (text16 big s).length).set 127 0).set (text16 big s).length 0).take
      ((text16 big s).length + 1) = text16 big s ++ [0] := by
  have short := text16_length_le big s
  have inside : (text16 big s).length < ((text16 big s ++ v.drop (text16 big s).length).set 127 0).length := by
    rw [List.length_set, List.length_append, List.length_drop]
    omega
  rw [Cells.take_set_succ _ inside, List.take_set_of_le short, List.take_left]

end

/-! ## Lines -/

section

variable {s : Bytes} {buf fin w d : Nat}

theorem memchrIn_meets (c : UInt8) {l i : Nat} (inside : i + l ≤ s.length) :
    Meets (Cells.within s.length w) d (memchrIn s c l i)
      (· = (((s.drop i).take l).findIdx? (· == c)).map (i + ·)) := by
  induction l generalizing i with
  | zero => exact Meets.pure (by rw [List.take_zero]; rfl)
  | succ l ih =>
      have here : i < s.length := by omega
      have first : (s.drop i).take (l + 1) = s.getD i 0 :: (s.drop (i + 1)).take l := by
        rw [List.drop_eq_getElem_cons here, List.take_succ_cons, List.getD_eq_getElem _ _ here]
      rw [first, List.findIdx?_cons]
      apply Meets.bind (Cells.readAt_meets here)
      rintro x rfl
      apply Meets.ite
      · intro found
        refine Meets.pure ?_
        rw [if_pos (beq_iff_eq.mpr found)]
        rfl
      · intro other
        rw [if_neg (fun found => other (beq_iff_eq.mp found))]
        refine (ih (by omega)).mono (Nat.le_refl d) ?_
        rintro r rfl
        rw [Option.map_map]
        congr 1
        funext j
        exact (Nat.add_right_comm i j 1).symm

/-- How far the loop goes on from the line end at `b`. -/
def endOf (region : Bytes) (b : Nat) : Nat :=
  let b := if b + 1 < region.length ∧ region.getD b 0 = 0x0d ∧ region.getD (b + 1) 0 = 0x0a then b + 1 else b
  if b + 1 < region.length ∧ region.getD b 0 = 0x0a then b + 1 else b

theorem regexLines_succ (region : Bytes) (lines b last : Nat) : regexLines region (lines + 1) b last =
    if region.length ≤ b then (lines + 1, last)
    else match (findFrom region b 0x0a).orElse (fun _ => findFrom region b 0x0d) with
      | none => (lines + 1, last)
      | some b => regexLines region lines (endOf region b + 1) (endOf region b) := by
  rw [regexLines]
  rfl

theorem endOf_lt {region : Bytes} {b : Nat} (inside : b < region.length) : endOf region b < region.length := by
  rw [endOf]
  split_ifs <;> omega

/-- The line end that the two searches find. -/
theorem found_lt {region : Bytes} {b p : Nat}
    (found : (findFrom region b 0x0a).orElse (fun _ => findFrom region b 0x0d) = some p) : p < region.length := by
  cases lf : findFrom region b 0x0a with
  | some q =>
      rw [lf] at found
      cases found
      exact (findFrom_some lf).2.1
  | none =>
      rw [lf] at found
      exact (findFrom_some found).2.1

theorem regexLines_le {region : Bytes} {lines b last : Nat} (le : last ≤ region.length) :
    (regexLines region lines b last).2 ≤ region.length := by
  induction lines generalizing b last with
  | zero => exact le
  | succ lines ih =>
      rw [regexLines_succ]
      split_ifs
      · exact le
      · cases found : (findFrom region b 0x0a).orElse (fun _ => findFrom region b 0x0d) with
        | none => exact le
        | some p => exact ih (endOf_lt (found_lt found)).le

theorem skipEndIn_meets {b : Nat} (fits : fin ≤ s.length) (inside : buf + b < fin) :
    Meets (Cells.within s.length w) d (skipEndIn s fin (buf + b))
      (· = buf + endOf ((s.drop buf).take (fin - buf)) b) := by
  have size : ((s.drop buf).take (fin - buf)).length = fin - buf := by
    rw [List.length_take, List.length_drop]
    omega
  -- a byte of the region, as the byte of the buffer that is read
  have byte {i : Nat} (lt : buf + i < fin) : ((s.drop buf).take (fin - buf)).getD i 0 = s.getD (buf + i) 0 := by
    rw [getD_take_drop, if_pos (by omega)]
  have more (i : Nat) : i + 1 < fin - buf ↔ buf + i + 1 < fin := by omega
  rw [endOf, size]
  have pair : Meets (Cells.within s.length w) d
      (if buf + b + 1 < fin then do
        let x ← Cells.readAt s (buf + b)
        if x = 0x0d then do
          let y ← Cells.readAt s (buf + b + 1)
          pure (if y = 0x0a then buf + b + 1 else buf + b)
        else pure (buf + b)
      else pure (buf + b))
      (· = buf + if b + 1 < fin - buf ∧ ((s.drop buf).take (fin - buf)).getD b 0 = 0x0d ∧
          ((s.drop buf).take (fin - buf)).getD (b + 1) 0 = 0x0a then b + 1 else b) := by
    apply Meets.ite
    · intro next
      rw [byte inside, byte next]
      apply Meets.bind (Cells.readAt_meets (by omega))
      rintro x rfl
      apply Meets.ite
      · intro cr
        apply Meets.bind (Cells.readAt_meets (by omega))
        rintro y rfl
        refine Meets.pure ?_
        by_cases lf : s.getD (buf + b + 1) 0 = 0x0a
        · rw [if_pos lf, if_pos ⟨(more b).mpr next, cr, lf⟩]
          rfl
        · rw [if_neg lf, if_neg (fun both => lf both.2.2)]
      · intro other
        exact Meets.pure (by rw [if_neg (fun both => other both.2.1)])
    · intro last
      exact Meets.pure (by rw [if_neg (fun both => last ((more b).mp both.1))])
  apply Meets.bind pair
  rintro b' rfl
  generalize eq : (if b + 1 < fin - buf ∧ ((s.drop buf).take (fin - buf)).getD b 0 = 0x0d ∧
    ((s.drop buf).take (fin - buf)).getD (b + 1) 0 = 0x0a then b + 1 else b) = c
  apply Meets.ite
  · intro next
    rw [byte (Nat.lt_of_succ_lt next)]
    apply Meets.bind (Cells.readAt_meets (by omega))
    rintro x rfl
    refine Meets.pure ?_
    by_cases lf : s.getD (buf + c) 0 = 0x0a
    · rw [if_pos lf, if_pos ⟨(more c).mpr next, lf⟩]
      rfl
    · rw [if_neg lf, if_neg (fun both => lf both.2)]
  · intro last
    exact Meets.pure (by rw [if_neg (fun both => last ((more c).mp both.1))])

theorem regexLinesIn_meets (fits : fin ≤ s.length) (order : buf ≤ fin) (lines b last : Nat) :
    Meets (Cells.within s.length w) d (regexLinesIn s fin lines (buf + b) (buf + last))
      (· = ((regexLines ((s.drop buf).take (fin - buf)) lines b last).1,
        buf + (regexLines ((s.drop buf).take (fin - buf)) lines b last).2)) := by
  have size : ((s.drop buf).take (fin - buf)).length = fin - buf := by
    rw [List.length_take, List.length_drop]
    omega
  induction lines generalizing b last with
  | zero => exact Meets.pure rfl
  | succ lines ih =>
      rw [regexLines_succ, size]
      have find (c : UInt8) (inside : buf + b < fin) : Meets (Cells.within s.length w) d
          (memchrIn s c (fin - (buf + b)) (buf + b))
          (· = (findFrom ((s.drop buf).take (fin - buf)) b c).map (buf + ·)) := by
        refine (memchrIn_meets c (by omega)).mono (Nat.le_refl d) ?_
        rintro r rfl
        rw [findFrom, List.drop_take, List.drop_drop, Option.map_map, Nat.sub_sub]
        congr 1
        funext i
        exact Nat.add_assoc buf b i
      apply Meets.ite
      · intro behind
        rw [if_pos (by omega)]
        exact Meets.pure rfl
      · intro inside
        have inside := Nat.not_le.mp inside
        rw [if_neg (by omega)]
        apply Meets.bind (find 0x0a inside)
        rintro lf rfl
        have found : Meets (Cells.within s.length w) d
            (match (findFrom ((s.drop buf).take (fin - buf)) b 0x0a).map (buf + ·) with
              | some b => pure (some b)
              | none => memchrIn s 0x0d (fin - (buf + b)) (buf + b))
            (· = ((findFrom ((s.drop buf).take (fin - buf)) b 0x0a).orElse
              (fun _ => findFrom ((s.drop buf).take (fin - buf)) b 0x0d)).map (buf + ·)) := by
          cases findFrom ((s.drop buf).take (fin - buf)) b 0x0a with
          | some p => exact Meets.pure rfl
          | none => exact find 0x0d inside
        apply Meets.bind found
        rintro r rfl
        cases end' : (findFrom ((s.drop buf).take (fin - buf)) b 0x0a).orElse
            (fun _ => findFrom ((s.drop buf).take (fin - buf)) b 0x0d) with
        | none => exact Meets.pure rfl
        | some p =>
            have lt := found_lt end'
            rw [size] at lt
            apply Meets.bind (skipEndIn_meets fits (by omega))
            rintro b' rfl
            exact ih (endOf ((s.drop buf).take (fin - buf)) p + 1) (endOf ((s.drop buf).take (fin - buf)) p)

end

/-! ## The window of a `regex` -/

section

variable {search : Search} {s : Window} {offset w d : Nat}

theorem bytecnt_le {limit rest regexMax bytes bytecnt : Nat}
    (cut : (if limit = 0 ∨ limit > rest then rest else limit) = bytes)
    (most : (if bytes > regexMax then regexMax else bytes) = bytecnt) : bytecnt ≤ rest := by
  split_ifs at cut most <;> omega

theorem mcopyRegexIn_meets (regexMax : Nat) (m : Magic) :
    Meets (Cells.within (flen s) w) d (mcopyRegexIn regexMax m s offset search)
      (· = mcopyRegex regexMax m s offset (flen s) search) := by
  cases s with
  | none => exact Meets.pure rfl
  | some mem =>
      have length : flen (some mem) = mem.length := rfl
      rw [mcopyRegex, length]
      apply Meets.ite
      · intro behind
        rw [if_pos behind]
        exact Meets.pure rfl
      · intro inside
        have inside := Nat.not_lt.mp inside
        rw [if_neg (Nat.not_lt.mpr inside)]
        dsimp only
        generalize linecnt : (if has m.strFlags REGEX_LINE_COUNT = true then m.strRange else 0) = lines
        generalize (if has m.strFlags REGEX_LINE_COUNT = true then lines * 80 else m.strRange) = limit
        generalize cut : (if limit = 0 ∨ limit > mem.length - offset then mem.length - offset else limit) = bytes
        generalize most : (if bytes > regexMax then regexMax else bytes) = bytecnt
        have le := bytecnt_le cut most
        have size : offset + bytecnt - offset = bytecnt := Nat.add_sub_cancel_left offset bytecnt
        have run := @regexLinesIn_meets mem offset (offset + bytecnt) w d (by omega) (by omega) lines 0 bytecnt
        rw [size] at run
        apply Meets.bind run
        rintro r rfl
        refine Meets.pure ?_
        congr 1
        dsimp only
        split_ifs
        · exact size
        · exact Nat.add_sub_cancel_left offset _

theorem copySize_le (type : MType) (indir : Bool) (m : Magic) : copySize type indir m ≤ 128 := by
  rw [copySize]
  split_ifs with ranged
  · exact ranged.2.2.2.le
  · exact Nat.le_refl 128

/-- The value that is copied where nothing else is done. -/
theorem mcopy_copied (regexMax : Nat) (v : Value) (host : Host) (type : MType) (indir : Bool) (m : Magic)
    (none : ¬ (¬ indir ∧ (type = .der ∨ type = .search)))
    (regex : ¬ (¬ indir ∧ type = .regex))
    (string16 : ¬ (¬ indir ∧ (type = .bestring16 ∨ type = .lestring16) ∧ offset < flen s)) :
    mcopy regexMax v search host type indir s offset (flen s) m =
      if type = .offset then (Value.zero.store host 8 offset, search)
      else (Value.zero.write 0 (((s.getD []).drop offset).take (copySize type indir m)), search) := by
  have cut (size : Nat) : (if offset ≥ flen s then (Value.zero, search)
      else (Value.zero.write 0 (((s.getD []).drop offset).take
        (if flen s - offset < size then flen s - offset else size)), search)) =
      (Value.zero.write 0 (((s.getD []).drop offset).take size), search) := by
    split_ifs with behind less
    · have empty : Value.zero.write 0 [] = Value.zero := rfl
      rw [List.drop_eq_nil_of_le behind, List.take_nil, empty]
    · have all : ((s.getD []).drop offset).length = flen s - offset := List.length_drop
      rw [← all, List.take_length, List.take_of_length_le (by omega)]
    · rfl
  cases indir with
  | true =>
      unfold mcopy
      simp only [copySize, Bool.not_true, Bool.false_and, not_true_eq_false, false_and, if_true, if_false,
        Bool.false_eq_true, cut]
  | false =>
      unfold mcopy
      simp only [Bool.false_eq_true, if_false]
      split
      · rename_i direct
        have wide (unit : type = .bestring16 ∨ type = .lestring16) : flen s ≤ offset :=
          Nat.not_lt.mp fun inside => string16 ⟨Bool.false_ne_true, unit, inside⟩
        split at direct
        · exact absurd ⟨Bool.false_ne_true, .inl rfl⟩ none
        · exact absurd ⟨Bool.false_ne_true, .inr rfl⟩ none
        · exact absurd ⟨Bool.false_ne_true, rfl⟩ regex
        · rw [if_pos (wide (.inl rfl))] at direct
          cases direct
        · rw [if_pos (wide (.inr rfl))] at direct
          cases direct
        · cases direct
      · simp only [copySize, cut, Bool.false_eq_true, Bool.not_false, Bool.true_and, Bool.and_eq_true, Bool.or_eq_true, beq_iff_eq, bne_iff_ne,
          decide_eq_true_eq, and_assoc, not_false_eq_true, true_and]

theorem mcopy_string16 (regexMax : Nat) (v : Value) (host : Host) {type : MType} (m : Magic)
    (unit : type = .bestring16 ∨ type = .lestring16) (inside : offset < flen s) :
    mcopy regexMax v search host type false s offset (flen s) m =
      ((v.write 0 (text16 (type == .bestring16) ((s.getD []).drop offset))).write 127 [0] |>.write
        (text16 (type == .bestring16) ((s.getD []).drop offset)).length [0], search) := by
  have read : text16 (type == .bestring16) ((s.getD []).drop offset) =
      mcopyString16 (type == .bestring16) 127 ((s.getD []).drop offset) :=
    (mcopyString16_eq _ 127 _).symm
  rw [read]
  rcases unit with rfl | rfl
  · simp only [mcopy, Bool.false_eq_true, if_false, if_neg (Nat.not_le.mpr inside)]
  · simp only [mcopy, Bool.false_eq_true, if_false, if_neg (Nat.not_le.mpr inside)]

/-- The bytes of the union and the window are those of `mcopy`, with no access outside. -/
theorem mcopyIn_meets (regexMax : Nat) (v : Value) (host : Host) (type : MType) (indir : Bool) (m : Magic) :
    Meets (Cells.within (flen s) 128) 0 (mcopyIn regexMax v search host type indir s offset m)
      (fun r => r.1 = (mcopy regexMax v search host type indir s offset (flen s) m).1.bytes ∧
        r.2 = (mcopy regexMax v search host type indir s offset (flen s) m).2) := by
  apply Meets.ite
  · rintro ⟨direct, rfl | rfl⟩
    · obtain rfl := Bool.not_eq_true _ ▸ direct
      exact Meets.pure ⟨rfl, rfl⟩
    · obtain rfl := Bool.not_eq_true _ ▸ direct
      exact Meets.pure ⟨rfl, rfl⟩
  · intro none
    apply Meets.ite
    · rintro ⟨direct, rfl⟩
      obtain rfl := Bool.not_eq_true _ ▸ direct
      apply Meets.bind (mcopyRegexIn_meets regexMax m)
      rintro r rfl
      exact Meets.pure ⟨rfl, rfl⟩
    · intro regex
      apply Meets.ite
      · rintro ⟨direct, unit, inside⟩
        obtain rfl := Bool.not_eq_true _ ▸ direct
        rw [mcopy_string16 regexMax v host m unit inside, string16_bytes]
        apply Meets.bind (string16In_meets v.size)
        rintro r rfl
        exact Meets.pure ⟨rfl, rfl⟩
      · intro string16
        rw [mcopy_copied regexMax v host type indir m none regex string16]
        apply Meets.ite
        · intro isOffset
          have size : (if host.bigendian = true then (leBytes 8 offset).reverse else leBytes 8 offset).length = 8 := by
            split_ifs <;> rfl
          have zeros := List.length_replicate (n := 128) (a := (0 : UInt8))
          rw [if_pos isOffset, Value.store, write_front _ (by omega)]
          apply Meets.bind (fill_meets v.size (by rw [zeros]))
          rintro p rfl
          rw [List.take_zero, List.nil_append]
          apply Meets.bind (Cells.writeAll_meets (by omega) (Nat.le_of_eq zeros))
          rintro p rfl
          refine Meets.pure ⟨?_, rfl⟩
          rw [List.take_zero, List.nil_append, Nat.zero_add]
          rfl
        · intro copied
          have limit := copySize_le type indir m
          rw [if_neg copied, zero_write (Nat.le_trans (List.length_take_le _ _) limit)]
          apply Meets.bind (copyIn_meets limit v.size)
          rintro p rfl
          exact Meets.pure ⟨rfl, rfl⟩

end

/-! ## What is left in the union -/

/-- `[search.s, search.s + s_len)` is empty, or lies inside the buffer. -/
def Search.WithinBuffer (search : Search) (s : Window) : Prop :=
  search.sLen = 0 ∨ ∃ mem k, s = some mem ∧ search.s = some (mem.drop k) ∧ k + search.sLen ≤ mem.length

/-- What `mcopy` leaves in the union and in `ms->search`. -/
structure CopyLeaves (type : MType) (indir : Bool) (s : Window) (offset : Nat) (m : Magic) (r : Bytes × Search) :
    Prop where
  size : r.1.length = 128
  string16 : ¬ indir → (type = .bestring16 ∨ type = .lestring16) → offset < flen s →
    r.1.take ((text16 (type == .bestring16) ((s.getD []).drop offset)).length + 1) =
      text16 (type == .bestring16) ((s.getD []).drop offset) ++ [0]
  copied : type ≠ .offset → ¬ (¬ indir ∧ (type = .search ∨ type = .regex ∨ type = .der)) →
    ¬ (¬ indir ∧ (type = .bestring16 ∨ type = .lestring16) ∧ offset < flen s) →
    r.1 = padded (((s.getD []).drop offset).take (copySize type indir m))
  window : ¬ indir → (type = .search ∨ type = .regex ∨ type = .der) → r.2.WithinBuffer s

section

variable {search : Search} {s : Window} {offset : Nat}

theorem mcopyRegex_window (regexMax : Nat) (m : Magic) {nbytes : Nat} (inside : nbytes ≤ flen s) :
    (mcopyRegex regexMax m s offset nbytes search).WithinBuffer s := by
  cases s with
  | none => exact .inl rfl
  | some mem =>
      have length : nbytes ≤ mem.length := inside
      rw [mcopyRegex]
      split_ifs with behind
      · exact .inl rfl
      · refine .inr ⟨mem, offset, rfl, rfl, ?_⟩
        dsimp only
        generalize (if has m.strFlags REGEX_LINE_COUNT = true then m.strRange else 0) = lines
        generalize (if has m.strFlags REGEX_LINE_COUNT = true then lines * 80 else m.strRange) = limit
        generalize cut : (if limit = 0 ∨ limit > nbytes - offset then nbytes - offset else limit) = bytes
        generalize most : (if bytes > regexMax then regexMax else bytes) = bytecnt
        have le := bytecnt_le cut most
        have region : ((mem.drop offset).take bytecnt).length = bytecnt := by
          rw [List.length_take, List.length_drop]
          omega
        have last := @regexLines_le ((mem.drop offset).take bytecnt) lines 0 bytecnt region.ge
        split_ifs <;> omega

/-- The window of a direct `search`, `regex` or `der`, of a buffer that has `nbytes` bytes at least. -/
theorem mcopy_window (regexMax : Nat) (v : Value) (host : Host) {type : MType} (m : Magic) {nbytes : Nat}
    (inside : nbytes ≤ flen s) (window : type = .search ∨ type = .regex ∨ type = .der) :
    (mcopy regexMax v search host type false s offset nbytes m).2.WithinBuffer s := by
  have clamped : ({ search with
        s := s.map (·.drop (if offset > nbytes then nbytes else offset))
        sLen := nbytes - (if offset > nbytes then nbytes else offset)
        offset := if offset > nbytes then nbytes else offset } : Search).WithinBuffer s := by
    cases s with
    | none =>
        have empty : nbytes = 0 := Nat.le_zero.mp inside
        subst empty
        exact .inl (Nat.zero_sub _)
    | some mem =>
        have length : nbytes ≤ mem.length := inside
        refine .inr ⟨mem, _, rfl, rfl, ?_⟩
        dsimp only
        split_ifs <;> omega
  rcases window with rfl | rfl | rfl
  · exact clamped
  · exact mcopyRegex_window regexMax m inside
  · exact clamped

/-- Every read is inside the buffer and every write inside the union, for every type, range and offset. -/
theorem mcopy_bounded (regexMax : Nat) (v : Value) (search : Search) (host : Host) (type : MType) (indir : Bool)
    (s : Window) (offset : Nat) (m : Magic) :
    Meets (Cells.within (flen s) 128) 0 (mcopyIn regexMax v search host type indir s offset m)
      (CopyLeaves type indir s offset m) := by
  refine (mcopyIn_meets regexMax v host type indir m).mono (Nat.le_refl 0) ?_
  rintro ⟨p, search'⟩ ⟨bytes, window⟩
  dsimp only at bytes window
  subst bytes window
  constructor
  · exact (mcopy regexMax v search host type indir s offset (flen s) m).1.size
  · intro direct unit inside
    obtain rfl := Bool.not_eq_true _ ▸ direct
    rw [mcopy_string16 regexMax v host m unit inside, string16_bytes]
    exact string16_front v.size _ _
  · intro plain none string16
    have fits := Nat.le_trans (List.length_take_le (copySize type indir m) ((s.getD []).drop offset))
      (copySize_le type indir m)
    rw [mcopy_copied regexMax v host type indir m (fun h => none ⟨h.1, h.2.elim (.inr ∘ .inr) .inl⟩)
      (fun h => none ⟨h.1, .inr (.inl h.2)⟩) string16, if_neg plain]
    exact zero_write fits
  · intro direct type
    obtain rfl := Bool.not_eq_true _ ▸ direct
    exact mcopy_window regexMax v host m (Nat.le_refl _) type

/-- The units of an indirect `lestring16` are copied as they are, and the range of an `octal` is not used. -/
theorem mcopy_other_types :
    (∃ r, (mcopyIn 8192 .zero ⟨none, 0, 0, 0⟩ plainHost .lestring16 true (some [0x41, 0, 0x42, 0]) 0
        { plainLine with type := .lestring16 }).value = some r ∧
      text16 false [0x41, 0, 0x42, 0] = [0x41, 0x42] ∧ r.1.take 4 = [0x41, 0, 0x42, 0]) ∧
    ∃ r, (mcopyIn 8192 .zero ⟨none, 0, 0, 0⟩ plainHost .octal false (some (asc "01234567")) 0
        { plainLine with type := .octal, strRange := 4 }).value = some r ∧ r.1.take 8 = asc "01234567" :=
  ⟨⟨_, rfl, by decide +kernel⟩, ⟨_, rfl, by decide +kernel⟩⟩

end

end Libmagic.Softmagic
