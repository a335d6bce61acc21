import Libmagic.Cells
import Libmagic.Memory
import Libmagic.Softmagic.Match
import Libmagic.Softmagic.Numeric

/-!
# `softmagic.c`: Pascal strings

The `FILE_PSTRING` case of `mconvert` with every byte of the union that it reads and writes. The
text is moved over the length in front of it.
-/
namespace Libmagic.Softmagic

open Run Cells

/-! ## The length -/

/-- How many bytes the length has, and in which order. -/
def Magic.lengthForm (m : Magic) : Option (Nat × Order) :=
  let len := m.strFlags &&& PSTRING_LEN
  if len = PSTRING_1_LE then some (1, .little)
  else if len = PSTRING_2_LE then some (2, .little)
  else if len = PSTRING_2_BE then some (2, .big)
  else if len = PSTRING_4_LE then some (4, .little)
  else if len = PSTRING_4_BE then some (4, .big)
  else none

/-- The number in front of the text. -/
def lengthField (form : Nat × Order) (mem : Bytes) : Nat := form.2.load (mem.take form.1)

/-- How many bytes of text are declared, which is below 0 where a length that counts itself is too
small for that. -/
def declared (m : Magic) (form : Nat × Order) (mem : Bytes) : Int :=
  lengthField form mem - if has m.strFlags PSTRING_LENGTH_INCLUDES_ITSELF then (form.1 : Int) else 0

theorem lengthForm_size {m : Magic} {form : Nat × Order} (h : m.lengthForm = some form) :
    form.1 = 1 ∨ form.1 = 2 ∨ form.1 = 4 := by
  simp only [Magic.lengthForm] at h
  split_ifs at h
  all_goals
    obtain rfl := Option.some.inj h
    decide

theorem filePstringLengthSize_known (host : Host) {m : Magic} {form : Nat × Order}
    (known : m.lengthForm = some form) (io : Io) : filePstringLengthSize host m io = (some form.1, io) := by
  simp only [Magic.lengthForm] at known
  simp only [filePstringLengthSize]
  split_ifs at known ⊢
  all_goals first
    | cases known; rfl
    | omega

theorem filePstringLengthSize_none (host : Host) {m : Magic} (unknown : m.lengthForm = none) (io : Io) :
    (filePstringLengthSize host m io).1 = none := by
  simp only [Magic.lengthForm] at unknown
  simp only [filePstringLengthSize]
  split_ifs at unknown ⊢
  all_goals first
    | rfl
    | omega

/-! ## The routine -/

/-- `file_pstring_length_size`. -/
def pstringLengthSize (m : Magic) : Option Nat := m.lengthForm.map Prod.fst

/-- The `switch` of `file_pstring_get_length`. -/
def pstringReadLength (m : Magic) (s : Bytes) : Run CellAccess (Option Nat) := do
  let bits := m.strFlags &&& PSTRING_LEN
  if bits = PSTRING_1_LE then
    let s0 ← Cells.readAt s 0
    pure (some s0.toNat)
  else if bits = PSTRING_2_LE then
    let s0 ← Cells.readAt s 0
    let s1 ← Cells.readAt s 1
    pure (some (s1.toNat * 2 ^ 8 + s0.toNat))
  else if bits = PSTRING_2_BE then
    let s0 ← Cells.readAt s 0
    let s1 ← Cells.readAt s 1
    pure (some (s0.toNat * 2 ^ 8 + s1.toNat))
  else if bits = PSTRING_4_LE then
    let s0 ← Cells.readAt s 0
    let s1 ← Cells.readAt s 1
    let s2 ← Cells.readAt s 2
    let s3 ← Cells.readAt s 3
    pure (some (s3.toNat * 2 ^ 24 + s2.toNat * 2 ^ 16 + s1.toNat * 2 ^ 8 + s0.toNat))
  else if bits = PSTRING_4_BE then
    let s0 ← Cells.readAt s 0
    let s1 ← Cells.readAt s 1
    let s2 ← Cells.readAt s 2
    let s3 ← Cells.readAt s 3
    pure (some (s0.toNat * 2 ^ 24 + s1.toNat * 2 ^ 16 + s2.toNat * 2 ^ 8 + s3.toNat))
  else pure none

/-- `file_pstring_get_length`; `none` is `FILE_BADSIZE`, which the subtraction can reach too. -/
def pstringGetLength (m : Magic) (s : Bytes) : Run CellAccess (Option Nat) := do
  match ← pstringReadLength m s with
  | none => pure none
  | some len =>
      if has m.strFlags PSTRING_LENGTH_INCLUDES_ITSELF then
        match pstringLengthSize m with
        | none => pure none
        | some l =>
            let len := uN 64 (len - l)
            pure (if len = FILE_BADSIZE then none else some len)
      else pure (some len)

/-- `while (len--) *ptr1++ = *ptr2++; *ptr1 = '\0';` -/
def moveText : (len ptr1 ptr2 : Nat) → Bytes → Run CellAccess Bytes
  | 0, ptr1, _, mem => writeAt mem ptr1 0
  | len + 1, ptr1, ptr2, mem => do
      let b ← Cells.readAt mem ptr2
      let mem ← writeAt mem ptr1 b
      moveText len (ptr1 + 1) (ptr2 + 1) mem

/-- The `FILE_PSTRING` case of `mconvert`, on the bytes of the union; `none` is `return 0`. -/
def pstringConvert (m : Magic) (mem : Bytes) : Run CellAccess (Option Bytes) :=
  match pstringLengthSize m with
  | none => pure none
  | some sz => do
      match ← pstringGetLength m mem with
      | none => pure none
      | some len =>
          let sz' := 128 - sz
          let len := if len ≥ sz' then sz' else len
          let mem ← moveText len 0 sz mem
          pure (some mem)

/-! ## What it touches and leaves -/

section Routine

variable {m : Magic} {mem : Bytes} {d : Nat}

/-- Every byte moves down before the byte above it is read. -/
theorem moveText_meets {len ptr1 ptr2 : Nat} (below : ptr1 < ptr2) (inside : ptr2 + len ≤ mem.length) :
    Meets (within mem.length mem.length) d (moveText len ptr1 ptr2 mem) (fun mem' =>
      mem'.length = mem.length ∧ ∀ i, mem'.getD i 0 =
        if i < ptr1 then mem.getD i 0
        else if i < ptr1 + len then mem.getD (ptr2 - ptr1 + i) 0
        else if i = ptr1 + len then 0
        else mem.getD i 0) := by
  induction len generalizing ptr1 ptr2 mem with
  | zero =>
      apply (writeAt_meets 0 (by omega)).mono (Nat.le_refl d)
      rintro mem' rfl
      refine ⟨List.length_set, fun i => ?_⟩
      rw [List.getD_eq_getElem?_getD, List.getElem?_set, Nat.add_zero]
      by_cases here : ptr1 = i
      · subst here
        rw [if_pos rfl, if_pos (by omega), if_neg (Nat.lt_irrefl _), if_neg (Nat.lt_irrefl _), if_pos rfl,
          Option.getD_some]
      · rw [if_neg here, ← List.getD_eq_getElem?_getD]
        split_ifs <;> first | rfl | omega
  | succ len ih =>
      apply Meets.bind (Cells.readAt_meets (by omega))
      rintro b rfl
      apply Meets.bind (writeAt_meets _ (by omega))
      intro mem₁ written
      have size : mem₁.length = mem.length := by rw [written, List.length_set]
      have other {i : Nat} (ne : ptr1 ≠ i) : mem₁.getD i 0 = mem.getD i 0 := by
        rw [written, List.getD_eq_getElem?_getD, List.getElem?_set, if_neg ne, ← List.getD_eq_getElem?_getD]
      have here : mem₁.getD ptr1 0 = mem.getD ptr2 0 := by
        rw [written, List.getD_eq_getElem?_getD, List.getElem?_set, if_pos rfl, if_pos (by omega),
          Option.getD_some]
      rw [← size]
      apply (ih (Nat.succ_lt_succ below) (by omega)).mono (Nat.le_refl d)
      rintro mem' ⟨length, bytes⟩
      refine ⟨length, fun i => ?_⟩
      rw [bytes, Nat.succ_sub_succ]
      rcases Nat.lt_trichotomy i ptr1 with lt | rfl | gt
      · rw [if_pos (by omega), if_pos lt, other (by omega)]
      · rw [if_pos (by omega), if_neg (by omega), if_pos (by omega), here, Nat.sub_add_cancel (by omega)]
      · have kept : mem₁.getD i 0 = mem.getD i 0 := other (by omega)
        have ahead : mem₁.getD (ptr2 - ptr1 + i) 0 = mem.getD (ptr2 - ptr1 + i) 0 := other (by omega)
        rw [kept, ahead]
        split_ifs <;> first | rfl | omega

theorem lengthField_lt (form : Nat × Order) (size : form.1 = 1 ∨ form.1 = 2 ∨ form.1 = 4) (mem : Bytes) :
    lengthField form mem < 2 ^ 32 := by
  have bound := Order.load_lt form.2 (mem.take form.1)
  have le : (mem.take form.1).length ≤ 4 := by
    rw [List.length_take]
    omega
  exact lt_of_lt_of_le bound (Nat.pow_le_pow_right (by decide) le)

theorem pstringReadLength_meets {form : Nat × Order} (known : m.lengthForm = some form)
    (size : mem.length = 128) :
    Meets (within 128 128) d (pstringReadLength m mem) (· = some (lengthField form mem)) := by
  obtain ⟨b0, b1, b2, b3, rest, rfl⟩ : ∃ b0 b1 b2 b3 rest, mem = b0 :: b1 :: b2 :: b3 :: rest := by
    match mem, size with
    | b0 :: b1 :: b2 :: b3 :: rest, _ => exact ⟨b0, b1, b2, b3, rest, rfl⟩
  simp only [Magic.lengthForm] at known
  simp only [pstringReadLength]
  split_ifs at known ⊢
  all_goals
    obtain rfl := Option.some.inj known
    iterate 4
      try
        apply Meets.bind (Cells.readAt_meets (by decide))
        rintro _ rfl
    refine Meets.pure (congrArg some ?_)
    simp only [lengthField, Order.load, List.take_succ_cons, List.take_zero, List.map_cons, List.map_nil,
      List.reverse_cons, List.reverse_nil, List.nil_append, List.cons_append, Nat.ofDigits_cons,
      Nat.ofDigits_nil]
    omega

theorem uN_eq_badsize {form : Nat × Order} (size : form.1 = 1 ∨ form.1 = 2 ∨ form.1 = 4) :
    uN 64 (declared m form mem) = FILE_BADSIZE ↔ declared m form mem = -1 := by
  have lt := lengthField_lt form size mem
  simp only [uN, FILE_BADSIZE, declared]
  split_ifs <;> omega

theorem pstringGetLength_meets {form : Nat × Order} (known : m.lengthForm = some form) (size : mem.length = 128) :
    Meets (within 128 128) d (pstringGetLength m mem)
      (· = if declared m form mem = -1 then none else some (uN 64 (declared m form mem))) := by
  have bad := @uN_eq_badsize m mem form (lengthForm_size known)
  have lt := lengthField_lt form (lengthForm_size known) mem
  apply Meets.bind (pstringReadLength_meets known size)
  rintro _ rfl
  dsimp only
  rw [pstringLengthSize, known]
  apply Meets.ite
  · intro itself
    apply Meets.pure
    have same : (lengthField form mem : Int) - (form.1 : Nat) = declared m form mem := by
      rw [declared, if_pos itself]
    rw [same]
    simp only [bad]
  · intro plain
    apply Meets.pure
    have same : declared m form mem = lengthField form mem := by
      rw [declared, if_neg plain, Int.sub_zero]
    rw [same, uN_natCast (lt.trans (by decide)), if_neg (by omega)]

/-- How many bytes are moved. -/
def movedLength (m : Magic) (form : Nat × Order) (mem : Bytes) : Nat :=
  if declared m form mem < 0 then 128 - form.1 else min (declared m form mem).toNat (128 - form.1)

/-- `len` bytes behind the first `sz` are at the front, with a NUL behind them. -/
structure Moved (sz len : Nat) (mem mem' : Bytes) : Prop where
  length : mem'.length = mem.length
  bytes : ∀ i, mem'.getD i 0 =
    if i < len then mem.getD (sz + i) 0 else if i = len then 0 else mem.getD i 0

theorem movedLength_le (form : Nat × Order) : movedLength m form mem ≤ 128 - form.1 := by
  simp only [movedLength]
  split_ifs <;> omega

theorem clamped_eq {form : Nat × Order} (size : form.1 = 1 ∨ form.1 = 2 ∨ form.1 = 4) :
    (if uN 64 (declared m form mem) ≥ 128 - form.1 then 128 - form.1 else uN 64 (declared m form mem)) =
      movedLength m form mem := by
  have lt := lengthField_lt form size mem
  have low : -4 ≤ declared m form mem := by
    simp only [declared]
    split_ifs <;> omega
  have high : declared m form mem < 2 ^ 32 := by
    simp only [declared]
    split_ifs <;> omega
  rw [movedLength]
  generalize declared m form mem = len at low high
  by_cases wrapped : len < 0
  · have huge : uN 64 len = (len + 2 ^ 64).toNat := by
      rw [uN]
      omega
    rw [if_pos wrapped, huge, if_pos (by omega)]
  · have same : uN 64 len = len.toNat := by
      rw [uN]
      omega
    rw [if_neg wrapped, same]
    split_ifs <;> omega

theorem pstringConvert_meets {form : Nat × Order} (known : m.lengthForm = some form) (size : mem.length = 128) :
    Meets (within 128 128) d (pstringConvert m mem) (fun ret =>
      (declared m form mem = -1 ∧ ret = none) ∨ (declared m form mem ≠ -1 ∧
        ∃ mem', ret = some mem' ∧ Moved form.1 (movedLength m form mem) mem mem')) := by
  have width := lengthForm_size known
  rw [pstringConvert, pstringLengthSize, known]
  apply Meets.bind (pstringGetLength_meets known size)
  rintro _ rfl
  by_cases bad : declared m form mem = -1
  · rw [if_pos bad]
    exact Meets.pure (.inl ⟨bad, rfl⟩)
  · rw [if_neg bad]
    dsimp only
    rw [clamped_eq width]
    have le := @movedLength_le m mem form
    have moves := @moveText_meets mem d (movedLength m form mem) 0 form.1 (by omega) (by omega)
    rw [size] at moves
    apply Meets.bind moves
    rintro mem' ⟨length, bytes⟩
    refine Meets.pure (.inr ⟨bad, mem', rfl, length.trans size.symm, fun i => ?_⟩)
    rw [bytes, if_neg (Nat.not_lt_zero i), Nat.zero_add, Nat.sub_zero]

end Routine

theorem getD_text {bs : Bytes} {j n : Nat} (inside : j + n ≤ bs.length) (i : Nat) :
    ((bs.drop j).take n ++ [0]).getD i 0 = if i < n then bs.getD (j + i) 0 else 0 := by
  have text : ((bs.drop j).take n).length = n := by
    rw [List.length_take, List.length_drop]
    omega
  by_cases lt : i < n
  · rw [List.getD_append _ _ _ _ (by omega), getD_take_drop]
  · rw [if_neg lt, List.getD_append_right _ _ _ _ (by omega), text]
    cases i - n <;> rfl

/-- The union that `mconvert` leaves in one step. -/
theorem Moved.written {sz len : Nat} {v : Value} {mem' : Bytes} (moved : Moved sz len v.bytes mem')
    (inside : sz + len ≤ 128) :
    (v.write 0 ((v.bytes.drop sz).take len ++ [0])).bytes = mem' := by
  have size := v.size
  have text : ((v.bytes.drop sz).take len ++ [0]).length = len + 1 := by
    rw [List.length_append, List.length_take, List.length_drop, List.length_singleton]
    omega
  have length : mem'.length = 128 := moved.length.trans size
  apply ext_getD
  · rw [Value.size, length]
  · intro i
    by_cases lt : i < 128
    · rw [Value.write_getD _ _ lt, text, getD_text (by omega), moved.bytes]
      split_ifs <;> first | rfl | omega
    · rw [List.getD_eq_default _ _ (by rw [Value.size]; omega), List.getD_eq_default _ _ (by omega)]

/-! ## The same in one step -/

theorem filePstringGetLength_eq (host : Host) {m : Magic} {form : Nat × Order} (known : m.lengthForm = some form)
    (mem : Bytes) (io : Io) : filePstringGetLength host m mem io =
      (if declared m form mem = -1 then none else some (uN 64 (declared m form mem)), io) := by
  have bad := @uN_eq_badsize m mem form (lengthForm_size known)
  have lt := lengthField_lt form (lengthForm_size known) mem
  have field : filePstringGetLength host m mem io =
      if has m.strFlags PSTRING_LENGTH_INCLUDES_ITSELF then
        (if uN 64 (lengthField form mem - form.1) = FILE_BADSIZE then none
          else some (uN 64 (lengthField form mem - form.1)), io)
      else (some (lengthField form mem), io) := by
    have width := filePstringLengthSize_known host known io
    simp only [filePstringGetLength, width]
    simp only [Magic.lengthForm] at known
    split_ifs at known with h1 h2 h3 h4 h5
    all_goals
      obtain rfl := Option.some.inj known
      simp +decide only [*, if_true, if_false, leNat_eq_load, beNat_eq_load, lengthField]
      split_ifs <;> simp only [*, if_true, if_false]
  rw [field]
  by_cases itself : has m.strFlags PSTRING_LENGTH_INCLUDES_ITSELF = true
  · have same : (lengthField form mem : Int) - (form.1 : Nat) = declared m form mem := by
      rw [declared, if_pos itself]
    rw [if_pos itself, same]
    simp only [bad]
  · have same : declared m form mem = lengthField form mem := by
      rw [declared, if_neg itself, Int.sub_zero]
    rw [if_neg itself, same, uN_natCast (lt.trans (by decide)), if_neg (by omega)]

theorem mconvert_pstring (host : Host) {m : Magic} (type : m.type = .pstring) (flip : Bool) (v : Value) (io : Io) :
    (pstringConvert m v.bytes).value = some (if (mconvert host m flip v io).1
      then some (mconvert host m flip v io).2.1.bytes else none) := by
  have case : mconvert host m flip v io = mconvertPstring host m v io := by
    cases flip <;> simp only [mconvert, type, cvtFlip] <;> rfl
  rw [case]
  cases known : m.lengthForm with
  | none =>
      have unknown := filePstringLengthSize_none host known io
      rw [pstringConvert, pstringLengthSize, known, Option.map_none, mconvertPstring]
      rcases size : filePstringLengthSize host m io with ⟨_ | n, io'⟩
      · rfl
      · rw [size] at unknown
        cases unknown
  | some form =>
      have width := lengthForm_size known
      have le := @movedLength_le m v.bytes form
      obtain ⟨_, _, ret, value, post⟩ := @pstringConvert_meets m v.bytes 0 form known v.size
      rw [value]
      rcases post with ⟨bad, rfl⟩ | ⟨good, mem', rfl, moved⟩
      · have refused : mconvertPstring host m v io = (false, v, io) := by
          simp only [mconvertPstring, filePstringLengthSize_known host known, filePstringGetLength_eq host known,
            if_pos bad]
        rw [refused]
        rfl
      · have converted : mconvertPstring host m v io = (true, v.write 0
            ((v.bytes.drop form.1).take (movedLength m form v.bytes) ++ [0]), io) := by
          simp only [mconvertPstring, filePstringLengthSize_known host known, filePstringGetLength_eq host known,
            if_neg good, clamped_eq width]
        rw [converted, if_pos rfl, moved.written (by omega)]

/-! ## Exactness -/

/-- Only the union is touched, a text that is declared is left with a NUL behind it as far as the union
has it, and no other length is accepted. -/
structure PstringDecoded (m : Magic) (mem : Bytes) (r : Run CellAccess (Option Bytes)) : Prop where
  inside : ∀ e ∈ r.events, e.within 128 128
  ends : r.value ≠ none
  accepts : ∀ form, m.lengthForm = some form → 0 ≤ declared m form mem → r.value ≠ some none
  text : ∀ mem', r.value = some (some mem') → mem'.length = 128 ∧
    ∃ form, m.lengthForm = some form ∧ 0 ≤ declared m form mem ∧
      mem'.take (((mem.drop form.1).take (declared m form mem).toNat).length + 1) =
        (mem.drop form.1).take (declared m form mem).toNat ++ [0]

/-- A length that counts itself is two or more below its own size. -/
def LengthWraps (m : Magic) (mem : Bytes) : Prop :=
  ∃ form, m.lengthForm = some form ∧ has m.strFlags PSTRING_LENGTH_INCLUDES_ITSELF = true ∧
    lengthField form mem + 1 < form.1

theorem lengthWraps_iff {m : Magic} {form : Nat × Order} {mem : Bytes} (known : m.lengthForm = some form) :
    LengthWraps m mem ↔ declared m form mem < -1 := by
  rw [declared]
  constructor
  · rintro ⟨form', known', itself, short⟩
    rw [known] at known'
    obtain rfl := Option.some.inj known'
    rw [if_pos itself]
    omega
  · intro short
    by_cases itself : has m.strFlags PSTRING_LENGTH_INCLUDES_ITSELF = true
    · rw [if_pos itself] at short
      exact ⟨form, known, itself, by omega⟩
    · rw [if_neg itself] at short
      omega

theorem Moved.take {sz len : Nat} {mem mem' : Bytes} (moved : Moved sz len mem mem')
    (inside : sz + len ≤ mem.length) (pos : 0 < sz) :
    mem'.take (((mem.drop sz).take len).length + 1) = (mem.drop sz).take len ++ [0] := by
  have text : ((mem.drop sz).take len).length = len := by
    rw [List.length_take, List.length_drop]
    omega
  have length := moved.length
  rw [text]
  apply ext_getD
  · rw [List.length_take, List.length_append, text, List.length_singleton]
    omega
  · intro i
    have front := getD_take_drop mem' 0 (len + 1) i
    rw [List.drop_zero, Nat.zero_add, moved.bytes] at front
    rw [front, getD_text inside]
    split_ifs <;> first | rfl | omega

/-- What a length that wraps leads to. -/
theorem pstringConvert_wraps {m : Magic} {mem : Bytes} (size : mem.length = 128) (wraps : LengthWraps m mem) :
    ¬ PstringDecoded m mem (pstringConvert m mem) := by
  intro decoded
  obtain ⟨form, known, _⟩ := id wraps
  have below := (lengthWraps_iff known).mp wraps
  obtain ⟨_, _, ret, value, ⟨bad, _⟩ | ⟨_, mem', rfl, _⟩⟩ := @pstringConvert_meets m mem 0 form known size
  · omega
  · obtain ⟨_, form', known', nonneg, _⟩ := decoded.text mem' value
    rw [known] at known'
    obtain rfl := Option.some.inj known'
    omega

theorem pstring_decoded_iff (m : Magic) (v : Value) :
    PstringDecoded m v.bytes (pstringConvert m v.bytes) ↔ ¬ LengthWraps m v.bytes := by
  constructor
  · exact fun decoded wraps => pstringConvert_wraps v.size wraps decoded
  intro fits
  cases known : m.lengthForm with
  | none =>
      have refused : pstringConvert m v.bytes = pure none := by
        rw [pstringConvert, pstringLengthSize, known]
        rfl
      rw [refused]
      refine ⟨fun _ mem => absurd mem List.not_mem_nil, nofun, fun form known' => ?_, nofun⟩
      rw [known] at known'
      cases known'
  | some form =>
      have width := lengthForm_size known
      rw [lengthWraps_iff known] at fits
      obtain ⟨inside, _, ret, value, post⟩ := @pstringConvert_meets m v.bytes 0 form known v.size
      have ends : (pstringConvert m v.bytes).value ≠ none := by
        rw [value]
        exact nofun
      refine ⟨inside, ends, fun form' known' nonneg refused => ?_, fun mem' moved => ?_⟩
      · rw [known] at known'
        obtain rfl := Option.some.inj known'
        rw [value] at refused
        rcases post with ⟨bad, _⟩ | ⟨_, mem', rfl, _⟩
        · omega
        · cases refused
      · rw [value] at moved
        obtain rfl := Option.some.inj moved
        rcases post with ⟨_, eq⟩ | ⟨good, mem', eq, done⟩
        · cases eq
        obtain rfl := Option.some.inj eq
        have nonneg : 0 ≤ declared m form v.bytes := by omega
        refine ⟨done.length.trans v.size, form, known, nonneg, ?_⟩
        have length : movedLength m form v.bytes = min (declared m form v.bytes).toNat (128 - form.1) :=
          if_neg (not_lt.mpr nonneg)
        have same : (v.bytes.drop form.1).take (declared m form v.bytes).toNat =
            (v.bytes.drop form.1).take (movedLength m form v.bytes) := by
          rw [length, List.take_eq_take_min, List.length_drop, v.size]
        have size := v.size
        rw [same]
        exact done.take (by omega) (by omega)

/-- A `pstring/HJ`. -/
def pstringLine : Magic :=
  { plainLine with type := .pstring, strFlags := PSTRING_2_BE ||| PSTRING_LENGTH_INCLUDES_ITSELF }

theorem pstring_not_decoded :
    ¬ PstringDecoded pstringLine Value.zero.bytes (pstringConvert pstringLine Value.zero.bytes) :=
  pstringConvert_wraps Value.zero.size ⟨(2, .big), by decide, by decide, by decide⟩

end Libmagic.Softmagic
