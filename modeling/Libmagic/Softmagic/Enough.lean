import Libmagic.Softmagic.Match

/-!
# `softmagic.c`: the data behind a field of fixed width

`mcopy` reads at `ms->offset` plus the base of the enclosing `use` and pads with zeros what
is behind the end of the buffer. That there is enough data is checked somewhere else, for some
of the types, and without the base.
-/
namespace Libmagic.Softmagic

/-- The bytes of a field, for the types of fixed width. -/
def MType.fieldWidth : MType → Option Nat
  | .byte => some 1
  | .short | .beshort | .leshort | .msdosdate | .lemsdosdate | .bemsdosdate | .msdostime
  | .lemsdostime | .bemsdostime => some 2
  | .long | .belong | .lelong | .melong | .date | .bedate | .ledate | .medate | .ldate | .beldate
  | .leldate | .meldate | .float | .befloat | .lefloat => some 4
  | .quad | .bequad | .lequad | .qdate | .beqdate | .leqdate | .qldate | .beqldate | .leqldate
  | .qwdate | .beqwdate | .leqwdate | .double | .bedouble | .ledouble => some 8
  | .guid | .leguid | .beguid => some 16
  | _ => none

/-- The types of fixed width that the switch of `mget` leaves to its default. -/
def MType.unchecked : MType → Bool
  | .quad | .bequad | .lequad | .qdate | .beqdate | .leqdate | .qldate | .beqldate | .leqldate
  | .qwdate | .beqwdate | .leqwdate | .msdosdate | .lemsdosdate | .bemsdosdate | .msdostime
  | .lemsdostime | .bemsdostime => true
  | _ => false

theorem offsetOob_eq (n o i : Nat) : offsetOob n o i = decide (n < o + i) := by
  rw [offsetOob]
  split_ifs
  · omega
  · exact (decide_eq_true (by omega)).symm
  · exact decide_eq_decide.mpr (by omega)

theorem enoughData_iff {m : Magic} {w : Nat} (fixed : m.type.fieldWidth = some w) (nbytes offset : Nat) :
    enoughData m nbytes offset = true ↔ m.type.unchecked = true ∨ offset + w ≤ nbytes := by
  rw [enoughData]
  cases type : m.type
  all_goals
    rw [type] at fixed
    cases fixed
  all_goals
    simp only [offsetOob_eq, MType.unchecked, Bool.not_eq_true', decide_eq_false_iff_not, Nat.not_lt, true_or,
      Bool.false_eq_true, false_or]

section
variable {recur : Recur} {env : Env} {call : Call} {m : Magic} {bb : Window} {level : Nat} {s : Scan} {w : Nat}

theorem mgetAt_fixed (fixed : m.type.fieldWidth = some w) (offset : Nat) :
    mgetAt recur env m bb call offset s =
      if !enoughData m (flen bb) offset then ⟨some false, s, []⟩
      else ⟨some (mconvert env.host m call.flip s.value s.io).1,
        { s with value := (mconvert env.host m call.flip s.value s.io).2.1,
                 io := (mconvert env.host m call.flip s.value s.io).2.2 }, []⟩ := by
  rw [mgetAt]
  split
  all_goals
    try
      rename_i type
      rw [type] at fixed
      cases fixed
  rfl

/-- What `mcopy` puts into the union for a type of fixed width. -/
def fieldValue (bb : Window) (offset nbytes : Nat) : Value :=
  if offset ≥ nbytes then .zero
  else Value.zero.write 0 (((bb.getD []).drop offset).take (min (nbytes - offset) 128))

/-- The copy of 128 bytes, or of as many as there are. -/
theorem fieldValue_copied (bb : Window) (search : Search) (offset nbytes : Nat) :
    (if offset ≥ nbytes then (Value.zero, search)
      else (Value.zero.write 0 (((bb.getD []).drop offset).take
        (if nbytes - offset < 128 then nbytes - offset else 128)), search)) =
      (fieldValue bb offset nbytes, search) := by
  have size : (if nbytes - offset < 128 then nbytes - offset else 128) = min (nbytes - offset) 128 := by
    split_ifs <;> omega
  rw [fieldValue, size]
  split_ifs <;> rfl

theorem mcopy_fixed (fixed : m.type.fieldWidth = some w) (indir : Bool) (regexMax : Nat) (v : Value)
    (search : Search) (host : Host) (offset nbytes : Nat) :
    mcopy regexMax v search host m.type indir bb offset nbytes m = (fieldValue bb offset nbytes, search) := by
  rw [← fieldValue_copied]
  unfold mcopy
  generalize m.type = type at fixed
  cases type <;> cases fixed <;> cases indir <;> rfl

/-- Where the field is read: an indirect offset is not relative to the enclosing `use`. -/
def readAt (env : Env) (m : Magic) (bb : Window) (call : Call) (level : Nat) (s : Scan) : Option Nat :=
  let position := uN 32 (s.offset + call.offset)
  if has m.flag INDIR then
    indirectTarget env.host m bb call level { s with value := fieldValue bb position (uN 32 (flen bb)) }
  else some position

/-- How much of the buffer `mcopy` is told of. -/
def readOf (m : Magic) (bb : Window) : Nat := if has m.flag INDIR then flen bb else uN 32 (flen bb)

/-- A field that leaves the buffer passes: its type is not checked, or it would be inside
without the base of the enclosing `use`. -/
structure PaddedRead (env : Env) (m : Magic) (bb : Window) (call : Call) (level : Nat) (s : Scan)
    (w position : Nat) : Prop where
  indirs : s.indirCount < env.indirMax
  names : s.nameCount < env.nameMax
  read : readAt env m bb call level s = some position
  leaves : flen bb < position + w
  passes : m.type.unchecked = true ∨ has m.flag INDIR = false ∧ s.offset + w ≤ flen bb
  /-- the mask does not divide by zero -/
  converts : (mconvert env.host m call.flip (fieldValue bb position (readOf m bb)) s.io).1 = true

/-- The offset that is checked, next to the one that is read. -/
theorem resolve_fixed (fixed : m.type.fieldWidth = some w) :
    (readAt env m bb call level s = none ∧ (resolve env m bb call level s).1 = none) ∨
      ∃ position, readAt env m bb call level s = some position ∧
        (resolve env m bb call level s).1 = some (if has m.flag INDIR then position else s.offset) ∧
        (resolve env m bb call level s).2.value = fieldValue bb position (readOf m bb) ∧
        (resolve env m bb call level s).2.io = s.io := by
  simp only [resolve, readAt, readOf, Scan.copy, mcopy_fixed fixed]
  cases has m.flag INDIR with
  | false => exact .inr ⟨_, rfl, rfl, rfl, rfl⟩
  | true =>
      simp only [if_true, Bool.not_true, Bool.false_eq_true, if_false]
      rcases target : indirectTarget env.host m bb call level
        { s with value := fieldValue bb (uN 32 (s.offset + call.offset)) (uN 32 (flen bb)) } with _ | position
      · exact .inl ⟨rfl, rfl⟩
      · exact .inr ⟨position, rfl, rfl, rfl, rfl⟩

/-- When `mget` accepts a field of fixed width. -/
theorem mget_fixed (fixed : m.type.fieldWidth = some w) :
    (mget recur env m bb call level s).rv = some true ↔
      s.indirCount < env.indirMax ∧ s.nameCount < env.nameMax ∧
        ∃ position, readAt env m bb call level s = some position ∧
          (m.type.unchecked = true ∨ (if has m.flag INDIR then position else s.offset) + w ≤ flen bb) ∧
          (mconvert env.host m call.flip (fieldValue bb position (readOf m bb)) s.io).1 = true := by
  by_cases indirs : s.indirCount ≥ env.indirMax
  · rw [mget, if_pos indirs]
    exact iff_of_false (by simp) fun h => absurd h.1 (Nat.not_lt.mpr indirs)
  by_cases names : s.nameCount ≥ env.nameMax
  · rw [mget, if_neg indirs, if_pos names]
    exact iff_of_false (by simp) fun h => absurd h.2.1 (Nat.not_lt.mpr names)
  rw [mget, if_neg indirs, if_neg names]
  rcases @resolve_fixed env call m bb level s w fixed with ⟨read, resolved⟩ | ⟨position, read, resolved, value, io⟩
  · rcases run : resolve env m bb call level s with ⟨_ | offset, s'⟩
    · simp [read]
    · rw [run] at resolved
      cases resolved
  · rcases run : resolve env m bb call level s with ⟨_ | offset, s'⟩
    · rw [run] at resolved
      cases resolved
    · rw [run] at resolved value io
      dsimp only at resolved value io
      obtain rfl := Option.some.inj resolved
      simp only [mgetAt_fixed fixed, read, value, io, Option.some.injEq, exists_eq_left']
      rw [← enoughData_iff fixed]
      cases enoughData m (flen bb) (if has m.flag INDIR then position else s.offset)
      · simp
      · simp [Nat.not_le.mp indirs, Nat.not_le.mp names]

/-- When no field is accepted that leaves the buffer. -/
theorem mget_inside_iff (fixed : m.type.fieldWidth = some w) :
    ((mget recur env m bb call level s).rv = some true →
        ∃ position, readAt env m bb call level s = some position ∧ position + w ≤ flen bb) ↔
      ¬ ∃ position, PaddedRead env m bb call level s w position := by
  rw [mget_fixed fixed]
  constructor
  · rintro inside ⟨position, padded⟩
    have passes : m.type.unchecked = true ∨
        (if has m.flag INDIR then position else s.offset) + w ≤ flen bb := by
      rcases padded.passes with unchecked | ⟨direct, le⟩
      · exact .inl unchecked
      · exact .inr (by simpa [direct] using le)
    obtain ⟨position', read, le⟩ :=
      inside ⟨padded.indirs, padded.names, position, padded.read, passes, padded.converts⟩
    have same : position' = position := Option.some.inj (read.symm.trans padded.read)
    have leaves := padded.leaves
    omega
  · rintro none ⟨indirs, names, position, read, passes, converts⟩
    refine ⟨position, read, ?_⟩
    by_contra outside
    refine none ⟨position, indirs, names, read, Nat.not_le.mp outside, ?_, converts⟩
    rcases passes with unchecked | le
    · exact .inl unchecked
    · cases indir : has m.flag INDIR with
      | false => exact .inr ⟨rfl, by simpa [indir] using le⟩
      | true => exact absurd (by simpa [indir] using le) outside

end

/-- `0 lelong x` in four bytes is read inside the buffer. -/
theorem mget_inside_lelong :
    (mget (matchMagic (plainEnv [] [])) (plainEnv [] []) { plainLine with type := .lelong }
        (some (asc "abcd")) plainCall 0 (plainScan (asc "abcd"))).rv = some true ∧
      ∃ position, readAt (plainEnv [] []) { plainLine with type := .lelong } (some (asc "abcd")) plainCall 0
          (plainScan (asc "abcd")) = some position ∧ position + 4 ≤ flen (some (asc "abcd")) := by
  have read : (mget (matchMagic (plainEnv [] [])) (plainEnv [] []) { plainLine with type := .lelong }
      (some (asc "abcd")) plainCall 0 (plainScan (asc "abcd"))).rv = some true := by decide +kernel
  refine ⟨read, (mget_inside_iff rfl).mpr ?_ read⟩
  rintro ⟨position, padded⟩
  rcases padded.passes with unchecked | ⟨-, -⟩
  · cases unchecked
  · have at' : position = 0 := (Option.some.inj padded.read).symm
    have leaves := padded.leaves
    rw [at'] at leaves
    exact absurd leaves (by decide)

/-- `0 lequad x` in four bytes is read as if four zeros followed. -/
theorem mget_padded :
    ({ plainLine with type := .lequad } : Magic).type.fieldWidth = some 8 ∧
      (mget (matchMagic (plainEnv [] [])) (plainEnv [] []) { plainLine with type := .lequad }
        (some (asc "abcd")) plainCall 0 (plainScan (asc "abcd"))).rv = some true ∧
      ¬ ∃ position, readAt (plainEnv [] []) { plainLine with type := .lequad } (some (asc "abcd")) plainCall 0
          (plainScan (asc "abcd")) = some position ∧ position + 8 ≤ flen (some (asc "abcd")) := by
  refine ⟨rfl, by decide +kernel, ?_⟩
  rintro ⟨position, read, le⟩
  have four : flen (some (asc "abcd")) = 4 := by decide
  omega

end Libmagic.Softmagic
