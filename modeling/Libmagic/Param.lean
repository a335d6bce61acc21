import Mathlib.Tactic.Common

/-!
# `magic.c`: the parameters of a `magic_set`

Three switches over the same numbers. The members are as wide as those of `struct magic_set`, and a
value is a `size_t`.
-/
namespace Libmagic.Magic

def MAGIC_PARAM_INDIR_MAX : Int := 0
def MAGIC_PARAM_NAME_MAX : Int := 1
def MAGIC_PARAM_ELF_PHNUM_MAX : Int := 2
def MAGIC_PARAM_ELF_SHNUM_MAX : Int := 3
def MAGIC_PARAM_ELF_NOTES_MAX : Int := 4
def MAGIC_PARAM_REGEX_MAX : Int := 5
def MAGIC_PARAM_BYTES_MAX : Int := 6
def MAGIC_PARAM_ENCODING_MAX : Int := 7
def MAGIC_PARAM_ELF_SHSIZE_MAX : Int := 8
def MAGIC_PARAM_MAGWARN_MAX : Int := 9

/-- The limits of `struct magic_set`. -/
structure Limits where
  indirMax : UInt16
  nameMax : UInt16
  elfShnumMax : UInt16
  elfPhnumMax : UInt16
  elfNotesMax : UInt16
  regexMax : UInt16
  magwarnMax : UInt16
  bytesMax : UInt64
  encodingMax : UInt64
  elfShsizeMax : UInt64
  deriving DecidableEq, Repr

/-- `errno`. -/
inductive Errno where
  | EFAULT | EINVAL
  deriving DecidableEq, Repr

/-- `magic_getmaxparam`; an error is `-1`. -/
def magicGetmaxparam (param : Int) : Except Errno Nat :=
  if param = MAGIC_PARAM_INDIR_MAX ∨ param = MAGIC_PARAM_NAME_MAX ∨ param = MAGIC_PARAM_ELF_PHNUM_MAX ∨
      param = MAGIC_PARAM_ELF_SHNUM_MAX ∨ param = MAGIC_PARAM_ELF_SHSIZE_MAX ∨
      param = MAGIC_PARAM_ELF_NOTES_MAX ∨ param = MAGIC_PARAM_REGEX_MAX then .ok 0xffff
  else if param = MAGIC_PARAM_BYTES_MAX ∨ param = MAGIC_PARAM_ENCODING_MAX ∨
      param = MAGIC_PARAM_MAGWARN_MAX then .ok 0x7fffffff
  else .error .EINVAL

/-- The `switch` of `magic_setparam`. -/
def Limits.set (ms : Limits) (param : Int) (v : UInt64) : Except Errno Limits :=
  if param = MAGIC_PARAM_INDIR_MAX then .ok { ms with indirMax := v.toUInt16 }
  else if param = MAGIC_PARAM_NAME_MAX then .ok { ms with nameMax := v.toUInt16 }
  else if param = MAGIC_PARAM_ELF_PHNUM_MAX then .ok { ms with elfPhnumMax := v.toUInt16 }
  else if param = MAGIC_PARAM_ELF_SHNUM_MAX then .ok { ms with elfShnumMax := v.toUInt16 }
  else if param = MAGIC_PARAM_ELF_SHSIZE_MAX then .ok { ms with elfShsizeMax := v }
  else if param = MAGIC_PARAM_ELF_NOTES_MAX then .ok { ms with elfNotesMax := v.toUInt16 }
  else if param = MAGIC_PARAM_REGEX_MAX then .ok { ms with regexMax := v.toUInt16 }
  else if param = MAGIC_PARAM_BYTES_MAX then .ok { ms with bytesMax := v }
  else if param = MAGIC_PARAM_ENCODING_MAX then .ok { ms with encodingMax := v }
  -- no cast here, but the member has 16 bits
  else if param = MAGIC_PARAM_MAGWARN_MAX then .ok { ms with magwarnMax := v.toUInt16 }
  else .error .EINVAL

/-- The `switch` of `magic_getparam`. -/
def Limits.get (ms : Limits) (param : Int) : Except Errno UInt64 :=
  if param = MAGIC_PARAM_INDIR_MAX then .ok ms.indirMax.toUInt64
  else if param = MAGIC_PARAM_NAME_MAX then .ok ms.nameMax.toUInt64
  else if param = MAGIC_PARAM_ELF_PHNUM_MAX then .ok ms.elfPhnumMax.toUInt64
  else if param = MAGIC_PARAM_ELF_SHNUM_MAX then .ok ms.elfShnumMax.toUInt64
  else if param = MAGIC_PARAM_ELF_SHSIZE_MAX then .ok ms.elfShsizeMax
  else if param = MAGIC_PARAM_ELF_NOTES_MAX then .ok ms.elfNotesMax.toUInt64
  else if param = MAGIC_PARAM_REGEX_MAX then .ok ms.regexMax.toUInt64
  else if param = MAGIC_PARAM_BYTES_MAX then .ok ms.bytesMax
  else if param = MAGIC_PARAM_ENCODING_MAX then .ok ms.encodingMax
  else if param = MAGIC_PARAM_MAGWARN_MAX then .ok ms.magwarnMax.toUInt64
  else .error .EINVAL

/-- `magic_setparam`: the set that it leaves; `none` is a null pointer. -/
def magicSetparam (ms : Option Limits) (param : Int) (val : Option UInt64) : Except Errno Limits :=
  match ms, val with
  | some ms, some v => ms.set param v
  | _, _ => .error .EFAULT

/-- `magic_getparam`, for a `val` that is no null pointer. -/
def magicGetparam (ms : Option Limits) (param : Int) : Except Errno UInt64 :=
  match ms with
  | some ms => ms.get param
  | none => .error .EFAULT

/-- A parameter that is set is what it was set to, and the others are what they were. -/
structure RoundTrip (ms : Limits) (param : Int) (v : UInt64) : Prop where
  kept : ∃ ms', magicSetparam (some ms) param (some v) = .ok ms' ∧ magicGetparam (some ms') param = .ok v ∧
    ∀ other, other ≠ param → magicGetparam (some ms') other = magicGetparam (some ms) other

/-- The parameters whose members are a `size_t`. -/
def Wide (param : Int) : Prop :=
  param = MAGIC_PARAM_ELF_SHSIZE_MAX ∨ param = MAGIC_PARAM_BYTES_MAX ∨ param = MAGIC_PARAM_ENCODING_MAX

/-- The others. -/
def Narrow (param : Int) : Prop :=
  param = MAGIC_PARAM_INDIR_MAX ∨ param = MAGIC_PARAM_NAME_MAX ∨ param = MAGIC_PARAM_ELF_PHNUM_MAX ∨
    param = MAGIC_PARAM_ELF_SHNUM_MAX ∨ param = MAGIC_PARAM_ELF_NOTES_MAX ∨ param = MAGIC_PARAM_REGEX_MAX ∨
    param = MAGIC_PARAM_MAGWARN_MAX

instance (param : Int) : Decidable (Wide param) := inferInstanceAs (Decidable (_ ∨ _))

instance (param : Int) : Decidable (Narrow param) := inferInstanceAs (Decidable (_ ∨ _))

/-- What a parameter is after a call with a value, and that no other one has changed. -/
structure Stores (ms : Limits) (param : Int) (v stored : UInt64) : Prop where
  stores : ∃ ms', ms.set param v = .ok ms' ∧ ms'.get param = .ok stored ∧
    ∀ other, other ≠ param → ms'.get other = ms.get other

theorem stores_wide {param : Int} (wide : Wide param) (ms : Limits) (v : UInt64) : Stores ms param v v := by
  rcases wide with rfl | rfl | rfl <;>
  · refine ⟨_, rfl, rfl, ?_⟩
    intro other ne
    simp only [Limits.get, ne, if_false]

theorem stores_narrow {param : Int} (narrow : Narrow param) (ms : Limits) (v : UInt64) :
    Stores ms param v v.toUInt16.toUInt64 := by
  rcases narrow with rfl | rfl | rfl | rfl | rfl | rfl | rfl <;>
  · refine ⟨_, rfl, rfl, ?_⟩
    intro other ne
    simp only [Limits.get, ne, if_false]

theorem toUInt16_toUInt64 (v : UInt64) : v.toUInt16.toUInt64 = v ↔ v.toNat ≤ 0xffff := by
  rw [← UInt64.toNat_inj, UInt16.toNat_toUInt64, UInt64.toNat_toUInt16]
  omega

/-- The ways in which a parameter can have a maximum. -/
theorem magicGetmaxparam_cases {param : Int} {max : Nat} (some : magicGetmaxparam param = .ok max) :
    Wide param ∨ (Narrow param ∧ max = 0xffff) ∨ param = MAGIC_PARAM_MAGWARN_MAX := by
  unfold magicGetmaxparam at some
  split at some
  next narrow =>
    cases some
    rcases narrow with rfl | rfl | rfl | rfl | rfl | rfl | rfl <;> decide
  next =>
    split at some
    next large =>
      rcases large with rfl | rfl | rfl
      · exact .inl (by decide)
      · exact .inl (by decide)
      · exact .inr (.inr rfl)
    next => cases some

theorem roundTrip_iff {ms : Limits} {param : Int} {v stored : UInt64} (stores : Stores ms param v stored) :
    RoundTrip ms param v ↔ stored = v := by
  obtain ⟨ms', set, get, others⟩ := stores
  constructor
  · rintro ⟨ms'', set', get', _⟩
    have same : ms' = ms'' := Except.ok.inj (set.symm.trans set')
    exact Except.ok.inj (get.symm.trans (same ▸ get'))
  · rintro rfl
    exact ⟨ms', set, get, others⟩

/-- A parameter keeps every value up to its maximum but the number of warnings, which has a larger
maximum than its member. -/
theorem param_roundTrip_iff (ms : Limits) (param : Int) (max : Nat) (v : UInt64)
    (some : magicGetmaxparam param = .ok max) (le : v.toNat ≤ max) :
    RoundTrip ms param v ↔ (param ≠ MAGIC_PARAM_MAGWARN_MAX ∨ v.toNat ≤ 0xffff) := by
  rcases magicGetmaxparam_cases some with wide | ⟨narrow, rfl⟩ | rfl
  · have other : param ≠ MAGIC_PARAM_MAGWARN_MAX := by
      rcases wide with rfl | rfl | rfl <;> decide
    rw [roundTrip_iff (stores_wide wide ms v)]
    exact iff_of_true rfl (.inl other)
  · rw [roundTrip_iff (stores_narrow narrow ms v), toUInt16_toUInt64]
    exact iff_of_true le (.inr le)
  · have narrow : Narrow MAGIC_PARAM_MAGWARN_MAX := by decide
    rw [roundTrip_iff (stores_narrow narrow ms v), toUInt16_toUInt64]
    exact ⟨.inr, fun kept => kept.resolve_left (not_not_intro rfl)⟩

/-- The limits that `magic_open` sets. -/
def opened : Limits := ⟨50, 150, 32768, 2048, 256, 8192, 64, 7 * 1024 * 1024, 64 * 1024, 128 * 1024 * 1024⟩

theorem param_roundTrip_warnings :
    (magicGetmaxparam MAGIC_PARAM_MAGWARN_MAX = .ok 0x7fffffff ∧ (100 : UInt64).toNat ≤ 0x7fffffff) ∧
    RoundTrip opened MAGIC_PARAM_MAGWARN_MAX 100 := by
  have some : magicGetmaxparam MAGIC_PARAM_MAGWARN_MAX = .ok 0x7fffffff := rfl
  have le : (100 : UInt64).toNat ≤ 0x7fffffff := by decide
  exact ⟨⟨some, le⟩, (param_roundTrip_iff opened _ _ 100 some le).mpr (.inr (by decide))⟩

/-- 65536 warnings are within the maximum, and become none. -/
theorem param_not_roundTrip :
    (magicGetmaxparam MAGIC_PARAM_MAGWARN_MAX = .ok 0x7fffffff ∧ (65536 : UInt64).toNat ≤ 0x7fffffff) ∧
    ¬ RoundTrip opened MAGIC_PARAM_MAGWARN_MAX 65536 := by
  refine ⟨⟨rfl, by decide⟩, ?_⟩
  rintro ⟨ms', set, get, _⟩
  cases set
  cases get

end Libmagic.Magic
