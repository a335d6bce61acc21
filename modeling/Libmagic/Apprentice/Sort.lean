import Mathlib.Data.List.Lex
import Mathlib.Data.List.Pairwise
import Mathlib.Data.List.Sort
import Mathlib.Data.Prod.Lex
import Mathlib.Order.RelClasses
import Libmagic.Apprentice.Strength

/-!
# `apprentice.c`: the order of the entries

`apprentice_sort` compares the heads of two entries, `qsort` orders the entries by it, and
`coalesce_entries` puts their lines into one array.
-/
namespace Libmagic.Apprentice

open Softmagic (Bytes MType memcmp)

/-! ## `memcmp` -/

/-- The bytes as numbers, whose lists are ordered like memory. -/
def digits (m : Bytes) : List Nat := m.map UInt8.toNat

theorem digits_injective : Function.Injective digits :=
  List.map_injective_iff.mpr fun _ _ => UInt8.toNat_inj.mp

theorem memcmp_neg {a b : Bytes} (size : a.length = b.length) : memcmp a b < 0 ↔ digits a < digits b := by
  induction a generalizing b with
  | nil =>
      cases b with
      | nil => simp [memcmp, digits]
      | cons _ _ => cases size
  | cons x a ih =>
      cases b with
      | nil => cases size
      | cons y b =>
          have rest := @ih b (Nat.succ.inj size)
          have low : x.toNat = y.toNat ↔ x = y := UInt8.toNat_inj
          rw [memcmp, digits, digits, List.map_cons, List.map_cons, List.cons_lt_cons_iff, ← digits, ← digits,
            ← rest]
          split_ifs with same
          · subst same
            simp
          · have differ : x.toNat ≠ y.toNat := fun eq => same (low.mp eq)
            omega

theorem memcmp_swap (a b : Bytes) : memcmp b a = - memcmp a b := by
  induction a generalizing b with
  | nil => cases b <;> rfl
  | cons x a ih =>
      cases b with
      | nil => rfl
      | cons y b =>
          rw [memcmp, memcmp, ih b]
          by_cases same : x = y
          · rw [if_pos same, if_pos same.symm]
          · rw [if_neg same, if_neg fun eq => same eq.symm]
            omega

/-! ## `apprentice_sort` -/

/-- `struct magic_entry`: a head with its continuations, whose strength can be told. -/
structure WeighedEntry where
  mp : Entry
  rest : List Entry
  strength : Nat
  weighed : fileMagicStrength mp.bytes = some strength
  deriving DecidableEq

/-- The lines of an entry, in the order of the source. -/
def WeighedEntry.lines (e : WeighedEntry) : List Entry := e.mp :: e.rest

/-- The head with `lineno` set to 0. -/
def WeighedEntry.unnumbered (e : WeighedEntry) : Bytes := Member.lineno.set e.mp.bytes (List.replicate 4 0)

/-- `apprentice_sort`. -/
def apprenticeSort (ma mb : WeighedEntry) : Int :=
  if ma.strength = mb.strength then
    let x := memcmp ma.unnumbered mb.unnumbered
    if x = 0 then 0 else if x > 0 then -1 else 1
  else if ma.strength > mb.strength then -1 else 1

/-- `ma` goes before `mb`. -/
def Before (ma mb : WeighedEntry) : Prop := apprenticeSort ma mb < 0

/-- What the entries are ordered by, the greatest first. -/
def WeighedEntry.key (e : WeighedEntry) : Nat ×ₗ List Nat := toLex (e.strength, digits e.unnumbered)

theorem unnumbered_length (e : WeighedEntry) : e.unnumbered.length = FILE_MAGICSIZE := by
  rw [WeighedEntry.unnumbered, Field.set_length, e.mp.size]

theorem before_iff (ma mb : WeighedEntry) : Before ma mb ↔ mb.key < ma.key := by
  have size : mb.unnumbered.length = ma.unnumbered.length := by
    rw [unnumbered_length, unnumbered_length]
  have swap := memcmp_swap mb.unnumbered ma.unnumbered
  rw [Before, apprenticeSort, WeighedEntry.key, WeighedEntry.key, Prod.Lex.toLex_lt_toLex, ← memcmp_neg size]
  dsimp only
  split_ifs with same zero positive greater <;> omega

theorem key_injective {ma mb : WeighedEntry} (same : ma.key = mb.key) : ma.unnumbered = mb.unnumbered := by
  have pair := toLex_inj.mp same
  exact digits_injective (congrArg Prod.snd pair)

instance : IsStrictWeakOrder WeighedEntry Before where
  irrefl a := by
    rw [before_iff]
    exact lt_irrefl _
  trans a b c := by
    rw [before_iff, before_iff, before_iff]
    intro first second
    exact second.trans first
  incomp_trans a b c := by
    simp only [before_iff, not_lt]
    intro first second
    exact ⟨first.1.trans second.1, second.2.trans first.2⟩

/-- Entries that are not ordered have the same head up to its line number. -/
theorem unnumbered_eq {ma mb : WeighedEntry} (left : ¬ Before ma mb) (right : ¬ Before mb ma) :
    ma.unnumbered = mb.unnumbered := by
  rw [before_iff, not_lt] at left right
  exact key_injective (le_antisymm left right)

/-! ## `qsort` and `coalesce_entries` -/

/-- What `qsort` may make of the entries: nothing that should go before an entry is behind it. -/
structure Qsorted (me sorted : List WeighedEntry) : Prop where
  perm : sorted.Perm me
  ordered : sorted.Pairwise fun ma mb => ¬ Before mb ma

/-- The array of the lines of the entries. -/
def coalesced (me : List WeighedEntry) : Option (List Entry) := coalesceEntries (me.map WeighedEntry.lines)

section
variable {me me' sorted sorted' : List WeighedEntry}

/-- There is only one way to order entries with different heads. -/
theorem qsorted_unique (same : me.Perm me') (distinct : me.Pairwise fun ma mb => ma.unnumbered ≠ mb.unnumbered)
    (qsort : Qsorted me sorted) (qsort' : Qsorted me' sorted') : sorted = sorted' := by
  have unordered : ∀ ma ∈ me, ∀ mb ∈ me, ma ≠ mb → ma.unnumbered ≠ mb.unnumbered := by
    have symm : Std.Symm fun ma mb : WeighedEntry => ma.unnumbered ≠ mb.unnumbered :=
      ⟨fun _ _ differ => differ.symm⟩
    exact fun ma left mb right => distinct.forall left right
  refine List.Perm.eq_of_pairwise ?_ qsort.ordered qsort'.ordered
    (qsort.perm.trans (same.trans qsort'.perm.symm))
  intro ma mb left right notBefore notBefore'
  by_contra differ
  exact unordered ma (qsort.perm.mem_iff.mp left) mb (same.mem_iff.mpr (qsort'.perm.mem_iff.mp right)) differ
    (unnumbered_eq notBefore' notBefore)

theorem coalesced_lines {array : List Entry} (eq : coalesced me = some array) :
    array = me.flatMap WeighedEntry.lines := by
  rw [coalesced, coalesceEntries] at eq
  split_ifs at eq
  rw [List.flatMap_def]
  exact (Option.some.inj eq).symm

/-- The array does not depend on the order of the source, and holds every entry once. -/
theorem coalesced_order (same : me.Perm me') (distinct : me.Pairwise fun ma mb => ma.unnumbered ≠ mb.unnumbered)
    (qsort : Qsorted me sorted) (qsort' : Qsorted me' sorted') :
    IsStrictWeakOrder WeighedEntry Before ∧
      (∀ ma mb, ¬ Before ma mb → ¬ Before mb ma → ma.unnumbered = mb.unnumbered) ∧
      coalesced sorted = coalesced sorted' ∧
      ∀ array, coalesced sorted = some array →
        ∃ order : List WeighedEntry, order.Perm me ∧ array = order.flatMap WeighedEntry.lines := by
  refine ⟨inferInstance, fun ma mb => unnumbered_eq, ?_, ?_⟩
  · rw [qsorted_unique same distinct qsort qsort']
  · intro array eq
    exact ⟨sorted, qsort.perm, coalesced_lines eq⟩

/-! ## `default` -/

/-- A strength of 0 is for `default` alone. -/
def StrengthRight (e : WeighedEntry) : Prop :=
  if typeOf e.mp.bytes = .default then e.strength = 0 else 1 ≤ e.strength

/-- A `default` entry of level 0. -/
def LevelZeroDefault (e : WeighedEntry) : Prop :=
  byteOf Member.contLevel e.mp.bytes = 0 ∧ typeOf e.mp.bytes = .default

/-- No entry with another type follows a `default` entry of level 0. -/
def DefaultsLast (sorted : List WeighedEntry) : Prop :=
  sorted.Pairwise fun d e => LevelZeroDefault d → typeOf e.mp.bytes = .default

theorem typeOf_unnumbered (e : WeighedEntry) : typeOf e.unnumbered = typeOf e.mp.bytes := by
  have same : Member.type.get e.unnumbered = Member.type.get e.mp.bytes :=
    Field.get_set_disjoint (by decide) rfl
  rw [typeOf, typeOf, typeCode, typeCode, same]

/-- Entries of different types are ordered. -/
theorem before_or_before {d e : WeighedEntry} (differ : typeOf d.mp.bytes ≠ typeOf e.mp.bytes) :
    Before d e ∨ Before e d := by
  by_contra unordered
  obtain ⟨left, right⟩ := not_or.mp unordered
  apply differ
  rw [← typeOf_unnumbered d, ← typeOf_unnumbered e, unnumbered_eq left right]

/-- `default` is last when every other entry is stronger, or as strong and greater. -/
theorem defaultsLast_iff (qsort : Qsorted me sorted) :
    DefaultsLast sorted ↔
      ∀ d ∈ me, ∀ e ∈ me, LevelZeroDefault d → typeOf e.mp.bytes ≠ .default → Before e d := by
  rw [DefaultsLast, List.pairwise_iff_getElem]
  constructor
  · intro last d left e right level other
    have differ : typeOf d.mp.bytes ≠ typeOf e.mp.bytes := by
      rw [level.2]
      exact other.symm
    rcases before_or_before differ with before | before
    · obtain ⟨i, lt, rfl⟩ := List.mem_iff_getElem.mp (qsort.perm.mem_iff.mpr left)
      obtain ⟨j, lt', rfl⟩ := List.mem_iff_getElem.mp (qsort.perm.mem_iff.mpr right)
      rcases Nat.lt_trichotomy i j with less | rfl | greater
      · exact absurd (last i j lt lt' less level) other
      · exact absurd rfl differ
      · exact absurd before (List.pairwise_iff_getElem.mp qsort.ordered j i lt' lt greater)
    · exact before
  · intro before i j lt lt' less level
    by_contra other
    exact List.pairwise_iff_getElem.mp qsort.ordered i j lt lt' less
      (before _ (qsort.perm.mem_iff.mp (List.getElem_mem lt)) _ (qsort.perm.mem_iff.mp (List.getElem_mem lt'))
        level other)

theorem strengthRight_iff (e : WeighedEntry) : StrengthRight e ↔ typeOf e.mp.bytes ≠ .default := by
  have positive := one_le_strength e.weighed
  rw [StrengthRight]
  split_ifs with default
  · exact ⟨fun zero => by omega, fun other => absurd default other⟩
  · exact ⟨fun _ => default, fun _ => positive⟩

end

/-! ## Entries for runs on concrete data -/

/-- An entry that starts with these bytes. -/
def entryOf (start : Bytes) : Entry :=
  ⟨(start ++ List.replicate FILE_MAGICSIZE 0).take FILE_MAGICSIZE, by
    rw [List.length_take, List.length_append, List.length_replicate]
    omega⟩

/-- `0 default x` without a description. -/
def defaultEntry : WeighedEntry := ⟨entryOf [0, 0, 0, 0, 0x78, 0, 3], [], 2, by decide +kernel⟩

/-- `0 byte x` without a description. -/
def byteEntry : WeighedEntry := ⟨entryOf [0, 0, 0, 0, 0x78, 0, 1], [], 2, by decide +kernel⟩

/-- `0 byte =0` without a description. -/
def byteZeroEntry : WeighedEntry := ⟨entryOf [0, 0, 0, 0, 0x3d, 0, 1], [], 41, by decide +kernel⟩

instance (ma mb : WeighedEntry) : Decidable (Before ma mb) := inferInstanceAs (Decidable (_ < _))

theorem coalesced_order_bytes :
    coalesced [byteZeroEntry, byteEntry] = some [byteZeroEntry.mp, byteEntry.mp] ∧
      coalesced [byteZeroEntry, byteEntry] = coalesced [byteZeroEntry, byteEntry] := by
  have order := @coalesced_order [byteEntry, byteZeroEntry] [byteZeroEntry, byteEntry] [byteZeroEntry, byteEntry]
    [byteZeroEntry, byteEntry] (List.Perm.swap _ _ _) (by decide +kernel)
    ⟨List.Perm.swap _ _ _, by decide +kernel⟩ ⟨List.Perm.refl _, by decide +kernel⟩
  exact ⟨rfl, order.2.2.1⟩

end Libmagic.Apprentice
