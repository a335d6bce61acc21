import Mathlib.Data.List.Basic

/-!
# A heap of blocks

Blocks of cells that are allocated, resized and freed. Whether an allocation succeeds, and what a
fresh cell holds, is given with each call: `none` is the null pointer.
-/
namespace Libmagic

/-- The live blocks, and the first address that was never given out. -/
structure Heap (α : Type) where
  block : Nat → Option (List α)
  next : Nat
  unused : ∀ p, next ≤ p → block p = none

/-- A null pointer, or what the fresh cells hold. -/
abbrev Allocation (α : Type) := Option (Nat → α)

namespace Heap

variable {α : Type} {h : Heap α} {p q : Nat}

def add (h : Heap α) (b : List α) : Heap α where
  block q := if q = h.next then some b else h.block q
  next := h.next + 1
  unused := by
    intro q le
    rw [if_neg (Nat.ne_of_gt le)]
    exact h.unused q (Nat.le_of_succ_le le)

def free (h : Heap α) (p : Nat) : Heap α where
  block q := if q = p then none else h.block q
  next := h.next
  unused := by
    intro q le
    rw [h.unused q le, ite_self]

/-- Writes in a block. -/
def modify (h : Heap α) (p : Nat) (f : List α → List α) : Heap α where
  block q := if q = p then (h.block p).map f else h.block q
  next := h.next
  unused := by
    intro q le
    split_ifs with same
    · rw [← same, h.unused q le, Option.map_none]
    · exact h.unused q le

def malloc (h : Heap α) (n : Nat) : Allocation α → Option Nat × Heap α
  | none => (none, h)
  | some fresh => (some h.next, h.add ((List.range n).map fresh))

/-- The cells of `old` as far as they go, and fresh ones behind them. -/
def resized (old : List α) (n : Nat) (fresh : Nat → α) : List α := (List.range n).map (fun i => old[i]?.getD (fresh i))

/-- A block that cannot be resized stays as it is. -/
def realloc (h : Heap α) (p n : Nat) : Allocation α → Option Nat × Heap α
  | none => (none, h)
  | some fresh => (some h.next, (h.add (resized ((h.block p).getD []) n fresh)).free p)

/-! ## What the operations keep -/

theorem lt_next {b : List α} (live : h.block p = some b) : p < h.next := by
  by_contra le
  rw [h.unused p (Nat.not_lt.mp le)] at live
  cases live

@[simp] theorem add_next (h : Heap α) (b : List α) : (h.add b).block h.next = some b := if_pos rfl

theorem add_block {b b' : List α} (live : h.block p = some b) : (h.add b').block p = some b :=
  (if_neg (Nat.ne_of_lt (lt_next live))).trans live

theorem free_block (other : q ≠ p) : (h.free p).block q = h.block q := if_neg other

@[simp] theorem modify_self (h : Heap α) (p : Nat) (f : List α → List α) :
    (h.modify p f).block p = (h.block p).map f := if_pos rfl

theorem modify_block (other : q ≠ p) (f : List α → List α) : (h.modify p f).block q = h.block q := if_neg other

@[simp] theorem resized_length (old : List α) (n : Nat) (fresh : Nat → α) : (resized old n fresh).length = n := by
  rw [resized, List.length_map, List.length_range]

theorem resized_getElem {old : List α} {n i : Nat} (fresh : Nat → α) (inside : i < n) :
    (resized old n fresh)[i]? = some (old[i]?.getD (fresh i)) := by
  rw [resized, List.getElem?_map, List.getElem?_range inside, Option.map_some]

/-- The cells that are in both the old block and the new one. -/
theorem resized_kept {old : List α} {n i : Nat} (fresh : Nat → α) (inside : i < n) (there : i < old.length) :
    (resized old n fresh)[i]? = old[i]? := by
  rw [resized_getElem fresh inside, List.getElem?_eq_getElem there, Option.getD_some]

end Heap

end Libmagic
