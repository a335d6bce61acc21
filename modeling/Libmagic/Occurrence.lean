import Mathlib.Data.List.Infix

/-!
# Occurrences of a pattern in a text

Where a list occurs in another one, and the first such place.
-/
namespace Libmagic

variable {α : Type*} {pattern text : List α} {i j n : Nat}

/-- The pattern stands in the text from place `i` on. -/
def OccursAt (pattern text : List α) (i : Nat) : Prop := pattern <+: text.drop i

instance [DecidableEq α] : Decidable (OccursAt pattern text i) :=
  inferInstanceAs (Decidable (pattern <+: text.drop i))

/-- No place before `i` has the pattern. -/
structure FirstAt (pattern text : List α) (i : Nat) : Prop where
  here : OccursAt pattern text i
  first : ∀ j < i, ¬ OccursAt pattern text j

theorem occursAt_iff_take : OccursAt pattern text i ↔ (text.drop i).take pattern.length = pattern := by
  rw [OccursAt, List.prefix_iff_eq_take]
  exact eq_comm

theorem OccursAt.fits (nonempty : pattern ≠ []) (occurs : OccursAt pattern text i) :
    i + pattern.length ≤ text.length := by
  have le := occurs.length_le
  have positive := List.length_pos_of_ne_nil nonempty
  rw [List.length_drop] at le
  omega

/-- The places of the pattern in the first part of the text. -/
theorem occursAt_take (nonempty : pattern ≠ []) :
    OccursAt pattern (text.take n) i ↔ OccursAt pattern text i ∧ i + pattern.length ≤ n := by
  have positive := List.length_pos_of_ne_nil nonempty
  constructor
  · intro occurs
    have le := occurs.fits nonempty
    rw [List.length_take] at le
    rw [OccursAt, List.drop_take] at occurs
    exact ⟨occurs.trans (List.take_prefix _ _), by omega⟩
  · rintro ⟨occurs, le⟩
    rw [OccursAt, List.drop_take]
    exact List.prefix_take_iff.mpr ⟨occurs, by omega⟩

theorem FirstAt.unique (first : FirstAt pattern text i) (first' : FirstAt pattern text j) : i = j := by
  rcases Nat.lt_trichotomy i j with lt | eq | gt
  · exact absurd first.here (first'.first i lt)
  · exact eq
  · exact absurd first'.here (first.first j gt)

end Libmagic
