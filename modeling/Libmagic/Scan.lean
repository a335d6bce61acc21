import Mathlib.Data.List.TakeWhile

/-!
# Scanning a list

How far a scanner goes that stops at the first element it does not take.
-/
namespace Libmagic

variable {α : Type*} {p : α → Bool}

theorem takeWhile_split {front back : List α} (all : ∀ b ∈ front, p b) (stop : ∀ b ∈ back.head?, p b = false) :
    (front ++ back).takeWhile p = front ∧ (front ++ back).dropWhile p = back := by
  have last : back.takeWhile p = [] ∧ back.dropWhile p = back := by
    cases back with
    | nil => exact ⟨rfl, rfl⟩
    | cons b back =>
        have no : ¬ p b = true := by rw [stop b rfl]; exact Bool.false_ne_true
        exact ⟨List.takeWhile_cons_of_neg no, List.dropWhile_cons_of_neg no⟩
  rw [List.takeWhile_append_of_pos all, List.dropWhile_append_of_pos all, last.1, last.2, List.append_nil]
  exact ⟨rfl, rfl⟩

theorem dropWhile_head (bs : List α) : ∀ b ∈ (bs.dropWhile p).head?, p b = false := by
  intro b first
  induction bs with
  | nil => cases first
  | cons c bs ih =>
      by_cases hc : p c
      · rw [List.dropWhile_cons_of_pos hc] at first
        exact ih first
      · rw [List.dropWhile_cons_of_neg hc] at first
        obtain rfl := Option.some.inj first
        exact Bool.eq_false_iff.mpr hc

/-- What starts with an element that is not taken is left as it is. -/
theorem dropWhile_stop {bs : List α} (stop : ∀ b ∈ bs.head?, p b = false) : bs.dropWhile p = bs :=
  (@takeWhile_split α p [] bs (fun _ member => absurd member List.not_mem_nil) stop).2

end Libmagic
