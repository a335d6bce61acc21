import Mathlib.Data.List.TakeWhile
import Libmagic.Softmagic.Types

/-!
# Strings in memory

A string ends at its first NUL. What is behind the end of an object counts as 0.
-/
namespace Libmagic.Softmagic

theorem cstring_cons {c : UInt8} (char : c ≠ 0) (s : Bytes) : cstring (c :: s) = c :: cstring s :=
  List.takeWhile_cons_of_pos (bne_iff_ne.mpr char)

theorem cstring_length_le (s : Bytes) : (cstring s).length ≤ s.length :=
  (List.takeWhile_prefix _).length_le

theorem zero_notMem_cstring (s : Bytes) : 0 ∉ cstring s :=
  fun mem => absurd rfl (bne_iff_ne.mp (@List.mem_takeWhile_imp _ (· != 0) s 0 mem))

theorem cstring_self {text : Bytes} (clean : 0 ∉ text) : cstring text = text := by
  rw [cstring, List.takeWhile_eq_self_iff]
  intro b mem
  rw [bne_iff_ne]
  rintro rfl
  exact clean mem

theorem cstring_append_zero (front back : Bytes) : cstring (front ++ 0 :: back) = cstring front := by
  induction front with
  | nil => rfl
  | cons b front ih =>
      rw [cstring, cstring] at ih ⊢
      rw [List.cons_append, List.takeWhile_cons, List.takeWhile_cons, ih]

theorem cstring_terminated {text : Bytes} (clean : 0 ∉ text) (rest : Bytes) : cstring (text ++ 0 :: rest) = text := by
  rw [cstring_append_zero, cstring_self clean]

/-- Up to its NUL, the object and the string are the same. -/
theorem getD_cstring {str : Bytes} {i : Nat} (inside : i ≤ (cstring str).length) :
    str.getD i 0 = (cstring str).getD i 0 := by
  induction str generalizing i with
  | nil => rfl
  | cons c s ih =>
      by_cases char : c = 0
      · subst char
        obtain rfl : i = 0 := Nat.le_zero.mp inside
        rfl
      · rw [cstring_cons char] at inside ⊢
        cases i with
        | zero => rfl
        | succ i =>
            rw [List.getD_cons_succ, List.getD_cons_succ]
            exact ih (Nat.le_of_succ_le_succ inside)

end Libmagic.Softmagic
