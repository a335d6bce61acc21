import Mathlib.Data.Nat.Count
import Mathlib.Data.Finset.Lattice.Fold
import Mathlib.Order.Lattice.Nat
import Libmagic.Softmagic.Types

/-!
# `ascmagic.c`: the line terminators of a text

The position of the last line end starts one in front of the text, which as a `size_t` is the largest
number there is.
-/
namespace Libmagic.Encoding

open Softmagic (uN)

namespace Lines

def MAXLINELEN : Nat := 300

def LF : Nat := 0x0a
def CR : Nat := 0x0d
def NEL : Nat := 0x85

/-- `ubuf[0..ulen)`: an object of `unsigned long`s, whose size is a `size_t`. -/
structure Ubuf where
  units : List Nat
  fits : units.length * 8 < 2 ^ 64

/-- What `file_ascmagic_with_encoding` finds out about the lines. -/
structure Stats where
  hasEscapes : Bool
  hasBackspace : Bool
  seenCr : Bool
  nCrlf : Nat
  nLf : Nat
  nCr : Nat
  nNel : Nat
  lastLineEnd : Nat
  hasLongLines : Nat
  deriving DecidableEq, Repr

def Stats.start : Stats :=
  ⟨false, false, false, 0, 0, 0, 0, uN 64 (-1), 0⟩

/-- A round of the loop. -/
def round (s : Stats) (i u : Nat) : Stats :=
  let s :=
    if u = LF then
      let s := if s.seenCr then { s with nCrlf := s.nCrlf + 1 } else { s with nLf := s.nLf + 1 }
      { s with lastLineEnd := i }
    else if s.seenCr then { s with nCr := s.nCr + 1 }
    else s
  let s := { s with seenCr := u = CR }
  let s := if s.seenCr then { s with lastLineEnd := i } else s
  let s := if u = NEL then { s with nNel := s.nNel + 1, lastLineEnd := i } else s
  let s :=
    if i > uN 64 (s.lastLineEnd + MAXLINELEN) then
      let ll := uN 64 (i - s.lastLineEnd)
      if ll > s.hasLongLines then { s with hasLongLines := ll } else s
    else s
  let s := if u = 0x1b then { s with hasEscapes := true } else s
  if u = 0x08 then { s with hasBackspace := true } else s

/-- The loop, from the `i`-th character on. -/
def loop (s : Stats) (i : Nat) : List Nat → Stats
  | [] => s
  | u :: us => loop (round s i u) (i + 1) us

/-- What is known behind the loop. -/
def stats (ubuf : Ubuf) : Stats :=
  let s := loop .start 0 ubuf.units
  if s.seenCr ∧ s.nCr = 0 ∧ s.nCrlf = 0 then { s with nCr := s.nCr + 1 } else s

/-! ## What the numbers are -/

/-- The characters that end a line. -/
def EndsLine (u : Nat) : Prop := u = LF ∨ u = CR ∨ u = NEL

instance (u : Nat) : Decidable (EndsLine u) := inferInstanceAs (Decidable (_ ∨ _))

/-- The number of characters since the last line terminator, after the first `i`. -/
def since (us : List Nat) (i : Nat) : Nat := ((us.take i).reverse.takeWhile (fun u => ¬ EndsLine u)).length

/-- The largest of these numbers. -/
def longest (us : List Nat) : Nat := (Finset.range (us.length + 1)).sup (since us)

/-- A CR with a LF behind it. -/
def IsCrlf (us : List Nat) (i : Nat) : Prop := us[i]? = some CR ∧ us[i + 1]? = some LF

/-- A LF without a CR in front of it. -/
def IsLf (us : List Nat) (i : Nat) : Prop := us[i]? = some LF ∧ (i = 0 ∨ us[i - 1]? ≠ some CR)

/-- A CR with something else than a LF behind it. -/
def IsCr (us : List Nat) (i : Nat) : Prop :=
  us[i]? = some CR ∧ i + 1 < us.length ∧ us[i + 1]? ≠ some LF

def IsNel (us : List Nat) (i : Nat) : Prop := us[i]? = some NEL

instance (us : List Nat) : DecidablePred (IsCrlf us) := fun _ => inferInstanceAs (Decidable (_ ∧ _))

instance (us : List Nat) : DecidablePred (IsLf us) := fun _ => inferInstanceAs (Decidable (_ ∧ _))

instance (us : List Nat) : DecidablePred (IsCr us) := fun _ => inferInstanceAs (Decidable (_ ∧ _))

instance (us : List Nat) : DecidablePred (IsNel us) := fun _ => inferInstanceAs (Decidable (_ = _))

/-! ## A round -/

section Round

variable (s : Stats) (i u : Nat)

theorem round_seenCr : (round s i u).seenCr = decide (u = CR) := by
  simp only [round, apply_ite Stats.seenCr, ite_self]

theorem round_nCrlf : (round s i u).nCrlf = s.nCrlf + if u = LF ∧ s.seenCr then 1 else 0 := by
  simp only [round, apply_ite Stats.nCrlf, ite_self]
  by_cases lf : u = LF
  · by_cases cr : s.seenCr = true
    · rw [if_pos lf, if_pos cr, if_pos ⟨lf, cr⟩]
    · rw [if_pos lf, if_neg cr, if_neg (fun h => cr h.2), Nat.add_zero]
  · rw [if_neg lf, if_neg (fun h => lf h.1), Nat.add_zero]

theorem round_nLf : (round s i u).nLf = s.nLf + if u = LF ∧ s.seenCr = false then 1 else 0 := by
  simp only [round, apply_ite Stats.nLf, ite_self]
  by_cases lf : u = LF
  · cases cr : s.seenCr with
    | true => rw [if_pos lf, if_pos rfl, if_neg (fun h => Bool.noConfusion h.2), Nat.add_zero]
    | false => rw [if_pos lf, if_neg Bool.false_ne_true, if_pos ⟨lf, rfl⟩]
  · rw [if_neg lf, if_neg (fun h => lf h.1), Nat.add_zero]

theorem round_nCr : (round s i u).nCr = s.nCr + if u ≠ LF ∧ s.seenCr then 1 else 0 := by
  simp only [round, apply_ite Stats.nCr, ite_self]
  by_cases lf : u = LF
  · rw [if_pos lf, if_neg (fun h => h.1 lf), Nat.add_zero]
  · by_cases cr : s.seenCr = true
    · rw [if_neg lf, if_pos cr, if_pos ⟨lf, cr⟩]
    · rw [if_neg lf, if_neg cr, if_neg (fun h => cr h.2), Nat.add_zero]

theorem round_nNel : (round s i u).nNel = s.nNel + if u = NEL then 1 else 0 := by
  simp only [round, apply_ite Stats.nNel, ite_self]
  by_cases nel : u = NEL
  · rw [if_pos nel, if_pos nel]
  · rw [if_neg nel, if_neg nel, Nat.add_zero]

theorem round_lastLineEnd : (round s i u).lastLineEnd = if EndsLine u then i else s.lastLineEnd := by
  simp only [round, apply_ite Stats.lastLineEnd, ite_self, decide_eq_true_iff]
  unfold EndsLine
  by_cases lf : u = LF
  · simp [lf]
  · by_cases cr : u = CR
    · simp [cr]
    · simp [lf, cr]

theorem round_hasLongLines :
    (round s i u).hasLongLines =
      if i > uN 64 ((round s i u).lastLineEnd + MAXLINELEN) ∧
        uN 64 (i - (round s i u).lastLineEnd) > s.hasLongLines
      then uN 64 (i - (round s i u).lastLineEnd) else s.hasLongLines := by
  simp only [round, apply_ite Stats.hasLongLines, apply_ite Stats.lastLineEnd, ite_self, decide_eq_true_iff, gt_iff_lt]
  exact (ite_and ..).symm

end Round

/-! ## The loop -/

section Loop

variable (us : List Nat)

theorem since_succ {i u : Nat} (here : us[i]? = some u) :
    since us (i + 1) = if EndsLine u then 0 else since us i + 1 := by
  unfold since
  rw [List.take_add_one, here, Option.toList_some, List.reverse_append, List.reverse_singleton,
    List.singleton_append, List.takeWhile_cons]
  by_cases ends : EndsLine u <;> simp [ends]

theorem since_le (i : Nat) : since us i ≤ i := by
  calc since us i ≤ (us.take i).reverse.length := (List.takeWhile_prefix _).length_le
    _ = (us.take i).length := List.length_reverse
    _ ≤ i := List.length_take_le i us

/-- The difference to the position that starts one in front of the text. -/
theorem wrap {i m : Nat} (le : m ≤ i + 1) (small : i + MAXLINELEN < 2 ^ 64) :
    (i > uN 64 (uN 64 (i - m) + MAXLINELEN) ↔ m > MAXLINELEN) ∧ uN 64 (i - uN 64 (i - m)) = m := by
  have last : (uN 64 (i - m) : Int) = if m = i + 1 then 2 ^ 64 - 1 else (i : Int) - m := by
    unfold uN
    split <;> omega
  unfold uN MAXLINELEN at *
  rw [last]
  split <;> omega

/-- A line that is too long is remembered if it is longer than those before. -/
theorem longer (m l : Nat) :
    (if m > MAXLINELEN ∧ m > (if MAXLINELEN < l then l else 0) then m else if MAXLINELEN < l then l else 0) =
      if MAXLINELEN < max m l then max m l else 0 := by
  generalize MAXLINELEN = n
  by_cases before : n < l
  · rw [if_pos before, if_pos (lt_max_of_lt_right before)]
    split <;> omega
  · rw [if_neg before]
    split <;> split <;> omega

/-- What the loop knows after `i` characters. -/
structure Known (i : Nat) (s : Stats) : Prop where
  seenCr : s.seenCr = true ↔ ∃ k, k + 1 = i ∧ us[k]? = some CR
  nCrlf : s.nCrlf = Nat.count (IsCrlf us) (i - 1)
  nLf : s.nLf = Nat.count (IsLf us) i
  nCr : s.nCr = Nat.count (IsCr us) (i - 1)
  nNel : s.nNel = Nat.count (IsNel us) i
  lastLineEnd : s.lastLineEnd = uN 64 (i - 1 - since us i)
  hasLongLines : s.hasLongLines =
    if MAXLINELEN < (Finset.range (i + 1)).sup (since us) then (Finset.range (i + 1)).sup (since us) else 0

theorem known_start : Known us 0 .start where
  seenCr := ⟨fun seen => Bool.noConfusion seen, fun ⟨k, next, _⟩ => absurd next (Nat.succ_ne_zero k)⟩
  nCrlf := rfl
  nLf := rfl
  nCr := rfl
  nNel := rfl
  lastLineEnd := rfl
  hasLongLines := rfl

/-- Pairs that end at the `i`-th character. -/
theorem count_pairs (P : Nat → Prop) [DecidablePred P] (i : Nat) (last : Prop) [Decidable last]
    (same : last ↔ ∃ k, k + 1 = i ∧ P k) :
    Nat.count P (i + 1 - 1) = Nat.count P (i - 1) + if last then 1 else 0 := by
  cases i with
  | zero =>
      have none : ¬ last := fun h => by
        obtain ⟨k, next, -⟩ := same.mp h
        exact Nat.succ_ne_zero k next
      rw [if_neg none]
      rfl
  | succ k =>
      have here : last ↔ P k := by
        rw [same]
        constructor
        · rintro ⟨j, next, hP⟩
          exact Nat.succ.inj next ▸ hP
        · exact fun hP => ⟨k, rfl, hP⟩
      rw [Nat.add_sub_cancel, Nat.add_sub_cancel, Nat.count_succ]
      simp only [here]

theorem known_round {i u : Nat} {s : Stats} (here : us[i]? = some u) (small : i + MAXLINELEN < 2 ^ 64)
    (known : Known us i s) : Known us (i + 1) (round s i u) := by
  have inside : i < us.length := (List.getElem?_eq_some_iff.mp here).1
  have position : (round s i u).lastLineEnd = uN 64 (i - since us (i + 1)) := by
    rw [round_lastLineEnd, since_succ us here]
    by_cases ends : EndsLine u
    · rw [if_pos ends, if_pos ends]
      unfold uN
      omega
    · rw [if_neg ends, if_neg ends, known.lastLineEnd]
      congr 1
      push_cast
      omega
  constructor
  · rw [round_seenCr, decide_eq_true_iff]
    constructor
    · rintro rfl
      exact ⟨i, rfl, here⟩
    · rintro ⟨k, next, cr⟩
      obtain rfl := Nat.succ.inj next
      exact Option.some.inj (here.symm.trans cr)
  · rw [round_nCrlf, known.nCrlf, count_pairs (IsCrlf us) i (u = LF ∧ s.seenCr)]
    rw [known.seenCr]
    constructor
    · rintro ⟨rfl, k, rfl, cr⟩
      exact ⟨k, rfl, cr, here⟩
    · rintro ⟨k, rfl, cr, lf⟩
      exact ⟨Option.some.inj (here.symm.trans lf), k, rfl, cr⟩
  · rw [round_nLf, known.nLf, Nat.count_succ]
    have alone : IsLf us i ↔ u = LF ∧ s.seenCr = false := by
      rw [← Bool.not_eq_true, known.seenCr, IsLf, here, Option.some.injEq]
      refine and_congr_right (fun _ => ?_)
      cases i with
      | zero => exact iff_of_true (.inl rfl) (fun ⟨k, next, _⟩ => Nat.succ_ne_zero k next)
      | succ k =>
          rw [or_iff_right (Nat.succ_ne_zero k), Nat.add_sub_cancel]
          constructor
          · rintro other ⟨j, next, cr⟩
            exact other (Nat.succ.inj next ▸ cr)
          · exact fun none cr => none ⟨k, rfl, cr⟩
    simp only [alone]
  · rw [round_nCr, known.nCr, count_pairs (IsCr us) i (u ≠ LF ∧ s.seenCr)]
    rw [known.seenCr]
    constructor
    · rintro ⟨other, k, rfl, cr⟩
      refine ⟨k, rfl, cr, inside, ?_⟩
      rw [here]
      exact fun same => other (Option.some.inj same)
    · rintro ⟨k, rfl, cr, -, other⟩
      refine ⟨?_, k, rfl, cr⟩
      rintro rfl
      exact other here
  · rw [round_nNel, known.nNel, Nat.count_succ]
    simp only [IsNel, here, Option.some.injEq]
  · rw [position]
    congr 1
    push_cast
    omega
  · have le : since us (i + 1) ≤ i + 1 := since_le us (i + 1)
    obtain ⟨long, distance⟩ := wrap le small
    have largest : (Finset.range (i + 1 + 1)).sup (since us) =
        max (since us (i + 1)) ((Finset.range (i + 1)).sup (since us)) := by
      rw [Finset.range_add_one, Finset.sup_insert]
    rw [round_hasLongLines, position, distance, known.hasLongLines, largest]
    simp only [long]
    exact longer _ _

theorem known_loop (i : Nat) (rest : List Nat) {s : Stats} (here : us.drop i = rest)
    (inside : i ≤ us.length) (small : us.length + MAXLINELEN < 2 ^ 64) (known : Known us i s) :
    Known us us.length (loop s i rest) := by
  induction rest generalizing i s with
  | nil =>
      have last : i = us.length := Nat.le_antisymm inside (List.drop_eq_nil_iff.mp here)
      exact last ▸ known
  | cons u rest ih =>
      have first : us[i]? = some u := by
        rw [← List.head?_drop, here]
        rfl
      have next : us.drop (i + 1) = rest := by
        rw [← List.drop_drop, here, List.drop_one, List.tail_cons]
      have before : i < us.length := (List.getElem?_eq_some_iff.mp first).1
      exact ih (i + 1) next before (known_round us first (by omega) known)

/-- A pair does not start at the last character. -/
theorem count_last (P : Nat → Prop) [DecidablePred P] (last : ∀ i, P i → i + 1 < us.length) :
    Nat.count P (us.length - 1) = Nat.count P us.length := by
  cases size : us.length with
  | zero => rfl
  | succ n =>
      have none : ¬ P n := fun h => by
        have := last n h
        omega
      rw [Nat.add_sub_cancel, Nat.count_succ, if_neg none, Nat.add_zero]

end Loop

/-- The line statistics of a text. -/
theorem stats_eq (ubuf : Ubuf) :
    let us := ubuf.units
    (stats ubuf).hasLongLines = (if longest us > MAXLINELEN then longest us else 0) ∧
    (stats ubuf).nCrlf = Nat.count (IsCrlf us) us.length ∧
    (stats ubuf).nLf = Nat.count (IsLf us) us.length ∧
    (stats ubuf).nNel = Nat.count (IsNel us) us.length ∧
    (stats ubuf).nCr = Nat.count (IsCr us) us.length +
      if us.getLast? = some CR ∧ Nat.count (IsCr us) us.length = 0 ∧ Nat.count (IsCrlf us) us.length = 0
      then 1 else 0 := by
  intro us
  have small : us.length + MAXLINELEN < 2 ^ 64 := by
    have fits : us.length * 8 < 2 ^ 64 := ubuf.fits
    unfold MAXLINELEN
    omega
  have known := known_loop us 0 us rfl (Nat.zero_le _) small (known_start us)
  have crlf := count_last us (IsCrlf us) (fun i pair => (List.getElem?_eq_some_iff.mp pair.2).1)
  have cr := count_last us (IsCr us) (fun i pair => pair.2.1)
  have last : (loop .start 0 us).seenCr = true ↔ us.getLast? = some CR := by
    rw [known.seenCr, List.getLast?_eq_getElem?]
    constructor
    · rintro ⟨k, next, cr⟩
      rw [← next, Nat.add_sub_cancel, cr]
    · intro cr
      refine ⟨us.length - 1, ?_, cr⟩
      have := (List.getElem?_eq_some_iff.mp cr).1
      omega
  have ends : (loop .start 0 us).seenCr = true ∧ (loop .start 0 us).nCr = 0 ∧ (loop .start 0 us).nCrlf = 0 ↔
      us.getLast? = some CR ∧ Nat.count (IsCr us) us.length = 0 ∧ Nat.count (IsCrlf us) us.length = 0 := by
    rw [last, known.nCr, known.nCrlf, cr, crlf]
  unfold stats
  dsimp only
  refine ⟨?_, ?_, ?_, ?_, ?_⟩
  · rw [apply_ite Stats.hasLongLines, ite_self]
    exact known.hasLongLines
  · rw [apply_ite Stats.nCrlf, ite_self]
    exact known.nCrlf.trans crlf
  · rw [apply_ite Stats.nLf, ite_self]
    exact known.nLf
  · rw [apply_ite Stats.nNel, ite_self]
    exact known.nNel
  · have count := known.nCr.trans cr
    by_cases final : us.getLast? = some CR ∧ Nat.count (IsCr us) us.length = 0 ∧ Nat.count (IsCrlf us) us.length = 0
    · rw [if_pos (ends.mpr final), if_pos final]
      exact congrArg (· + 1) count
    · rw [if_neg (fun h => final (ends.mp h)), if_neg final]
      exact count

end Lines

end Libmagic.Encoding
