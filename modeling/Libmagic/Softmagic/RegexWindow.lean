import Mathlib.Data.Nat.Count
import Libmagic.Softmagic.Found

/-!
# `softmagic.c`: the text of a `regex`

The loop over lines in `mcopy` takes a LF for the end of a line as long as there is one, goes on two
bytes behind it, and stops in front of a CR or of the last byte. `magiccheck` cuts one more byte off.
-/
namespace Libmagic.Softmagic

/-! ## Lines -/

/-- The `n`-th position, from 0 on. -/
def nth (P : Nat → Bool) (fin n : Nat) : Option Nat :=
  (List.range fin).find? fun p => P p && Nat.count (P ·) p == n

/-- A line ends with a LF, or with a CR that no LF follows. -/
def lineEnd (bs : Bytes) (p : Nat) : Bool :=
  bs.getD p 0 == 0x0a || (bs.getD p 0 == 0x0d && bs.getD (p + 1) 0 != 0x0a)

/-- The first `n` lines with their ends, for a positive `n`. -/
def firstLines (n : Nat) (bs : Bytes) : Bytes :=
  match nth (lineEnd bs) bs.length (n - 1) with
  | some p => bs.take (p + 1)
  | none => bs

/-- The limit of a `regex` in bytes. -/
def regexLimit (regexMax : Nat) (m : Magic) (remaining : Nat) : Nat :=
  min (if has m.strFlags REGEX_LINE_COUNT then 80 * m.strRange
    else if m.strRange = 0 then remaining else m.strRange) (min remaining regexMax)

/-- The text that a `regex` is about. -/
def regexWindow (regexMax : Nat) (m : Magic) (rest : Bytes) : Bytes :=
  (if has m.strFlags REGEX_LINE_COUNT then firstLines m.strRange rest else rest).take
    (regexLimit regexMax m rest.length)

/-- The bytes that the loop over lines may use. -/
def regexRegion (regexMax : Nat) (m : Magic) (rest : Bytes) : Bytes :=
  rest.take (regexLimit regexMax m rest.length)

/-- A text is the window, or the window without its last line end. -/
def WholeText (text window : Bytes) : Prop :=
  text = window ∨ text ++ [0x0a] = window ∨ text ++ [0x0d] = window ∨ text ++ [0x0d, 0x0a] = window

/-! ## The line ends that the loop counts -/

/-- A LF, or a CR with no LF behind it, but not directly behind a LF that counts. -/
def counted (bs : Bytes) : Nat → Bool
  | 0 => bs.getD 0 0 == 0x0a || (bs.getD 0 0 == 0x0d && !bs.contains 0x0a)
  | p + 1 => (bs.getD (p + 1) 0 == 0x0a || (bs.getD (p + 1) 0 == 0x0d && !(bs.drop (p + 1)).contains 0x0a)) &&
      !(bs.getD p 0 == 0x0a && counted bs p)

/-- The region ends with a line. -/
def EndsLine (bs : Bytes) : Prop :=
  bs = [] ∨ bs.getD (bs.length - 1) 0 = 0x0a ∨ bs.getD (bs.length - 1) 0 = 0x0d

/-- How the first `n` lines, `w` bytes of the region, meet the `n`-th line end that counts. -/
def LinesKept (n : Nat) (bs : Bytes) (w : Nat) : Prop :=
  match nth (counted bs) bs.length (n - 1) with
  | none => (w = bs.length ∧ EndsLine bs) ∨ w + 1 = bs.length ∨ (w < bs.length ∧ bs.getD w 0 = 0)
  | some p =>
      (p + 1 = w ∧ (p = 0 ∨ (bs.getD p 0 = 0x0a ∧ (w < bs.length ∨ bs.getD (p - 1) 0 = 0x0d)))) ∨
        p = w ∨ (p = w + 1 ∧ (bs.getD p 0 = 0x0d ∨ p + 1 = bs.length)) ∨ (w < p ∧ bs.getD w 0 = 0)

/-- When the text of a `regex` is whole. -/
structure RegexKept (regexMax : Nat) (m : Magic) (rest : Bytes) : Prop where
  noNul : 0 ∉ regexWindow regexMax m rest
  lines : has m.strFlags REGEX_LINE_COUNT →
    LinesKept m.strRange (regexRegion regexMax m rest) (regexWindow regexMax m rest).length
  bytes : ¬ has m.strFlags REGEX_LINE_COUNT → EndsLine (regexRegion regexMax m rest)

/-! ## Positions -/

section
variable {P Q : Nat → Bool} {fin n p : Nat}

theorem nth_eq_some : nth P fin n = some p ↔ p < fin ∧ P p = true ∧ Nat.count (P ·) p = n := by
  rw [nth, List.find?_range_eq_some]
  simp only [Bool.and_eq_true, beq_iff_eq, Bool.not_eq_true']
  constructor
  · rintro ⟨⟨here, count⟩, lt, _⟩
    exact ⟨List.mem_range.mp lt, here, count⟩
  · rintro ⟨lt, here, count⟩
    refine ⟨⟨here, count⟩, List.mem_range.mpr lt, fun q less => ?_⟩
    rw [Bool.and_eq_false_iff, beq_eq_false_iff_ne]
    by_cases there : P q = true
    · have := @Nat.count_strict_mono (P · = true) _ q p there less
      exact .inr (by omega)
    · exact .inl (Bool.eq_false_iff.mpr there)

theorem nth_eq_none : nth P fin n = none ↔ ∀ p < fin, P p = true → Nat.count (P ·) p ≠ n := by
  rw [nth, List.find?_eq_none]
  simp only [List.mem_range, Bool.and_eq_true, beq_iff_eq, not_and]

theorem exists_nth (more : n < Nat.count (P ·) fin) : ∃ p < fin, P p = true ∧ Nat.count (P ·) p = n := by
  induction fin with
  | zero => exact absurd more (Nat.not_lt_zero _)
  | succ fin ih =>
      by_cases before : n < Nat.count (P ·) fin
      · obtain ⟨p, lt, here⟩ := ih before
        exact ⟨p, by omega, here⟩
      · rw [Nat.count_succ] at more
        split_ifs at more with here
        · exact ⟨fin, by omega, here, by omega⟩
        · omega

/-- There is no position from `b` up to `p`. -/
theorem count_of_none {b : Nat} (le : b ≤ p) (none : ∀ q, b ≤ q → q < p → P q = false) :
    Nat.count (P ·) p = Nat.count (P ·) b := by
  induction p, le using Nat.le_induction with
  | base => rfl
  | succ p le ih =>
      have here : ¬ P p = true := Bool.eq_false_iff.mp (none p le (by omega))
      rw [Nat.count_succ, if_neg here, ih fun q le lt => none q le (by omega)]
      rfl

end

/-! ## The loop -/

section
variable {bs : Bytes} {b p : Nat}

theorem counted_iff (bs : Bytes) (p : Nat) : counted bs p = true ↔
    (bs.getD p 0 = 0x0a ∨ (bs.getD p 0 = 0x0d ∧ 0x0a ∉ bs.drop p)) ∧
      (p = 0 ∨ ¬ (bs.getD (p - 1) 0 = 0x0a ∧ counted bs (p - 1) = true)) := by
  cases p with
  | zero => simp [counted]
  | succ p =>
      simp [counted]
      exact fun _ => imp_iff_not_or.symm

/-- The first byte `c` at or behind `b`. -/
def findFrom (bs : Bytes) (b : Nat) (c : UInt8) : Option Nat := ((bs.drop b).findIdx? (· == c)).map (b + ·)

theorem findFrom_none {c : UInt8} : findFrom bs b c = none ↔ c ∉ bs.drop b := by
  rw [findFrom, Option.map_eq_none_iff, List.findIdx?_eq_none_iff]
  simp only [beq_eq_false_iff_ne]
  exact ⟨fun h mem => h c mem rfl, fun h x mem same => h (same ▸ mem)⟩

theorem findFrom_some {c : UInt8} (found : findFrom bs b c = some p) :
    b ≤ p ∧ p < bs.length ∧ bs.getD p 0 = c ∧ ∀ q, b ≤ q → q < p → bs.getD q 0 ≠ c := by
  obtain ⟨i, at', rfl⟩ := Option.map_eq_some_iff.mp found
  obtain ⟨lt, here, before⟩ := List.findIdx?_eq_some_iff_getElem.mp at'
  rw [List.length_drop] at lt
  refine ⟨by omega, by omega, ?_, fun q le less same => ?_⟩
  · rw [List.getElem_drop, beq_iff_eq] at here
    rw [List.getD_eq_getElem _ _ (by omega), here]
  · have := before (q - b) (by omega)
    rw [List.getElem_drop, beq_iff_eq] at this
    rw [List.getD_eq_getElem _ _ (by omega)] at same
    simp only [Nat.add_sub_cancel' le] at this
    exact this same

/-- Where `last` is for the line end at `p`. -/
def lastOf (bs : Bytes) (p : Nat) : Nat := if p + 1 < bs.length ∧ bs.getD p 0 = 0x0a then p + 1 else p

/-- The loop may go on at `b`: no line end right in front of it hides one. -/
def Start (bs : Bytes) (b : Nat) : Prop :=
  bs.length ≤ b ∨ b = 0 ∨ ¬ (bs.getD (b - 1) 0 = 0x0a ∧ counted bs (b - 1) = true)

theorem regexLines_none {lines last : Nat} (none : (findFrom bs b 0x0a).orElse (fun _ => findFrom bs b 0x0d) = none) :
    regexLines bs (lines + 1) b last = (lines + 1, last) := by
  rw [regexLines]
  split_ifs
  · rfl
  · simp only [findFrom] at none
    simp only [none]

theorem regexLines_some {lines last : Nat} (inside : b < bs.length)
    (found : (findFrom bs b 0x0a).orElse (fun _ => findFrom bs b 0x0d) = some p)
    (alone : bs.getD p 0 = 0x0d → bs.getD (p + 1) 0 ≠ 0x0a) :
    regexLines bs (lines + 1) b last = regexLines bs lines (lastOf bs p + 1) (lastOf bs p) := by
  rw [regexLines, if_neg (Nat.not_le.mpr inside)]
  simp only [findFrom] at found
  simp only [found]
  have pair : ¬ (p + 1 < bs.length ∧ bs.getD p 0 = 0x0d ∧ bs.getD (p + 1) 0 = 0x0a) := fun h => alone h.2.1 h.2.2
  simp only [if_neg pair, lastOf]

/-- What the two searches find is the next line end that counts. -/
theorem next_counted (start : Start bs b) (inside : b < bs.length) :
    ((findFrom bs b 0x0a).orElse (fun _ => findFrom bs b 0x0d) = none ∧
        ∀ q, b ≤ q → q < bs.length → counted bs q = false) ∨
      ∃ p, (findFrom bs b 0x0a).orElse (fun _ => findFrom bs b 0x0d) = some p ∧ b ≤ p ∧ p < bs.length ∧
        counted bs p = true ∧ (∀ q, b ≤ q → q < p → counted bs q = false) ∧
        (bs.getD p 0 = 0x0d → bs.getD (p + 1) 0 ≠ 0x0a) := by
  -- a line end that nothing hides, neither between nor in front of `b`
  have counts {p : Nat} (le : b ≤ p) (here : bs.getD p 0 = 0x0a ∨ (bs.getD p 0 = 0x0d ∧ 0x0a ∉ bs.drop p))
      (plain : ∀ q, b ≤ q → q < p → bs.getD q 0 ≠ 0x0a) : counted bs p = true := by
    refine (counted_iff bs p).mpr ⟨here, ?_⟩
    by_cases first : p = b
    · rcases start with behind | zero | free
      · omega
      · exact .inl (first.trans zero)
      · exact .inr (first ▸ free)
    · exact .inr fun h => plain (p - 1) (by omega) (by omega) h.1
  have absent {c : UInt8} (none : c ∉ bs.drop b) {q : Nat} (le : b ≤ q) (lt : q < bs.length) : bs.getD q 0 ≠ c := by
    intro same
    rw [List.getD_eq_getElem _ _ lt] at same
    apply none
    rw [List.mem_iff_getElem]
    exact ⟨q - b, by rw [List.length_drop]; omega, by rw [List.getElem_drop]; simp only [Nat.add_sub_cancel' le, same]⟩
  cases lf : findFrom bs b 0x0a with
  | some p =>
      obtain ⟨le, lt, here, before⟩ := findFrom_some lf
      have rest {q : Nat} (less : q < p) : 0x0a ∈ bs.drop q := by
        rw [List.mem_iff_getElem]
        refine ⟨p - q, by rw [List.length_drop]; omega, ?_⟩
        rw [List.getElem_drop]
        rw [List.getD_eq_getElem _ _ lt] at here
        simp only [Nat.add_sub_cancel' less.le, here]
      refine .inr ⟨p, rfl, le, lt, counts le (.inl here) before, fun q le less => ?_, fun cr => ?_⟩
      · refine Bool.eq_false_iff.mpr fun there => ?_
        rcases ((counted_iff bs q).mp there).1 with lf | ⟨-, none⟩
        · exact before q le less lf
        · exact none (rest less)
      · rw [here] at cr
        exact absurd cr (by decide)
  | none =>
      have noLf := findFrom_none.mp lf
      cases cr : findFrom bs b 0x0d with
      | none =>
          refine .inl ⟨rfl, fun q le lt => Bool.eq_false_iff.mpr fun there => ?_⟩
          rcases ((counted_iff bs q).mp there).1 with lf | ⟨here, -⟩
          · exact absent noLf le lt lf
          · exact absent (findFrom_none.mp cr) le lt here
      | some p =>
          obtain ⟨le, lt, here, before⟩ := findFrom_some cr
          have behind : 0x0a ∉ bs.drop p := by
            intro mem
            rw [← Nat.add_sub_cancel' le, ← List.drop_drop] at mem
            exact noLf (List.mem_of_mem_drop mem)
          refine .inr ⟨p, rfl, le, lt, counts le (.inr ⟨here, behind⟩) ?_, fun q le less => ?_, fun _ => ?_⟩
          · exact fun q le less => absent noLf le (by omega)
          · refine Bool.eq_false_iff.mpr fun there => ?_
            rcases ((counted_iff bs q).mp there).1 with lf | ⟨here, -⟩
            · exact absent noLf le (by omega) lf
            · exact before q le less here
          · by_cases inner : p + 1 < bs.length
            · exact absent noLf (by omega) inner
            · rw [List.getD_eq_default _ _ (by omega)]
              decide

/-- A round of the loop: no line end is left, or it goes on behind the next one that counts. -/
theorem regexLines_round (start : Start bs b) (k last : Nat) :
    ((∀ p < bs.length, counted bs p = true → Nat.count (counted bs ·) p < Nat.count (counted bs ·) b) ∧
        (regexLines bs (k + 1) b last).1 ≠ 0) ∨
      ∃ p, p < bs.length ∧ counted bs p = true ∧ Nat.count (counted bs ·) p = Nat.count (counted bs ·) b ∧
        regexLines bs (k + 1) b last = regexLines bs k (lastOf bs p + 1) (lastOf bs p) ∧
        Start bs (lastOf bs p + 1) ∧
        Nat.count (counted bs ·) (lastOf bs p + 1) = Nat.count (counted bs ·) b + 1 := by
  have before {p : Nat} (here : counted bs p = true) (less : p < b) :
      Nat.count (counted bs ·) p < Nat.count (counted bs ·) b :=
    @Nat.count_strict_mono (counted bs · = true) _ p b here less
  by_cases inside : b < bs.length
  · rcases next_counted start inside with ⟨none, free⟩ | ⟨p, found, le, lt, here, free, alone⟩
    · refine .inl ⟨fun p lt here => before here ?_, ?_⟩
      · by_contra le
        rw [free p (not_lt.mp le) lt] at here
        cases here
      · rw [regexLines_none none]
        exact Nat.succ_ne_zero k
    · have same := count_of_none le free
      have next : Nat.count (counted bs ·) (p + 1) = Nat.count (counted bs ·) b + 1 := by
        rw [Nat.count_succ, if_pos here, same]
      refine .inr ⟨p, lt, here, same, regexLines_some inside found alone, ?_⟩
      by_cases lf : p + 1 < bs.length ∧ bs.getD p 0 = 0x0a
      · -- the byte behind the LF is left out, and does not count
        have hidden : ¬ counted bs (p + 1) = true := fun there =>
          (((counted_iff bs (p + 1)).mp there).2.resolve_left (Nat.succ_ne_zero p)) ⟨lf.2, here⟩
        rw [lastOf, if_pos lf]
        refine ⟨.inr (.inr fun h => hidden h.2), ?_⟩
        rw [Nat.count_succ, if_neg hidden, next]
      · rw [lastOf, if_neg lf]
        refine ⟨?_, next⟩
        by_cases last : p + 1 < bs.length
        · exact .inr (.inr fun h => lf ⟨last, h.1⟩)
        · exact .inl (not_lt.mp last)
  · refine .inl ⟨fun p lt here => before here (by omega), ?_⟩
    rw [regexLines, if_pos (not_lt.mp inside)]
    exact Nat.succ_ne_zero k

/-- The loop stops at the line end that counts, or has lines left. -/
theorem regexLines_counted (k : Nat) (start : Start bs b) (last : Nat) :
    (∃ p, p < bs.length ∧ counted bs p = true ∧
        Nat.count (counted bs ·) p = Nat.count (counted bs ·) b + k ∧
        regexLines bs (k + 1) b last = (0, lastOf bs p)) ∨
      (∀ p < bs.length, counted bs p = true →
        Nat.count (counted bs ·) p ≠ Nat.count (counted bs ·) b + k) ∧
        (regexLines bs (k + 1) b last).1 ≠ 0 := by
  induction k generalizing b last with
  | zero =>
      rcases regexLines_round start 0 last with ⟨none, left⟩ | ⟨p, lt, here, count, run, -, -⟩
      · exact .inr ⟨fun p lt here => (none p lt here).ne, left⟩
      · exact .inl ⟨p, lt, here, count, run.trans (by rw [regexLines])⟩
  | succ k ih =>
      rcases regexLines_round start (k + 1) last with ⟨none, left⟩ | ⟨p, _, _, _, run, start', count⟩
      · refine .inr ⟨fun p lt here => ?_, left⟩
        have := none p lt here
        omega
      · rw [run, show Nat.count (counted bs ·) b + (k + 1) = Nat.count (counted bs ·) (lastOf bs p + 1) + k by omega]
        exact ih start' _

/-- How far the loop takes the lines. -/
def loopEnd (n : Nat) (bs : Bytes) : Nat :=
  match nth (counted bs) bs.length (n - 1) with
  | some p => lastOf bs p
  | none => bs.length

theorem regexLines_end {n : Nat} (pos : 0 < n) (last : Nat) :
    (if (regexLines bs n 0 last).1 ≠ 0 then bs.length else (regexLines bs n 0 last).2) = loopEnd n bs := by
  obtain ⟨k, rfl⟩ := Nat.exists_eq_succ_of_ne_zero pos.ne'
  have zero : Nat.count (counted bs ·) 0 + k = k := by rw [Nat.count_zero, Nat.zero_add]
  rcases regexLines_counted k (show Start bs 0 from .inr (.inl rfl)) last with ⟨p, lt, here, count, run⟩ | ⟨none, left⟩
  · have at' : nth (counted bs) bs.length (k + 1 - 1) = some p := nth_eq_some.mpr ⟨lt, here, count.trans zero⟩
    rw [Nat.succ_eq_add_one, run, if_neg (not_not.mpr rfl), loopEnd, at']
  · have at' : nth (counted bs) bs.length (k + 1 - 1) = Option.none := nth_eq_none.mpr fun p lt here count =>
      none p lt here (count.trans zero.symm)
    rw [Nat.succ_eq_add_one, if_pos left, loopEnd, at']

end

/-! ## The text -/

section
variable {bs : Bytes}

theorem take_append_singleton {j w : Nat} (hj : j ≤ bs.length) (hw : w ≤ bs.length) (c : UInt8) :
    bs.take j ++ [c] = bs.take w ↔ j + 1 = w ∧ bs.getD j 0 = c := by
  constructor
  · intro same
    have length := congrArg List.length same
    rw [List.length_append, List.length_take_of_le hj, List.length_take_of_le hw, List.length_singleton] at length
    subst length
    rw [List.take_succ_eq_append_getElem hw] at same
    have last := List.append_cancel_left same
    rw [List.getD_eq_getElem _ _ hw, (List.cons.inj last).1]
    exact ⟨rfl, rfl⟩
  · rintro ⟨rfl, rfl⟩
    rw [List.take_succ_eq_append_getElem hw, List.getD_eq_getElem _ _ hw]

def EndsAt (bs : Bytes) (p : Nat) : Prop := bs.getD p 0 = 0x0a ∨ bs.getD p 0 = 0x0d

theorem wholeText_take {j w : Nat} (hj : j ≤ bs.length) (hw : w ≤ bs.length) :
    WholeText (bs.take j) (bs.take w) ↔
      j = w ∨ (j + 1 = w ∧ EndsAt bs j) ∨ (j + 2 = w ∧ bs.getD j 0 = 0x0d ∧ bs.getD (j + 1) 0 = 0x0a) := by
  have same : bs.take j = bs.take w ↔ j = w := by
    refine ⟨fun same => ?_, fun same => same ▸ rfl⟩
    have length := congrArg List.length same
    rwa [List.length_take_of_le hj, List.length_take_of_le hw] at length
  have pair : bs.take j ++ [0x0d, 0x0a] = bs.take w ↔
      j + 2 = w ∧ bs.getD j 0 = 0x0d ∧ bs.getD (j + 1) 0 = 0x0a := by
    constructor
    · intro same
      have length := congrArg List.length same
      rw [List.length_append, List.length_take_of_le hj, List.length_take_of_le hw] at length
      have short : j + 1 ≤ bs.length := by
        have : j + 2 = w := length
        omega
      have first : bs.take j ++ [0x0d] = bs.take (j + 1) := by
        have := congrArg (List.take (j + 1)) same
        rw [List.take_take, min_eq_left (by have : j + 2 = w := length; omega), List.append_cons,
          List.take_append_of_le_length (by rw [List.length_append, List.length_take_of_le hj]; rfl),
          List.take_of_length_le (by rw [List.length_append, List.length_take_of_le hj]; rfl)] at this
        exact this
      rw [List.append_cons, first] at same
      have second := (take_append_singleton short hw 0x0a).mp same
      exact ⟨second.1, ((take_append_singleton hj short 0x0d).mp first).2, second.2⟩
    · rintro ⟨rfl, cr, lf⟩
      have short : j + 1 ≤ bs.length := by omega
      rw [List.append_cons, (take_append_singleton hj short 0x0d).mpr ⟨rfl, cr⟩]
      exact (take_append_singleton short hw 0x0a).mpr ⟨rfl, lf⟩
  rw [WholeText, same, take_append_singleton hj hw, take_append_singleton hj hw, pair, EndsAt, and_or_left, or_assoc]

theorem cstring_take {k : Nat} (le : k ≤ bs.length) :
    ∃ j ≤ k, cstring (bs.take k) = bs.take j ∧ (∀ i < j, bs.getD i 0 ≠ 0) ∧ (j < k → bs.getD j 0 = 0) := by
  have length : (bs.take k).length = k := List.length_take_of_le le
  refine ⟨(bs.take k).findIdx fun c => !(c != 0), List.findIdx_le_length.trans_eq length, ?_, fun i lt => ?_, fun lt => ?_⟩
  · rw [cstring, List.takeWhile_eq_take_findIdx_not, List.take_take, min_eq_left (List.findIdx_le_length.trans_eq length)]
  · have inside : i < (bs.take k).length := lt.trans_le List.findIdx_le_length
    have := List.not_of_lt_findIdx lt
    rw [List.getD_eq_getElem _ _ (by omega)]
    simpa using this
  · have inside : (bs.take k).findIdx (fun c => !(c != 0)) < (bs.take k).length := by rwa [length]
    have := List.findIdx_getElem (w := inside)
    rw [List.getD_eq_getElem _ _ (by omega)]
    simpa using this

/-- The text that is left of a window of `c` bytes, next to `w` bytes. -/
theorem wholeText_cstring {c w : Nat} (hc : c ≤ bs.length) (hw : w ≤ bs.length) (near : w ≤ c + 1) :
    WholeText (cstring (bs.take (c - 1))) (bs.take w) ↔
      (∀ i < w, bs.getD i 0 ≠ 0) ∧
        ((c = w ∧ (w = 0 ∨ EndsAt bs (w - 1))) ∨
          (c + 1 = w ∧ ((w = 1 ∧ EndsAt bs 0) ∨ (2 ≤ w ∧ bs.getD (w - 2) 0 = 0x0d ∧ bs.getD (w - 1) 0 = 0x0a))) ∨
          c = w + 1 ∨ (w + 1 < c ∧ bs.getD w 0 = 0)) := by
  obtain ⟨j, le, text, free, stop⟩ := cstring_take (show c - 1 ≤ bs.length by omega)
  rw [text, wholeText_take (by omega) hw]
  have noNul {i : Nat} (ends : EndsAt bs i) : bs.getD i 0 ≠ 0 := by
    rcases ends with lf | cr
    · rw [lf]
      decide
    · rw [cr]
      decide
  constructor
  · rintro (rfl | ⟨rfl, ends⟩ | ⟨rfl, cr, lf⟩)
    · refine ⟨free, ?_⟩
      by_cases cut : j < c - 1
      · exact .inr (.inr (.inr ⟨by omega, stop cut⟩))
      · by_cases empty : c = 0
        · exact .inl ⟨by omega, .inl (by omega)⟩
        · exact .inr (.inr (.inl (by omega)))
    · have uncut : ¬ j < c - 1 := fun cut => noNul ends (stop cut)
      refine ⟨fun i lt => ?_, ?_⟩
      · by_cases last : i = j
        · exact last ▸ noNul ends
        · exact free i (by omega)
      · by_cases empty : c = 0
        · obtain rfl : j = 0 := by omega
          exact .inr (.inl ⟨by omega, .inl ⟨rfl, ends⟩⟩)
        · exact .inl ⟨by omega, .inr ends⟩
    · have uncut : ¬ j < c - 1 := fun cut => noNul (.inr cr) (stop cut)
      refine ⟨fun i lt => ?_, .inr (.inl ⟨by omega, .inr ⟨by omega, cr, lf⟩⟩)⟩
      by_cases last : i = j + 1
      · exact last ▸ noNul (.inl lf)
      · by_cases first : i = j
        · exact first ▸ noNul (.inr cr)
        · exact free i (by omega)
  · rintro ⟨plain, kept⟩
    -- up to the end of the lines nothing cuts the text
    have uncut : j < w → j = c - 1 := by
      intro inside
      by_contra other
      exact plain j inside (stop (by omega))
    rcases kept with ⟨rfl, empty | ends⟩ | ⟨eq, ⟨rfl, ends⟩ | ⟨two, cr, lf⟩⟩ | rfl | ⟨beyond, nul⟩
    · exact .inl (by omega)
    · by_cases empty : c = 0
      · exact .inl (by omega)
      · have last : j = c - 1 := uncut (by omega)
        exact .inr (.inl ⟨by omega, last ▸ ends⟩)
    · obtain rfl : j = 0 := by omega
      exact .inr (.inl ⟨rfl, ends⟩)
    · have last : j = w - 2 := by
        have := uncut (by omega)
        omega
      refine .inr (.inr ⟨by omega, last ▸ cr, ?_⟩)
      rwa [last, show w - 2 + 1 = w - 1 by omega]
    · refine .inl ?_
      by_contra other
      have := uncut (by omega)
      omega
    · refine .inl ?_
      by_contra other
      by_cases before : j < w
      · have := uncut before
        omega
      · exact free w (by omega) nul

/-! ## Lines that are kept -/

theorem lineEnd_of_counted {p : Nat} (here : counted bs p = true) (lt : p < bs.length) : lineEnd bs p = true := by
  rw [lineEnd, Bool.or_eq_true, Bool.and_eq_true, beq_iff_eq, beq_iff_eq, bne_iff_ne]
  rcases ((counted_iff bs p).mp here).1 with lf | ⟨cr, none⟩
  · exact .inl lf
  · refine .inr ⟨cr, fun lf => none ?_⟩
    have inner : p + 1 < bs.length := by
      by_contra behind
      rw [List.getD_eq_default _ _ (by omega)] at lf
      exact absurd lf (by decide)
    rw [List.getD_eq_getElem _ _ inner] at lf
    rw [List.mem_iff_getElem]
    exact ⟨1, by rw [List.length_drop]; omega, by rw [List.getElem_drop, lf]⟩

theorem endsAt_of_lineEnd {p : Nat} (here : lineEnd bs p = true) : EndsAt bs p := by
  rw [lineEnd, Bool.or_eq_true, Bool.and_eq_true, beq_iff_eq, beq_iff_eq] at here
  exact here.imp_right And.left

/-- The first lines are a front of the region that ends with a line, and before the line end that counts. -/
theorem firstLines_eq (n : Nat) (bs : Bytes) :
    (∃ q, nth (lineEnd bs) bs.length (n - 1) = some q ∧ q < bs.length ∧ EndsAt bs q ∧ firstLines n bs = bs.take (q + 1)) ∨
      (nth (lineEnd bs) bs.length (n - 1) = none ∧ firstLines n bs = bs) := by
  cases at' : nth (lineEnd bs) bs.length (n - 1) with
  | some q =>
      obtain ⟨lt, here, -⟩ := nth_eq_some.mp at'
      exact .inl ⟨q, rfl, lt, endsAt_of_lineEnd here, by rw [firstLines, at']⟩
  | none => exact .inr ⟨rfl, by rw [firstLines, at']⟩

theorem firstLines_take (n : Nat) (bs : Bytes) : firstLines n bs = bs.take (firstLines n bs).length := by
  rcases firstLines_eq n bs with ⟨q, -, lt, -, eq⟩ | ⟨-, eq⟩
  · rw [eq, List.length_take_of_le lt]
  · rw [eq, List.take_length]

theorem linesKept_iff (n : Nat) (bs : Bytes) {w : Nat} (length : (firstLines n bs).length = w) :
    (w ≤ loopEnd n bs + 1 ∧ loopEnd n bs ≤ bs.length ∧ w ≤ bs.length) ∧
    ((loopEnd n bs = w ∧ (w = 0 ∨ EndsAt bs (w - 1))) ∨
      (loopEnd n bs + 1 = w ∧
        ((w = 1 ∧ EndsAt bs 0) ∨ (2 ≤ w ∧ bs.getD (w - 2) 0 = 0x0d ∧ bs.getD (w - 1) 0 = 0x0a))) ∨
      loopEnd n bs = w + 1 ∨ (w + 1 < loopEnd n bs ∧ bs.getD w 0 = 0) ↔ LinesKept n bs w) := by
  have inside : w ≤ bs.length := by
    rw [← length, firstLines_take]
    exact List.length_take_le' _ _
  cases at' : nth (counted bs) bs.length (n - 1) with
  | none =>
      simp only [loopEnd, LinesKept, at']
      refine ⟨⟨by omega, le_refl _, inside⟩, ?_⟩
      have ends (whole : bs.length = w) : (w = 0 ∨ EndsAt bs (w - 1)) ↔ EndsLine bs := by
        rw [← whole, List.length_eq_zero_iff]
        rfl
      constructor
      · rintro (⟨eq, last⟩ | ⟨eq, -⟩ | eq | ⟨lt, nul⟩)
        · exact .inl ⟨eq.symm, (ends eq).mp last⟩
        · omega
        · exact .inr (.inl eq.symm)
        · exact .inr (.inr ⟨by omega, nul⟩)
      · rintro (⟨eq, last⟩ | eq | ⟨lt, nul⟩)
        · exact .inl ⟨eq.symm, (ends eq.symm).mpr last⟩
        · exact .inr (.inr (.inl eq.symm))
        · by_cases next : bs.length = w + 1
          · exact .inr (.inr (.inl next))
          · exact .inr (.inr (.inr ⟨by omega, nul⟩))
  | some p =>
      obtain ⟨lt, here, count⟩ := nth_eq_some.mp at'
      obtain ⟨q, before, last, rfl⟩ : ∃ q, q ≤ p ∧ EndsAt bs q ∧ w = q + 1 := by
        have more : n - 1 < Nat.count (lineEnd bs ·) (p + 1) := by
          have mono : Nat.count (counted bs ·) p ≤ Nat.count (lineEnd bs ·) p :=
            Nat.count_mono_left fun k less counts => lineEnd_of_counted counts (by omega)
          have ends : lineEnd bs p = true := lineEnd_of_counted here lt
          rw [Nat.count_succ, if_pos ends]
          omega
        obtain ⟨q, less, ends, nth'⟩ := exists_nth more
        have at'' : nth (lineEnd bs) bs.length (n - 1) = some q := nth_eq_some.mpr ⟨by omega, ends, nth'⟩
        refine ⟨q, by omega, endsAt_of_lineEnd ends, ?_⟩
        rw [← length, firstLines, at'']
        exact List.length_take_of_le (by omega)
      have kind : EndsAt bs p := endsAt_of_lineEnd (lineEnd_of_counted here lt)
      simp only [loopEnd, LinesKept, at', lastOf]
      by_cases inner : p + 1 < bs.length ∧ bs.getD p 0 = 0x0a
      · rw [if_pos inner]
        refine ⟨⟨by omega, by omega, inside⟩, ?_⟩
        constructor
        · rintro (⟨eq, -⟩ | ⟨eq, -⟩ | eq | ⟨beyond, nul⟩)
          · exact .inl ⟨eq, .inr ⟨inner.2, .inl (by omega)⟩⟩
          · omega
          · exact .inr (.inl (by omega))
          · exact .inr (.inr (.inr ⟨by omega, nul⟩))
        · rintro (⟨eq, -⟩ | eq | ⟨eq, cr | end'⟩ | ⟨beyond, nul⟩)
          · exact .inl ⟨eq, .inr last⟩
          · exact .inr (.inr (.inl (by omega)))
          · rw [inner.2] at cr
            exact absurd cr (by decide)
          · omega
          · exact .inr (.inr (.inr ⟨by omega, nul⟩))
      · rw [if_neg inner]
        refine ⟨⟨by omega, by omega, inside⟩, ?_⟩
        constructor
        · rintro (⟨eq, -⟩ | ⟨eq, ⟨one, -⟩ | ⟨two, cr, lf⟩⟩ | eq | ⟨beyond, nul⟩)
          · exact .inr (.inl eq)
          · exact .inl ⟨eq, .inl (by omega)⟩
          · have same : q = p := by omega
            subst same
            exact .inl ⟨rfl, .inr ⟨lf, .inr cr⟩⟩
          · refine .inr (.inr (.inl ⟨eq, ?_⟩))
            rcases kind with lf | cr
            · exact .inr (by by_contra other; exact inner ⟨by omega, lf⟩)
            · exact .inl cr
          · exact .inr (.inr (.inr ⟨by omega, nul⟩))
        · rintro (⟨eq, first | ⟨lf, more | cr⟩⟩ | eq | ⟨eq, -⟩ | ⟨beyond, nul⟩)
          · obtain rfl : q = 0 := by omega
            exact .inr (.inl ⟨eq, .inl ⟨rfl, last⟩⟩)
          · exact absurd ⟨by omega, lf⟩ inner
          · have same : q = p := by omega
            subst same
            by_cases first : q = 0
            · subst first
              exact .inr (.inl ⟨rfl, .inl ⟨rfl, last⟩⟩)
            · exact .inr (.inl ⟨rfl, .inr ⟨by omega, cr, lf⟩⟩)
          · exact .inl ⟨eq, .inr last⟩
          · exact .inr (.inr (.inl eq))
          · by_cases next : p = q + 1 + 1
            · exact .inr (.inr (.inl next))
            · exact .inr (.inr (.inr ⟨by omega, nul⟩))

end

/-! ## `mcopy` and `magiccheck` -/

section
variable {rest : Bytes}

theorem lineEnd_take {limit p : Nat} (lt : p + 1 < limit) : lineEnd (rest.take limit) p = lineEnd rest p := by
  have same {i : Nat} (lt : i < limit) : (rest.take limit).getD i 0 = rest.getD i 0 := by
    rw [List.getD_eq_getElem?_getD, List.getElem?_take_of_lt lt, ← List.getD_eq_getElem?_getD]
  rw [lineEnd, lineEnd, same lt, same (by omega)]

theorem nth_take {limit n p : Nat} (lt : p + 1 < limit) :
    nth (lineEnd (rest.take limit)) (rest.take limit).length n = some p ↔
      nth (lineEnd rest) rest.length n = some p := by
  have count : Nat.count (lineEnd (rest.take limit) ·) p = Nat.count (lineEnd rest ·) p := by
    have same : ∀ k < p, (lineEnd (rest.take limit) k = true ↔ lineEnd rest k = true) := fun k less => by
      rw [lineEnd_take (by omega)]
    exact le_antisymm (Nat.count_mono_left fun k less => (same k less).mp)
      (Nat.count_mono_left fun k less => (same k less).mpr)
  rw [nth_eq_some, nth_eq_some, lineEnd_take lt, count, List.length_take]
  refine and_congr_left' ?_
  omega

/-- The limit cuts the lines as it cuts the bytes. -/
theorem firstLines_limit (n limit : Nat) (rest : Bytes) :
    (firstLines n rest).take limit = firstLines n (rest.take limit) := by
  cases short : nth (lineEnd rest) rest.length (n - 1) with
  | some p =>
      by_cases lt : p + 1 < limit
      · rw [firstLines, short, firstLines, (nth_take lt).mpr short]
        dsimp only
        rw [List.take_take, List.take_take, Nat.min_comm]
      · have whole : (firstLines n rest).take limit = rest.take limit := by
          rw [firstLines, short]
          dsimp only
          rw [List.take_take, Nat.min_eq_left (not_lt.mp lt)]
        rw [whole]
        rcases firstLines_eq n (rest.take limit) with ⟨q, at', -, -, eq⟩ | ⟨-, eq⟩
        · rw [eq]
          by_cases inner : q + 1 < limit
          · have := Option.some.inj (((nth_take inner).mp at').symm.trans short)
            omega
          · rw [List.take_take, Nat.min_eq_right (not_lt.mp inner)]
        · rw [eq]
  | none =>
      rw [firstLines, short]
      rcases firstLines_eq n (rest.take limit) with ⟨q, at', -, -, eq⟩ | ⟨-, eq⟩
      · rw [eq]
        by_cases inner : q + 1 < limit
        · have := ((nth_take inner).mp at').symm.trans short
          cases this
        · dsimp only
          rw [List.take_take, Nat.min_eq_right (not_lt.mp inner)]
      · rw [eq]

end

section
variable {regexMax nbytes offset : Nat} {v : Value} {old : Search} {host : Host} {m : Magic} {buf : Bytes}

/-- The bytes of the text that the loop leaves. -/
def textEnd (regexMax : Nat) (m : Magic) (rest : Bytes) : Nat :=
  if has m.strFlags REGEX_LINE_COUNT then loopEnd m.strRange (regexRegion regexMax m rest)
  else (regexRegion regexMax m rest).length

theorem regexLimit_le (regexMax : Nat) (m : Magic) (remaining : Nat) : regexLimit regexMax m remaining ≤ remaining :=
  (min_le_right _ _).trans (min_le_left _ _)

theorem clamp_eq (count remaining max : Nat) :
    (if (if count = 0 ∨ count > remaining then remaining else count) > max then max
      else if count = 0 ∨ count > remaining then remaining else count) =
      min (if count = 0 then remaining else count) (min remaining max) := by
  split_ifs <;> omega

theorem mcopyRegex_eq (lines : has m.strFlags REGEX_LINE_COUNT = true → 0 < m.strRange) (inside : offset ≤ nbytes)
    (fits : nbytes ≤ buf.length) :
    mcopyRegex regexMax m (some buf) offset nbytes old =
      { s := some (buf.drop offset), sLen := textEnd regexMax m ((buf.take nbytes).drop offset), offset, rmLen := 0 } := by
  have remaining : ((buf.take nbytes).drop offset).length = nbytes - offset := by
    rw [List.length_drop, List.length_take_of_le fits]
  have le := regexLimit_le regexMax m (nbytes - offset)
  have region : (buf.drop offset).take (regexLimit regexMax m (nbytes - offset)) =
      regexRegion regexMax m ((buf.take nbytes).drop offset) := by
    rw [regexRegion, remaining, List.drop_take, List.take_take, Nat.min_eq_left le]
  have size : (regexRegion regexMax m ((buf.take nbytes).drop offset)).length =
      regexLimit regexMax m (nbytes - offset) := by
    rw [regexRegion, remaining, List.length_take, remaining, Nat.min_eq_left le]
  simp only [mcopyRegex, if_neg (not_lt.mpr inside), clamp_eq, textEnd]
  by_cases counting : has m.strFlags REGEX_LINE_COUNT = true
  · have pos := lines counting
    have limit : min (if m.strRange * 80 = 0 then nbytes - offset else m.strRange * 80) (min (nbytes - offset) regexMax) =
        regexLimit regexMax m (nbytes - offset) := by
      rw [regexLimit, if_pos counting, if_neg (by omega), Nat.mul_comm]
    simp only [if_pos counting, limit, region]
    rw [← regexLines_end pos (regexLimit regexMax m (nbytes - offset)), size]
  · have limit : min (if m.strRange = 0 then nbytes - offset else m.strRange) (min (nbytes - offset) regexMax) =
        regexLimit regexMax m (nbytes - offset) := by
      rw [regexLimit, if_neg counting]
    simp only [if_neg counting, limit, region, size, regexLines, ne_eq, not_true, if_false]

theorem textEnd_le (regexMax : Nat) (m : Magic) (rest : Bytes) :
    textEnd regexMax m rest ≤ (regexRegion regexMax m rest).length := by
  rw [textEnd]
  split_ifs
  · exact (linesKept_iff m.strRange (regexRegion regexMax m rest) rfl).1.2.1
  · exact le_refl _

theorem mcopyRegex_text (lines : has m.strFlags REGEX_LINE_COUNT = true → 0 < m.strRange) (inside : offset ≤ nbytes)
    (fits : nbytes ≤ buf.length) :
    (mcopyRegex regexMax m (some buf) offset nbytes old).text =
      cstring ((regexRegion regexMax m ((buf.take nbytes).drop offset)).take
        (textEnd regexMax m ((buf.take nbytes).drop offset) - 1)) := by
  have le := textEnd_le regexMax m ((buf.take nbytes).drop offset)
  have limit := regexLimit_le regexMax m (nbytes - offset)
  have remaining : ((buf.take nbytes).drop offset).length = nbytes - offset := by
    rw [List.length_drop, List.length_take_of_le fits]
  rw [regexRegion, remaining, List.length_take, remaining] at le
  rw [mcopyRegex_eq lines inside fits, Search.text, regexRegion, remaining]
  generalize textEnd regexMax m ((buf.take nbytes).drop offset) = fin at le
  have whole : min (min (fin - 1) (regexLimit regexMax m (nbytes - offset))) (nbytes - offset) = fin - 1 := by
    generalize regexLimit regexMax m (nbytes - offset) = most at le
    omega
  rw [List.drop_take, List.take_take, List.take_take, whole]
  rfl

theorem noNul_take {bs : Bytes} {w : Nat} (le : w ≤ bs.length) : 0 ∉ bs.take w ↔ ∀ i < w, bs.getD i 0 ≠ 0 := by
  constructor
  · intro free i lt nul
    rw [List.getD_eq_getElem _ _ (by omega)] at nul
    apply free
    rw [List.mem_iff_getElem]
    exact ⟨i, by rw [List.length_take_of_le le]; exact lt, by rw [List.getElem_take, nul]⟩
  · intro free mem
    obtain ⟨i, lt, nul⟩ := List.mem_iff_getElem.mp mem
    rw [List.length_take_of_le le] at lt
    rw [List.getElem_take] at nul
    exact free i lt (by rw [List.getD_eq_getElem _ _ (by omega), nul])

theorem regexKept_iff (regexMax : Nat) (m : Magic) (rest : Bytes) :
    WholeText (cstring ((regexRegion regexMax m rest).take (textEnd regexMax m rest - 1))) (regexWindow regexMax m rest) ↔
      RegexKept regexMax m rest := by
  by_cases counting : has m.strFlags REGEX_LINE_COUNT = true
  · have window : regexWindow regexMax m rest = firstLines m.strRange (regexRegion regexMax m rest) := by
      rw [regexWindow, if_pos counting, firstLines_limit, regexRegion]
    obtain ⟨⟨near, le, inside⟩, kept⟩ := linesKept_iff m.strRange (regexRegion regexMax m rest) rfl
    have bytes : textEnd regexMax m rest = loopEnd m.strRange (regexRegion regexMax m rest) := by
      rw [textEnd, if_pos counting]
    have text := wholeText_cstring le inside near
    rw [kept, ← firstLines_take, ← noNul_take inside, ← firstLines_take, ← window] at text
    rw [bytes, text]
    exact ⟨fun h => ⟨h.1, fun _ => h.2, absurd counting⟩, fun h => ⟨h.noNul, h.lines counting⟩⟩
  · have window : regexWindow regexMax m rest = regexRegion regexMax m rest := by
      rw [regexWindow, if_neg counting, regexRegion]
    have bytes : textEnd regexMax m rest = (regexRegion regexMax m rest).length := by
      rw [textEnd, if_neg counting]
    have text := @wholeText_cstring (regexRegion regexMax m rest) _ _ le_rfl le_rfl (Nat.le_succ _)
    rw [← noNul_take le_rfl, List.take_length] at text
    rw [bytes, window, text]
    have ends : EndsLine (regexRegion regexMax m rest) ↔ (regexRegion regexMax m rest).length = 0 ∨
        EndsAt (regexRegion regexMax m rest) ((regexRegion regexMax m rest).length - 1) := by
      rw [List.length_eq_zero_iff]
      rfl
    constructor
    · rintro ⟨free, ⟨-, last⟩ | ⟨eq, -⟩ | eq | ⟨lt, -⟩⟩
      · exact ⟨window ▸ free, fun h => absurd h counting, fun _ => ends.mpr last⟩
      all_goals omega
    · exact fun h => ⟨window ▸ h.noNul, .inl ⟨rfl, ends.mp (h.bytes counting)⟩⟩

/-- What a `regex` gives to `regexec`. -/
structure RegexText (host : Host) (regexMax : Nat) (m : Magic) (buf : Bytes) (offset nbytes : Nat) (search : Search) :
    Prop where
  given : ∀ io text io', regexText host (buf.drop offset) search.sLen io = (some text, io') → text = search.text
  whole : WholeText search.text (regexWindow regexMax m ((buf.take nbytes).drop offset))

/-- When the text that `regexec` gets are the lines, or the bytes. -/
theorem regex_text_iff (type : m.type = .regex) (lines : has m.strFlags REGEX_LINE_COUNT = true → 0 < m.strRange)
    (inside : offset ≤ nbytes) (fits : nbytes ≤ buf.length) (v : Value) (old : Search) (host : Host) :
    RegexText host regexMax m buf offset nbytes (mcopy regexMax v old host m.type false (some buf) offset nbytes m).2 ↔
      RegexKept regexMax m ((buf.take nbytes).drop offset) := by
  have copied : (mcopy regexMax v old host m.type false (some buf) offset nbytes m).2 =
      mcopyRegex regexMax m (some buf) offset nbytes old := by
    simp only [mcopy, type, Bool.false_eq_true, if_false]
  have here : (mcopyRegex regexMax m (some buf) offset nbytes old).s = some (buf.drop offset) := by
    simp only [mcopyRegex, if_neg (not_lt.mpr inside)]
  have given : ∀ io text io', regexText host (buf.drop offset)
      (mcopyRegex regexMax m (some buf) offset nbytes old).sLen io = (some text, io') →
        text = (mcopyRegex regexMax m (some buf) offset nbytes old).text :=
    fun io text io' eq => regexText_text here eq
  rw [copied]
  have exact_iff : WholeText (mcopyRegex regexMax m (some buf) offset nbytes old).text
      (regexWindow regexMax m ((buf.take nbytes).drop offset)) ↔
        RegexKept regexMax m ((buf.take nbytes).drop offset) := by
    rw [mcopyRegex_text lines inside fits]
    exact regexKept_iff regexMax m _
  exact ⟨fun h => exact_iff.mp h.whole, fun h => ⟨given, exact_iff.mpr h⟩⟩

end

/-- `0 regex/N ...`, of bytes or of lines. -/
def limitedRegex (n strFlags : Nat) : Magic := { plainLine with type := .regex, strRange := n, strFlags }

/-- The first line of `ab` and `cd`. -/
theorem regex_text_line : RegexText plainHost 8192 (limitedRegex 1 REGEX_LINE_COUNT) (asc "ab\ncd") 0 5
    (mcopy 8192 .zero (plainScan []).search plainHost .regex false (some (asc "ab\ncd")) 0 5
      (limitedRegex 1 REGEX_LINE_COUNT)).2 := by
  refine (regex_text_iff rfl (fun _ => Nat.one_pos) (by decide) (by decide) .zero _ plainHost).mpr
    ⟨by decide +kernel, fun _ => ?_, fun no => absurd (by decide) no⟩
  exact .inl ⟨rfl, .inr ⟨rfl, .inl (by decide)⟩⟩

/-- `0 regex/3 ...` on three bytes: the last one is cut off. -/
theorem regex_text_cut : ¬ RegexText plainHost 8192 (limitedRegex 3 0) (asc "abc") 0 3
    (mcopy 8192 .zero (plainScan []).search plainHost .regex false (some (asc "abc")) 0 3 (limitedRegex 3 0)).2 := by
  intro kept
  have text : (mcopy 8192 .zero (plainScan []).search plainHost .regex false (some (asc "abc")) 0 3
      (limitedRegex 3 0)).2.text = asc "ab" := by decide +kernel
  have window : regexWindow 8192 (limitedRegex 3 0) ((asc "abc").drop 0) = asc "abc" := by decide +kernel
  have whole := kept.whole
  rw [text, show ((asc "abc").take 3).drop 0 = (asc "abc").drop 0 from rfl, window] at whole
  rcases whole with h | h | h | h <;> exact absurd h (by decide)

end Libmagic.Softmagic
