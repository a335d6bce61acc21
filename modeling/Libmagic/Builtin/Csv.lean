import Libmagic.Softmagic.Types

/-!
# `is_csv.c`: lines with the same number of fields
-/
namespace Libmagic.Builtin

open Softmagic

namespace Csv

def CSV_LINES : Nat := 10

/-- `eatquote`, on the bytes behind the opening quote: what it leaves to be read. -/
def eatquote : (quote : Bool) → Bytes → Bytes
  | _, [] => []
  | quote, c :: uc =>
      if c ≠ 34 then
        if quote then c :: uc else eatquote false uc
      else eatquote (!quote) uc

theorem eatquote_length (quote : Bool) (uc : Bytes) : (eatquote quote uc).length ≤ uc.length := by
  induction uc generalizing quote with
  | nil => exact Nat.le_refl 0
  | cons c uc ih =>
      have skip (q : Bool) : (eatquote q uc).length ≤ (c :: uc).length := (ih q).trans (Nat.le_succ _)
      rw [eatquote]
      split
      · split
        · exact Nat.le_refl _
        · exact skip false
      · exact skip (!quote)

/-- The loop of `csv_parse`. -/
def csvLoop (nf tf nl : Nat) : Bytes → Bool
  | [] => decide (1 ≤ tf ∧ 2 ≤ nl)
  | c :: uc =>
      if c = 34 then csvLoop nf tf nl (eatquote false uc)
      else if c = 44 then csvLoop (nf + 1) tf nl uc
      else if c = 10 then
        if nl + 1 = CSV_LINES then decide (1 < tf ∧ tf = nf)
        else if tf = 0 then
          if nf = 0 then false else csvLoop 0 nf (nl + 1) uc
        else if tf ≠ nf then false
        else csvLoop 0 tf (nl + 1) uc
      else csvLoop nf tf nl uc
  termination_by uc => uc.length
  decreasing_by
    · exact Nat.lt_succ_of_le (eatquote_length false uc)
    all_goals exact Nat.lt_succ_self _

/-- `csv_parse`. -/
def csvParse (uc : Bytes) : Bool := csvLoop 0 0 0 uc

/-! ## Lines -/

/-- What a line is made of: single bytes, the commas between the fields, and what is in quotes. -/
inductive Piece where
  | plain (b : UInt8) (other : b ≠ 34 ∧ b ≠ 44 ∧ b ≠ 10)
  | comma
  | quoted (text : Bytes)

/-- Quotes inside quotes are doubled. -/
def escape : Bytes → Bytes
  | [] => []
  | b :: text => if b = 34 then 34 :: 34 :: escape text else b :: escape text

def Piece.write : Piece → Bytes
  | .plain b _ => [b]
  | .comma => [44]
  | .quoted text => 34 :: (escape text ++ [34])

/-- A line without the newline at its end. -/
abbrev Line := List Piece

def Piece.commas : Piece → Nat
  | .comma => 1
  | _ => 0

def commas (line : Line) : Nat := (line.map Piece.commas).sum

/-- The lines as they stand in the buffer. -/
def write (lines : List Line) : Bytes := lines.flatMap (fun line => line.flatMap Piece.write ++ [10])

/-- A byte that is pushed back is read again, so that the end of the quotes may be looked for anew. -/
theorem csvLoop_pending (nf tf nl : Nat) (uc : Bytes) :
    csvLoop nf tf nl (eatquote true uc) = csvLoop nf tf nl uc := by
  cases uc with
  | nil => rfl
  | cons c uc =>
      rw [eatquote]
      by_cases hc : c = 34
      · subst hc
        rw [if_neg (not_not_intro rfl), csvLoop, if_pos rfl]
        rfl
      · rw [if_pos hc, if_pos rfl]

theorem eatquote_escape (text uc : Bytes) :
    eatquote false (escape text ++ 34 :: uc) = eatquote true uc := by
  induction text with
  | nil => rfl
  | cons b text ih =>
      rw [escape]
      by_cases hb : b = 34
      · rw [if_pos hb]
        exact ih
      · rw [if_neg hb, List.cons_append, eatquote, if_pos hb]
        exact ih

theorem csvLoop_piece (piece : Piece) (nf tf nl : Nat) (uc : Bytes) :
    csvLoop nf tf nl (piece.write ++ uc) = csvLoop (nf + piece.commas) tf nl uc := by
  cases piece with
  | plain b other =>
      obtain ⟨quote, comma, newline⟩ := other
      rw [Piece.write, List.singleton_append, csvLoop, if_neg quote, if_neg comma, if_neg newline]
      rfl
  | comma => rw [Piece.write, List.singleton_append, csvLoop, if_neg (by decide), if_pos rfl]; rfl
  | quoted text =>
      rw [Piece.write, List.cons_append, List.append_assoc, List.singleton_append, csvLoop, if_pos rfl,
        eatquote_escape, csvLoop_pending]
      rfl

theorem csvLoop_line (line : Line) (nf tf nl : Nat) (uc : Bytes) :
    csvLoop nf tf nl (line.flatMap Piece.write ++ uc) = csvLoop (nf + commas line) tf nl uc := by
  induction line generalizing nf with
  | nil => rfl
  | cons piece line ih =>
      have sum : commas (piece :: line) = piece.commas + commas line := by
        rw [commas, List.map_cons, List.sum_cons]
        rfl
      rw [List.flatMap_cons, List.append_assoc, csvLoop_piece, ih, sum, Nat.add_assoc]

/-- A line: the first one tells the number of commas, the tenth ends the search. -/
theorem csvLoop_cons (line : Line) (lines : List Line) (tail : Bytes) (tf nl : Nat) :
    csvLoop 0 tf nl (write (line :: lines) ++ tail) =
      if nl + 1 = CSV_LINES then decide (1 < tf ∧ tf = commas line)
      else if tf = 0 then
        if commas line = 0 then false else csvLoop 0 (commas line) (nl + 1) (write lines ++ tail)
      else if tf ≠ commas line then false
      else csvLoop 0 tf (nl + 1) (write lines ++ tail) := by
  rw [write, List.flatMap_cons, List.append_assoc, List.append_assoc, csvLoop_line, Nat.zero_add,
    List.singleton_append, csvLoop, if_neg (by decide), if_neg (by decide), if_pos rfl]
  rfl

/-! ## The number of lines -/

/-- Lines that agree with the first one are gone through to the end or to the tenth. -/
theorem csvLoop_same {k : Nat} (pos : 1 ≤ k) (lines : List Line) (same : ∀ line ∈ lines, commas line = k)
    (nl : Nat) (before : nl < CSV_LINES) :
    csvLoop 0 k nl (write lines) =
      if nl + lines.length < CSV_LINES then decide (2 ≤ nl + lines.length) else decide (2 ≤ k) := by
  induction lines generalizing nl with
  | nil =>
      rw [write, List.flatMap_nil, csvLoop, List.length_nil, Nat.add_zero, if_pos before]
      exact decide_eq_decide.mpr (and_iff_right pos)
  | cons line lines ih =>
      have first := same line List.mem_cons_self
      have step := csvLoop_cons line lines [] k nl
      rw [List.append_nil, List.append_nil] at step
      rw [step, first, if_neg (Nat.ne_of_gt pos), if_neg (not_not_intro rfl), List.length_cons]
      by_cases tenth : nl + 1 = CSV_LINES
      · rw [if_pos tenth, if_neg (by omega)]
        exact decide_eq_decide.mpr (and_iff_left rfl)
      · rw [if_neg tenth, ih (fun l member => same l (List.mem_cons_of_mem _ member)) _ (by omega),
          Nat.add_right_comm]
        rfl

/-- A line that does not agree with the first one ends the search. -/
theorem csvLoop_differ {k : Nat} (pos : 1 ≤ k) (lines : List Line) (tail : Bytes) (nl i : Nat) (other : Line)
    (here : lines[i]? = some other) (seen : nl + i < CSV_LINES) (differ : commas other ≠ k) :
    csvLoop 0 k nl (write lines ++ tail) = false := by
  induction lines generalizing nl i with
  | nil => cases here
  | cons line lines ih =>
      rw [csvLoop_cons, if_neg (Nat.ne_of_gt pos)]
      by_cases agree : k = commas line
      · cases i with
        | zero => exact absurd (Option.some.inj here ▸ agree.symm) differ
        | succ i =>
            rw [if_neg (by omega), if_neg (not_not_intro agree)]
            exact ih (nl + 1) i here (by omega)
      · rw [if_pos agree]
        split
        · exact decide_eq_false (fun both => agree both.2)
        · rfl

/-- Lines with the same number of commas are taken for CSV exactly if there are fewer than ten of them or
they have two commas; lines of which two of the first ten differ are never. -/
theorem csvParse_iff (lines : List Line) :
    (∀ k, 2 ≤ lines.length → 1 ≤ k → (∀ line ∈ lines, commas line = k) →
      (csvParse (write lines) = true ↔ lines.length < CSV_LINES ∨ 2 ≤ k)) ∧
    (∀ (tail : Bytes) (i j : Nat) (one other : Line), lines[i]? = some one → lines[j]? = some other →
      i < CSV_LINES → j < CSV_LINES → commas one ≠ commas other → csvParse (write lines ++ tail) = false) := by
  constructor
  · intro k two pos same
    cases lines with
    | nil => cases two
    | cons line lines =>
        have first := same line List.mem_cons_self
        have step := csvLoop_cons line lines [] 0 0
        rw [List.append_nil, List.append_nil] at step
        rw [csvParse, step, first, if_neg (by decide), if_pos rfl, if_neg (Nat.ne_of_gt pos),
          csvLoop_same pos lines (fun l member => same l (List.mem_cons_of_mem _ member)) _ (by decide),
          Nat.add_comm, ← List.length_cons]
        by_cases short : (line :: lines).length < CSV_LINES
        · rw [if_pos short, decide_eq_true_iff]
          exact iff_of_true two (.inl short)
        · rw [if_neg short, decide_eq_true_iff, or_iff_right short]
  · intro tail i j one other here there seen seen' differ
    cases lines with
    | nil => cases here
    | cons line lines =>
        rw [csvParse, csvLoop_cons, if_neg (by decide), if_pos rfl]
        by_cases none : commas line = 0
        · rw [if_pos none]
        · rw [if_neg none]
          have search (n : Nat) (l : Line) (at_n : (line :: lines)[n]? = some l) (hn : n < CSV_LINES)
              (ne : commas l ≠ commas line) : csvLoop 0 (commas line) 1 (write lines ++ tail) = false := by
            cases n with
            | zero => exact absurd (congrArg commas (Option.some.inj at_n)).symm ne
            | succ n =>
                exact csvLoop_differ (Nat.pos_of_ne_zero none) lines tail 1 n l at_n (by omega) ne
          by_cases first : commas one = commas line
          · exact search j other there seen' (fun same => differ (first.trans same.symm))
          · exact search i one here seen first

/-- The line `a,b`. -/
def twoFields : Line := [.plain 97 (by decide), .comma, .plain 98 (by decide)]

theorem commas_twoFields (n : Nat) : ∀ line ∈ List.replicate n twoFields, commas line = 1 := by
  intro line member
  rw [List.eq_of_mem_replicate member]
  rfl

/-- Nine lines, and two lines of which the second has no comma. -/
theorem csvParse_nine :
    csvParse (write (List.replicate 9 twoFields)) = true ∧ csvParse (write [twoFields, []] ++ [34]) = false :=
  ⟨((csvParse_iff (List.replicate 9 twoFields)).1 1 (by decide) (Nat.le_refl 1) (commas_twoFields 9)).mpr
      (.inl (by decide)),
    (csvParse_iff [twoFields, []]).2 [34] 0 1 twoFields [] rfl rfl (by decide) (by decide) (by decide)⟩

/-- Ten lines. -/
theorem csvParse_ten :
    2 ≤ (List.replicate 10 twoFields).length ∧ (∀ line ∈ List.replicate 10 twoFields, commas line = 1) ∧
    csvParse (write (List.replicate 10 twoFields)) = false := by
  refine ⟨by decide, commas_twoFields 10, ?_⟩
  simp [csvParse, write, twoFields, Piece.write, List.replicate, csvLoop, CSV_LINES]

end Csv

end Libmagic.Builtin
