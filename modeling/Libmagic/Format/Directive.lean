import Mathlib.Data.List.DropRight
import Libmagic.Format.Fmtcheck

/-!
# Directives that `check_format` accepts

What the three recognisers say about a directive is worked out from its parts: flags, width,
precision and conversion.
-/
namespace Libmagic.Format

open Softmagic

/-! ## Runs of characters -/

section Runs

variable {α : Type} {q : α → Bool} {xs ys : List α}

theorem dropWhile_stop (stop : ys.head?.any q = false) : ys.dropWhile q = ys := by
  cases ys with
  | nil => rfl
  | cons y ys => exact List.dropWhile_cons_of_neg (by simpa using stop)

theorem takeWhile_stop (stop : ys.head?.any q = false) : ys.takeWhile q = [] := by
  cases ys with
  | nil => rfl
  | cons y ys => exact List.takeWhile_cons_of_neg (by simpa using stop)

theorem dropWhile_run (all : ∀ x ∈ xs, q x = true) (stop : ys.head?.any q = false) :
    (xs ++ ys).dropWhile q = ys := by
  rw [List.dropWhile_append_of_pos all, dropWhile_stop stop]

theorem takeWhile_run (all : ∀ x ∈ xs, q x = true) (stop : ys.head?.any q = false) :
    (xs ++ ys).takeWhile q = xs := by
  rw [List.takeWhile_append_of_pos all, takeWhile_stop stop, List.append_nil]

/-- A run that goes on for a part of `xs` only. -/
theorem dropWhile_part (stop : ys.head?.any q = false) :
    (xs ++ ys).dropWhile q = xs.dropWhile q ++ ys := by
  rw [List.dropWhile_append]
  split
  · rename_i none
    rw [List.isEmpty_iff.mp none, dropWhile_stop stop, List.nil_append]
  · rfl

end Runs

/-! ## Characters -/

/-- The flags that `check_format_type` skips. -/
def isFlag (c : UInt8) : Bool := (asc "+-.#").contains c

theorem isFlag_iff {c : UInt8} : isFlag c = true ↔ c = 0x2b ∨ c = 0x2d ∨ c = 0x2e ∨ c = 0x23 := by
  have flags : asc "+-.#" = [0x2b, 0x2d, 0x2e, 0x23] := by decide
  rw [isFlag, flags]
  simp

/-- The conversions that some type accepts. -/
def isConversion (c : UInt8) : Bool := (asc "cdiuoxXleEfFgGs").contains c

theorem isConversion_iff {c : UInt8} : isConversion c = true ↔ c ∈ asc "cdiuoxXleEfFgGs" := by
  rw [isConversion, List.contains_iff_mem]

theorem isFlag_of_isdigit {c : UInt8} (digit : isdigit c = true) : isFlag c = false := by
  rw [Bool.eq_false_iff]
  intro flag
  rcases isFlag_iff.mp flag with rfl | rfl | rfl | rfl <;> exact absurd digit (by decide)

/-- What is not a flag, a digit or a `*`, and is a letter. -/
structure Letter (c : UInt8) : Prop where
  alpha : isalpha c = true
  digit : isdigit c = false
  flag : isFlag c = false
  zero : (asc "#0- +").contains c = false
  skipped : (asc "#0.'+- ").contains c = false

theorem Letter.ne {c c' : UInt8} (letter : Letter c) (alpha : isalpha c' = false) : c ≠ c' := by
  rintro rfl
  rw [letter.alpha] at alpha
  cases alpha

theorem Letter.of_conversion {c : UInt8} (conv : isConversion c = true) : Letter c := by
  have all : (asc "cdiuoxXleEfFgGs").all (fun c => isalpha c && !isdigit c && !isFlag c &&
      !(asc "#0- +").contains c && !(asc "#0.'+- ").contains c) = true := by decide +kernel
  have here := List.all_eq_true.mp all c (isConversion_iff.mp conv)
  simp only [Bool.and_eq_true, Bool.not_eq_true'] at here
  obtain ⟨⟨⟨⟨alpha, digit⟩, flag⟩, zero⟩, skipped⟩ := here
  exact ⟨alpha, digit, flag, zero, skipped⟩

/-! ## Directives -/

/-- A directive behind its `%`, as `check_format_type` takes it apart. -/
structure Directive where
  flags : Bytes
  width : Bytes
  dot : Bool
  precision : Bytes
  /-- the letter of the conversion -/
  conv : UInt8
  rest : Bytes
  flags_all : ∀ c ∈ flags, isFlag c = true
  width_all : ∀ c ∈ width, isdigit c = true
  precision_all : ∀ c ∈ precision, isdigit c = true
  precision_nil : dot = false → precision = []
  conv_ok : isConversion conv = true

namespace Directive

/-- The `.` in front of the precision. -/
def dots (d : Directive) : Bytes := if d.dot then [0x2e] else []

/-- What is behind the width. -/
def behind (d : Directive) : Bytes := d.dots ++ d.precision ++ d.conv :: d.rest

/-- The text from the flags on. -/
def text (d : Directive) : Bytes := d.flags ++ (d.width ++ d.behind)

theorem letter (d : Directive) : Letter d.conv := Letter.of_conversion d.conv_ok

theorem behind_cases (d : Directive) :
    (d.dot = true ∧ d.behind = 0x2e :: (d.precision ++ d.conv :: d.rest)) ∨
      (d.dot = false ∧ d.precision = [] ∧ d.behind = d.conv :: d.rest) := by
  unfold behind dots
  cases dot : d.dot with
  | false =>
      refine .inr ⟨rfl, d.precision_nil dot, ?_⟩
      rw [d.precision_nil dot]
      rfl
  | true => exact .inl ⟨rfl, rfl⟩

/-- No digit is at the front of what is behind the width. -/
theorem behind_digit (d : Directive) : d.behind.head?.any isdigit = false := by
  rcases d.behind_cases with ⟨_, eq⟩ | ⟨_, _, eq⟩
  · rw [eq]
    rfl
  · rw [eq]
    exact d.letter.digit

theorem conv_digit (d : Directive) : (d.conv :: d.rest).head?.any isdigit = false := d.letter.digit

/-! ### `fmtcheck` -/

/-- A directive with one `.` at most, and nothing but digits behind it. -/
def Single (d : Directive) : Prop :=
  0x2e ∉ d.flags ∨ ∃ front, d.flags = front ++ [0x2e] ∧ 0x2e ∉ front ∧ d.dot = false

theorem getNextFormatFromWidth_dot {f : Bytes} (star : f.head? ≠ some 0x2a) (some : f.dropWhile isdigit ≠ []) :
    getNextFormatFromWidth (0x2e :: f) = getNextFormatFromPrecision (f.dropWhile isdigit) := by
  unfold getNextFormatFromWidth
  split
  · rename_i same
    obtain ⟨_, rfl⟩ := List.cons.inj same
    exact absurd rfl star
  · rename_i same
    obtain ⟨_, rfl⟩ := List.cons.inj same
    dsimp only
    rw [if_neg some]
  · rename_i _ none
    exact absurd rfl (none f)

theorem getNextFormatFromWidth_ne {f : Bytes} (dot : f.head? ≠ some 0x2e) :
    getNextFormatFromWidth f = getNextFormatFromPrecision f := by
  unfold getNextFormatFromWidth
  split
  · exact absurd rfl dot
  · exact absurd rfl dot
  · rfl

theorem getNextFormatFromPrecision_flag {c : UInt8} (flag : isFlag c = true) (f : Bytes) :
    (getNextFormatFromPrecision (c :: f)).1 = .unknown := by
  rcases isFlag_iff.mp flag with rfl | rfl | rfl | rfl
  · exact (by decide : conversion .none 0x2b = .unknown)
  · exact (by decide : conversion .none 0x2d = .unknown)
  · exact (by decide : conversion .none 0x2e = .unknown)
  · exact (by decide : conversion .none 0x23 = .unknown)

theorem dot_zero : (asc "#0- +").contains 0x2e = false := by
  decide

theorem zero_of_flag {c : UInt8} (flag : isFlag c = true) (dot : c ≠ 0x2e) :
    (asc "#0- +").contains c = true := by
  rcases isFlag_iff.mp flag with rfl | rfl | rfl | rfl
  · decide
  · decide
  · exact absurd rfl dot
  · decide

variable (d : Directive)

theorem behind_head_star : d.behind.head? ≠ some 0x2a := by
  rcases d.behind_cases with ⟨_, eq⟩ | ⟨_, _, eq⟩
  · rw [eq]
    simp
  · rw [eq]
    intro star
    have alpha := d.letter.alpha
    rw [Option.some.inj star] at alpha
    exact absurd alpha (by decide)

theorem conv_ne {c : UInt8} (alpha : isalpha c = false) : d.conv ≠ c := d.letter.ne alpha

/-- Digits in front of `f`, or nothing. -/
theorem head_star {ds f : Bytes} (all : ∀ c ∈ ds, isdigit c = true) (star : f.head? ≠ some 0x2a) :
    (ds ++ f).head? ≠ some 0x2a := by
  cases ds with
  | nil => exact star
  | cons c ds =>
      intro eq
      have digit := all c List.mem_cons_self
      rw [Option.some.inj eq] at digit
      exact absurd digit (by decide)

theorem fromWidth_behind :
    getNextFormatFromWidth d.behind = getNextFormatFromPrecision (d.conv :: d.rest) := by
  rcases d.behind_cases with ⟨_, eq⟩ | ⟨_, _, eq⟩
  · have run : (d.precision ++ d.conv :: d.rest).dropWhile isdigit = d.conv :: d.rest :=
      dropWhile_run d.precision_all d.conv_digit
    rw [eq, getNextFormatFromWidth_dot, run]
    · apply head_star d.precision_all
      intro star
      exact d.conv_ne (by decide) (Option.some.inj star)
    · rw [run]
      simp
  · rw [eq, getNextFormatFromWidth_ne]
    intro dot
    exact d.conv_ne (by decide) (Option.some.inj dot)

theorem behind_zero : d.behind.head?.any (fun c => (asc "#0- +").contains c) = false := by
  rcases d.behind_cases with ⟨_, eq⟩ | ⟨_, _, eq⟩
  · rw [eq]
    exact dot_zero
  · rw [eq]
    exact d.letter.zero

/-- Without a `.` among the flags, `fmtcheck` reads up to the conversion. -/
theorem directiveType_of_dotless (dotless : 0x2e ∉ d.flags) :
    directiveType d.text = getNextFormatFromPrecision (d.conv :: d.rest) := by
  have flags : ∀ c ∈ d.flags, (asc "#0- +").contains c = true := by
    intro c mem
    exact zero_of_flag (d.flags_all c mem) (fun dot => dotless (dot ▸ mem))
  have part : ∀ c ∈ d.width.dropWhile (fun c => (asc "#0- +").contains c), isdigit c = true :=
    fun c mem => d.width_all c ((List.dropWhile_sublist _).subset mem)
  have some : d.behind ≠ [] := by
    rcases d.behind_cases with ⟨_, eq⟩ | ⟨_, _, eq⟩ <;> rw [eq] <;> simp
  unfold directiveType text
  rw [List.dropWhile_append_of_pos flags, dropWhile_part d.behind_zero]
  dsimp only
  rw [if_neg (head_star part d.behind_head_star), dropWhile_run part d.behind_digit, if_neg some,
    d.fromWidth_behind]

/-- With a `.` among the flags it reads the precision behind the first of them. -/
theorem directiveType_of_dot {front back : Bytes} (flags : d.flags = front ++ 0x2e :: back)
    (dotless : 0x2e ∉ front) :
    directiveType d.text = getNextFormatFromWidth (0x2e :: (back ++ (d.width ++ d.behind))) := by
  have all : ∀ c ∈ front, (asc "#0- +").contains c = true := by
    intro c mem
    have flag := d.flags_all c (by rw [flags]; exact List.mem_append_left _ mem)
    exact zero_of_flag flag (fun dot => dotless (dot ▸ mem))
  have text : d.text = front ++ (0x2e :: (back ++ (d.width ++ d.behind))) := by
    rw [Directive.text, flags, List.append_assoc]
    rfl
  have star : (0x2e :: (back ++ (d.width ++ d.behind))).head? ≠ some 0x2a := by simp
  have run : d.text.dropWhile (fun c => (asc "#0- +").contains c) =
      0x2e :: (back ++ (d.width ++ d.behind)) := by
    rw [text]
    exact dropWhile_run all dot_zero
  unfold directiveType
  rw [run]
  dsimp only
  rw [if_neg star, dropWhile_stop (by rfl), if_neg (by simp)]

theorem directiveType_of_single (single : d.Single) :
    directiveType d.text = getNextFormatFromPrecision (d.conv :: d.rest) := by
  rcases single with dotless | ⟨front, flags, dotless, dot⟩
  · exact d.directiveType_of_dotless dotless
  · have behind : d.behind = d.conv :: d.rest := by
      rcases d.behind_cases with ⟨dot', _⟩ | ⟨_, _, eq⟩
      · rw [dot] at dot'
        cases dot'
      · exact eq
    have run : (d.width ++ d.behind).dropWhile isdigit = d.conv :: d.rest := by
      rw [dropWhile_run d.width_all d.behind_digit, behind]
    rw [d.directiveType_of_dot flags dotless, List.nil_append,
      getNextFormatFromWidth_dot (head_star d.width_all d.behind_head_star), run]
    rw [run]
    simp

theorem directiveType_of_not_single (many : ¬ d.Single) : (directiveType d.text).1 = .unknown := by
  have mem : (0x2e : UInt8) ∈ d.flags := by
    by_contra dotless
    exact many (.inl dotless)
  obtain ⟨front, back, flags, dotless⟩ := List.eq_append_cons_of_mem mem
  rw [d.directiveType_of_dot flags dotless]
  cases back with
  | cons c back =>
      have flag : isFlag c = true := d.flags_all c (by rw [flags]; simp)
      have digit : isdigit c = false := by
        rcases isFlag_iff.mp flag with rfl | rfl | rfl | rfl <;> decide
      have run : (c :: (back ++ (d.width ++ d.behind))).dropWhile isdigit =
          c :: (back ++ (d.width ++ d.behind)) := dropWhile_stop digit
      rw [List.cons_append, getNextFormatFromWidth_dot, run]
      · exact getNextFormatFromPrecision_flag flag _
      · intro star
        rw [Option.some.inj star] at flag
        exact absurd flag (by decide)
      · rw [run]
        simp
  | nil =>
      rcases d.behind_cases with ⟨_, eq⟩ | ⟨dot, _, _⟩
      · have run : (d.width ++ d.behind).dropWhile isdigit =
            0x2e :: (d.precision ++ d.conv :: d.rest) := by
          rw [dropWhile_run d.width_all d.behind_digit, eq]
        rw [List.nil_append, getNextFormatFromWidth_dot (head_star d.width_all d.behind_head_star), run]
        · exact getNextFormatFromPrecision_flag (by decide) _
        · rw [run]
          simp
      · exact absurd (.inr ⟨front, flags, dotless, dot⟩) many

/-! ### `file_checkfmt` -/

/-- The digits that `file_checkfield` reads from the number `fw` on. -/
def numberFrom (fw : Nat) (ds : Bytes) : Nat := ds.foldl (fun n c => n * 10 + (c.toNat - 0x30)) fw

theorem le_numberFrom (fw : Nat) (ds : Bytes) : fw ≤ numberFrom fw ds := by
  induction ds generalizing fw with
  | nil => exact Nat.le_refl _
  | cons c ds ih =>
      have further : fw * 10 + (c.toNat - 0x30) ≤ numberFrom fw (c :: ds) := ih _
      omega

/-- The field width of a run of digits, and what is behind a width that is not too large. -/
theorem fileCheckfield_run {ds f : Bytes} (all : ∀ c ∈ ds, isdigit c = true)
    (stop : f.head?.any isdigit = false) (fw : Nat) :
    (fileCheckfield fw (ds ++ f)).1 = decide (numberFrom fw ds < 1024) ∧
      (numberFrom fw ds < 1024 → (fileCheckfield fw (ds ++ f)).2.2 = f) := by
  induction ds generalizing fw with
  | nil =>
      cases f with
      | nil => exact ⟨rfl, fun _ => rfl⟩
      | cons c f =>
          have digit : isdigit c = false := stop
          rw [List.nil_append, fileCheckfield, digit]
          exact ⟨rfl, fun _ => rfl⟩
  | cons c ds ih =>
      have digit : isdigit c = true := all c List.mem_cons_self
      obtain ⟨ok, rest⟩ := ih (fun c mem => all c (List.mem_cons_of_mem _ mem)) (fw * 10 + (c.toNat - 0x30))
      rw [List.cons_append, fileCheckfield, if_pos digit]
      dsimp only
      split
      · rename_i large
        have more : fw * 10 + (c.toNat - 0x30) ≤ numberFrom fw (c :: ds) := le_numberFrom _ ds
        have not : ¬ numberFrom fw (c :: ds) < 1024 := by omega
        exact ⟨(decide_eq_false not).symm, fun small => absurd small not⟩
      · exact ⟨ok, rest⟩

/-- The flags and zeros in front that `file_checkfmt` skips. -/
def isSkipped (c : UInt8) : Bool := (asc "#0.'+- ").contains c

theorem number_dropZeros {ds : Bytes} (all : ∀ c ∈ ds, isdigit c = true) :
    numberFrom 0 (ds.dropWhile isSkipped) = numberFrom 0 ds := by
  induction ds with
  | nil => rfl
  | cons c ds ih =>
      rw [List.dropWhile_cons]
      split
      · rename_i skipped
        have zero : c = 0x30 := by
          have digit := all c List.mem_cons_self
          have chars : asc "#0.'+- " = [0x23, 0x30, 0x2e, 0x27, 0x2b, 0x2d, 0x20] := by decide
          rw [isSkipped, chars, List.contains_iff_mem] at skipped
          simp only [List.mem_cons, List.not_mem_nil, or_false] at skipped
          rcases skipped with rfl | rfl | rfl | rfl | rfl | rfl | rfl
          · exact absurd digit (by decide)
          · rfl
          all_goals exact absurd digit (by decide)
        rw [ih (fun c mem => all c (List.mem_cons_of_mem _ mem)), zero]
        rfl
      · rfl

/-- Both fields of a directive are below the limit of `file_checkfield`. -/
def Small (d : Directive) : Prop := numberFrom 0 d.width < 1024 ∧ numberFrom 0 d.precision < 1024

/-- The fields behind the flags: a width without a precision. -/
theorem checkDirective_width {f ds rest : Bytes} {c : UInt8} (letter : Letter c)
    (skip : f.dropWhile isSkipped = ds ++ c :: rest) (all : ∀ c ∈ ds, isdigit c = true) :
    (checkDirective f).isOk = decide (numberFrom 0 ds < 1024) ∧ ∀ g, checkDirective f = .ok g → g = rest := by
  have star : (ds ++ c :: rest).head? ≠ some 0x2a :=
    head_star all (fun eq => letter.ne (by decide) (Option.some.inj eq))
  have dot : (c :: rest).head? ≠ some 0x2e := fun eq => letter.ne (by decide) (Option.some.inj eq)
  obtain ⟨ok, behind⟩ := @fileCheckfield_run ds (c :: rest) all letter.digit 0
  have fold : f.dropWhile (fun c => (asc "#0.'+- ").contains c) = ds ++ c :: rest := skip
  unfold checkDirective
  rw [fold]
  dsimp only
  rw [if_neg star, ok]
  by_cases small : numberFrom 0 ds < 1024
  · rw [decide_eq_true small, Bool.not_true, if_neg Bool.false_ne_true, behind small, if_neg dot,
      Bool.not_true, if_neg Bool.false_ne_true]
    dsimp only
    rw [if_pos letter.alpha]
    exact ⟨rfl, fun g same => (Except.ok.inj same).symm⟩
  · rw [decide_eq_false small, Bool.not_false, if_pos rfl]
    exact ⟨rfl, nofun⟩

/-- The fields behind the flags: a width and a precision. -/
theorem checkDirective_precision {f ds precision rest : Bytes} {c : UInt8} (letter : Letter c)
    (skip : f.dropWhile isSkipped = ds ++ 0x2e :: (precision ++ c :: rest))
    (all : ∀ c ∈ ds, isdigit c = true) (all' : ∀ c ∈ precision, isdigit c = true) :
    (checkDirective f).isOk = decide (numberFrom 0 ds < 1024 ∧ numberFrom 0 precision < 1024) ∧
      ∀ g, checkDirective f = .ok g → g = rest := by
  have star : (ds ++ 0x2e :: (precision ++ c :: rest)).head? ≠ some 0x2a := head_star all (by simp)
  obtain ⟨ok, behind⟩ := fileCheckfield_run (f := 0x2e :: (precision ++ c :: rest)) all (by rfl) 0
  obtain ⟨ok', behind'⟩ := @fileCheckfield_run precision (c :: rest) all' letter.digit 0
  have fold : f.dropWhile (fun c => (asc "#0.'+- ").contains c) = ds ++ 0x2e :: (precision ++ c :: rest) := skip
  unfold checkDirective
  rw [fold]
  dsimp only
  rw [if_neg star, ok]
  by_cases small : numberFrom 0 ds < 1024
  · rw [decide_eq_true small, Bool.not_true, if_neg Bool.false_ne_true, behind small, List.head?_cons,
      if_pos rfl, List.tail_cons, ok']
    by_cases small' : numberFrom 0 precision < 1024
    · rw [decide_eq_true small', Bool.not_true, if_neg Bool.false_ne_true, behind' small',
        decide_eq_true ⟨small, small'⟩]
      dsimp only
      rw [if_pos letter.alpha]
      exact ⟨rfl, fun g same => (Except.ok.inj same).symm⟩
    · rw [decide_eq_false small', Bool.not_false, if_pos rfl, decide_eq_false (fun both => small' both.2)]
      exact ⟨rfl, nofun⟩
  · rw [decide_eq_false small, Bool.not_false, if_pos rfl, decide_eq_false (fun both => small both.1)]
    exact ⟨rfl, nofun⟩

theorem skipped_of_flag {c : UInt8} (flag : isFlag c = true) : isSkipped c = true := by
  rcases isFlag_iff.mp flag with rfl | rfl | rfl | rfl <;> decide

/-- `file_checkfmt` accepts a directive just when both its fields are small. -/
theorem checkDirective_text [Decidable d.Small] :
    (checkDirective d.text).isOk = decide d.Small ∧ ∀ g, checkDirective d.text = .ok g → g = d.rest := by
  have flags : d.text.dropWhile isSkipped = (d.width ++ d.behind).dropWhile isSkipped :=
    List.dropWhile_append_of_pos (fun c mem => skipped_of_flag (d.flags_all c mem))
  have conv : (d.conv :: d.rest).head?.any isSkipped = false := d.letter.skipped
  have width := number_dropZeros d.width_all
  have part : ∀ c ∈ d.width.dropWhile isSkipped, isdigit c = true :=
    fun c mem => d.width_all c ((List.dropWhile_sublist _).subset mem)
  have part' : ∀ c ∈ d.precision.dropWhile isSkipped, isdigit c = true :=
    fun c mem => d.precision_all c ((List.dropWhile_sublist _).subset mem)
  rcases d.behind_cases with ⟨_, eq⟩ | ⟨_, none, eq⟩
  · by_cases zeros : d.width.dropWhile isSkipped = []
    · -- the zeros of the width are flags, and so is the dot
      have skip : d.text.dropWhile isSkipped = d.precision.dropWhile isSkipped ++ d.conv :: d.rest := by
        rw [flags, List.dropWhile_append, zeros, List.isEmpty_nil, if_pos rfl, eq,
          List.dropWhile_cons_of_pos (by decide), dropWhile_part conv]
      obtain ⟨ok, rest⟩ := checkDirective_width d.letter skip part'
      rw [zeros] at width
      have small : d.Small ↔ numberFrom 0 (d.precision.dropWhile isSkipped) < 1024 := by
        rw [Small, ← width, number_dropZeros d.precision_all]
        exact ⟨fun both => both.2, fun one => ⟨by decide, one⟩⟩
      exact ⟨ok.trans (decide_eq_decide.mpr small.symm), rest⟩
    · have skip : d.text.dropWhile isSkipped =
          d.width.dropWhile isSkipped ++ 0x2e :: (d.precision ++ d.conv :: d.rest) := by
        rw [flags, List.dropWhile_append, if_neg (by simpa using zeros), eq]
      obtain ⟨ok, rest⟩ := checkDirective_precision d.letter skip part d.precision_all
      rw [width] at ok
      exact ⟨ok.trans (decide_eq_decide.mpr Iff.rfl), rest⟩
  · have skip : d.text.dropWhile isSkipped = d.width.dropWhile isSkipped ++ d.conv :: d.rest := by
      rw [flags, eq, dropWhile_part conv]
    obtain ⟨ok, rest⟩ := checkDirective_width d.letter skip part
    rw [width] at ok
    have small : d.Small ↔ numberFrom 0 d.width < 1024 := by
      rw [Small, none]
      exact ⟨fun both => both.1, fun one => ⟨one, by decide⟩⟩
    exact ⟨ok.trans (decide_eq_decide.mpr small.symm), rest⟩

end Directive

/-! ## What `check_format_type` accepts -/

/-- What is behind a width and a precision. -/
def stripFields (ptr : Bytes) : Bytes := (skipDot (ptr.dropWhile isdigit)).dropWhile isdigit

theorem takeWhile_dropWhile (q : UInt8 → Bool) (f : Bytes) : (f.dropWhile q).takeWhile q = [] := by
  induction f with
  | nil => rfl
  | cons c f ih =>
      rw [List.dropWhile_cons]
      split
      · exact ih
      · rename_i stop
        exact takeWhile_stop (by simpa using stop)

theorem skipDot_of_ne {f : Bytes} (dot : f.head? ≠ some 0x2e) : skipDot f = f := if_neg dot

theorem skipDot_cases (f : Bytes) : f = 0x2e :: skipDot f ∨ f.head? ≠ some 0x2e := by
  by_cases dot : f.head? = some 0x2e
  · left
    obtain ⟨g, rfl⟩ := List.head?_eq_some_iff.mp dot
    rw [skipDot, if_pos dot, List.tail_cons]
  · exact .inr dot

/-- Flags, fields and a conversion are a directive. -/
theorem Directive.of_fields {flags ptr rest : Bytes} {conv : UInt8} (all : ∀ c ∈ flags, isFlag c = true)
    (strip : stripFields ptr = conv :: rest) (ok : isConversion conv = true) :
    ∃ d : Directive, d.text = flags ++ ptr ∧ d.conv = conv ∧ d.rest = rest := by
  have digits : ∀ f : Bytes, ∀ c ∈ f.takeWhile isdigit, isdigit c = true :=
    fun f c mem => List.mem_takeWhile_imp mem
  have tail : (skipDot (ptr.dropWhile isdigit)).takeWhile isdigit ++ conv :: rest =
      skipDot (ptr.dropWhile isdigit) := by
    rw [← strip]
    exact List.takeWhile_append_dropWhile
  rcases skipDot_cases (ptr.dropWhile isdigit) with dot | dotless
  · refine ⟨⟨flags, ptr.takeWhile isdigit, true, (skipDot (ptr.dropWhile isdigit)).takeWhile isdigit, conv,
      rest, all, digits _, digits _, nofun, ok⟩, ?_, rfl, rfl⟩
    have whole : ptr.takeWhile isdigit ++ ptr.dropWhile isdigit = ptr := List.takeWhile_append_dropWhile
    change flags ++ (ptr.takeWhile isdigit ++ (0x2e ::
      ((skipDot (ptr.dropWhile isdigit)).takeWhile isdigit ++ conv :: rest))) = _
    rw [tail, ← dot, whole]
  · rw [skipDot_of_ne dotless, takeWhile_dropWhile, List.nil_append] at tail
    refine ⟨⟨flags, ptr.takeWhile isdigit, false, [], conv, rest, all, digits _, nofun, fun _ => rfl, ok⟩,
      ?_, rfl, rfl⟩
    have whole : ptr.takeWhile isdigit ++ ptr.dropWhile isdigit = ptr := List.takeWhile_append_dropWhile
    change flags ++ (ptr.takeWhile isdigit ++ conv :: rest) = _
    rw [tail, whole]

theorem checklens_strip {ptr f : Bytes} (h : checklens ptr = some f) : f = stripFields ptr := by
  have one : ∀ {ptr f : Bytes}, checklen ptr = some f → f = ptr.dropWhile isdigit := by
    intro ptr f h
    unfold checklen at h
    dsimp only at h
    split at h
    · cases h
    · exact (Option.some.inj h).symm
  obtain ⟨g, first, second⟩ := Option.bind_eq_some_iff.mp h
  rw [one second, one first]
  rfl

theorem isOk_converts {ok : Bool} (h : (converts ok).isOk = true) : ok = true := by
  cases ok
  · cases h
  · rfl

theorem head?_any {f : Bytes} {q : UInt8 → Bool} (h : f.head?.any q = true) :
    ∃ c g, f = c :: g ∧ q c = true := by
  cases f with
  | nil => cases h
  | cons c f => exact ⟨c, f, rfl, h⟩

/-- The directives of a number that is not a `quad`. -/
def isNum (c : UInt8) : Bool := (asc "ciduoxX").contains c

theorem isConversion_of_mem {cs : Bytes} (all : cs.all isConversion = true) {c : UInt8}
    (mem : cs.contains c = true) : isConversion c = true :=
  List.all_eq_true.mp all c (List.contains_iff_mem.mp mem)

theorem flags_all (ptr : Bytes) : ∀ c ∈ ptr.takeWhile isFlag, isFlag c = true :=
  fun _ mem => List.mem_takeWhile_imp mem

theorem flags_append (ptr : Bytes) : ptr.takeWhile isFlag ++ ptr.dropWhile isFlag = ptr :=
  List.takeWhile_append_dropWhile

theorem directive_of_checkNum {type : MType} {ptr : Bytes} (h : (checkNum type ptr).isOk = true) :
    ∃ d : Directive, d.text = ptr ∧ isNum d.conv = true := by
  unfold checkNum at h
  split at h
  · cases h
  · rename_i f hf
    obtain ⟨c, rest, rfl, ok⟩ := head?_any (isOk_converts h)
    have num : isNum c = true := by
      have chars : asc "iduoxX" = [0x69, 0x64, 0x75, 0x6f, 0x78, 0x58] := by decide
      have chars' : asc "ciduoxX" = 0x63 :: asc "iduoxX" := by decide
      rw [isNum, chars', List.contains_cons]
      rw [Bool.or_eq_true, Bool.and_eq_true] at ok
      rcases ok with ok | ⟨ok, _⟩
      · rw [ok, Bool.or_true]
      · rw [ok, Bool.true_or]
    obtain ⟨d, text, conv, _⟩ := Directive.of_fields (flags_all ptr) (checklens_strip hf).symm
      (isConversion_of_mem (by decide) num)
    exact ⟨d, text.trans (flags_append ptr), conv ▸ num⟩

theorem directive_of_checkQuad {ptr : Bytes} (h : (checkQuad ptr).isOk = true) :
    ∃ (d : Directive) (c : UInt8) (rest : Bytes), d.text = ptr ∧ d.conv = 0x6c ∧ d.rest = 0x6c :: c :: rest ∧
      (asc "iduoxX").contains c = true := by
  unfold checkQuad at h
  split at h
  · cases h
  · rename_i f hf
    have ok := isOk_converts h
    rw [Bool.and_eq_true] at ok
    obtain ⟨g, rfl⟩ := List.isPrefixOf_iff_prefix.mp ok.1
    obtain ⟨c, rest, rfl, num⟩ := head?_any ok.2
    obtain ⟨d, text, conv, hrest⟩ := Directive.of_fields (flags_all ptr) (checklens_strip hf).symm (by decide)
    exact ⟨d, c, rest, text.trans (flags_append ptr), conv, hrest, num⟩

/-- The flags of the other cases: a `-`, and for numbers with a fraction a `.`. -/
theorem skipMinus_flags (ptr : Bytes) : ∃ flags, (∀ c ∈ flags, isFlag c = true) ∧ flags ++ skipMinus ptr = ptr := by
  unfold skipMinus
  split
  · rename_i minus
    obtain ⟨g, rfl⟩ := List.head?_eq_some_iff.mp minus
    exact ⟨[0x2d], List.forall_mem_singleton.mpr rfl, rfl⟩
  · exact ⟨[], nofun, rfl⟩

theorem skipDot_flags (ptr : Bytes) : ∃ flags, (∀ c ∈ flags, isFlag c = true) ∧ flags ++ skipDot ptr = ptr := by
  rcases skipDot_cases ptr with dot | dotless
  · exact ⟨[0x2e], List.forall_mem_singleton.mpr rfl, dot.symm⟩
  · exact ⟨[], nofun, skipDot_of_ne dotless⟩

theorem directive_of_checkFloat {ptr : Bytes} (h : (checkFloat ptr).isOk = true) :
    ∃ d : Directive, d.text = ptr ∧ (asc "eEfFgG").contains d.conv = true := by
  unfold checkFloat at h
  split at h
  · cases h
  · rename_i f hf
    obtain ⟨c, rest, rfl, ok⟩ := head?_any (isOk_converts h)
    obtain ⟨minus, all, whole⟩ := skipMinus_flags ptr
    obtain ⟨dot, all', whole'⟩ := skipDot_flags (skipMinus ptr)
    have both : ∀ c ∈ minus ++ dot, isFlag c = true := by
      intro c mem
      rcases List.mem_append.mp mem with mem | mem
      · exact all c mem
      · exact all' c mem
    obtain ⟨d, text, conv, _⟩ := Directive.of_fields both (checklens_strip hf).symm
      (isConversion_of_mem (by decide) ok)
    refine ⟨d, ?_, conv ▸ ok⟩
    rw [text, List.append_assoc, whole', whole]

theorem directive_of_checkStr {ptr : Bytes} (h : (checkStr ptr).isOk = true) :
    ∃ d : Directive, d.text = ptr ∧ d.conv = 0x73 := by
  unfold checkStr at h
  have ok := isOk_converts h
  have strip : (if ((skipMinus ptr).dropWhile isdigit).head? = some 0x2e then
      ((skipMinus ptr).dropWhile isdigit).tail.dropWhile isdigit
      else (skipMinus ptr).dropWhile isdigit) = stripFields (skipMinus ptr) := by
    unfold stripFields skipDot
    split
    · rfl
    · exact (List.dropWhile_idempotent _ _).symm
  obtain ⟨g, hg⟩ := List.head?_eq_some_iff.mp (by simpa using ok)
  obtain ⟨minus, all, whole⟩ := skipMinus_flags ptr
  obtain ⟨d, text, conv, _⟩ := Directive.of_fields all (strip.symm.trans hg) (by decide)
  exact ⟨d, text.trans whole, conv⟩

end Libmagic.Format
