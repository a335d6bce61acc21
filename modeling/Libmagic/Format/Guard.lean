import Mathlib.Data.Nat.Digits.Defs
import Libmagic.Format.Fits
import Libmagic.Unicode.Utf8

/-!
# What `file_checkfmt` keeps out of `file_vprintf`

A directive of `printf` with all that the C grammar allows, and where in a format one begins. In a
format that `file_checkfmt` accepts, no directive takes a width or a precision from the arguments, and
both are below 1024.
-/
namespace Libmagic.Format

open Softmagic
open Directive (numberFrom isSkipped number_dropZeros fileCheckfield_run head_star checkDirective_width
  checkDirective_precision)

/-! ## Directives of `printf` -/

/-- A width or a precision: a number, or `*`. -/
inductive Amount where
  | star
  | number (ds : Bytes) (all : ∀ c ∈ ds, isdigit c = true)

namespace Amount

def text : Amount → Bytes
  | star => [0x2a]
  | number ds _ => ds

/-- The number that stands in the format. -/
def value : Amount → Option Nat
  | star => none
  | number ds _ => some (numberFrom 0 ds)

/-- It is no `*`, and below 1024. -/
def Small : Amount → Prop
  | star => False
  | number ds _ => numberFrom 0 ds < 1024

end Amount

def modifiers : List Bytes := ["", "hh", "h", "l", "ll", "j", "z", "t", "L"].map asc

/-- A directive behind its `%`: flags, width, precision, length modifier and conversion letter. -/
structure Conversion where
  flags : Bytes
  width : Option Amount
  precision : Option Amount
  modifier : Bytes
  conv : UInt8
  flags_all : ∀ c ∈ flags, c ∈ asc "-+ #0'"
  modifier_mem : modifier ∈ modifiers
  conv_alpha : isalpha conv = true

/-- The text in front of a `%` that introduces a directive: each `%` in it takes the next character with it. -/
inductive Paired : Bytes → Prop
  | nil : Paired []
  | char {c : UInt8} {f : Bytes} (plain : c ≠ 0x25) (rest : Paired f) : Paired (c :: f)
  | percent {c : UInt8} {f : Bytes} (rest : Paired f) : Paired (0x25 :: c :: f)

namespace Conversion

def widthText (c : Conversion) : Bytes := (c.width.map Amount.text).getD []

def precisionText (c : Conversion) : Bytes := (c.precision.map (fun a => 0x2e :: a.text)).getD []

def letters (c : Conversion) : Bytes := c.modifier ++ [c.conv]

def text (c : Conversion) : Bytes := c.flags ++ (c.widthText ++ (c.precisionText ++ c.letters))

/-- Neither field is a `*`, and both are below 1024. -/
def Small (c : Conversion) : Prop := (∀ a, c.width = some a → a.Small) ∧ ∀ a, c.precision = some a → a.Small

end Conversion

/-! ## What `printf` makes of them -/

/-- The sign, zeros up to the precision and the body, in a field of the width. -/
def field (left zero : Bool) (width precision : Nat) (sign body : Bytes) : Bytes :=
  let zeros := List.replicate (precision - body.length) 0x30
  let pad := width - (sign ++ (zeros ++ body)).length
  if left then sign ++ (zeros ++ body) ++ List.replicate pad 0x20
  else if zero then sign ++ (List.replicate pad 0x30 ++ (zeros ++ body))
  else List.replicate pad 0x20 ++ (sign ++ (zeros ++ body))

theorem field_length (left zero : Bool) (width precision : Nat) (sign body : Bytes) :
    (field left zero width precision sign body).length = max width (sign.length + max precision body.length) := by
  rw [field]
  split_ifs <;> simp only [List.length_append, List.length_replicate] <;> omega

namespace Conversion

def has (c : Conversion) (flag : UInt8) : Bool := c.flags.contains flag

def widthValue (c : Conversion) : Nat := (c.width.bind Amount.value).getD 0

def precisionValue (c : Conversion) : Option Nat := c.precision.bind Amount.value

/-- The sign of `d` and `i`, and what `#` puts in front of `x` and `X`. -/
def sign (c : Conversion) (v : Int) : Bytes :=
  if c.conv = 0x64 ∨ c.conv = 0x69 then
    if v < 0 then [0x2d] else if c.has 0x2b then [0x2b] else if c.has 0x20 then [0x20] else []
  else if (c.conv = 0x78 ∨ c.conv = 0x58) ∧ c.has 0x23 ∧ v ≠ 0 then [0x30, c.conv]
  else []

def base (c : Conversion) : Nat :=
  if c.conv = 0x6f then 8 else if c.conv = 0x78 ∨ c.conv = 0x58 then 16 else 10

/-- The digits of an integer; `#` makes the first one of `o` a zero. -/
def digits (c : Conversion) (v : Int) : Bytes :=
  let upper := c.conv == 0x58
  let digits := (Nat.digits c.base v.natAbs).reverse.map (hexDigit upper)
  if v = 0 then if c.precisionValue = some 0 ∧ ¬ (c.conv = 0x6f ∧ c.has 0x23) then [] else [0x30]
  else if c.conv = 0x6f ∧ c.has 0x23 ∧ c.precisionValue.getD 0 ≤ digits.length then 0x30 :: digits
  else digits

/-- `d`, `i`, `u`, `o`, `x` and `X`. -/
def printInteger (c : Conversion) (v : Int) : Bytes :=
  field (c.has 0x2d) (c.has 0x30 && c.precision.isNone) c.widthValue (c.precisionValue.getD 0) (c.sign v) (c.digits v)

/-- The part of a string that `s` prints. -/
def taken (c : Conversion) (s : Bytes) : Bytes :=
  match c.precisionValue with
  | none => cstring s
  | some p => (cstring s).take p

/-- `s`. -/
def printString (c : Conversion) (s : Bytes) : Bytes := field (c.has 0x2d) false c.widthValue 0 [] (c.taken s)

end Conversion

/-! ## One directive -/

theorem letter_of_alpha : ∀ c : UInt8, isalpha c = true → Letter c := by
  have all : ∀ c : UInt8, isalpha c = true → isdigit c = false ∧ isFlag c = false ∧
      (asc "#0- +").contains c = false ∧ (asc "#0.'+- ").contains c = false :=
    Unicode.forall_byte (by decide +kernel)
  intro c alpha
  obtain ⟨digit, flag, zero, skipped⟩ := all c alpha
  exact ⟨alpha, digit, flag, zero, skipped⟩

section

variable {f ds rest : Bytes} {l : UInt8}

theorem checkDirective_star (skip : f.dropWhile isSkipped = 0x2a :: rest) (g : Bytes) : checkDirective f ≠ .ok g := by
  have fold : f.dropWhile (fun c => (asc "#0.'+- ").contains c) = 0x2a :: rest := skip
  unfold checkDirective
  rw [fold]
  dsimp only
  rw [if_pos List.head?_cons]
  rintro ⟨⟩

theorem checkDirective_starPrecision (skip : f.dropWhile isSkipped = ds ++ 0x2e :: 0x2a :: rest)
    (all : ∀ c ∈ ds, isdigit c = true) (g : Bytes) : checkDirective f ≠ .ok g := by
  have star : (ds ++ 0x2e :: 0x2a :: rest).head? ≠ some 0x2a := head_star all (by simp)
  obtain ⟨ok, behind⟩ := fileCheckfield_run (f := 0x2e :: 0x2a :: rest) all (by rfl) 0
  have fold : f.dropWhile (fun c => (asc "#0.'+- ").contains c) = ds ++ 0x2e :: 0x2a :: rest := skip
  have none : fileCheckfield 0 (0x2a :: rest) = (true, 0, 0x2a :: rest) := by
    rw [fileCheckfield, if_neg (by decide)]
    rfl
  unfold checkDirective
  rw [fold]
  dsimp only
  rw [if_neg star, ok]
  by_cases small : numberFrom 0 ds < 1024
  · rw [decide_eq_true small, Bool.not_true, if_neg Bool.false_ne_true, behind small, List.head?_cons,
      if_pos rfl, List.tail_cons, none, Bool.not_true, if_neg Bool.false_ne_true]
    dsimp only
    rw [if_neg (by decide)]
    rintro ⟨⟩
  · rw [decide_eq_false small, Bool.not_false, if_pos rfl]
    rintro ⟨⟩

theorem small_of_decide {p : Prop} [Decidable p] (ok : (checkDirective f).isOk = decide p)
    (accepted : checkDirective f = .ok rest) : p := by
  rw [accepted] at ok
  exact of_decide_eq_true ok.symm

end

namespace Conversion

section

variable (c : Conversion) {f g back : Bytes}

theorem letters_alpha : ∀ b ∈ c.letters, isalpha b = true := by
  have modifier : modifiers.all (fun m => m.all isalpha) = true := by decide +kernel
  intro b mem
  rcases List.mem_append.mp mem with mem | mem
  · exact List.all_eq_true.mp (List.all_eq_true.mp modifier c.modifier c.modifier_mem) b mem
  · rw [List.mem_singleton.mp mem]
    exact c.conv_alpha

theorem letters_ne_nil : c.letters ≠ [] := List.append_ne_nil_of_right_ne_nil _ (List.cons_ne_nil _ _)

theorem text_ne_nil : c.text ≠ [] :=
  List.append_ne_nil_of_right_ne_nil _ (List.append_ne_nil_of_right_ne_nil _
    (List.append_ne_nil_of_right_ne_nil _ c.letters_ne_nil))

theorem text_plain : 0x25 ∉ c.text := by
  have amount (a : Amount) : 0x25 ∉ a.text := by
    cases a with
    | star => decide
    | number ds all => exact fun mem => absurd (all 0x25 mem) (by decide)
  have width : 0x25 ∉ c.widthText := by
    rw [widthText]
    cases c.width with
    | none => exact List.not_mem_nil
    | some a => exact amount a
  have precision : 0x25 ∉ c.precisionText := by
    rw [precisionText]
    cases c.precision with
    | none => exact List.not_mem_nil
    | some a => exact List.not_mem_cons_of_ne_of_not_mem (by decide) (amount a)
  simp only [text, List.mem_append, not_or]
  exact ⟨fun mem => absurd (c.flags_all 0x25 mem) (by decide), width, precision,
    fun mem => absurd (c.letters_alpha 0x25 mem) (by decide)⟩

/-- What is behind the precision begins with a letter. -/
theorem letters_head (back : Bytes) : ∃ l t, c.letters ++ back = l :: t ∧ Letter l := by
  obtain ⟨l, t, letters⟩ := List.exists_cons_of_ne_nil c.letters_ne_nil
  have alpha := c.letters_alpha l (letters ▸ List.mem_cons_self)
  exact ⟨l, t ++ back, by rw [letters, List.cons_append], letter_of_alpha l alpha⟩

/-- The width is a `*`, or digits that are its number. -/
theorem width_cases : c.width = some .star ∨ ∃ ds, c.widthText = ds ∧ (∀ b ∈ ds, isdigit b = true) ∧
    (numberFrom 0 ds < 1024 → ∀ a, c.width = some a → a.Small) := by
  rw [widthText]
  cases width : c.width with
  | none => exact .inr ⟨[], rfl, fun b mem => absurd mem List.not_mem_nil, fun _ a same => by cases same⟩
  | some a =>
      cases a with
      | star => exact .inl rfl
      | number ds all =>
          refine .inr ⟨ds, rfl, all, ?_⟩
          rintro small a ⟨⟩
          exact small

/-- The skipping stops in front of the width, or takes its zeros and the dot too. -/
theorem precision_small_skipped (skip : f.dropWhile isSkipped = (c.precisionText ++ (c.letters ++ back)).dropWhile isSkipped)
    (accepted : checkDirective f = .ok g) : ∀ a, c.precision = some a → a.Small := by
  obtain ⟨l, t, letters, letter⟩ := c.letters_head back
  intro a precision
  rw [precisionText, precision, letters] at skip
  cases a with
  | star => exact absurd accepted (checkDirective_star skip g)
  | number ds all =>
      have stop : (l :: t).head?.any isSkipped = false := letter.skipped
      have run : f.dropWhile isSkipped = ds.dropWhile isSkipped ++ l :: t := skip.trans (dropWhile_part stop)
      have part : ∀ b ∈ ds.dropWhile isSkipped, isdigit b = true :=
        fun b mem => all b ((List.dropWhile_sublist _).subset mem)
      have small := small_of_decide (checkDirective_width letter run part).1 accepted
      rwa [number_dropZeros all] at small

theorem small_behind {ds : Bytes} (skip : f.dropWhile isSkipped = ds ++ (c.precisionText ++ (c.letters ++ back)))
    (all : ∀ b ∈ ds, isdigit b = true) (accepted : checkDirective f = .ok g) :
    numberFrom 0 ds < 1024 ∧ ∀ a, c.precision = some a → a.Small := by
  obtain ⟨l, t, letters, letter⟩ := c.letters_head back
  rw [precisionText, letters] at skip
  cases precision : c.precision with
  | none =>
      rw [precision] at skip
      refine ⟨small_of_decide (checkDirective_width letter skip all).1 accepted, ?_⟩
      rintro a ⟨⟩
  | some a =>
      rw [precision] at skip
      cases a with
      | star => exact absurd accepted (checkDirective_starPrecision skip all g)
      | number ps all' =>
          obtain ⟨small, small'⟩ := small_of_decide (checkDirective_precision letter skip all all').1 accepted
          refine ⟨small, ?_⟩
          rintro a ⟨⟩
          exact small'

/-- `file_checkfmt` accepts a directive only if its fields are small. -/
theorem small_of_checkDirective (accepted : checkDirective (c.text ++ back) = .ok g) : c.Small := by
  have flag : ∀ b ∈ asc "-+ #0'", isSkipped b = true := by decide +kernel
  have text : c.text ++ back = c.flags ++ (c.widthText ++ (c.precisionText ++ (c.letters ++ back))) := by
    simp only [Conversion.text, List.append_assoc]
  have flags : (c.text ++ back).dropWhile isSkipped =
      (c.widthText ++ (c.precisionText ++ (c.letters ++ back))).dropWhile isSkipped := by
    rw [text]
    exact List.dropWhile_append_of_pos (fun b mem => flag b (c.flags_all b mem))
  rcases c.width_cases with star | ⟨ds, width, all, known⟩
  · rw [widthText, star] at flags
    exact absurd accepted (checkDirective_star flags g)
  · have part : ∀ b ∈ ds.dropWhile isSkipped, isdigit b = true :=
      fun b mem => all b ((List.dropWhile_sublist _).subset mem)
    rw [width] at flags
    conv_rhs at flags => rw [List.dropWhile_append]
    by_cases zeros : ds.dropWhile isSkipped = []
    · -- the zeros of the width are flags, and so is the dot
      rw [zeros, List.isEmpty_nil, if_pos rfl] at flags
      have none := number_dropZeros all
      rw [zeros] at none
      exact ⟨known (by rw [← none]; decide), c.precision_small_skipped flags accepted⟩
    · rw [if_neg (by simpa using zeros)] at flags
      obtain ⟨small, small'⟩ := c.small_behind flags part accepted
      rw [number_dropZeros all] at small
      exact ⟨known small, small'⟩

end

end Conversion

/-! ## The scan -/

/-- What a directive is accepted with is in front of the rest, and no `%` is among it. -/
theorem fileCheckfield_split (fw : Nat) (p : Bytes) :
    ∃ ds, p = ds ++ (fileCheckfield fw p).2.2 ∧ ∀ c ∈ ds, isdigit c = true := by
  induction p generalizing fw with
  | nil => exact ⟨[], rfl, fun c mem => absurd mem List.not_mem_nil⟩
  | cons c p ih =>
      rw [fileCheckfield]
      dsimp only
      split_ifs with digit large
      · refine ⟨[c], rfl, ?_⟩
        intro d mem
        rwa [List.mem_singleton.mp mem]
      · obtain ⟨ds, split, all⟩ := ih (fw * 10 + (c.toNat - 0x30))
        refine ⟨c :: ds, congrArg (c :: ·) split, ?_⟩
        intro d mem
        rcases List.mem_cons.mp mem with rfl | mem
        · exact digit
        · exact all d mem
      · exact ⟨[], rfl, fun c mem => absurd mem List.not_mem_nil⟩

/-- The end of a directive: the letter in front of the rest. -/
theorem letter_split {p rest : Bytes}
    (accepted : (match p with
      | c :: p => if isalpha c then .ok p else .error (asc "bad format char: " ++ [c])
      | [] => .error (asc "bad format char: " ++ [0])) = Except.ok rest) :
    ∃ c, p = c :: rest ∧ isalpha c = true := by
  cases p with
  | nil => cases accepted
  | cons c p =>
      dsimp only at accepted
      split_ifs at accepted with alpha
      obtain rfl := Except.ok.inj accepted
      exact ⟨c, rfl, alpha⟩

theorem checkDirective_split {p rest : Bytes} (accepted : checkDirective p = .ok rest) :
    ∃ front, p = front ++ rest ∧ 0x25 ∉ front ∧ front ≠ [] := by
  have digit : ∀ {ds : Bytes}, (∀ c ∈ ds, isdigit c = true) → 0x25 ∉ ds := by
    intro ds all mem
    exact absurd (all 0x25 mem) (by decide)
  have letter {c : UInt8} (alpha : isalpha c = true) : c ≠ 0x25 := (letter_of_alpha c alpha).ne (by decide)
  obtain ⟨skip, f, start, skipped, rfl⟩ : ∃ skip f : Bytes, p = skip ++ f ∧ 0x25 ∉ skip ∧
      p.dropWhile (fun c => (asc "#0.'+- ").contains c) = f := by
    refine ⟨p.takeWhile (fun c => (asc "#0.'+- ").contains c), _, List.takeWhile_append_dropWhile.symm, ?_, rfl⟩
    intro mem
    exact absurd (List.mem_takeWhile_imp mem) (by decide)
  unfold checkDirective at accepted
  dsimp only at accepted
  generalize p.dropWhile (fun c => (asc "#0.'+- ").contains c) = f at start accepted
  subst start
  obtain ⟨ds, width, all⟩ := fileCheckfield_split 0 f
  split_ifs at accepted with star wide dot long long'
  · obtain ⟨g, dotted⟩ := List.head?_eq_some_iff.mp dot
    rw [dotted, List.tail_cons] at accepted
    obtain ⟨ps, precision, all'⟩ := fileCheckfield_split 0 g
    obtain ⟨c, last, alpha⟩ := letter_split accepted
    rw [dotted, precision, last] at width
    refine ⟨skip ++ (ds ++ 0x2e :: (ps ++ [c])), ?_, ?_, by simp⟩
    · rw [width]
      simp only [List.append_assoc, List.cons_append, List.nil_append]
    · simp only [List.mem_append, List.mem_cons, List.not_mem_nil, or_false, not_or]
      exact ⟨skipped, digit all, by decide, digit all', (letter alpha).symm⟩
  · obtain ⟨c, last, alpha⟩ := letter_split accepted
    rw [last] at width
    refine ⟨skip ++ (ds ++ [c]), ?_, ?_, by simp⟩
    · rw [width]
      simp only [List.append_assoc, List.cons_append, List.nil_append]
    · simp only [List.mem_append, List.mem_singleton, not_or]
      exact ⟨skipped, digit all, (letter alpha).symm⟩

theorem Paired.tail {c : UInt8} {f : Bytes} (paired : Paired (c :: f)) (plain : c ≠ 0x25) : Paired f := by
  cases paired with
  | char _ rest => exact rest
  | percent _ => exact absurd rfl plain

theorem Paired.plain {a f : Bytes} (paired : Paired (a ++ f)) (plain : 0x25 ∉ a) : Paired f := by
  induction a with
  | nil => exact paired
  | cons c a ih =>
      rw [List.mem_cons, not_or] at plain
      exact ih (paired.tail (Ne.symm plain.1)) plain.2

/-- What a directive in front of a `%` leaves for the scan. -/
theorem rest_of_split {d : UInt8} {front f rest : Bytes} (paired : Paired front)
    (split : ∃ a, d :: (front ++ 0x25 :: f) = a ++ rest ∧ 0x25 ∉ a ∧ a ≠ []) :
    ∃ front', rest = front' ++ 0x25 :: f ∧ Paired front' ∧ front'.length ≤ front.length := by
  obtain ⟨a, split, plain, some⟩ := split
  obtain ⟨b, a, rfl⟩ := List.exists_cons_of_ne_nil some
  rw [List.mem_cons, not_or] at plain
  have split : front ++ 0x25 :: f = a ++ rest := List.tail_eq_of_cons_eq split
  rcases List.append_eq_append_iff.mp split with ⟨a', rfl, behind⟩ | ⟨front', rfl, rest⟩
  · cases a' with
    | nil => exact ⟨[], behind.symm, .nil, Nat.zero_le _⟩
    | cons e a' =>
        obtain rfl := List.head_eq_of_cons_eq behind
        exact absurd (List.mem_append_right _ List.mem_cons_self) plain.2
  · refine ⟨front', rest, paired.plain plain.2, ?_⟩
    rw [List.length_append]
    exact Nat.le_add_left _ _

/-- The scan comes to every `%` that introduces a directive. -/
theorem accepted_of_checkfmt {k : Nat} {front f : Bytes} (paired : Paired front) (other : f.head? ≠ some 0x25)
    (enough : (front ++ 0x25 :: f).length ≤ k) (accepted : checkfmtFrom k (front ++ 0x25 :: f) = none) :
    ∃ rest, checkDirective f = .ok rest := by
  induction k generalizing front with
  | zero => simp at enough
  | succ k ih =>
      cases paired with
      | nil =>
          rw [List.nil_append] at accepted
          cases f with
          | nil => cases accepted
          | cons d q =>
              rw [checkfmtFrom, if_neg (not_not.mpr rfl), if_neg (fun is => other (congrArg some is))] at accepted
              cases check : checkDirective (d :: q) with
              | ok rest => exact ⟨rest, rfl⟩
              | error msg =>
                  rw [check] at accepted
                  cases accepted
      | @char c front plain paired =>
          rw [List.cons_append, checkfmtFrom_cons plain] at accepted
          exact ih paired (Nat.le_of_succ_le_succ enough) accepted
      | @percent d front paired =>
          rw [List.cons_append, List.cons_append, checkfmtFrom, if_neg (not_not.mpr rfl)] at accepted
          rw [List.cons_append, List.cons_append, List.length_cons, List.length_cons] at enough
          by_cases double : d = 0x25
          · rw [if_pos double] at accepted
            exact ih paired (by omega) accepted
          · rw [if_neg double] at accepted
            cases check : checkDirective (d :: (front ++ 0x25 :: f)) with
            | error msg =>
                rw [check] at accepted
                cases accepted
            | ok rest =>
                rw [check] at accepted
                obtain ⟨front', rfl, paired', shorter⟩ := rest_of_split paired (checkDirective_split check)
                rw [List.length_append] at enough
                exact ih paired' (by rw [List.length_append]; omega) accepted

/-- What `printf` makes of a directive: as many characters as the argument has, or fewer than 1024 with the sign not
counted. -/
def Padded (c : Conversion) : Prop :=
  (∀ v, (c.printInteger v).length = (c.sign v).length + (c.digits v).length ∨
    (c.printInteger v).length < (c.sign v).length + 1024) ∧
  ∀ s, (c.printString s).length = (c.taken s).length ∨ (c.printString s).length < 1024

theorem Conversion.Small.padded {c : Conversion} (small : c.Small) : Padded c := by
  have value {a : Option Amount} (small : ∀ b, a = some b → b.Small) : (a.bind Amount.value).getD 0 < 1024 := by
    cases a with
    | none => decide
    | some b =>
        have below := small b rfl
        cases b with
        | star => exact below.elim
        | number ds _ => exact below
  have width := value small.1
  have precision := value small.2
  refine ⟨?_, ?_⟩
  · intro v
    rw [printInteger, field_length, widthValue, precisionValue]
    omega
  · intro s
    rw [printString, field_length, widthValue]
    simp only [List.length_nil]
    omega

/-- In a format that `file_checkfmt` accepts, no directive has a `*`, a width or a precision of 1024. -/
theorem checkfmt_guards {fmt front back : Bytes} {c : Conversion} (accepted : fileCheckfmt fmt = none)
    (directive : fmt = front ++ 0x25 :: (c.text ++ back)) (paired : Paired front) : c.Small ∧ Padded c := by
  subst directive
  have other : (c.text ++ back).head? ≠ some 0x25 := by
    obtain ⟨b, t, text⟩ := List.exists_cons_of_ne_nil c.text_ne_nil
    rw [text, List.cons_append, List.head?_cons]
    intro is
    exact c.text_plain (text ▸ Option.some.inj is ▸ List.mem_cons_self)
  obtain ⟨rest, check⟩ := accepted_of_checkfmt paired other (Nat.le_refl _) accepted
  have small := c.small_of_checkDirective check
  exact ⟨small, small.padded⟩

/-- `%.1023d`. -/
def longest : Conversion where
  flags := []
  width := none
  precision := some (.number (asc "1023") (by decide +kernel))
  modifier := []
  conv := 0x64
  flags_all := by decide +kernel
  modifier_mem := by decide +kernel
  conv_alpha := by decide

/-- The sign comes on top of the precision. -/
theorem checkfmt_longest : fileCheckfmt (0x25 :: longest.text) = none ∧ (longest.printInteger (-1)).length = 1024 := by
  have accepted : fileCheckfmt (0x25 :: longest.text) = none := by decide
  refine ⟨accepted, ?_⟩
  rw [Conversion.printInteger, field_length]
  decide

/-- `%-5.3ld`. -/
def narrow : Conversion where
  flags := [0x2d]
  width := some (.number [0x35] (by decide +kernel))
  precision := some (.number [0x33] (by decide +kernel))
  modifier := [0x6c]
  conv := 0x64
  flags_all := by decide +kernel
  modifier_mem := by decide +kernel
  conv_alpha := by decide

theorem checkfmt_guards_narrow : narrow.Small ∧ Padded narrow :=
  @checkfmt_guards (asc "50%% %-5.3ld") (asc "50%% ") [] narrow (by decide) (by decide)
    (.char (by decide) (.char (by decide) (.percent (.char (by decide) .nil))))

end Libmagic.Format
