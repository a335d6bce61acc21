import Libmagic.Format.Directive

/-!
# Formats with one directive

`fmtcheck` and `file_checkfmt` on a format whose only `%` is in front of a directive, and the
condition under which both accept what `check_format` accepted.
-/
namespace Libmagic.Format

open Softmagic

/-! ## `fmtcheck` on one directive -/

theorem nextDirective_cons {c : UInt8} (ne : c ≠ 0x25) (f : Bytes) :
    nextDirective (c :: f) = nextDirective f := by
  cases f with
  | nil => exact congrArg Sum.inl (if_neg ne)
  | cons d f => rw [nextDirective, if_pos ne]

theorem nextDirective_done {f : Bytes} (no : 0x25 ∉ f) : nextDirective f = .inl .done := by
  induction f with
  | nil => rfl
  | cons c f ih =>
      rw [List.mem_cons, not_or] at no
      rw [nextDirective_cons (Ne.symm no.1), ih no.2]

theorem nextDirective_find {pre f : Bytes} (no : 0x25 ∉ pre) (some : f ≠ []) (no' : 0x25 ∉ f) :
    nextDirective (pre ++ 0x25 :: f) = .inr f := by
  induction pre with
  | nil =>
      cases f with
      | nil => exact absurd rfl some
      | cons c f =>
          rw [List.mem_cons, not_or] at no'
          rw [List.nil_append, nextDirective, if_neg (by simp), if_neg (Ne.symm no'.1)]
  | cons c pre ih =>
      rw [List.mem_cons, not_or] at no
      rw [List.cons_append, nextDirective_cons (Ne.symm no.1), ih no.2]

/-- The types that a single directive can have. -/
def Eft.plain (e : Eft) : Bool :=
  e == .int || e == .quad || e == .double || e == .string || e == .unknown

theorem Eft.plain_cases {e : Eft} (plain : e.plain = true) :
    e ≠ .done ∧ e ≠ .width ∧ e ≠ .precision := by
  revert plain
  cases e <;> decide

/-- A single directive is compared with the type of the default. -/
theorem fmtcheck_single {pre f g fmt : Bytes} {e : Eft} {t : Eft × Bytes} (no : 0x25 ∉ pre)
    (some : f ≠ []) (no' : 0x25 ∉ f) (type : directiveType f = (e, g)) (rest : 0x25 ∉ g)
    (plain : e.plain = true) (known : t.1 ≠ .unknown) (default : getNextFormat .start fmt = t) :
    fmtcheck (pre ++ 0x25 :: f) fmt = decide (e = t.1) := by
  obtain ⟨done, width, precision⟩ := Eft.plain_cases plain
  have first : getNextFormat .start (pre ++ 0x25 :: f) = (e, g) := by
    rw [getNextFormat, if_neg nofun, if_neg nofun, nextDirective_find no some no', Sum.elim_inr, type]
  have second : getNextFormat e g = (.done, []) := by
    rw [getNextFormat, if_neg width, if_neg precision, nextDirective_done rest, Sum.elim_inl]
  have length : (pre ++ 0x25 :: f).length = pre.length + f.length + 1 := by
    rw [List.length_append, List.length_cons]
    omega
  rw [fmtcheck, length, fmtcheckFrom, first]
  dsimp only
  rw [if_neg done, default]
  by_cases unknown : e = .unknown
  · rw [if_pos unknown, unknown, decide_eq_false (Ne.symm known)]
  rw [if_neg unknown]
  by_cases same : e = t.1
  · rw [if_neg (fun ne => ne same), decide_eq_true same, fmtcheckFrom, second]
    dsimp only
    rw [if_pos rfl]
  · rw [if_pos same, decide_eq_false same]

theorem fmtcheck_unknown {pre f : Bytes} (no : 0x25 ∉ pre) (some : f ≠ []) (no' : 0x25 ∉ f)
    (type : (directiveType f).1 = .unknown) (fmt : Bytes) : fmtcheck (pre ++ 0x25 :: f) fmt = false := by
  have first : getNextFormat .start (pre ++ 0x25 :: f) = directiveType f := by
    rw [getNextFormat, if_neg nofun, if_neg nofun, nextDirective_find no some no', Sum.elim_inr]
  rw [fmtcheck, fmtcheckFrom, first]
  dsimp only
  rw [type, if_neg nofun, if_pos rfl]

/-! ## `file_checkfmt` on one directive -/

theorem checkfmtFrom_cons {c : UInt8} (ne : c ≠ 0x25) (k : Nat) (f : Bytes) :
    checkfmtFrom (k + 1) (c :: f) = checkfmtFrom k f := by
  conv_lhs => unfold checkfmtFrom
  exact if_pos ne

theorem checkfmtFrom_none {f : Bytes} (no : 0x25 ∉ f) (k : Nat) : checkfmtFrom k f = none := by
  induction k generalizing f with
  | zero => rfl
  | succ k ih =>
      cases f with
      | nil => rfl
      | cons c f =>
          rw [List.mem_cons, not_or] at no
          rw [checkfmtFrom_cons (Ne.symm no.1), ih no.2]

theorem fileCheckfmt_none {f : Bytes} (no : 0x25 ∉ f) : fileCheckfmt f = none := checkfmtFrom_none no _

theorem checkfmtFrom_single {pre f : Bytes} (no : 0x25 ∉ pre) (some : f ≠ []) (no' : 0x25 ∉ f)
    (rest : ∀ g, checkDirective f = .ok g → 0x25 ∉ g) {k : Nat} (enough : pre.length < k) :
    (checkfmtFrom k (pre ++ 0x25 :: f)).isNone = (checkDirective f).isOk := by
  induction pre generalizing k with
  | nil =>
      obtain ⟨k, rfl⟩ := Nat.exists_eq_succ_of_ne_zero (Nat.ne_of_gt enough)
      cases f with
      | nil => exact absurd rfl some
      | cons c f =>
          have ne : c ≠ 0x25 := by
            rw [List.mem_cons, not_or] at no'
            exact Ne.symm no'.1
          rw [List.nil_append, checkfmtFrom, if_neg (by simp), if_neg ne]
          cases check : checkDirective (c :: f) with
          | error msg => rfl
          | ok g =>
              dsimp only
              rw [checkfmtFrom_none (rest g check)]
              rfl
  | cons c pre ih =>
      rw [List.mem_cons, not_or] at no
      rw [List.length_cons] at enough
      obtain ⟨k, rfl⟩ := Nat.exists_eq_succ_of_ne_zero (Nat.ne_of_gt (Nat.zero_lt_of_lt enough))
      rw [List.cons_append, checkfmtFrom_cons (Ne.symm no.1)]
      exact ih no.2 (by omega)

/-! ## `check_fmt` on one directive -/

theorem hasStringFormat_none {f : Bytes} (no : 0x25 ∉ f) : hasStringFormat f = false := by
  induction f with
  | nil => rfl
  | cons c f ih =>
      rw [List.mem_cons, not_or] at no
      rw [hasStringFormat, ih no.2]
      exact Ne.symm no.1

theorem hasStringFormat_single {pre f : Bytes} (no : 0x25 ∉ pre) (no' : 0x25 ∉ f) :
    hasStringFormat (pre ++ 0x25 :: f) =
      ((f.dropWhile (fun c => isdigit c || c == 0x2d || c == 0x2e)).head? == some 0x73) := by
  induction pre with
  | nil => rw [List.nil_append, hasStringFormat, hasStringFormat_none no', Bool.or_false]
  | cons c pre ih =>
      rw [List.mem_cons, not_or] at no
      rw [List.cons_append, hasStringFormat, ih no.2]
      exact Ne.symm no.1

/-! ## The condition -/

/-- The characters of flags, width and precision. -/
def isField (c : UInt8) : Bool := isdigit c || isFlag c

/-- The fields of a directive have one `.` at most, with nothing but digits behind it, and their
numbers are below 1024; and the conversion is not `F` or `G`. -/
def directiveFits (ptr : Bytes) : Bool :=
  let fields := ptr.takeWhile isField
  let behind := (fields.dropWhile (· != 0x2e)).tail
  behind.all isdigit && decide (number ((fields.takeWhile (· != 0x2e)).filter isdigit) < 1024) &&
    decide (number behind < 1024) && !(ptr.dropWhile isField).head?.any (fun c => c == 0x46 || c == 0x47)

namespace Directive

variable (d : Directive)

/-- Flags, width and precision. -/
def fields : Bytes := d.flags ++ (d.width ++ (d.dots ++ d.precision))

theorem text_eq : d.text = d.fields ++ d.conv :: d.rest := by
  unfold text fields behind
  simp only [List.append_assoc]

theorem fields_all : ∀ c ∈ d.fields, isField c = true := by
  intro c mem
  unfold fields dots at mem
  rw [List.mem_append, List.mem_append, List.mem_append] at mem
  rcases mem with flag | width | dot | precision
  · rw [isField, d.flags_all c flag, Bool.or_true]
  · rw [isField, d.width_all c width, Bool.true_or]
  · split at dot
    · rw [List.mem_singleton.mp dot]
      decide
    · cases dot
  · rw [isField, d.precision_all c precision, Bool.true_or]

theorem conv_field : (d.conv :: d.rest).head?.any isField = false := by
  rw [List.head?_cons, Option.any_some, isField, d.letter.digit, d.letter.flag]
  rfl

theorem takeWhile_fields : d.text.takeWhile isField = d.fields := by
  rw [d.text_eq, takeWhile_run d.fields_all d.conv_field]

theorem dropWhile_fields : d.text.dropWhile isField = d.conv :: d.rest := by
  rw [d.text_eq, dropWhile_run d.fields_all d.conv_field]

theorem dotless_digits {ds : Bytes} (all : ∀ c ∈ ds, isdigit c = true) :
    ∀ c ∈ ds, (c != 0x2e) = true := by
  intro c mem
  rw [bne_iff_ne]
  rintro rfl
  exact absurd (all _ mem) (by decide)

theorem filter_digits {ds : Bytes} (all : ∀ c ∈ ds, isdigit c = true) : ds.filter isdigit = ds :=
  List.filter_eq_self.mpr all

theorem filter_flags {fs : Bytes} (all : ∀ c ∈ fs, isFlag c = true) : fs.filter isdigit = [] := by
  rw [List.filter_eq_nil_iff]
  intro c mem digit
  have none := isFlag_of_isdigit digit
  rw [all c mem] at none
  cases none

/-- What the condition says when no flag is a `.`. -/
theorem fields_of_dotless (dotless : 0x2e ∉ d.flags) :
    number ((d.fields.takeWhile (· != 0x2e)).filter isdigit) = numberFrom 0 d.width ∧
      (d.fields.dropWhile (· != 0x2e)).tail = d.precision := by
  have run : ∀ c ∈ d.flags ++ d.width, (c != 0x2e) = true := by
    intro c mem
    rcases List.mem_append.mp mem with flag | width
    · exact bne_iff_ne.mpr (fun dot => dotless (dot ▸ flag))
    · exact dotless_digits d.width_all c width
  have fields : d.fields = (d.flags ++ d.width) ++ (d.dots ++ d.precision) := by
    unfold Directive.fields
    rw [List.append_assoc]
  have stop : (d.dots ++ d.precision).head?.any (· != 0x2e) = false := by
    unfold dots
    cases dot : d.dot with
    | true => rfl
    | false =>
        rw [d.precision_nil dot]
        rfl
  rw [fields, takeWhile_run run stop, dropWhile_run run stop, List.filter_append,
    filter_flags d.flags_all, filter_digits d.width_all]
  refine ⟨rfl, ?_⟩
  unfold dots
  cases dot : d.dot with
  | true => rfl
  | false =>
      rw [d.precision_nil dot]
      rfl

/-- What it says when one is. -/
theorem fields_of_dot {front back : Bytes} (flags : d.flags = front ++ 0x2e :: back)
    (dotless : 0x2e ∉ front) :
    (d.fields.takeWhile (· != 0x2e)).filter isdigit = [] ∧
      (d.fields.dropWhile (· != 0x2e)).tail = back ++ (d.width ++ (d.dots ++ d.precision)) := by
  have run : ∀ c ∈ front, (c != 0x2e) = true := fun c mem => bne_iff_ne.mpr (fun dot => dotless (dot ▸ mem))
  have fields : d.fields = front ++ (0x2e :: (back ++ (d.width ++ (d.dots ++ d.precision)))) := by
    rw [Directive.fields, flags, List.append_assoc]
    rfl
  have all : ∀ c ∈ front, isFlag c = true :=
    fun c mem => d.flags_all c (by rw [flags]; exact List.mem_append_left _ mem)
  rw [fields, takeWhile_run run (by rfl), dropWhile_run run (by rfl), filter_flags all]
  exact ⟨rfl, rfl⟩

theorem fits_iff :
    directiveFits d.text = true ↔ d.Single ∧ d.Small ∧ d.conv ≠ 0x46 ∧ d.conv ≠ 0x47 := by
  have conv : (!(d.conv :: d.rest).head?.any (fun c => c == 0x46 || c == 0x47)) = true ↔
      d.conv ≠ 0x46 ∧ d.conv ≠ 0x47 := by
    rw [List.head?_cons, Option.any_some, Bool.not_eq_true', Bool.or_eq_false_iff, beq_eq_false_iff_ne,
      beq_eq_false_iff_ne]
  unfold directiveFits
  rw [d.takeWhile_fields, d.dropWhile_fields]
  dsimp only
  rw [Bool.and_eq_true, conv, Bool.and_eq_true, Bool.and_eq_true, decide_eq_true_iff, decide_eq_true_iff,
    List.all_eq_true, and_assoc, and_assoc]
  by_cases dotless : 0x2e ∈ d.flags
  · obtain ⟨front, back, flags, none⟩ := List.eq_append_cons_of_mem dotless
    obtain ⟨before, behind⟩ := d.fields_of_dot flags none
    rw [before, behind]
    constructor
    · rintro ⟨digits, _, small, letters⟩
      have nil : back = [] := by
        cases back with
        | nil => rfl
        | cons c back =>
            have flag : isFlag c = true := d.flags_all c (by rw [flags]; simp)
            have none := isFlag_of_isdigit (digits c (by simp))
            rw [flag] at none
            cases none
      have dot : d.dot = false := by
        cases dot : d.dot with
        | false => rfl
        | true =>
            have digit := digits 0x2e (by simp [dots, dot])
            exact absurd digit (by decide)
      have precision := d.precision_nil dot
      refine ⟨.inr ⟨front, nil ▸ flags, none, dot⟩, ⟨?_, by rw [precision]; decide⟩, letters⟩
      rw [nil, dots, dot, precision] at small
      simpa [number, numberFrom] using small
    · rintro ⟨single, ⟨small, _⟩, letters⟩
      rcases single with absent | ⟨front', flags', none', dot⟩
      · exact absurd dotless absent
      · have precision := d.precision_nil dot
        have nil : back = [] := by
          have same := flags.symm.trans flags'
          by_contra some
          obtain ⟨init, last, rfl⟩ : ∃ init last, back = init ++ [last] :=
            ⟨back.dropLast, back.getLast some, (List.dropLast_append_getLast some).symm⟩
          have whole : (front ++ 0x2e :: init) ++ [last] = front' ++ [0x2e] := by
            rw [← same, List.append_assoc]
            rfl
          have mem : 0x2e ∈ front' := by
            rw [← (List.append_inj' whole rfl).1]
            simp
          exact none' mem
        rw [nil, dots, dot, precision]
        refine ⟨?_, by decide, ?_, letters⟩
        · simpa using d.width_all
        · simpa [number, numberFrom] using small
  · obtain ⟨before, behind⟩ := d.fields_of_dotless dotless
    rw [before, behind]
    exact ⟨fun ⟨_, width, precision, letters⟩ => ⟨.inl dotless, ⟨width, precision⟩, letters⟩,
      fun ⟨_, small, letters⟩ => ⟨d.precision_all, small.1, small.2, letters⟩⟩

end Directive

end Libmagic.Format
