import Libmagic.Json.Grammar
import Libmagic.Json.Parse

/-!
# What the routines of `is_json.c` accept

The recogniser is compared with the grammar routine by routine, in both
directions, with `json_parse` itself as a parameter. It decides a dialect laxer
than RFC 7159.
-/
namespace Libmagic.Json
open JsonText Unicode

/-! ## Bytes and whitespace -/

/-- The classes of `is_json.c` are those of the grammar. -/
theorem classes_eq : ∀ c, (jsonIsspace c = isWs c ∧ jsonIsdigit c = isDigit c) ∧
    (jsonIsxdigit c = isHexDigit c ∧ jsonEscape c = isEscape c) ∧ (isDigit c = true → isWs c = false) :=
  forall_byte (by decide +kernel)

theorem jsonIsspace_eq (c : UInt8) : jsonIsspace c = isWs c := (classes_eq c).1.1

theorem jsonIsdigit_eq (c : UInt8) : jsonIsdigit c = isDigit c := (classes_eq c).1.2

theorem jsonIsxdigit_eq (c : UInt8) : jsonIsxdigit c = isHexDigit c := (classes_eq c).2.1.1

theorem jsonEscape_eq (c : UInt8) : jsonEscape c = isEscape c := (classes_eq c).2.1.2

theorem isWs_digit (c : UInt8) : isDigit c = true → isWs c = false := (classes_eq c).2.2

/-- The list does not begin with whitespace. -/
def Tight (b : List UInt8) : Prop := ∀ c ∈ b.head?, isWs c = false

theorem tight_cons {c : UInt8} {b : List UInt8} : Tight (c :: b) ↔ isWs c = false := by
  simp [Tight]

theorem jsonSkipSpace_split (b : List UInt8) :
    ∃ w, Ws w ∧ b = w ++ jsonSkipSpace b ∧ Tight (jsonSkipSpace b) := by
  induction b with
  | nil => exact ⟨[], ws_nil, rfl, by simp [Tight, jsonSkipSpace]⟩
  | cons c b ih =>
      rw [jsonSkipSpace, jsonIsspace_eq]
      by_cases space : isWs c = true
      · obtain ⟨w, ws, split, tight⟩ := ih
        rw [if_pos space]
        refine ⟨c :: w, by simpa [Ws, space] using ws, ?_, tight⟩
        rw [List.cons_append, ← split]
      · rw [if_neg space]
        exact ⟨[], ws_nil, rfl, tight_cons.mpr (eq_false_of_ne_true space)⟩

theorem jsonSkipSpace_tight {b : List UInt8} (tight : Tight b) : jsonSkipSpace b = b := by
  cases b with
  | nil => rfl
  | cons c b =>
      have space : ¬ isWs c = true := by simp [tight_cons.mp tight]
      rw [jsonSkipSpace, jsonIsspace_eq, if_neg space]

theorem jsonSkipSpace_ws {w : List UInt8} (ws : Ws w) (b : List UInt8) :
    jsonSkipSpace (w ++ b) = jsonSkipSpace b := by
  induction w with
  | nil => rfl
  | cons c w ih =>
      rw [Ws, List.forall_mem_cons] at ws
      rw [List.cons_append, jsonSkipSpace, jsonIsspace_eq, if_pos ws.1, ih ws.2]

theorem jsonSkipSpace_run {w b : List UInt8} (ws : Ws w) (tight : Tight b) :
    jsonSkipSpace (w ++ b) = b := by
  rw [jsonSkipSpace_ws ws, jsonSkipSpace_tight tight]

/-! ## Strings -/

/-- A byte `json_parse_string` takes for a character. -/
def StringByte (u : List UInt8) : Prop := ∃ c, c ≠ 0 ∧ c ≠ 0x22 ∧ c ≠ 0x5c ∧ u = [c]

theorem jsonParseString_sound (b : List UInt8) :
    (jsonParseString b).1 = true → ∃ t, Text StringByte t ∧ b = t ++ (jsonParseString b).2 := by
  fun_induction jsonParseString b with
  | case5 e uc _ escape _ ih =>
      intro ok
      obtain ⟨t, text, split⟩ := ih ok
      rw [jsonEscape_eq] at escape
      exact ⟨_, .escape escape text, by rw [List.cons_append, List.cons_append, ← split]⟩
  | case10 x1 x2 x3 x4 uc h1 h2 h3 h4 _ _ _ ih =>
      intro ok
      obtain ⟨t, text, split⟩ := ih ok
      simp only [jsonIsxdigit_eq, Bool.not_eq_false] at h1 h2 h3 h4
      refine ⟨_, .unicode h1 h2 h3 h4 text, ?_⟩
      simp only [List.cons_append, ← split]
  | case13 uc => exact fun _ => ⟨[0x22], .close, rfl⟩
  | case14 c uc nul slash quote ih =>
      intro ok
      obtain ⟨t, text, split⟩ := ih ok
      exact ⟨[c] ++ t, .char ⟨c, nul, quote, slash, rfl⟩ text, by
        rw [List.append_assoc, List.singleton_append, ← split]⟩
  | _ => simp

theorem jsonParseString_complete {t : List UInt8} (text : Text StringByte t) (rest : List UInt8) :
    jsonParseString (t ++ rest) = (true, rest) := by
  induction text with
  | close =>
      rw [List.singleton_append, jsonParseString.eq_def]
      simp
  | char byte _ ih =>
      obtain ⟨c, nul, quote, slash, rfl⟩ := byte
      rw [List.append_assoc, List.singleton_append, jsonParseString.eq_def]
      simp only [if_neg nul, if_neg slash, if_neg quote, ih]
  | @escape e t escape _ ih =>
      have nul : e ≠ 0 := by
        rintro rfl
        exact absurd escape (by decide)
      rw [← jsonEscape_eq] at escape
      rw [List.cons_append, List.cons_append, jsonParseString.eq_def]
      simp only [if_neg (show ¬ (0x5c : UInt8) = 0 by decide), if_true, if_neg nul, if_pos escape, ih]
  | unicode h1 h2 h3 h4 _ ih =>
      simp only [← jsonIsxdigit_eq] at h1 h2 h3 h4
      simp only [List.cons_append]
      rw [jsonParseString.eq_def]
      simp only [h1, h2, h3, h4, if_neg (show ¬ (0x5c : UInt8) = 0 by decide), if_true,
        if_neg (show ¬ (0x75 : UInt8) = 0 by decide),
        if_neg (show ¬ jsonEscape 0x75 = true by decide), Bool.true_eq_false, if_false, ih]

/-! ## Numbers and constants -/

/-- The digits of a fraction after a whole part `d`: the point alone is enough
when there are digits before it. -/
def LaxFraction (d frac : List UInt8) : Prop :=
  (frac = [] ∧ d ≠ []) ∨ ∃ f, Digits f ∧ (d ≠ [] ∨ f ≠ []) ∧ frac = 0x2e :: f

/-- What `json_parse_number` takes for a number: leading zeros are allowed, and
one of the two digit sequences around the point may be missing. -/
def LaxNumber (v : List UInt8) : Prop :=
  ∃ s d frac e, Sign s ∧ Digits d ∧ LaxFraction d frac ∧ Exponent e ∧ v = s ++ (d ++ (frac ++ e))

/-- The list does not begin with a digit. -/
def NoDigit (b : List UInt8) : Prop := ∀ c ∈ b.head?, isDigit c = false

theorem jsonDigits_split (got : Bool) (b : List UInt8) :
    ∃ d, Digits d ∧ b = d ++ (jsonDigits got b).2 ∧ NoDigit (jsonDigits got b).2 ∧
      (jsonDigits got b).1 = (got || !d.isEmpty) := by
  induction b generalizing got with
  | nil => exact ⟨[], by simp [Digits], rfl, by simp [NoDigit, jsonDigits], by simp [jsonDigits]⟩
  | cons c b ih =>
      rw [jsonDigits, jsonIsdigit_eq]
      by_cases digit : isDigit c = true
      · obtain ⟨d, digits, split, stop, gotten⟩ := ih true
        rw [if_pos digit]
        refine ⟨c :: d, by simpa [Digits, digit] using digits, ?_, stop, by simp [gotten]⟩
        rw [List.cons_append, ← split]
      · rw [if_neg digit]
        exact ⟨[], by simp [Digits], rfl, by simpa [NoDigit] using digit, by simp⟩

theorem jsonDigits_run (got : Bool) {d rest : List UInt8} (digits : Digits d) (stop : NoDigit rest) :
    jsonDigits got (d ++ rest) = (got || !d.isEmpty, rest) := by
  induction d generalizing got with
  | nil =>
      cases rest with
      | nil => simp [jsonDigits]
      | cons c rest =>
          have digit : ¬ isDigit c = true := by simpa [NoDigit] using stop
          simp [jsonDigits, jsonIsdigit_eq, digit]
  | cons c d ih =>
      rw [Digits, List.forall_mem_cons] at digits
      rw [List.cons_append, jsonDigits, jsonIsdigit_eq, if_pos digits.1, ih true digits.2]
      simp

theorem jsonSkipChar_split (c : UInt8) (b : List UInt8) :
    (∃ t, b = c :: t ∧ jsonSkipChar c b = t) ∨ (b.head? ≠ some c ∧ jsonSkipChar c b = b) := by
  rw [jsonSkipChar]
  by_cases head : b.head? = some c
  · obtain ⟨t, rfl⟩ := List.head?_eq_some_iff.mp head
    exact .inl ⟨t, rfl, if_pos rfl⟩
  · exact .inr ⟨head, if_neg head⟩

theorem jsonSkipChar_ne {c : UInt8} {b : List UInt8} (head : b.head? ≠ some c) :
    jsonSkipChar c b = b := if_neg head

theorem jsonExponent_sound {b : List UInt8} {c : UInt8} (letter : c = 0x65 ∨ c = 0x45)
    (ok : (jsonExponent b).1 = true) : ∃ e, Exponent e ∧ c :: b = e ++ (jsonExponent b).2 := by
  rw [jsonExponent] at ok ⊢
  by_cases empty : b = []
  · rw [if_pos empty] at ok
    cases ok
  rw [if_neg empty] at ok ⊢
  have build : ∀ s t, s = [] ∨ s = [0x2b] ∨ s = [0x2d] → b = s ++ t →
      (jsonDigits false t).1 = true → ∃ e, Exponent e ∧ c :: b = e ++ (jsonDigits false t).2 := by
    rintro s t sign rfl ok
    obtain ⟨d, digits, split, -, gotten⟩ := jsonDigits_split false t
    have some : d ≠ [] := by
      rintro rfl
      rw [gotten] at ok
      cases ok
    refine ⟨c :: (s ++ d), .inr ⟨c, s, d, letter, sign, digits, some, rfl⟩, ?_⟩
    rw [List.cons_append, List.append_assoc, ← split]
  split_ifs at ok ⊢ with sign
  · obtain ⟨x, t, rfl⟩ := List.exists_cons_of_ne_nil empty
    simp only [List.head?_cons, Option.some.injEq] at sign
    exact build [x] t (by simpa using sign) rfl ok
  · exact build [] b (.inl rfl) rfl ok

theorem jsonExponent_run {s d rest : List UInt8} (sign : s = [] ∨ s = [0x2b] ∨ s = [0x2d])
    (digits : Digits d) (nonempty : d ≠ []) (stop : NoDigit rest) :
    jsonExponent (s ++ (d ++ rest)) = (true, rest) := by
  obtain ⟨c, d, rfl⟩ := List.exists_cons_of_ne_nil nonempty
  have run := jsonDigits_run false digits stop
  have digit : isDigit c = true := digits c List.mem_cons_self
  have noSign : ¬ (some c = some 0x2b ∨ some c = some 0x2d) := by
    rintro (same | same) <;> cases same <;> exact absurd digit (by decide)
  rcases sign with rfl | rfl | rfl
  · rw [jsonExponent, if_neg (by simp), List.nil_append, List.cons_append, List.head?_cons,
      if_neg noSign]
    exact run
  · exact run
  · exact run

/-- The digits behind a possible point, after the whole part `d`. -/
theorem jsonFraction_sound {t : List UInt8} (d : List UInt8) (stop : NoDigit t) :
    ∃ frac, t = frac ++ (jsonDigits (!d.isEmpty) (jsonSkipChar 0x2e t)).2 ∧
      ((jsonDigits (!d.isEmpty) (jsonSkipChar 0x2e t)).1 = true → LaxFraction d frac) := by
  rcases jsonSkipChar_split 0x2e t with ⟨u, rfl, skip⟩ | ⟨-, skip⟩
  · rw [skip]
    obtain ⟨f, digits, split, -, gotten⟩ := jsonDigits_split (!d.isEmpty) u
    refine ⟨0x2e :: f, by rw [List.cons_append, ← split], fun ok => .inr ⟨f, digits, ?_, rfl⟩⟩
    rw [gotten] at ok
    simpa using ok
  · rw [skip, ← List.nil_append t, jsonDigits_run _ (by simp [Digits]) stop]
    exact ⟨[], rfl, fun ok => .inl ⟨rfl, by simpa using ok⟩⟩

theorem jsonParseNumber_sound {b : List UInt8} (ok : (jsonParseNumber b).1 = true) :
    ∃ v, LaxNumber v ∧ b = v ++ (jsonParseNumber b).2 := by
  rw [jsonParseNumber] at ok ⊢
  by_cases empty : b = []
  · rw [if_pos empty] at ok
    cases ok
  rw [if_neg empty] at ok ⊢
  have sign : ∃ s, Sign s ∧ b = s ++ jsonSkipChar 0x2d b := by
    rcases jsonSkipChar_split 0x2d b with ⟨t, rfl, skip⟩ | ⟨-, skip⟩
    · exact ⟨[0x2d], .inr rfl, by rw [skip]; rfl⟩
    · exact ⟨[], .inl rfl, skip.symm⟩
  obtain ⟨s, sign, signed⟩ := sign
  obtain ⟨d, digits, split, stop, gotten⟩ := jsonDigits_split false (jsonSkipChar 0x2d b)
  rw [Bool.false_or] at gotten
  dsimp only at ok ⊢
  generalize jsonDigits false (jsonSkipChar 0x2d b) = whole at *
  obtain ⟨got, t⟩ := whole
  subst gotten
  by_cases ends : t = []
  · rw [if_pos ends] at ok ⊢
    refine ⟨s ++ (d ++ ([] ++ [])), ⟨s, d, [], [], sign, digits, .inl ⟨rfl, by simpa using ok⟩,
      .inl rfl, rfl⟩, ?_⟩
    rw [List.append_nil, List.append_nil, List.append_assoc, ← split, ← signed]
  rw [if_neg ends] at ok ⊢
  obtain ⟨frac, point, lax⟩ := jsonFraction_sound d stop
  dsimp only at ok ⊢ point lax
  generalize jsonDigits (!d.isEmpty) (jsonSkipChar 0x2e t) = fraction at *
  obtain ⟨got, u⟩ := fraction
  dsimp only at ok ⊢ point lax
  have build : ∀ e r, got = true → Exponent e → u = e ++ r → ∃ v, LaxNumber v ∧ b = v ++ r := by
    rintro e r yes expo rfl
    refine ⟨s ++ (d ++ (frac ++ e)), ⟨s, d, frac, e, sign, digits, lax yes, expo, rfl⟩, ?_⟩
    simp only [List.append_assoc]
    rw [← point, ← split, ← signed]
  split_ifs at ok ⊢ with done letter
  · exact build [] u ok (.inl rfl) rfl
  · obtain ⟨yes, head⟩ := letter
    obtain ⟨c, u, rfl⟩ := List.exists_cons_of_ne_nil done
    simp only [List.head?_cons, Option.some.injEq] at head
    obtain ⟨e, expo, tail⟩ := jsonExponent_sound head ok
    exact build e _ yes expo tail
  · exact build [] u ok (.inl rfl) rfl

/-- A list that does not prolong a number. -/
def Stops (rest : List UInt8) : Prop :=
  NoDigit rest ∧ rest.head? ≠ some 0x2e ∧ rest.head? ≠ some 0x65 ∧ rest.head? ≠ some 0x45

theorem stops_exponent {e rest : List UInt8} (expo : Exponent e) (stops : Stops rest) :
    NoDigit (e ++ rest) ∧ (e ++ rest).head? ≠ some 0x2e := by
  rcases expo with rfl | ⟨c, s, d, letter, -, -, -, rfl⟩
  · exact ⟨stops.1, stops.2.1⟩
  · rcases letter with rfl | rfl
    · exact ⟨by simp [NoDigit]; decide, by simp⟩
    · exact ⟨by simp [NoDigit]; decide, by simp⟩

theorem jsonFraction_run {d frac e rest : List UInt8} (lax : LaxFraction d frac) (expo : Exponent e)
    (stops : Stops rest) :
    NoDigit (frac ++ (e ++ rest)) ∧
      jsonDigits (!d.isEmpty) (jsonSkipChar 0x2e (frac ++ (e ++ rest))) = (true, e ++ rest) := by
  obtain ⟨stop, noPoint⟩ := stops_exponent expo stops
  rcases lax with ⟨rfl, some⟩ | ⟨f, digits, some, rfl⟩
  · have run := jsonDigits_run (!d.isEmpty) (show Digits [] by simp [Digits]) stop
    have gotten : (!d.isEmpty) = true := by simpa using some
    rw [List.nil_append, gotten] at run
    refine ⟨stop, ?_⟩
    rw [List.nil_append, jsonSkipChar_ne noPoint, gotten, run]
    rfl
  · refine ⟨by simp [NoDigit]; decide, ?_⟩
    have skip : jsonSkipChar 0x2e (0x2e :: f ++ (e ++ rest)) = f ++ (e ++ rest) := if_pos rfl
    rw [skip, jsonDigits_run _ digits stop]
    simpa using some

theorem jsonParseNumber_complete {v rest : List UInt8} (number : LaxNumber v) (stops : Stops rest) :
    jsonParseNumber (v ++ rest) = (true, rest) := by
  obtain ⟨s, d, frac, e, sign, digits, lax, expo, rfl⟩ := number
  obtain ⟨stop, fraction⟩ := jsonFraction_run lax expo stops
  have start : d ++ (frac ++ (e ++ rest)) ≠ [] ∧ (d ++ (frac ++ (e ++ rest))).head? ≠ some 0x2d := by
    cases d with
    | nil =>
        obtain ⟨-, some⟩ | ⟨f, -, -, rfl⟩ := lax
        · exact absurd rfl some
        · simp
    | cons c d =>
        refine ⟨by simp, fun same => ?_⟩
        have digit := digits c List.mem_cons_self
        cases same
        exact absurd digit (by decide)
  have skip : jsonSkipChar 0x2d (s ++ (d ++ (frac ++ (e ++ rest)))) = d ++ (frac ++ (e ++ rest)) := by
    rcases sign with rfl | rfl
    · exact jsonSkipChar_ne start.2
    · exact if_pos rfl
  have nonempty : s ++ (d ++ (frac ++ (e ++ rest))) ≠ [] :=
    fun h => start.1 (List.append_eq_nil_iff.mp h).2
  simp only [List.append_assoc]
  rw [jsonParseNumber, if_neg nonempty, skip, jsonDigits_run false digits stop]
  dsimp only
  rw [Bool.false_or]
  by_cases ends : frac ++ (e ++ rest) = []
  · simp only [List.append_eq_nil_iff] at ends
    obtain ⟨rfl, rfl, rfl⟩ := ends
    obtain ⟨-, some⟩ | ⟨f, -, -, none⟩ := lax
    · simpa using some
    · cases none
  rw [if_neg ends, fraction]
  dsimp only
  rcases expo with rfl | ⟨c, t, f, letter, signs, more, some, rfl⟩
  · have plain : ¬ (true = true ∧ (rest.head? = some 0x65 ∨ rest.head? = some 0x45)) :=
      fun h => h.2.elim stops.2.2.1 stops.2.2.2
    rw [List.nil_append, if_neg plain, ite_self]
  · rw [if_neg (by simp), if_pos ⟨rfl, by simpa using letter⟩]
    simp only [List.cons_append, List.tail_cons, List.append_assoc]
    exact jsonExponent_run signs more some stops.1

theorem jsonConstLoop_sound {str uc : List UInt8} (ok : jsonConstLoop str uc = true)
    (long : str.length ≤ uc.length) : uc = str ++ uc.drop str.length := by
  induction str generalizing uc with
  | nil => rfl
  | cons c str ih =>
      cases uc with
      | nil => cases long
      | cons d uc =>
          rw [jsonConstLoop] at ok
          split_ifs at ok with differ
          rw [not_not] at differ
          rw [List.length_cons, List.drop_succ_cons, List.cons_append,
            ← ih ok (Nat.le_of_succ_le_succ long), differ]

theorem jsonConstLoop_run (str rest : List UInt8) : jsonConstLoop str (str ++ rest) = true := by
  induction str with
  | nil => cases rest <;> rfl
  | cons c str ih => simpa [jsonConstLoop] using ih

/-- A constant cut off by the end of the buffer passes, but then nothing is left. -/
theorem jsonParseConst_sound {c : UInt8} {str uc : List UInt8}
    (ok : (jsonParseConst (c :: str) uc).1 = true) (left : (jsonParseConst (c :: str) uc).2 ≠ []) :
    uc = str ++ (jsonParseConst (c :: str) uc).2 := by
  refine jsonConstLoop_sound ok ?_
  by_contra short
  exact left (List.drop_eq_nil_of_le (Nat.le_of_not_le short))

/-! ## Containers -/

/-- The dialect `is_json.c` decides. -/
def lax : Dialect := ⟨LaxNumber, StringByte, True⟩

/-- What may follow a value inside a container. -/
def Delimiter (d : UInt8) : Prop := d = 0x2c ∨ d = 0x5d ∨ d = 0x7d

theorem Delimiter.tight {d : UInt8} (h : Delimiter d) (rest : List UInt8) : Tight (d :: rest) := by
  rcases h with rfl | rfl | rfl <;> exact tight_cons.mpr (by decide)

/-- `value` recognises `V` inside containers: what it consumes is a `V` with
whitespace around it, and it consumes every `V` that a delimiter follows. -/
structure Recognises (value : List UInt8 → Stats → Parsed) (V : List UInt8 → Prop) : Prop where
  sound : ∀ b st, (value b st).rv ≠ 0 → (value b st).uc ≠ [] →
    ∃ w v w', Ws w ∧ V v ∧ Ws w' ∧ b = w ++ (v ++ (w' ++ (value b st).uc))
  complete : ∀ w v w' d rest st, Ws w → V v → Ws w' → Delimiter d →
    (value (w ++ (v ++ (w' ++ d :: rest))) st).rv ≠ 0 ∧
      (value (w ++ (v ++ (w' ++ d :: rest))) st).uc = d :: rest
  starts : ∀ v, V v → ∃ c t, v = c :: t ∧ isWs c = false ∧ c ≠ 0x5d

theorem jsonSkipSpace_cons {b : List UInt8} {c : UInt8} {t : List UInt8}
    (h : jsonSkipSpace b = c :: t) : ∃ w, Ws w ∧ b = w ++ c :: t := by
  obtain ⟨w, ws, split, -⟩ := jsonSkipSpace_split b
  exact ⟨w, ws, h ▸ split⟩

theorem jsonSkipSpace_head {b : List UInt8} {c : UInt8} {t : List UInt8}
    (h : jsonSkipSpace b = c :: t) : isWs c = false := by
  obtain ⟨w, -, -, tight⟩ := jsonSkipSpace_split b
  rw [h] at tight
  exact tight_cons.mp tight

section containers
variable {value : List UInt8 → Stats → Parsed} {V : List UInt8 → Prop}

theorem jsonParseArray_succ (k : Nat) (uc : List UInt8) (st : Stats) :
    jsonParseArray value (k + 1) uc st = match jsonSkipSpace uc with
      | [] => ⟨0, [], st⟩
      | c :: uc =>
          if c = 0x5d then ⟨1, uc, { st with arrayn := st.arrayn + 1 }⟩
          else if (value (c :: uc) st).rv = 0 then
            ⟨0, (value (c :: uc) st).uc, (value (c :: uc) st).st⟩
          else match (value (c :: uc) st).uc with
            | [] => ⟨0, [], (value (c :: uc) st).st⟩
            | d :: rest =>
                if d = 0x2c then jsonParseArray value k rest (value (c :: uc) st).st
                else if d = 0x5d then
                  ⟨1, rest, { (value (c :: uc) st).st with arrayn := (value (c :: uc) st).st.arrayn + 1 }⟩
                else ⟨0, d :: rest, (value (c :: uc) st).st⟩ := by
  cases uc with
  | nil => rfl
  | cons c uc => rfl

theorem jsonParseArray_sound (recognises : Recognises value V) (first : Bool) (k : Nat)
    (uc : List UInt8) (st : Stats) (ok : (jsonParseArray value k uc st).rv ≠ 0) :
    (jsonParseArray value k uc st).st.arrayn ≠ 0 ∧
      ∃ t, Items lax 0x5d V first t ∧ uc = t ++ (jsonParseArray value k uc st).uc := by
  induction k generalizing first uc st with
  | zero => exact absurd rfl ok
  | succ k ih =>
      rw [jsonParseArray_succ] at ok ⊢
      rcases skip : jsonSkipSpace uc with _ | ⟨c, t⟩
      · rw [skip] at ok
        exact absurd rfl ok
      obtain ⟨w, ws, rfl⟩ := jsonSkipSpace_cons skip
      rw [skip] at ok
      dsimp only at ok ⊢
      by_cases done : c = 0x5d
      · subst done
        rw [if_pos rfl] at ok ⊢
        exact ⟨Nat.succ_ne_zero _, w ++ [0x5d], .close (.inr trivial) ws, by simp⟩
      rw [if_neg done] at ok ⊢
      by_cases failed : (value (c :: t) st).rv = 0
      · rw [if_pos failed] at ok
        exact absurd rfl ok
      rw [if_neg failed] at ok ⊢
      have sound := recognises.sound (c :: t) st failed
      generalize value (c :: t) st = r at *
      obtain ⟨rv, uc, st⟩ := r
      rcases uc with _ | ⟨d, rest⟩
      · exact absurd rfl ok
      obtain ⟨w1, v, w2, ws1, hv, ws2, split⟩ := sound (List.cons_ne_nil d rest)
      rw [split]
      dsimp only at ok ⊢
      by_cases comma : d = 0x2c
      · subst comma
        rw [if_pos rfl] at ok ⊢
        obtain ⟨counted, t, items, tail⟩ := ih false rest st ok
        refine ⟨counted, _, .more (ws.append ws1) hv ws2 items, ?_⟩
        simp only [List.append_assoc, List.cons_append, ← tail]
      rw [if_neg comma] at ok ⊢
      by_cases close : d = 0x5d
      · subst close
        rw [if_pos rfl] at ok ⊢
        exact ⟨Nat.succ_ne_zero _, _, .last (ws.append ws1) hv ws2, by simp⟩
      · rw [if_neg close] at ok
        exact absurd rfl ok

theorem Recognises.tight (recognises : Recognises value V) {v : List UInt8} (hv : V v)
    (more : List UInt8) : ∃ c t, v ++ more = c :: t ∧ isWs c = false ∧ c ≠ 0x5d := by
  obtain ⟨c, t, rfl, tight, other⟩ := recognises.starts v hv
  exact ⟨c, t ++ more, rfl, tight, other⟩

theorem jsonParseArray_complete (recognises : Recognises value V) {first : Bool} {t : List UInt8}
    (items : Items lax 0x5d V first t) (rest : List UInt8) (k : Nat) (enough : t.length ≤ k)
    (st : Stats) :
    (jsonParseArray value k (t ++ rest) st).rv ≠ 0 ∧
      (jsonParseArray value k (t ++ rest) st).uc = rest := by
  induction items generalizing k st with
  | @close first w _ ws =>
      obtain ⟨k, rfl⟩ : ∃ j, k = j + 1 := ⟨k - 1, by simp at enough; omega⟩
      have skip : jsonSkipSpace (w ++ [0x5d] ++ rest) = 0x5d :: rest := by
        rw [List.append_assoc]
        exact jsonSkipSpace_run ws (tight_cons.mpr (by decide))
      rw [jsonParseArray_succ, skip]
      exact ⟨Nat.one_ne_zero, rfl⟩
  | @last first w v w' ws hv ws' =>
      obtain ⟨k, rfl⟩ : ∃ j, k = j + 1 := ⟨k - 1, by simp at enough; omega⟩
      obtain ⟨ok, left⟩ := recognises.complete [] v w' 0x5d rest st ws_nil hv ws'
        (.inr (.inl rfl))
      obtain ⟨c, t, shape, tight, other⟩ := recognises.tight hv (w' ++ 0x5d :: rest)
      have skip : jsonSkipSpace (w ++ (v ++ (w' ++ [0x5d])) ++ rest) = c :: t := by
        simp only [List.append_assoc, List.singleton_append]
        rw [shape]
        exact jsonSkipSpace_run ws (tight_cons.mpr tight)
      rw [List.nil_append, shape] at ok left
      rw [jsonParseArray_succ, skip]
      dsimp only
      rw [if_neg other, if_neg ok, left]
      exact ⟨Nat.one_ne_zero, rfl⟩
  | @more first w v w' t ws hv ws' _ ih =>
      obtain ⟨k, rfl⟩ : ∃ j, k = j + 1 := ⟨k - 1, by simp at enough; omega⟩
      obtain ⟨ok, left⟩ := recognises.complete [] v w' 0x2c (t ++ rest) st ws_nil hv ws'
        (.inl rfl)
      obtain ⟨c, u, shape, tight, other⟩ := recognises.tight hv (w' ++ 0x2c :: (t ++ rest))
      have skip : jsonSkipSpace (w ++ (v ++ (w' ++ 0x2c :: t)) ++ rest) = c :: u := by
        simp only [List.append_assoc, List.cons_append]
        rw [shape]
        exact jsonSkipSpace_run ws (tight_cons.mpr tight)
      rw [List.nil_append, shape] at ok left
      rw [jsonParseArray_succ, skip]
      dsimp only
      rw [if_neg other, if_neg ok, left]
      refine ih k ?_ _
      simp only [List.length_append, List.length_cons] at enough
      omega

theorem jsonParseObject_succ (k : Nat) (uc : List UInt8) (st : Stats) :
    jsonParseObject value (k + 1) uc st = match jsonSkipSpace uc with
      | [] => ⟨0, [], st⟩
      | c :: uc =>
          if c = 0x7d then ⟨1, uc, st⟩
          else if c ≠ 0x22 then ⟨0, uc, st⟩
          else if (jsonParseString uc).1 = false then ⟨0, (jsonParseString uc).2, st⟩
          else match jsonSkipSpace (jsonParseString uc).2 with
            | [] => ⟨0, [], st⟩
            | c :: uc =>
                if c ≠ 0x3a then ⟨0, uc, st⟩
                else if (value uc st).rv = 0 then ⟨0, (value uc st).uc, (value uc st).st⟩
                else match (value uc st).uc with
                  | [] => ⟨0, [], (value uc st).st⟩
                  | d :: rest =>
                      if d = 0x2c then jsonParseObject value k rest (value uc st).st
                      else if d = 0x7d then ⟨1, rest, (value uc st).st⟩
                      else ⟨0, rest, (value uc st).st⟩ := by
  cases uc with
  | nil => rfl
  | cons c uc => rfl

theorem jsonParseObject_sound (recognises : Recognises value V) (first : Bool) (k : Nat)
    (uc : List UInt8) (st : Stats) (ok : (jsonParseObject value k uc st).rv ≠ 0) :
    ∃ t, Items lax 0x7d (Member lax V) first t ∧ uc = t ++ (jsonParseObject value k uc st).uc := by
  induction k generalizing first uc st with
  | zero => exact absurd rfl ok
  | succ k ih =>
      rw [jsonParseObject_succ] at ok ⊢
      rcases skip : jsonSkipSpace uc with _ | ⟨c, t⟩
      · rw [skip] at ok
        exact absurd rfl ok
      obtain ⟨w, ws, rfl⟩ := jsonSkipSpace_cons skip
      rw [skip] at ok
      dsimp only at ok ⊢
      by_cases done : c = 0x7d
      · subst done
        rw [if_pos rfl]
        exact ⟨w ++ [0x7d], .close (.inr trivial) ws, by simp⟩
      rw [if_neg done] at ok ⊢
      by_cases quote : c = 0x22
      swap
      · rw [if_pos quote] at ok
        exact absurd rfl ok
      subst quote
      rw [if_neg (not_not.mpr rfl)] at ok ⊢
      by_cases badKey : (jsonParseString t).1 = false
      · rw [if_pos badKey] at ok
        exact absurd rfl ok
      rw [if_neg badKey] at ok ⊢
      obtain ⟨key, text, keySplit⟩ := jsonParseString_sound t (eq_true_of_ne_false badKey)
      rcases skipKey : jsonSkipSpace (jsonParseString t).2 with _ | ⟨colon, u⟩
      · rw [skipKey] at ok
        exact absurd rfl ok
      obtain ⟨w1, ws1, colonSplit⟩ := jsonSkipSpace_cons skipKey
      rw [skipKey] at ok
      dsimp only at ok ⊢
      rw [keySplit, colonSplit]
      by_cases isColon : colon = 0x3a
      swap
      · rw [if_pos isColon] at ok
        exact absurd rfl ok
      subst isColon
      rw [if_neg (not_not.mpr rfl)] at ok ⊢
      by_cases failed : (value u st).rv = 0
      · rw [if_pos failed] at ok
        exact absurd rfl ok
      rw [if_neg failed] at ok ⊢
      have sound := recognises.sound u st failed
      generalize value u st = r at *
      obtain ⟨rv, uc, st⟩ := r
      rcases uc with _ | ⟨d, rest⟩
      · exact absurd rfl ok
      obtain ⟨w2, v, w3, ws2, hv, ws3, split⟩ := sound (List.cons_ne_nil d rest)
      have member : Member lax V (0x22 :: (key ++ (w1 ++ 0x3a :: (w2 ++ v)))) :=
        ⟨key, w1, w2, v, text, ws1, ws2, hv, rfl⟩
      rw [split]
      dsimp only at ok ⊢
      by_cases comma : d = 0x2c
      · subst comma
        rw [if_pos rfl] at ok ⊢
        obtain ⟨t, items, tail⟩ := ih false rest st ok
        refine ⟨_, .more ws member ws3 items, ?_⟩
        simp only [List.append_assoc, List.cons_append, ← tail]
      rw [if_neg comma] at ok ⊢
      by_cases close : d = 0x7d
      · subst close
        rw [if_pos rfl]
        exact ⟨_, .last ws member ws3, by simp⟩
      · rw [if_neg close] at ok
        exact absurd rfl ok

/-- One round of the loop over a member. -/
theorem jsonParseObject_member (recognises : Recognises value V) {w m w' : List UInt8} (ws : Ws w)
    (member : Member lax V m) (ws' : Ws w') {d : UInt8} (delimiter : Delimiter d)
    (rest : List UInt8) (k : Nat) (st : Stats) :
    ∃ st', jsonParseObject value (k + 1) (w ++ (m ++ (w' ++ d :: rest))) st =
      if d = 0x2c then jsonParseObject value k rest st'
      else if d = 0x7d then ⟨1, rest, st'⟩ else ⟨0, rest, st'⟩ := by
  obtain ⟨key, w1, w2, v, text, ws1, ws2, hv, rfl⟩ := member
  obtain ⟨ok, left⟩ := recognises.complete w2 v w' d rest st ws2 hv ws' delimiter
  have skip : jsonSkipSpace (w ++ (0x22 :: (key ++ (w1 ++ 0x3a :: (w2 ++ v))) ++ (w' ++ d :: rest))) =
      0x22 :: (key ++ (w1 ++ 0x3a :: (w2 ++ (v ++ (w' ++ d :: rest))))) := by
    simp only [List.append_assoc, List.cons_append]
    exact jsonSkipSpace_run ws (tight_cons.mpr (by decide))
  have skipKey : jsonSkipSpace (w1 ++ 0x3a :: (w2 ++ (v ++ (w' ++ d :: rest)))) =
      0x3a :: (w2 ++ (v ++ (w' ++ d :: rest))) :=
    jsonSkipSpace_run ws1 (tight_cons.mpr (by decide))
  refine ⟨(value (w2 ++ (v ++ (w' ++ d :: rest))) st).st, ?_⟩
  rw [jsonParseObject_succ, skip]
  dsimp only
  rw [if_neg (by decide), if_neg (not_not.mpr rfl), jsonParseString_complete text,
    if_neg Bool.true_eq_false.mp, skipKey]
  dsimp only
  rw [if_neg (not_not.mpr rfl), if_neg ok, left]

theorem jsonParseObject_complete (recognises : Recognises value V) {first : Bool} {t : List UInt8}
    (items : Items lax 0x7d (Member lax V) first t) (rest : List UInt8) (k : Nat)
    (enough : t.length ≤ k) (st : Stats) :
    (jsonParseObject value k (t ++ rest) st).rv ≠ 0 ∧
      (jsonParseObject value k (t ++ rest) st).uc = rest := by
  induction items generalizing k st with
  | @close first w _ ws =>
      obtain ⟨k, rfl⟩ : ∃ j, k = j + 1 := ⟨k - 1, by simp at enough; omega⟩
      have skip : jsonSkipSpace (w ++ [0x7d] ++ rest) = 0x7d :: rest := by
        rw [List.append_assoc]
        exact jsonSkipSpace_run ws (tight_cons.mpr (by decide))
      rw [jsonParseObject_succ, skip]
      exact ⟨Nat.one_ne_zero, rfl⟩
  | @last first w m w' ws member ws' =>
      obtain ⟨k, rfl⟩ : ∃ j, k = j + 1 := ⟨k - 1, by simp at enough; omega⟩
      obtain ⟨st', round⟩ :=
        jsonParseObject_member recognises ws member ws' (.inr (.inr rfl)) rest k st
      simp only [List.append_assoc, List.singleton_append]
      rw [round]
      exact ⟨Nat.one_ne_zero, rfl⟩
  | @more first w m w' t ws member ws' _ ih =>
      obtain ⟨k, rfl⟩ : ∃ j, k = j + 1 := ⟨k - 1, by simp at enough; omega⟩
      obtain ⟨st', round⟩ :=
        jsonParseObject_member recognises ws member ws' (.inl rfl) (t ++ rest) k st
      simp only [List.append_assoc, List.cons_append]
      rw [round, if_pos rfl]
      refine ih k ?_ _
      simp only [List.length_append, List.length_cons] at enough
      omega

/-! ## One value -/

def Bracket (c : UInt8) : Prop := c = 0x5b ∨ c = 0x7b

theorem jsonSwitch_container (recognises : Recognises value V) {c : UInt8} (bracket : Bracket c)
    (uc : List UInt8) (st : Stats) (ok : (jsonSwitch value c uc st).1.rv ≠ 0) :
    ((jsonSwitch value c uc st).1.st.bump (jsonSwitch value c uc st).2).container = true ∧
      ∃ v, Container lax V v ∧ v.head? = some c ∧ c :: uc = v ++ (jsonSwitch value c uc st).1.uc := by
  rcases bracket with rfl | rfl
  · have array : jsonSwitch value 0x5b uc st = (jsonParseArray value uc.length uc st, .array) := by
      rw [jsonSwitch, if_neg (by decide), if_pos rfl]
    rw [array] at ok ⊢
    obtain ⟨counted, t, items, split⟩ := jsonParseArray_sound recognises true _ _ _ ok
    refine ⟨by simp [Stats.bump, Stats.container, counted], _, .array items, rfl, ?_⟩
    rw [List.cons_append, ← split]
  · have object : jsonSwitch value 0x7b uc st = (jsonParseObject value uc.length uc st, .object) := by
      rw [jsonSwitch, if_neg (by decide), if_neg (by decide), if_pos rfl]
    rw [object] at ok ⊢
    obtain ⟨t, items, split⟩ := jsonParseObject_sound recognises true _ _ _ ok
    refine ⟨by simp [Stats.bump, Stats.container], _, .object items, rfl, ?_⟩
    rw [List.cons_append, ← split]

theorem jsonSwitch_scalar {c : UInt8} (plain : ¬ Bracket c) (uc : List UInt8) (st : Stats)
    (ok : (jsonSwitch value c uc st).1.rv ≠ 0) :
    ((jsonSwitch value c uc st).1.st.bump (jsonSwitch value c uc st).2).container = st.container ∧
      ((jsonSwitch value c uc st).1.uc ≠ [] →
        ∃ v, Scalar lax v ∧ c :: uc = v ++ (jsonSwitch value c uc st).1.uc) := by
  have truth : ∀ b : Bool, b.toNat ≠ 0 → b = true := by decide
  rw [Bracket, not_or] at plain
  simp only [jsonSwitch, if_neg plain.1, if_neg plain.2] at ok ⊢
  split_ifs at ok ⊢ with quote t f n
  · refine ⟨rfl, fun _ => ?_⟩
    obtain ⟨t, text, split⟩ := jsonParseString_sound uc (truth _ ok)
    exact ⟨_, .string text, by rw [quote, List.cons_append]; exact congrArg _ split⟩
  · refine ⟨rfl, fun left => ⟨_, .literal (.inl rfl), ?_⟩⟩
    rw [t, List.cons_append]
    exact congrArg _ (jsonParseConst_sound (truth _ ok) left)
  · refine ⟨rfl, fun left => ⟨_, .literal (.inr (.inl rfl)), ?_⟩⟩
    rw [f, List.cons_append]
    exact congrArg _ (jsonParseConst_sound (truth _ ok) left)
  · refine ⟨rfl, fun left => ⟨_, .literal (.inr (.inr rfl)), ?_⟩⟩
    rw [n, List.cons_append]
    exact congrArg _ (jsonParseConst_sound (truth _ ok) left)
  · refine ⟨rfl, fun _ => ?_⟩
    obtain ⟨v, number, split⟩ := jsonParseNumber_sound (truth _ ok)
    exact ⟨v, .number number, split⟩

theorem laxNumber_starts {v : List UInt8} (number : LaxNumber v) :
    ∃ c t, v = c :: t ∧ (c = 0x2d ∨ c = 0x2e ∨ isDigit c = true) := by
  obtain ⟨s, d, frac, e, sign, digits, fraction, -, rfl⟩ := number
  rcases sign with rfl | rfl
  swap
  · exact ⟨0x2d, _, rfl, .inl rfl⟩
  cases d with
  | cons c d => exact ⟨c, _, rfl, .inr (.inr (digits c List.mem_cons_self))⟩
  | nil =>
      obtain ⟨-, some⟩ | ⟨f, -, -, rfl⟩ := fraction
      · exact absurd rfl some
      · exact ⟨0x2e, _, rfl, .inr (.inl rfl)⟩

/-- The first byte of a number is none of those the `switch` lists. -/
theorem numberStart_other : ∀ c : UInt8, c = 0x2d ∨ c = 0x2e ∨ isDigit c = true →
    c ≠ 0x22 ∧ c ≠ 0x5b ∧ c ≠ 0x7b ∧ c ≠ 0x74 ∧ c ≠ 0x66 ∧ c ≠ 0x6e :=
  forall_byte (by decide +kernel)

theorem jsonSwitch_number {c : UInt8} (start : c = 0x2d ∨ c = 0x2e ∨ isDigit c = true)
    (uc : List UInt8) (st : Stats) :
    jsonSwitch value c uc st = (.of (jsonParseNumber (c :: uc)) st, .number) := by
  obtain ⟨h1, h2, h3, h4, h5, h6⟩ := numberStart_other c start
  rw [jsonSwitch, if_neg h1, if_neg h2, if_neg h3, if_neg h4, if_neg h5, if_neg h6]

/-- The `switch` consumes a scalar that nothing prolongs. -/
theorem jsonSwitch_scalar_complete {v rest : List UInt8} (scalar : Scalar lax v) (stops : Stops rest)
    (st : Stats) :
    ∃ c t, v = c :: t ∧ (jsonSwitch value c (t ++ rest) st).1 = ⟨1, rest, st⟩ := by
  cases scalar with
  | @string t text =>
      refine ⟨0x22, t, rfl, ?_⟩
      rw [jsonSwitch, if_pos rfl]
      simp [Parsed.of, jsonParseString_complete text]
  | number number =>
      obtain ⟨c, t, rfl, start⟩ := laxNumber_starts number
      have run := jsonParseNumber_complete number stops
      rw [List.cons_append] at run
      refine ⟨c, t, rfl, ?_⟩
      rw [jsonSwitch_number start, run]
      rfl
  | literal literal =>
      rcases literal with rfl | rfl | rfl
      · exact ⟨0x74, _, rfl, rfl⟩
      · exact ⟨0x66, _, rfl, rfl⟩
      · exact ⟨0x6e, _, rfl, rfl⟩

/-- The `switch` consumes a container, whatever follows. -/
theorem jsonSwitch_container_complete (recognises : Recognises value V) {v : List UInt8}
    (container : Container lax V v) (rest : List UInt8) (st : Stats) :
    ∃ c t, v = c :: t ∧ Bracket c ∧ (jsonSwitch value c (t ++ rest) st).1.rv ≠ 0 ∧
      (jsonSwitch value c (t ++ rest) st).1.uc = rest := by
  cases container with
  | @array t items =>
      refine ⟨0x5b, t, rfl, .inl rfl, ?_⟩
      rw [jsonSwitch, if_neg (by decide), if_pos rfl]
      exact jsonParseArray_complete recognises items rest _ (by simp) st
  | @object t items =>
      refine ⟨0x7b, t, rfl, .inr rfl, ?_⟩
      rw [jsonSwitch, if_neg (by decide), if_neg (by decide), if_pos rfl]
      exact jsonParseObject_complete recognises items rest _ (by simp) st

end containers

/-- No value begins with whitespace or a closing bracket. -/
theorem value_starts {n : Nat} {v : List UInt8} (hv : Value lax n v) :
    ∃ c t, v = c :: t ∧ isWs c = false ∧ c ≠ 0x5d := by
  have byte : ∀ c : UInt8, c = 0x2d ∨ c = 0x2e ∨ isDigit c = true → isWs c = false ∧ c ≠ 0x5d :=
    forall_byte (by decide +kernel)
  cases n with
  | zero => exact hv.elim
  | succ n =>
      rcases hv with scalar | container
      · cases scalar with
        | string text => exact ⟨_, _, rfl, by decide, by decide⟩
        | number number =>
            obtain ⟨c, t, rfl, start⟩ := laxNumber_starts number
            exact ⟨c, t, rfl, byte c start⟩
        | literal literal =>
            rcases literal with rfl | rfl | rfl <;> exact ⟨_, _, rfl, by decide, by decide⟩
      · cases container with
        | array items => exact ⟨_, _, rfl, by decide, by decide⟩
        | object items => exact ⟨_, _, rfl, by decide, by decide⟩

theorem stops_after {w : List UInt8} {d : UInt8} (ws : Ws w) (delimiter : Delimiter d)
    (rest : List UInt8) : Stops (w ++ d :: rest) := by
  have byte : ∀ c : UInt8, isWs c = true ∨ Delimiter c →
      isDigit c = false ∧ c ≠ 0x2e ∧ c ≠ 0x65 ∧ c ≠ 0x45 := by
    simp only [Delimiter]
    exact forall_byte (by decide +kernel)
  cases w with
  | nil => simpa [Stops, NoDigit] using byte d (.inr delimiter)
  | cons c w => simpa [Stops, NoDigit] using byte c (.inl (ws c List.mem_cons_self))

end Libmagic.Json
