import Libmagic.Apprentice.Number
import Libmagic.Softmagic.Types

/-!
# `apprentice.c`: the modifiers of a string

`parse_string_modifier` reads the letters and numbers behind the slash of a string type, `Spelt` says what letters mean.
-/
namespace Libmagic.Apprentice

open Softmagic

/-- What the modifiers change. -/
structure Modified where
  strFlags : Nat
  strRange : Nat
  deriving DecidableEq

def STRING_DEFAULT_RANGE : Nat := 100

/-- The letters that are for every type. -/
def plainModifiers : List (UInt8 × Nat) :=
  [(0x57, STRING_COMPACT_WHITESPACE), (0x77, STRING_COMPACT_OPTIONAL_WHITESPACE), (0x63, STRING_IGNORE_LOWERCASE),
    (0x43, STRING_IGNORE_UPPERCASE), (0x73, REGEX_OFFSET_START), (0x62, STRING_BINTEST), (0x74, STRING_TEXTTEST),
    (0x54, STRING_TRIM), (0x66, STRING_FULL_WORD)]

/-- The letters for the length of a Pascal string, the last of them for a `regex` too. -/
def lengthModifiers : List (UInt8 × Nat) :=
  [(0x42, PSTRING_1_LE), (0x48, PSTRING_2_BE), (0x68, PSTRING_2_LE), (0x4c, PSTRING_4_BE), (0x6c, PSTRING_4_LE)]

def lengthModifier (type : MType) (c : UInt8) : Option Nat :=
  if type = .pstring ∨ type = .regex ∧ c = 0x6c then lengthModifiers.lookup c else none

/-- `SET_LENGTH`, with `~PSTRING_LEN` in 32 bits. -/
def setLength (a : Nat) (m : Modified) : Modified :=
  { m with strFlags := m.strFlags &&& (2 ^ 32 - 1 - PSTRING_LEN) ||| a }

/-- What a letter does, or none where it is not allowed. -/
def letterModifier (type : MType) (c : UInt8) (m : Modified) : Option Modified :=
  match plainModifiers.lookup c with
  | some bit => some { m with strFlags := m.strFlags ||| bit }
  | none =>
      match lengthModifier type c with
      | some a => some (setLength a m)
      | none =>
          if type = .pstring ∧ c = 0x4a then some { m with strFlags := m.strFlags ||| PSTRING_LENGTH_INCLUDES_ITSELF }
          else none

/-- A second slash, unless it ends the modifiers. -/
def skipSlash : Bytes → Bytes
  | 0x2f :: c :: l => if isspace c then 0x2f :: c :: l else c :: l
  | 0x2f :: [] => []
  | l => l

/-- The loop of `parse_string_modifier`: what is stored, and where it stops; an error where it fails. -/
def stringModifiers (type : MType) : (rounds : Nat) → Bytes → Modified → Except (Modified × Bytes) (Modified × Bytes)
  | 0, l, m => .error (m, l)
  | _, [], m => .error (m, [])
  | rounds + 1, c :: l, m =>
      if isspace c then .ok (m, c :: l)
      else if isdigit c then
        match readNumber (c :: l) with
        | some n => stringModifiers type rounds (skipSlash n.rest) { m with strRange := n.strtoull.1 % 2 ^ 32 }
        | none => .error (m, c :: l)
      else match letterModifier type c m with
        | some m => stringModifiers type rounds (skipSlash l) m
        | none => .error (m, c :: l)

/-- What is stored, or an error with what is stored then. `check` is `MAGIC_CHECK`. -/
def stringModifierCheck (check : Bool) (type : MType) (m : Modified) : Except Modified Modified :=
  if !check then .ok m
  else if (type ≠ .regex ∨ has m.strFlags REGEX_LINE_COUNT = false) ∧ type ≠ .pstring ∧ has m.strFlags PSTRING_LEN then
    .error m
  else match type with
    | .bestring16 | .lestring16 => if m.strFlags = 0 then .ok m else .error m
    | .string | .pstring => if has m.strFlags REGEX_OFFSET_START then .error m else .ok m
    | .search => if m.strRange = 0 then .error { m with strRange := STRING_DEFAULT_RANGE } else .ok m
    | .regex =>
        if has m.strFlags STRING_COMPACT_WHITESPACE then .error m
        else if has m.strFlags STRING_COMPACT_OPTIONAL_WHITESPACE then .error m
        else .ok m
    | _ => .error m

/-- `l` is the text behind the first slash. -/
def parseStringModifier (check : Bool) (type : MType) (rounds : Nat) (l : Bytes) (m : Modified) :
    Except (Modified × Bytes) (Modified × Bytes) :=
  match stringModifiers type rounds l m with
  | .error stopped => .error stopped
  | .ok (m, l) =>
      match stringModifierCheck check type m with
      | .error m => .error (m, l)
      | .ok m => .ok (m, l)

/-! ## Texts of letters -/

/-- Letters, each with a slash behind it where that is said and another letter follows. -/
def spelled : List (UInt8 × Bool) → Bytes
  | [] => []
  | [(c, _)] => [c]
  | (c, slash) :: x :: xs => c :: if slash then 0x2f :: spelled (x :: xs) else spelled (x :: xs)

/-- A letter that is neither a digit nor a blank nor a slash. -/
def IsLetter (c : UInt8) : Prop := isspace c = false ∧ isdigit c = false ∧ c ≠ 0x2f

instance (c : UInt8) : Decidable (IsLetter c) := inferInstanceAs (Decidable (_ ∧ _))

/-- What the letters do, in their order. -/
def letterModifiers (type : MType) : List UInt8 → Modified → Option Modified
  | [], m => some m
  | c :: cs, m => (letterModifier type c m).bind (letterModifiers type cs)

theorem skipSlash_other {c : UInt8} (other : c ≠ 0x2f) (l : Bytes) : skipSlash (c :: l) = c :: l := by
  unfold skipSlash
  split
  next same => exact absurd (List.cons.inj same).1 other
  next same => exact absurd (List.cons.inj same).1 other
  next => rfl

theorem skipSlash_slash {c : UInt8} (word : isspace c = false) (l : Bytes) : skipSlash (0x2f :: c :: l) = c :: l := by
  unfold skipSlash
  exact if_neg (Bool.eq_false_iff.mp word)

/-- The front of what follows a letter is the next letter, or what ends the modifiers. -/
theorem spelled_cons (c : UInt8) (slash : Bool) {xs : List (UInt8 × Bool)} (each : ∀ x ∈ xs, IsLetter x.1) {sp : UInt8}
    (blank : isspace sp = true) (rest : Bytes) :
    ∃ l, spelled ((c, slash) :: xs) ++ sp :: rest = c :: l ∧ skipSlash l = spelled xs ++ sp :: rest := by
  cases xs with
  | nil =>
      refine ⟨sp :: rest, rfl, skipSlash_other ?_ rest⟩
      rintro rfl
      cases blank
  | cons x xs =>
      obtain ⟨c', slash'⟩ := x
      obtain ⟨word, -, other⟩ := each _ List.mem_cons_self
      obtain ⟨l, spells⟩ : ∃ l, spelled ((c', slash') :: xs) = c' :: l := by
        cases xs with
        | nil => exact ⟨[], rfl⟩
        | cons y ys => exact ⟨_, rfl⟩
      rw [spelled, spells]
      cases slash with
      | true => exact ⟨0x2f :: c' :: l ++ sp :: rest, rfl, skipSlash_slash word _⟩
      | false => exact ⟨c' :: l ++ sp :: rest, rfl, skipSlash_other other _⟩

/-- The modifiers are accepted when each letter is allowed, and the slashes between them do nothing. -/
theorem stringModifiers_spelled (type : MType) {xs : List (UInt8 × Bool)} (each : ∀ x ∈ xs, IsLetter x.1) {sp : UInt8}
    (blank : isspace sp = true) (rest : Bytes) {rounds : Nat} (enough : xs.length < rounds) (m : Modified) :
    (stringModifiers type rounds (spelled xs ++ sp :: rest) m).toOption =
      (letterModifiers type (xs.map Prod.fst) m).map fun m => (m, sp :: rest) := by
  induction xs generalizing rounds m with
  | nil =>
      cases rounds with
      | zero => cases enough
      | succ rounds =>
          change (if isspace sp then _ else _ : Except _ _).toOption = _
          rw [if_pos blank]
          rfl
  | cons x xs ih =>
      obtain ⟨c, slash⟩ := x
      cases rounds with
      | zero => cases enough
      | succ rounds =>
          obtain ⟨word, nodigit, -⟩ := each _ List.mem_cons_self
          have others : ∀ x ∈ xs, IsLetter x.1 := fun x mem => each x (List.mem_cons_of_mem _ mem)
          obtain ⟨l, same, next⟩ := spelled_cons c slash others blank rest
          rw [same, stringModifiers, if_neg (Bool.eq_false_iff.mp word), if_neg (Bool.eq_false_iff.mp nodigit)]
          rw [List.map_cons, letterModifiers]
          cases letterModifier type c m with
          | none => rfl
          | some m =>
              dsimp only
              rw [next, Option.bind_some]
              exact ih others (Nat.lt_of_succ_lt_succ enough) m

/-! ## What letters mean -/

/-- The letters that a type has. -/
def Allowed (type : MType) (c : UInt8) : Prop :=
  (plainModifiers.lookup c).isSome = true ∨ (lengthModifier type c).isSome = true ∨ type = .pstring ∧ c = 0x4a

/-- The modifiers are a set of letters, but for the length of a Pascal string, which the last letter for it says. -/
structure Spelt (type : MType) (cs : List UInt8) (m m' : Modified) : Prop where
  plain : ∀ c bit, (c, bit) ∈ plainModifiers → has m'.strFlags bit = (has m.strFlags bit || cs.contains c)
  itself : has m'.strFlags PSTRING_LENGTH_INCLUDES_ITSELF =
    (has m.strFlags PSTRING_LENGTH_INCLUDES_ITSELF || cs.contains 0x4a)
  length : m'.strFlags &&& PSTRING_LEN = (cs.filterMap (lengthModifier type)).getLast?.getD (m.strFlags &&& PSTRING_LEN)
  range : m'.strRange = m.strRange

theorem mem_of_lookup {table : List (UInt8 × Nat)} {c : UInt8} {bit : Nat} (found : table.lookup c = some bit) :
    (c, bit) ∈ table := by
  obtain ⟨front, back, rfl, -⟩ := List.lookup_eq_some_iff.mp found
  exact List.mem_append_right _ List.mem_cons_self

theorem mem_of_lengthModifier {type : MType} {c : UInt8} {a : Nat} (found : lengthModifier type c = some a) :
    (c, a) ∈ lengthModifiers := by
  unfold lengthModifier at found
  by_cases typed : type = .pstring ∨ type = .regex ∧ c = 0x6c
  · rw [if_pos typed] at found
    exact mem_of_lookup found
  · rw [if_neg typed] at found
    cases found

theorem has_or (a b bit : Nat) : has (a ||| b) bit = (has a bit || has b bit) := by
  unfold has
  rw [Nat.and_or_distrib_right]
  by_cases left : a &&& bit = 0
  · rw [left, Nat.zero_or]
    rfl
  · have some : a &&& bit ||| b &&& bit ≠ 0 := fun none => left (Nat.or_eq_zero_iff.mp none).1
    rw [bne_iff_ne.mpr some, bne_iff_ne.mpr left, Bool.true_or]

theorem has_mask {mask bit : Nat} (covers : mask &&& bit = bit) (a : Nat) : has (a &&& mask) bit = has a bit := by
  unfold has
  rw [Nat.and_assoc, covers]

/-- No two plain letters share a bit, and none of them has one of the others. -/
theorem plain_apart {c d : UInt8} {a b : Nat} (first : (c, a) ∈ plainModifiers) (second : (d, b) ∈ plainModifiers) :
    has a b = (d == c) ∧ has a PSTRING_LENGTH_INCLUDES_ITSELF = false ∧ has PSTRING_LENGTH_INCLUDES_ITSELF b = false ∧
      c ≠ 0x4a ∧ a &&& PSTRING_LEN = 0 ∧ lengthModifiers.lookup c = none := by
  have table : (plainModifiers.all fun x => plainModifiers.all fun y => has x.2 y.2 == (y.1 == x.1) &&
      !has x.2 PSTRING_LENGTH_INCLUDES_ITSELF && !has PSTRING_LENGTH_INCLUDES_ITSELF y.2 && x.1 != 0x4a &&
      x.2 &&& PSTRING_LEN == 0 && (lengthModifiers.lookup x.1).isNone) = true := by decide +kernel
  have here := List.all_eq_true.mp (List.all_eq_true.mp table _ first) _ second
  simpa [and_assoc] using here

theorem length_apart {c d : UInt8} {a b : Nat} (first : (c, a) ∈ lengthModifiers) (second : (d, b) ∈ plainModifiers) :
    has a b = false ∧ d ≠ c ∧ (2 ^ 32 - 1 - PSTRING_LEN) &&& b = b := by
  have table : (lengthModifiers.all fun x => plainModifiers.all fun y => !has x.2 y.2 && y.1 != x.1 &&
      (2 ^ 32 - 1 - PSTRING_LEN) &&& y.2 == y.2) = true := by decide +kernel
  have here := List.all_eq_true.mp (List.all_eq_true.mp table _ first) _ second
  simpa [and_assoc] using here

theorem length_own {c : UInt8} {a : Nat} (mem : (c, a) ∈ lengthModifiers) :
    has a PSTRING_LENGTH_INCLUDES_ITSELF = false ∧ c ≠ 0x4a ∧ a &&& PSTRING_LEN = a := by
  have table : (lengthModifiers.all fun x => !has x.2 PSTRING_LENGTH_INCLUDES_ITSELF && x.1 != 0x4a &&
      x.2 &&& PSTRING_LEN == x.2) = true := by decide +kernel
  have here := List.all_eq_true.mp table _ mem
  simpa [and_assoc] using here

theorem lengthModifier_none {type : MType} {c : UInt8} (none : lengthModifiers.lookup c = none) :
    lengthModifier type c = .none := by
  unfold lengthModifier
  rw [none, ite_self]

section

variable {type : MType} {c : UInt8} {cs ds : List UInt8} {m m₁ m' : Modified}

theorem Spelt.refl (m : Modified) : Spelt type [] m m :=
  ⟨fun _ _ _ => (Bool.or_false _).symm, (Bool.or_false _).symm, rfl, rfl⟩

theorem Spelt.append (first : Spelt type cs m m₁) (second : Spelt type ds m₁ m') : Spelt type (cs ++ ds) m m' where
  plain := fun c bit mem => by
    rw [second.plain c bit mem, first.plain c bit mem, List.contains_append, Bool.or_assoc]
  itself := by rw [second.itself, first.itself, List.contains_append, Bool.or_assoc]
  length := by
    rw [second.length, first.length, List.filterMap_append, List.getLast?_append]
    cases (ds.filterMap (lengthModifier type)).getLast? <;> rfl
  range := second.range.trans first.range

/-- What one letter does. -/
theorem letterModifier_spelt (allowed : letterModifier type c m = some m') : Spelt type [c] m m' := by
  have own (d : UInt8) : [c].contains d = (d == c) := Bool.or_false _
  unfold letterModifier at allowed
  cases plain : plainModifiers.lookup c with
  | some a =>
      rw [plain] at allowed
      cases allowed
      have mem := mem_of_lookup plain
      obtain ⟨-, apart, -, other, outside, none⟩ := plain_apart mem mem
      refine ⟨fun d bit there => ?_, ?_, ?_, rfl⟩
      · rw [own, has_or, (plain_apart mem there).1]
      · rw [own, has_or, apart, beq_false_of_ne other.symm]
      · rw [Nat.and_or_distrib_right, outside, Nat.or_zero, List.filterMap_cons, lengthModifier_none none]
        rfl
  | none =>
      rw [plain] at allowed
      dsimp only at allowed
      cases length : lengthModifier type c with
      | some a =>
          rw [length] at allowed
          cases allowed
          have mem := mem_of_lengthModifier length
          obtain ⟨apart, other, inside⟩ := length_own mem
          refine ⟨fun d bit there => ?_, ?_, ?_, rfl⟩
          · obtain ⟨apart', other', covers⟩ := length_apart mem there
            rw [own, setLength, has_or, has_mask covers, apart', beq_false_of_ne other']
          · rw [own, setLength, has_or, has_mask (by decide), apart, beq_false_of_ne other.symm]
          · rw [setLength, Nat.and_or_distrib_right, inside, Nat.and_assoc, List.filterMap_cons, length]
            have none : (2 ^ 32 - 1 - PSTRING_LEN) &&& PSTRING_LEN = 0 := by decide
            rw [none, Nat.and_zero, Nat.zero_or]
            rfl
      | none =>
          rw [length] at allowed
          dsimp only at allowed
          by_cases itself : type = .pstring ∧ c = 0x4a
          · rw [if_pos itself] at allowed
            cases allowed
            obtain ⟨-, rfl⟩ := itself
            refine ⟨fun d bit there => ?_, ?_, ?_, rfl⟩
            · obtain ⟨-, -, apart, other, -, -⟩ := plain_apart there there
              rw [own, has_or, apart, beq_false_of_ne other]
            · rw [own, has_or]
              rfl
            · rw [Nat.and_or_distrib_right, List.filterMap_cons, length]
              have none : PSTRING_LENGTH_INCLUDES_ITSELF &&& PSTRING_LEN = 0 := by decide
              rw [none, Nat.or_zero]
              rfl
          · rw [if_neg itself] at allowed
            cases allowed

theorem letterModifiers_spelt (accepted : letterModifiers type cs m = some m') : Spelt type cs m m' := by
  induction cs generalizing m with
  | nil =>
      cases accepted
      exact .refl _
  | cons c cs ih =>
      rw [letterModifiers, Option.bind_eq_some_iff] at accepted
      obtain ⟨m₁, first, rest⟩ := accepted
      exact (letterModifier_spelt first).append (ih rest)

theorem letterModifier_isSome (type : MType) (c : UInt8) (m : Modified) :
    (letterModifier type c m).isSome = true ↔ Allowed type c := by
  unfold letterModifier Allowed
  cases plainModifiers.lookup c with
  | some a => exact iff_of_true rfl (.inl rfl)
  | none =>
      dsimp only
      cases lengthModifier type c with
      | some a => exact iff_of_true rfl (.inr (.inl rfl))
      | none =>
          dsimp only
          by_cases itself : type = .pstring ∧ c = 0x4a
          · rw [if_pos itself]
            exact iff_of_true rfl (.inr (.inr itself))
          · rw [if_neg itself]
            exact iff_of_false Bool.false_ne_true fun h =>
              h.elim Bool.false_ne_true fun h => h.elim Bool.false_ne_true itself

theorem letterModifiers_isSome (type : MType) (cs : List UInt8) (m : Modified) :
    (letterModifiers type cs m).isSome = true ↔ ∀ c ∈ cs, Allowed type c := by
  induction cs generalizing m with
  | nil => exact iff_of_true rfl fun _ mem => absurd mem List.not_mem_nil
  | cons c cs ih =>
      rw [letterModifiers, List.forall_mem_cons, ← letterModifier_isSome type c m]
      cases letterModifier type c m with
      | none => exact iff_of_false Bool.false_ne_true fun h => Bool.false_ne_true h.1
      | some m₁ => exact (ih m₁).trans ⟨fun all => ⟨rfl, all⟩, fun h => h.2⟩

end

/-- The check sees what the loop stored. -/
theorem parseStringModifier_toOption (check : Bool) (type : MType) (rounds : Nat) (l : Bytes) (m : Modified) :
    (parseStringModifier check type rounds l m).toOption = (stringModifiers type rounds l m).toOption.bind fun stored =>
      (stringModifierCheck check type stored.1).toOption.map fun m => (m, stored.2) := by
  unfold parseStringModifier
  cases stringModifiers type rounds l m with
  | error stopped => rfl
  | ok stored =>
      change _ = (stringModifierCheck check type stored.1).toOption.map _
      dsimp only
      cases stringModifierCheck check type stored.1 <;> rfl

/-- Whatever slashes stand between them, letters are accepted when the type has each of them and the check allows what
they mean together. -/
theorem parseStringModifier_letters (check : Bool) (type : MType) {xs : List (UInt8 × Bool)}
    (each : ∀ x ∈ xs, IsLetter x.1) {sp : UInt8} (blank : isspace sp = true) (rest : Bytes) {rounds : Nat}
    (enough : xs.length < rounds) (m : Modified) :
    let parsed := (parseStringModifier check type rounds (spelled xs ++ sp :: rest) m).toOption
    (∀ x ∈ xs, Allowed type x.1) ∧
        (∃ m', Spelt type (xs.map Prod.fst) m m' ∧
          parsed = (stringModifierCheck check type m').toOption.map fun m => (m, sp :: rest)) ∨
      (∃ x ∈ xs, ¬Allowed type x.1) ∧ parsed = none := by
  intro parsed
  have parses : parsed = _ := parseStringModifier_toOption check type rounds (spelled xs ++ sp :: rest) m
  rw [stringModifiers_spelled type each blank rest enough m] at parses
  have accepts := letterModifiers_isSome type (xs.map Prod.fst) m
  rw [List.forall_mem_map] at accepts
  cases all : letterModifiers type (xs.map Prod.fst) m with
  | none =>
      rw [all] at parses accepts
      right
      refine ⟨?_, parses⟩
      by_contra none
      push Not at none
      cases accepts.mpr none
  | some m' =>
      rw [all] at parses accepts
      left
      exact ⟨accepts.mp rfl, m', letterModifiers_spelt all, parses⟩

/-- `/H/Jh` is `/hJ`. -/
theorem parseStringModifier_letters_pstring :
    ∃ m', Spelt .pstring [0x48, 0x4a, 0x68] ⟨0, 0⟩ m' ∧ m'.strFlags &&& PSTRING_LEN = PSTRING_2_LE ∧
      (parseStringModifier true .pstring 4 (asc "H/Jh x") ⟨0, 0⟩).toOption = some (m', asc " x") := by
  have each : ∀ x ∈ [((0x48 : UInt8), true), (0x4a, false), (0x68, false)], IsLetter x.1 := by
    rw [List.forall_mem_cons, List.forall_mem_cons, List.forall_mem_singleton]
    decide
  obtain ⟨-, m', spelt, parsed⟩ | ⟨-, none⟩ := parseStringModifier_letters true .pstring each
    (show isspace 0x20 = true by decide) [0x78] (show 3 < 4 by decide) ⟨0, 0⟩
  · refine ⟨m', spelt, spelt.length, ?_⟩
    have offset : has m'.strFlags REGEX_OFFSET_START = false := spelt.plain 0x73 REGEX_OFFSET_START (by decide)
    have allowed : stringModifierCheck true .pstring m' = .ok m' := by
      unfold stringModifierCheck
      rw [if_neg (by decide), if_neg (by simp)]
      dsimp only
      rw [offset]
      rfl
    rw [allowed] at parsed
    exact parsed
  · have some : ((parseStringModifier true .pstring 4 (asc "H/Jh x") ⟨0, 0⟩).toOption).isSome = true := by
      decide +kernel
    change (parseStringModifier true .pstring 4 (asc "H/Jh x") ⟨0, 0⟩).toOption = .none at none
    rw [none] at some
    cases some

end Libmagic.Apprentice
