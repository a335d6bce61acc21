import Mathlib.Data.List.Flatten
import Mathlib.Data.List.Perm.Basic
import Libmagic.Encoding.LooksUtf8
import Libmagic.Softmagic.Passes
import Libmagic.Softmagic.Search

/-!
# `apprentice.c`: which pass an entry is for

`apprentice_load` marks the entries that were read as tests for binary or for text, sorts them and lays them out one
behind the other. How they are sorted does not matter here.
-/
namespace Libmagic.Apprentice

open Softmagic
open Encoding (fileLooksUtf8)

/-- The types whose tests are binary. -/
def isBinary : MType → Bool
  | .byte | .short | .long | .date | .beshort | .belong | .bedate | .leshort | .lelong | .ledate | .ldate | .beldate
  | .leldate | .medate | .meldate | .melong | .quad | .lequad | .bequad | .qdate | .leqdate | .beqdate | .qldate
  | .leqldate | .beqldate | .qwdate | .leqwdate | .beqwdate | .float | .befloat | .lefloat | .double | .bedouble
  | .ledouble | .bevarint | .levarint | .der | .guid | .leguid | .beguid | .offset | .msdosdate | .bemsdosdate
  | .lemsdosdate | .msdostime | .bemsdostime | .lemsdostime | .octal => true
  | _ => false

/-- The types whose tests may be for text. -/
def isTextual : MType → Bool
  | .string | .pstring | .bestring16 | .lestring16 | .regex | .search => true
  | _ => false

/-- `set_test_type`. -/
def setTestType (mstart m : Magic) : Magic :=
  if isBinary m.type then { mstart with flag := mstart.flag ||| BINTEST }
  else if isTextual m.type then
    let flag := mstart.flag ||| (if has mstart.strFlags STRING_BINTEST then BINTEST else 0)
    let flag := flag ||| if has mstart.strFlags STRING_TEXTTEST then TEXTTEST else 0
    if has flag (TEXTTEST ||| BINTEST) then { mstart with flag }
    else if m.type ≠ .regex ∧ m.type ≠ .search then { mstart with flag := flag ||| BINTEST }
    else if (fileLooksUtf8 m.pattern none).1 ≤ 0 then { mstart with flag := flag ||| BINTEST }
    else { mstart with flag := flag ||| TEXTTEST }
  else mstart

/-- The first lines of the entries, with those below each. -/
abbrev Entries := List (Magic × List Magic)

/-- The loop of `set_text_binary` behind its first round: the first line of the entry where it started. -/
def setTextBinary (mstart : Magic) : Entries → Magic × Entries × Entries
  | [] => (mstart, [], [])
  | e :: me =>
      if e.1.contLevel ≠ 0 then
        let r := setTextBinary (setTestType mstart e.1) me
        (r.1, e :: r.2.1, r.2.2)
      else (mstart, [], e :: me)

/-- The loop of `apprentice_load` over the entries of a set. -/
def setTypes : (rounds : Nat) → Entries → Entries
  | 0, me => me
  | _, [] => []
  | rounds + 1, e :: me =>
      if e.1.contLevel ≠ 0 then e :: setTypes rounds me
      else
        let r := setTextBinary (setTestType e.1 e.1) me
        (r.1, e.2) :: (r.2.1 ++ setTypes rounds r.2.2)

def pair (e : TopEntry) : Magic × List Magic := (e.head, e.below)

/-- An array that `apprentice_load` makes of the entries of a set. -/
def Loaded (me : List TopEntry) (magic : List Magic) : Prop :=
  ∃ sorted : List TopEntry, (sorted.map pair).Perm (setTypes me.length (me.map pair)) ∧ magic = array sorted

/-! ## The marks of an entry -/

/-- Neither mark is set when a line has been parsed. -/
def Unmarked (m : Magic) : Prop := m.flag &&& BINTEST = 0 ∧ m.flag &&& TEXTTEST = 0

/-- What a type and its modifiers say of an entry. -/
def testsOf (m : Magic) : Nat :=
  if isBinary m.type then BINTEST
  else if isTextual m.type then
    match has m.strFlags STRING_BINTEST, has m.strFlags STRING_TEXTTEST with
    | true, true => BINTEST ||| TEXTTEST
    | true, false => BINTEST
    | false, true => TEXTTEST
    | false, false =>
        if (m.type = .regex ∨ m.type = .search) ∧ 0 < (fileLooksUtf8 m.pattern none).1 then TEXTTEST else BINTEST
  else 0

theorem has_marks {flag bits : Nat} (unmarked : flag &&& BINTEST = 0 ∧ flag &&& TEXTTEST = 0) :
    has (flag ||| bits) (TEXTTEST ||| BINTEST) = has bits (TEXTTEST ||| BINTEST) := by
  have none : flag &&& (TEXTTEST ||| BINTEST) = 0 := by
    rw [Nat.and_or_distrib_left, unmarked.1, unmarked.2]
    rfl
  unfold has
  rw [Nat.and_or_distrib_right, none, Nat.zero_or]

/-- `set_test_type` of an entry by its own line. -/
theorem setTestType_self {m : Magic} (unmarked : Unmarked m) :
    setTestType m m = { m with flag := m.flag ||| testsOf m } := by
  unfold setTestType testsOf
  by_cases binary : isBinary m.type = true
  · rw [if_pos binary, if_pos binary]
  rw [if_neg binary, if_neg binary]
  by_cases textual : isTextual m.type = true
  · rw [if_pos textual, if_pos textual]
    dsimp only
    rw [Nat.or_assoc, has_marks unmarked]
    cases bin : has m.strFlags STRING_BINTEST with
    | true =>
        cases text : has m.strFlags STRING_TEXTTEST with
        | true => rfl
        | false => rfl
    | false =>
        cases text : has m.strFlags STRING_TEXTTEST with
        | true => rfl
        | false =>
            dsimp only
            rw [if_neg Bool.false_ne_true, if_neg Bool.false_ne_true, Nat.or_zero, Nat.or_zero, if_neg (by decide)]
            by_cases other : m.type ≠ .regex ∧ m.type ≠ .search
            · rw [if_pos other, if_neg fun h => h.1.elim other.1 other.2]
            rw [if_neg other]
            have pattern : m.type = .regex ∨ m.type = .search := by
              by_contra neither
              exact other (not_or.mp neither)
            by_cases looks : (fileLooksUtf8 m.pattern none).1 ≤ 0
            · rw [if_pos looks, if_neg fun h => absurd h.2 (Int.not_lt.mpr looks)]
            · rw [if_neg looks, if_pos ⟨pattern, Int.not_le.mp looks⟩]
  · rw [if_neg textual, if_neg textual, Nat.or_zero]

/-- Whether the modifiers of a string keep it from a text, or from what is none. -/
def overridden (text : Bool) (m : Magic) : Bool :=
  let test := m.strFlags &&& (STRING_BINTEST ||| STRING_TEXTTEST)
  m.type.isString && ((text && test == STRING_BINTEST) || (!text && test == STRING_TEXTTEST))

/-- Whether a pass is for an entry that was not marked yet. -/
def inPass (mode : Nat) (text : Bool) (m : Magic) : Bool :=
  m.type == .name || (has (testsOf m) mode && !overridden text m)

theorem testsOf_cases (m : Magic) :
    testsOf m = 0 ∨ testsOf m = BINTEST ∨ testsOf m = TEXTTEST ∨ testsOf m = BINTEST ||| TEXTTEST := by
  unfold testsOf
  split
  · exact .inr (.inl rfl)
  split
  · split
    · exact .inr (.inr (.inr rfl))
    · exact .inr (.inl rfl)
    · exact .inr (.inr (.inl rfl))
    · split
      · exact .inr (.inr (.inl rfl))
      · exact .inr (.inl rfl)
  · exact .inl rfl

theorem marks_filter {m : Magic} {mode : Nat} (unmarked : Unmarked m) (pass : mode = BINTEST ∨ mode = TEXTTEST) :
    ((m.flag ||| testsOf m) &&& mode != mode) = !has (testsOf m) mode := by
  have none : m.flag &&& mode = 0 := by
    obtain rfl | rfl := pass
    · exact unmarked.1
    · exact unmarked.2
  rw [Nat.and_or_distrib_right, none, Nat.zero_or]
  obtain tests | tests | tests | tests := testsOf_cases m <;> obtain rfl | rfl := pass <;> rw [tests] <;> decide

def marked (e : TopEntry) : TopEntry := { e with head := { e.head with flag := e.head.flag ||| testsOf e.head } }

theorem isFiltered_marked {e : TopEntry} {call : Call} (unmarked : Unmarked e.head)
    (pass : call.mode = BINTEST ∨ call.mode = TEXTTEST) :
    isFiltered call (marked e).head = !inPass call.mode call.text e.head := by
  unfold isFiltered inPass
  change (e.head.type != .name && (overridden call.text e.head || (e.head.flag ||| testsOf e.head) &&& call.mode != call.mode)) = _
  rw [marks_filter unmarked pass, bne]
  cases e.head.type == MType.name with
  | true => rfl
  | false => cases overridden call.text e.head <;> cases has (testsOf e.head) call.mode <;> rfl

/-! ## The loop over the entries -/

theorem setTextBinary_pairs (mstart : Magic) (me : List TopEntry) :
    setTextBinary mstart (me.map pair) = (mstart, [], me.map pair) := by
  cases me with
  | nil => rfl
  | cons e me =>
      have top : ¬ (pair e).1.contLevel ≠ 0 := fun deeper => deeper e.top
      rw [List.map_cons, setTextBinary, if_neg top]

theorem setTypes_pairs {me : List TopEntry} (unmarked : ∀ e ∈ me, Unmarked e.head) {rounds : Nat} (enough : me.length ≤ rounds) :
    setTypes rounds (me.map pair) = (me.map marked).map pair := by
  induction me generalizing rounds with
  | nil => cases rounds <;> rfl
  | cons e me ih =>
      cases rounds with
      | zero => cases enough
      | succ rounds =>
          have top : ¬ (pair e).1.contLevel ≠ 0 := fun deeper => deeper e.top
          rw [List.map_cons, List.map_cons, List.map_cons, setTypes, if_neg top, setTextBinary_pairs]
          dsimp only
          rw [List.nil_append, ih (fun e mem => unmarked e (List.mem_cons_of_mem _ mem)) (Nat.le_of_succ_le_succ enough)]
          change (setTestType e.head e.head, e.below) :: _ = _
          rw [setTestType_self (unmarked e List.mem_cons_self)]
          rfl

theorem pair_injective : Function.Injective pair := by
  rintro ⟨head, below, top, deeper⟩ ⟨head', below', top', deeper'⟩ same
  cases same
  rfl

/-- What is loaded is what was read with its marks, in another order. -/
theorem Loaded.marks {me : List TopEntry} {magic : List Magic} (loaded : Loaded me magic)
    (unmarked : ∀ e ∈ me, Unmarked e.head) : ∃ sorted : List TopEntry, sorted.Perm (me.map marked) ∧ magic = array sorted := by
  obtain ⟨sorted, perm, rfl⟩ := loaded
  rw [setTypes_pairs unmarked (Nat.le_refl _)] at perm
  exact ⟨sorted, (List.map_perm_map_iff pair_injective).mp perm, rfl⟩

/-! ## A pass over what was loaded -/

/-- What is left of an array for a pass: the entries it is for, with their marks, in the order of the array. -/
structure LeftFor (mode : Nat) (text : Bool) (me : List TopEntry) (magic : List Magic) (es : List TopEntry) : Prop where
  entries : es.Perm ((me.filter fun e => inPass mode text e.head).map marked)
  order : (array es).Sublist magic

theorem Loaded.leftFor {me : List TopEntry} {magic : List Magic} (loaded : Loaded me magic)
    (unmarked : ∀ e ∈ me, Unmarked e.head) {call : Call} (pass : call.mode = BINTEST ∨ call.mode = TEXTTEST) :
    ∃ sorted, magic = array sorted ∧ LeftFor call.mode call.text me magic (tried call sorted) := by
  obtain ⟨sorted, perm, rfl⟩ := loaded.marks unmarked
  refine ⟨sorted, rfl, ?_, (@List.filter_sublist _ _ sorted).flatMap _⟩
  have kept := perm.filter fun e => !isFiltered call e.head
  rw [List.filter_map] at kept
  have same : me.filter ((fun e => !isFiltered call e.head) ∘ marked) =
      me.filter fun e => inPass call.mode call.text e.head := by
    refine List.filter_congr fun e mem => ?_
    rw [Function.comp_apply, isFiltered_marked (unmarked e mem) pass, Bool.not_not]
  rwa [same] at kept

/-- For magic that was loaded, a pass of `file_softmagic` goes through the entries that their types and modifiers say it
is for, in the order of the arrays, and through no others. -/
theorem fileSoftmagic_passes {sets : List (List TopEntry)} {env : Env} (loaded : List.Forall₂ Loaded sets env.mlist)
    (unmarked : ∀ me ∈ sets, ∀ e ∈ me, Unmarked e.head) {mode : Nat} (pass : mode = BINTEST ∨ mode = TEXTTEST) (text : Bool)
    (s : Scan) : ∃ kept : List (List TopEntry),
      List.Forall₂ (fun set es => LeftFor mode text set.1 set.2 es) (sets.zip env.mlist) kept ∧
      fileSoftmagic env mode text s = softmagicLoop env { offset := 0, mode, text, flip := false } (kept.map array) false
        { s with printedSomething := false, needSeparator := false, firstline := true } := by
  have each {sets : List (List TopEntry)} {mlist : List (List Magic)} (loaded : List.Forall₂ Loaded sets mlist)
      (unmarked : ∀ me ∈ sets, ∀ e ∈ me, Unmarked e.head) : ∃ sorted : List (List TopEntry), mlist = sorted.map array ∧
      List.Forall₂ (fun set es => LeftFor mode text set.1 set.2 es) (sets.zip mlist)
        (sorted.map (tried { offset := 0, mode, text, flip := false })) := by
    induction loaded with
    | nil => exact ⟨[], rfl, .nil⟩
    | @cons me magic _ _ first _ ih =>
        obtain ⟨sorted, rfl, rest⟩ := ih fun me mem => unmarked me (List.mem_cons_of_mem _ mem)
        obtain ⟨front, rfl, left⟩ :=
          @Loaded.leftFor _ _ first (unmarked me List.mem_cons_self) { offset := 0, mode, text, flip := false } pass
        exact ⟨front :: sorted, rfl, .cons left rest⟩
  obtain ⟨sorted, same, left⟩ := each loaded unmarked
  refine ⟨_, left, ?_⟩
  unfold fileSoftmagic
  rw [List.map_map, same]
  exact softmagicLoop_tried env _ sorted false _

/-- `0 byte x`, as it was read. -/
def byteTop : TopEntry := ⟨{ plainLine with flag := 0 }, [], rfl, fun _ => nofun⟩

/-- `0 default x`. -/
def defaultTop : TopEntry := ⟨{ plainLine with flag := 0, type := .default }, [], rfl, fun _ => nofun⟩

def byteLoaded : Env := plainEnv [array [marked defaultTop, marked byteTop]] []

theorem byteLoaded_unmarked : ∀ me ∈ [[byteTop, defaultTop]], ∀ e ∈ me, Unmarked e.head := by
  intro me mem e there
  rw [List.mem_singleton.mp mem] at there
  obtain rfl | there := List.mem_cons.mp there
  · exact ⟨rfl, rfl⟩
  · rw [List.mem_singleton.mp there]
    exact ⟨rfl, rfl⟩

theorem byteLoaded_loaded : List.Forall₂ Loaded [[byteTop, defaultTop]] byteLoaded.mlist := by
  refine .cons ⟨[marked defaultTop, marked byteTop], ?_, rfl⟩ .nil
  rw [setTypes_pairs (byteLoaded_unmarked _ (List.mem_singleton_self _)) (Nat.le_refl _)]
  exact List.Perm.swap _ _ _

theorem fileSoftmagic_passes_byte : ∃ kept : List (List TopEntry),
    List.Forall₂ (fun set es => LeftFor BINTEST false set.1 set.2 es) ([[byteTop, defaultTop]].zip byteLoaded.mlist) kept ∧
    fileSoftmagic byteLoaded BINTEST false (plainScan [0x61]) =
      softmagicLoop byteLoaded { offset := 0, mode := BINTEST, text := false, flip := false } (kept.map array) false
        { plainScan [0x61] with printedSomething := false, needSeparator := false, firstline := true } :=
  fileSoftmagic_passes byteLoaded_loaded byteLoaded_unmarked (.inl rfl) false (plainScan [0x61])

/-- A `default` at the top level is in no pass. -/
example (text : Bool) : inPass BINTEST text defaultTop.head = false ∧ inPass TEXTTEST text defaultTop.head = false := ⟨rfl, rfl⟩

end Libmagic.Apprentice
