import Libmagic.Apprentice.Parse

/-!
# `apprentice.c`: the lines of an entry

What `parse` stores of the front of a line, the level and the two offsets, and how `load_1`
puts lines together to entries. What is behind the condition of a line uses none of these
fields: it is a parameter that says whether the line is accepted.
-/
namespace Libmagic.Apprentice

open Softmagic

/-! ## The front of a line -/

/-- The front of a line as it is read; a number that is not there is 0. -/
structure Front where
  contLevel : Nat
  flag : Nat
  offset : Option Number
  inType : MType
  inOp : Nat
  inOffset : Option Number

/-- What `strtol` returns, which is a `long`. -/
def Number.strtol (n : Number) : Int := max (-2 ^ 63) (min n.value (2 ^ 63 - 1))

/-- The fields of `struct magic`. -/
structure Line where
  contLevel : Nat
  flag : Nat
  offset : Int
  inType : MType
  inOp : Nat
  inOffset : Int
  deriving DecidableEq

/-- `CAST(int32_t, strtol(l, &t, 0))`. -/
def castOffset (n : Option Number) : Int := (n.map fun n => sN 32 n.strtol).getD 0

/-- The integer that is written. -/
def writtenOffset (n : Option Number) : Int := (n.map Number.value).getD 0

def Front.line (m : Front) : Line :=
  { m with offset := castOffset m.offset, inOffset := castOffset m.inOffset }

/-- The type for a letter. -/
def inTypeOf (c : UInt8) : Option MType :=
  if c = 0x6c then some .lelong
  else if c = 0x4c then some .belong
  else if c = 0x6d then some .melong
  else if c = 0x68 ∨ c = 0x73 then some .leshort
  else if c = 0x48 ∨ c = 0x53 then some .beshort
  else if c = 0x63 ∨ c = 0x62 ∨ c = 0x43 ∨ c = 0x42 then some .byte
  else if c = 0x65 ∨ c = 0x66 ∨ c = 0x67 then some .ledouble
  else if c = 0x45 ∨ c = 0x46 ∨ c = 0x47 then some .bedouble
  else if c = 0x69 then some .leid3
  else if c = 0x49 then some .beid3
  else if c = 0x6f then some .octal
  else if c = 0x71 then some .lequad
  else if c = 0x51 then some .bequad
  else none

/-- `get_op`. -/
def getOp (c : UInt8) : Option Nat := (asc "&|^+-*/%").idxOf? c

/-- The type behind `.` or `,`. -/
def frontInType (m : Front) (l : Bytes) : Except Front (Front × Bytes) :=
  let (signed, tail) := stepOver 0x2c l
  let m := if signed then { m with inOp := m.inOp ||| FILE_OPSIGNED } else m
  if signed ∨ l.head? = some 0x2e then
    let l := if signed then tail else l.tail
    match inTypeOf (l.headD 0) with
    | none => .error m
    | some inType => .ok ({ m with inType }, l.tail)
  else .ok (m, l)

/-- The number of `m->in_offset`. -/
def frontInOffset (m : Front) (l : Bytes) : Except Front (Front × Bytes) :=
  if isdigit (l.headD 0) || l.headD 0 == 0x2d then
    match readNumber l with
    | none => .error m
    | some n => .ok ({ m with inOffset := some n }, n.rest)
  else .ok (m, l)

/-- What is between the type and the number; `true` is an opening parenthesis. -/
def frontOps (m : Front) (l : Bytes) : Bool × Front × Bytes :=
  let (inverse, l) := stepOver 0x7e l
  let inOp := if inverse then m.inOp ||| FILE_OPINVERSE else m.inOp
  let (inOp, l) :=
    match getOp (l.headD 0) with
    | some op => (inOp ||| op, l.tail)
    | none => (inOp, l)
  let (indirect, l) := stepOver 0x28 l
  (indirect, { m with inOp := if indirect then inOp ||| FILE_OPINDIRECT else inOp }, l)

/-- The closing parentheses. -/
def frontClose (indirect : Bool) (m : Front) (l : Bytes) : Except Front (Front × Bytes) :=
  let (closed, l) := stepOver 0x29 l
  if !closed then .error m
  else if !indirect then .ok (m, l)
  else
    let (closed, l) := stepOver 0x29 l
    if closed then .ok (m, l) else .error m

/-- The rest of an indirect offset. -/
def frontIndirect (m : Front) (l : Bytes) : Except Front (Front × Bytes) := do
  let r ← frontInType { m with inType := .long } l
  let ops := frontOps r.1 r.2
  let r ← frontInOffset ops.2.1 ops.2.2
  frontClose ops.1 r.1 r.2

/-- The flags in front of the sign, and whether the offset is indirect. -/
def frontFlags (l : Bytes) : Nat × Bool × Bytes :=
  let (relative, l) := stepOver 0x26 l
  let (indir, l) := stepOver 0x28 l
  let flag :=
    if indir then (if relative then INDIR ||| INDIROFFADD else INDIR)
    else if relative then OFFADD else 0
  let (inner, l) := if indir then stepOver 0x26 l else (false, l)
  (if inner then flag ||| OFFADD else flag, indir, l)

def frontSign (flag : Nat) (l : Bytes) : Nat × Bytes :=
  let (negative, l) := stepOver 0x2d l
  if negative then (flag ||| OFFNEGATIVE, l)
  else
    let (positive, l) := stepOver 0x2b l
    (if positive then flag ||| OFFPOSITIVE else flag, l)

/-- `parse` from behind the `>`s to the end of the offset, for a line whose `m->cont_level` is
`contLevel`: the line and the rest of the text, or the line as an error leaves it. -/
def front (contLevel : Nat) (l : Bytes) : Except Front (Front × Bytes) :=
  let (flag, indir, l) := frontFlags l
  let m : Front := { contLevel, flag, offset := none, inType := .invalid, inOp := 0, inOffset := none }
  if contLevel = 0 ∧ has flag (OFFADD ||| INDIROFFADD) then .error m
  else
    let (flag, l) := frontSign flag l
    let m := { m with flag }
    match readNumber l with
    | none => .error m
    | some n =>
        let m := { m with offset := some n }
        if indir then frontIndirect m n.rest else .ok (m, n.rest)

/-! ## Entries -/

/-- The entry of a file that is read, with the lines of the entry and the entries that were added. -/
structure Loader where
  parser : Parser
  lines : List Line
  entries : List (List Line)

/-- How `parse` ends: a line that is accepted, one that an error leaves in the entry, an entry that has to
be added first, or an error before the line. -/
inductive Parsed where
  | accepted (m : Line)
  | spoiled (m : Line)
  | full
  | failed

/-- The line of the entry that `parse` has filled. -/
def Parsed.line : Parsed → Option Line
  | .accepted m | .spoiled m => some m
  | _ => none

/-- `parse`; `rest` says whether what is behind the condition is accepted. -/
def Loader.parse (host : Host) (rest : Bytes → Bool) (line : Bytes) (s : Loader) : Parsed × Loader :=
  let level := contLevel line
  match s.parser.openLevel host level with
  | (false, parser) => (.failed, { s with parser })
  | (true, parser) =>
      match parser.begin host level with
      | (.failed, parser) => (.failed, { s with parser })
      | (.full, parser) => (.full, { s with parser })
      | (.line, parser) =>
          match front (level % 2 ^ 8) (line.dropWhile (· == 0x3e)) with
          | .error m => (.spoiled m.line, { s with parser, lines := s.lines ++ [m.line] })
          | .ok (m, l) =>
              let l := eatab l
              let ok := (checkCond (getCond l) (parser.c.li level).lastCond).isSome && rest l
              (if ok then .accepted m.line else .spoiled m.line,
                { s with parser := parser.condition level l, lines := s.lines ++ [m.line] })

/-- `addentry`. -/
def Loader.addentry (s : Loader) : Loader :=
  { parser := { s.parser with entry := none }, lines := [], entries := s.entries ++ [s.lines] }

/-- One line in `load_1`. -/
def Loader.step (host : Host) (rest : Bytes → Bool) (line : Bytes) (s : Loader) : Parsed × Loader :=
  match s.parse host rest line with
  | (.full, s) => s.addentry.parse host rest line
  | r => r

/-- `load_1` on the lines that are no comments and no annotations. -/
def Loader.load (host : Host) (rest : Bytes → Bool) : List Bytes → Loader → Loader
  | [], s => s
  | line :: lines, s => load host rest lines (s.step host rest line).2

/-- How `parse` ended on each line. -/
def Loader.trace (host : Host) (rest : Bytes → Bool) : List Bytes → Loader → List (Bytes × Parsed)
  | [], _ => []
  | line :: lines, s =>
      (line, (s.step host rest line).1) :: trace host rest lines (s.step host rest line).2

/-- The entries, with the one that the end of the file adds. -/
def Loader.all (s : Loader) : List (List Line) := s.entries ++ if s.lines = [] then [] else [s.lines]

/-! ## What is written -/

/-- The number of `>`s. -/
def levelOf (line : Bytes) : Nat := (line.takeWhile (· == 0x3e)).length

/-- The integers of a line for its two offsets. -/
def written (line : Bytes) : Option (Int × Int) :=
  match front (contLevel line % 2 ^ 8) (line.dropWhile (· == 0x3e)) with
  | .error _ => none
  | .ok (m, _) => some (writtenOffset m.offset, writtenOffset m.inOffset)

/-- The line is stored as it is written. -/
def StoredExactly (line : Bytes) (m : Line) : Prop :=
  m.contLevel = levelOf line ∧ written line = some (m.offset, m.inOffset)

/-- The level and the offsets fit their fields. -/
def FitsFields (line : Bytes) : Prop :=
  levelOf line < 2 ^ 8 ∧ ∀ w, written line = some w →
    (-2 ^ 31 ≤ w.1 ∧ w.1 < 2 ^ 31) ∧ -2 ^ 31 ≤ w.2 ∧ w.2 < 2 ^ 31

/-- Only the first line of the entry has level 0. -/
def Delimited (e : List Line) : Prop :=
  ∃ m rest, e = m :: rest ∧ m.contLevel = 0 ∧ ∀ m' ∈ rest, m'.contLevel ≠ 0

/-- A continuation whose level is 0 in its field. -/
def LevelWraps (line : Bytes) : Prop := contLevel line ≠ 0 ∧ contLevel line % 2 ^ 8 = 0

theorem castOffset_eq_iff (n : Option Number) :
    castOffset n = writtenOffset n ↔ -2 ^ 31 ≤ writtenOffset n ∧ writtenOffset n < 2 ^ 31 := by
  cases n with
  | none =>
      change (0 : Int) = 0 ↔ _
      simp [writtenOffset]
  | some n =>
      change sN 32 n.strtol = n.value ↔ -2 ^ 31 ≤ n.value ∧ n.value < 2 ^ 31
      simp only [sN, Number.strtol]
      omega

/-! ### The level of a line -/

/-- Lines that are left have the level. -/
def Keeps (level : Nat) : Except Front (Front × Bytes) → Prop
  | .error m => m.contLevel = level
  | .ok (m, _) => m.contLevel = level

section
variable {level : Nat} {m : Front}

theorem Keeps.bind {r : Except Front (Front × Bytes)} {f : Front × Bytes → Except Front (Front × Bytes)}
    (first : Keeps level r) (next : ∀ m l, m.contLevel = level → Keeps level (f (m, l))) :
    Keeps level (r >>= f) := by
  cases r with
  | error m => exact first
  | ok r => exact next r.1 r.2 first

theorem keeps_ite {c : Prop} [Decidable c] {x y : Except Front (Front × Bytes)} (hx : Keeps level x)
    (hy : Keeps level y) : Keeps level (if c then x else y) := by
  split
  · exact hx
  · exact hy

theorem frontInType_keeps (keeps : m.contLevel = level) (l : Bytes) : Keeps level (frontInType m l) := by
  have signed : (if (stepOver 0x2c l).1 = true then { m with inOp := m.inOp ||| FILE_OPSIGNED } else m).contLevel =
      level := by
    split <;> exact keeps
  simp only [frontInType]
  apply keeps_ite
  · split <;> exact signed
  · exact signed

theorem frontInOffset_keeps (keeps : m.contLevel = level) (l : Bytes) : Keeps level (frontInOffset m l) := by
  rw [frontInOffset]
  apply keeps_ite
  · split <;> exact keeps
  · exact keeps

theorem frontClose_keeps (keeps : m.contLevel = level) (indirect : Bool) (l : Bytes) :
    Keeps level (frontClose indirect m l) := by
  rw [frontClose]
  repeat' apply keeps_ite
  all_goals exact keeps

theorem frontIndirect_keeps (keeps : m.contLevel = level) (l : Bytes) : Keeps level (frontIndirect m l) := by
  have start : ({ m with inType := .long } : Front).contLevel = level := keeps
  apply Keeps.bind (frontInType_keeps start l)
  intro m l keeps
  have ops : (frontOps m l).2.1.contLevel = level := keeps
  apply Keeps.bind (frontInOffset_keeps ops _)
  intro m' l' keeps
  exact frontClose_keeps keeps _ l'

theorem front_keeps (level : Nat) (l : Bytes) : Keeps level (front level l) := by
  rw [front]
  apply keeps_ite
  · rfl
  · dsimp only
    split
    · rfl
    · apply keeps_ite
      · exact frontIndirect_keeps rfl _
      · rfl

end

/-! ## Calls of `parse` -/

section
variable {line : Bytes} {s : Loader} {r : Parsed × Loader}

/-- What `parse` may find: the line of an entry, a whole entry, or an error that leaves the entry. -/
theorem begin_cases (host : Host) (level : Nat) (p : Parser) :
    ((p.begin host level).1 = .line ∧ (level = 0 ↔ p.entry = none) ∧ (p.begin host level).2.entry ≠ none) ∨
      ((p.begin host level).1 = .full ∧ level = 0 ∧ p.entry ≠ none ∧ (p.begin host level).2 = p) ∨
      ((p.begin host level).1 = .failed ∧ (p.begin host level).2.entry = p.entry) := by
  by_cases top : level = 0
  · rw [Parser.begin, if_pos top, Parser.newEntry]
    cases entry : p.entry with
    | some e => exact .inr (.inl ⟨rfl, top, (Option.some_ne_none _), rfl⟩)
    | none =>
        dsimp only
        split
        · exact .inl ⟨rfl, iff_of_true top rfl, (Option.some_ne_none _)⟩
        · exact .inr (.inr ⟨rfl, rfl⟩)
  · rw [Parser.begin, if_neg top]
    cases entry : p.entry with
    | none => exact .inr (.inr ⟨rfl, rfl⟩)
    | some e =>
        dsimp only [Parser.continueEntry]
        split_ifs
        · exact .inr (.inr ⟨rfl, entry⟩)
        · exact .inl ⟨rfl, iff_of_false top id, (Option.some_ne_none _)⟩
        · exact .inl ⟨rfl, iff_of_false top id, (Option.some_ne_none _)⟩
        · exact .inr (.inr ⟨rfl, entry⟩)

/-- The entry is being read exactly while it has lines. -/
def Loader.Consistent (s : Loader) : Prop := s.parser.entry = none ↔ s.lines = []

/-- What a call of `parse` did. -/
inductive ParseStep (line : Bytes) (s : Loader) : Parsed × Loader → Prop
  | failed (s' : Loader) (lines : s'.lines = s.lines) (entries : s'.entries = s.entries)
      (consistent : s'.Consistent) : ParseStep line s (.failed, s')
  | full (s' : Loader) (level : contLevel line = 0) (some : s.lines ≠ []) (lines : s'.lines = s.lines)
      (entries : s'.entries = s.entries) (consistent : s'.Consistent) : ParseStep line s (.full, s')
  | line (r : Parsed) (m : Line) (s' : Loader) (filled : r.line = some m)
      (level : contLevel line = 0 ↔ s.lines = []) (contLevel : m.contLevel = contLevel line % 2 ^ 8)
      (written : r = .accepted m →
        ∃ f l, front (Apprentice.contLevel line % 2 ^ 8) (line.dropWhile (· == 0x3e)) = .ok (f, l) ∧ m = f.line)
      (lines : s'.lines = s.lines ++ [m]) (entries : s'.entries = s.entries) (consistent : s'.Consistent) :
      ParseStep line s (r, s')

theorem openLevel_entry (host : Host) (level : Nat) (p : Parser) :
    (p.openLevel host level).2.entry = p.entry := by
  simp only [Parser.openLevel]
  split_ifs <;> rfl

theorem parse_step (host : Host) (rest : Bytes → Bool) (line : Bytes) {s : Loader} (consistent : s.Consistent) :
    ParseStep line s (s.parse host rest line) := by
  have kept := openLevel_entry host (contLevel line) s.parser
  rw [Loader.parse]
  rcases opened : s.parser.openLevel host (contLevel line) with ⟨_ | _, p⟩
  all_goals
    rw [opened] at kept
    dsimp only at kept ⊢
  · exact .failed _ rfl rfl (by rw [Loader.Consistent, kept]; exact consistent)
  have entry : p.entry = none ↔ s.lines = [] := by
    rw [kept]
    exact consistent
  have cases := begin_cases host (contLevel line) p
  rcases begun : p.begin host (contLevel line) with ⟨_ | _ | _, p'⟩
  all_goals
    rw [begun] at cases
    dsimp only at cases ⊢
  · obtain ⟨none, _⟩ | ⟨none, _⟩ | ⟨_, same⟩ := cases
    · cases none
    · cases none
    · exact .failed _ rfl rfl (by rw [Loader.Consistent, same]; exact entry)
  · obtain ⟨none, _⟩ | ⟨_, level, some, rfl⟩ | ⟨none, _⟩ := cases
    · cases none
    · exact .full _ level (fun nil => some (entry.mpr nil)) rfl rfl entry
    · cases none
  · obtain ⟨_, level, some⟩ | ⟨none, _⟩ | ⟨none, _⟩ := cases
    swap
    · cases none
    swap
    · cases none
    have level : contLevel line = 0 ↔ s.lines = [] := level.trans entry
    have keeps := front_keeps (contLevel line % 2 ^ 8) (line.dropWhile (· == 0x3e))
    have more (m : Line) : s.lines ++ [m] ≠ [] := List.append_ne_nil_of_right_ne_nil _ (List.cons_ne_nil _ _)
    rcases read : front (contLevel line % 2 ^ 8) (line.dropWhile (· == 0x3e)) with m | ⟨m, l⟩
    all_goals rw [read] at keeps
    · exact .line _ m.line _ rfl level keeps nofun rfl rfl (iff_of_false some (more _))
    · have same : (p'.condition (contLevel line) (eatab l)).entry = p'.entry :=
        (condition_kept (contLevel line) (eatab l) p').2.1
      refine .line _ m.line _ ?_ level keeps (fun _ => ⟨m, l, read, rfl⟩) rfl rfl
        (iff_of_false (by rw [same]; exact some) (more _))
      split <;> rfl

/-- A line in `load_1`: nothing is stored, or a line behind the others or of a new entry. -/
inductive LoadStep (line : Bytes) (s : Loader) : Parsed × Loader → Prop
  | none (r : Parsed) (s' : Loader) (empty : r.line = .none)
      (same : s'.all = s.all) (consistent : s'.Consistent) : LoadStep line s (r, s')
  | line (r : Parsed) (m : Line) (s' : Loader) (filled : r.line = some m)
      (level : m.contLevel = contLevel line % 2 ^ 8)
      (written : r = .accepted m →
        ∃ f l, front (contLevel line % 2 ^ 8) (line.dropWhile (· == 0x3e)) = .ok (f, l) ∧ m = f.line)
      (all : contLevel line = 0 ∧ s'.all = s.all ++ [[m]] ∨
        contLevel line ≠ 0 ∧ s.lines ≠ [] ∧ s.all = s.entries ++ [s.lines] ∧
          s'.all = s.entries ++ [s.lines ++ [m]])
      (consistent : s'.Consistent) : LoadStep line s (r, s')

theorem all_of_lines {s s' : Loader} (lines : s'.lines = s.lines) (entries : s'.entries = s.entries) :
    s'.all = s.all := by
  rw [Loader.all, Loader.all, lines, entries]

theorem all_of_some {s : Loader} (some : s.lines ≠ []) : s.all = s.entries ++ [s.lines] := by
  rw [Loader.all, if_neg some]

theorem all_of_nil {s : Loader} (nil : s.lines = []) : s.all = s.entries := by
  rw [Loader.all, if_pos nil, List.append_nil]

theorem step_load (host : Host) (rest : Bytes → Bool) (line : Bytes) {s : Loader} (consistent : s.Consistent) :
    LoadStep line s (s.step host rest line) := by
  rw [Loader.step]
  have first := parse_step host rest line consistent
  generalize s.parse host rest line = r at first
  cases first with
  | failed s' lines entries consistent => exact .none .failed s' rfl (all_of_lines lines entries) consistent
  | full s' level some lines entries consistent =>
      -- the entry is added, and the line is the first one of the next entry
      have added : s'.addentry.all = s.all := by
        rw [all_of_some some, ← lines, ← entries]
        exact all_of_nil rfl
      have second := parse_step host rest line (show s'.addentry.Consistent from iff_of_true rfl rfl)
      dsimp only
      generalize s'.addentry.parse host rest line = r at second
      cases second with
      | failed s'' lines' entries' consistent' =>
          exact .none .failed s'' rfl ((all_of_lines lines' entries').trans added) consistent'
      | full s'' _ some' _ _ _ => exact absurd rfl some'
      | line r m s'' filled _ contLevel written lines' entries' consistent' =>
          refine .line r m s'' filled contLevel written (.inl ⟨level, ?_⟩) consistent'
          have nonempty : s''.lines ≠ [] := by
            rw [lines']
            exact List.append_ne_nil_of_right_ne_nil _ (List.cons_ne_nil _ _)
          rw [all_of_some nonempty, lines', entries', ← added, @all_of_nil s'.addentry rfl]
          rfl
  | line r m s' filled level contLevel' written lines entries consistent =>
      have nonempty : s'.lines ≠ [] := by
        rw [lines]
        exact List.append_ne_nil_of_right_ne_nil _ (List.cons_ne_nil _ _)
      have all := all_of_some nonempty
      rw [lines, entries] at all
      have step : LoadStep line s (r, s') := by
        refine .line r m s' filled contLevel' written ?_ consistent
        by_cases top : contLevel line = 0
        · have nil := level.mp top
          rw [nil, List.nil_append] at all
          exact .inl ⟨top, by rw [all, all_of_nil nil]⟩
        · have some : s.lines ≠ [] := fun nil => top (level.mpr nil)
          exact .inr ⟨top, some, all_of_some some, all⟩
      cases r with
      | full => cases filled
      | failed => cases filled
      | accepted => exact step
      | spoiled => exact step

/-! ## Whole files -/

theorem delimited_append {e : List Line} (some : e ≠ []) (m : Line) :
    Delimited (e ++ [m]) ↔ Delimited e ∧ m.contLevel ≠ 0 := by
  cases e with
  | nil => exact absurd rfl some
  | cons first others =>
      constructor
      · rintro ⟨_, _, eq, top, below⟩
        obtain ⟨rfl, rfl⟩ := List.cons.inj eq
        exact ⟨⟨first, others, rfl, top, fun m' mem => below m' (List.mem_append_left _ mem)⟩,
          below m (List.mem_append_right _ (List.mem_singleton_self m))⟩
      · rintro ⟨⟨_, _, eq, top, below⟩, other⟩
        obtain ⟨rfl, rfl⟩ := List.cons.inj eq
        refine ⟨first, others ++ [m], rfl, top, fun m' mem => ?_⟩
        rcases List.mem_append.mp mem with mem | mem
        · exact below m' mem
        · exact List.mem_singleton.mp mem ▸ other

theorem LoadStep.consistent (step : LoadStep line s r) : r.2.Consistent := by
  cases step with
  | none _ _ _ _ consistent => exact consistent
  | line _ _ _ _ _ _ _ consistent => exact consistent

theorem step_delimited (step : LoadStep line s r) :
    (∀ e ∈ r.2.all, Delimited e) ↔
      (∀ e ∈ s.all, Delimited e) ∧ (r.1.line ≠ none → ¬ LevelWraps line) := by
  cases step with
  | none r s' empty same _ =>
      rw [same]
      exact ⟨fun h => ⟨h, fun some => absurd empty some⟩, And.left⟩
  | line r m s' filled level _ all _ =>
      have stored : (r.line ≠ none → ¬ LevelWraps line) ↔ ¬ LevelWraps line := by
        rw [filled]
        exact ⟨fun h => h nofun, fun h _ => h⟩
      rw [stored]
      rcases all with ⟨top, all⟩ | ⟨deeper, some, before, all⟩
      · have first : Delimited [m] := by
          refine ⟨m, [], rfl, ?_, List.forall_mem_nil _⟩
          rw [level, top]
          rfl
        have fits : ¬ LevelWraps line := fun wraps => wraps.1 top
        rw [all]
        simp only [List.forall_mem_append, List.forall_mem_singleton, first, fits, and_true, not_false_eq_true]
      · have wraps : m.contLevel ≠ 0 ↔ ¬ LevelWraps line := by
          rw [level]
          exact ⟨fun ne h => ne h.2, fun h zero => h ⟨deeper, zero⟩⟩
        rw [all, before]
        simp only [List.forall_mem_append, List.forall_mem_singleton, delimited_append some, wraps, and_assoc]

theorem step_exact {m : Line} (step : LoadStep line s r) (accepted : r.1 = .accepted m) :
    StoredExactly line m ↔ FitsFields line := by
  cases step with
  | none r s' empty _ _ =>
      dsimp only at accepted
      rw [accepted] at empty
      cases empty
  | line r m' s' filled level written' _ _ =>
      dsimp only at accepted
      rw [accepted] at filled
      obtain rfl : m = m' := Option.some.inj filled
      obtain ⟨f, l, read, rfl⟩ := written' accepted
      have numbers : written line = some (writtenOffset f.offset, writtenOffset f.inOffset) := by
        rw [written, read]
      have count : contLevel line % 2 ^ 8 = levelOf line % 2 ^ 8 := by
        rw [contLevel]
        exact Nat.mod_mod_of_dvd _ (by decide)
      have stored : StoredExactly line f.line ↔ contLevel line % 2 ^ 8 = levelOf line ∧
          castOffset f.offset = writtenOffset f.offset ∧ castOffset f.inOffset = writtenOffset f.inOffset := by
        rw [StoredExactly, level, numbers, Option.some.injEq, Prod.mk.injEq]
        exact and_congr_right' (and_congr eq_comm eq_comm)
      rw [stored, castOffset_eq_iff, castOffset_eq_iff, FitsFields, numbers, count]
      refine and_congr ?_ ?_
      · exact ⟨fun eq => eq ▸ Nat.mod_lt _ (by decide), Nat.mod_eq_of_lt⟩
      · constructor
        · rintro h w eq
          obtain rfl := Option.some.inj eq
          exact h
        · exact fun h => h _ rfl

end

/-- The entries of a run are delimited exactly when no line that it stores wraps. -/
theorem load_delimited (host : Host) (rest : Bytes → Bool) (lines : List Bytes) {s : Loader} (consistent : s.Consistent) :
    (∀ e ∈ (s.load host rest lines).all, Delimited e) ↔ (∀ e ∈ s.all, Delimited e) ∧
      ∀ r ∈ s.trace host rest lines, r.2.line ≠ none → ¬ LevelWraps r.1 := by
  induction lines generalizing s with
  | nil => exact ⟨fun h => ⟨h, List.forall_mem_nil _⟩, And.left⟩
  | cons line lines ih =>
      have step := step_load host rest line consistent
      rw [Loader.load, Loader.trace, ih step.consistent, step_delimited step, List.forall_mem_cons, and_assoc]

/-- Each line that a run accepts is stored as it is written exactly when it fits the fields. -/
theorem load_exact (host : Host) (rest : Bytes → Bool) (lines : List Bytes) {s : Loader} (consistent : s.Consistent) :
    ∀ r ∈ s.trace host rest lines, ∀ m, r.2 = .accepted m → (StoredExactly r.1 m ↔ FitsFields r.1) := by
  induction lines generalizing s with
  | nil => exact List.forall_mem_nil _
  | cons line lines ih =>
      have step := step_load host rest line consistent
      rw [Loader.trace, List.forall_mem_cons]
      exact ⟨fun m accepted => step_exact step accepted, ih step.consistent⟩

/-- The loader when a file is opened. -/
def Loader.start (p : Parser) : Loader := { parser := { p with entry := none }, lines := [], entries := [] }

/-- What the lines of a file are stored as, and how entries are told apart. -/
structure StoredAsWritten (host : Host) (rest : Bytes → Bool) (lines : List Bytes) (s : Loader) : Prop where
  accepted : ∀ r ∈ s.trace host rest lines, ∀ m, r.2 = .accepted m → StoredExactly r.1 m
  delimited : ∀ e ∈ (s.load host rest lines).all, Delimited e

theorem forall_byte {P : UInt8 → Prop} (h : ∀ n : Fin 256, P (UInt8.ofNat n)) (c : UInt8) : P c := by
  have here := h ⟨c.toNat, c.toNat_lt⟩
  rwa [UInt8.ofNat_toNat] at here

theorem inTypeOf_isSome : ∀ c : UInt8, (inTypeOf c).isSome = inTypes.contains c := by
  intro c
  have known : inTypes.all (fun c => (inTypeOf c).isSome) = true := by decide
  have letters : inTypes = [0x6c, 0x4c, 0x6d, 0x68, 0x48, 0x73, 0x53, 0x63, 0x43, 0x62, 0x42, 0x65, 0x66, 0x67, 0x45,
      0x46, 0x47, 0x69, 0x49, 0x6f, 0x71, 0x51] := by decide
  cases mem : inTypes.contains c with
  | true => exact List.all_eq_true.mp known c (List.contains_iff_mem.mp mem)
  | false =>
      have other : c ∉ inTypes := fun mem' => Bool.false_ne_true (mem.symm.trans (List.contains_iff_mem.mpr mem'))
      rw [letters] at other
      simp only [List.mem_cons, List.not_mem_nil, or_false, not_or] at other
      simp only [inTypeOf, other, or_false, if_false, Option.isSome_none]

theorem getOp_isSome : ∀ c : UInt8, (getOp c).isSome = isOp c :=
  forall_byte (by decide +kernel)

/-- The rest of the text. -/
def restOf : Except Front (Front × Bytes) → Option Bytes
  | .error _ => none
  | .ok r => some r.2

theorem restOf_bind (r : Except Front (Front × Bytes)) (f : Front × Bytes → Except Front (Front × Bytes))
    (g : Bytes → Option Bytes) (same : ∀ m l, restOf (f (m, l)) = g l) : restOf (r >>= f) = (restOf r).bind g := by
  cases r with
  | error m => rfl
  | ok r => exact same r.1 r.2

theorem frontInType_rest (m : Front) (l : Bytes) : restOf (frontInType m l) = readInType l := by
  cases l with
  | nil => rfl
  | cons c l =>
      have type (m : Front) (sep : c = 0x2e ∨ c = 0x2c) : restOf (frontInType m (c :: l)) = readInType (c :: l) := by
        cases l with
        | nil => rcases sep with rfl | rfl <;> rfl
        | cons d l =>
            have known := inTypeOf_isSome d
            rcases sep with rfl | rfl
            all_goals
              simp only [frontInType, readInType, List.head?_cons, List.tail_cons, ← known,
                stepOver]
              simp
              cases inTypeOf d <;> rfl
      by_cases comma : c = 0x2c
      · exact type m (.inr comma)
      · by_cases dot : c = 0x2e
        · exact type m (.inl dot)
        · simp [frontInType, readInType, stepOver, comma, dot, restOf]

theorem frontOps_rest (m : Front) (l : Bytes) :
    ((frontOps m l).1, (frontOps m l).2.2) = (let l := (stepOver 0x7e l).2; stepOver 0x28 (if l.head?.any isOp then l.tail else l)) := by
  simp only [frontOps]
  generalize (stepOver 0x7e l).2 = l
  cases l with
  | nil => rfl
  | cons c l =>
      rw [List.headD_cons, List.head?_cons, Option.any_some, ← getOp_isSome]
      cases getOp c <;> rfl

theorem frontInOffset_rest (m : Front) (l : Bytes) : restOf (frontInOffset m l) = readInOffset l := by
  cases l with
  | nil => rfl
  | cons c l =>
      rw [frontInOffset, readInOffset, List.headD_cons]
      split_ifs
      · cases readNumber (c :: l) <;> rfl
      · rfl

theorem frontClose_rest (indirect : Bool) (m : Front) (l : Bytes) : restOf (frontClose indirect m l) =
    if !(stepOver 0x29 l).1 then none
    else if !indirect then some (stepOver 0x29 l).2
    else if (stepOver 0x29 (stepOver 0x29 l).2).1 then some (stepOver 0x29 (stepOver 0x29 l).2).2 else none := by
  simp only [frontClose]
  split_ifs <;> rfl

theorem frontIndirect_rest (m : Front) (l : Bytes) : restOf (frontIndirect m l) = readIndirect l := by
  let close (indirect : Bool) (l : Bytes) : Option Bytes :=
    if !(stepOver 0x29 l).1 then none
    else if !indirect then some (stepOver 0x29 l).2
    else if (stepOver 0x29 (stepOver 0x29 l).2).1 then some (stepOver 0x29 (stepOver 0x29 l).2).2 else none
  let ops (l : Bytes) : Bool × Bytes :=
    stepOver 0x28 (if (stepOver 0x7e l).2.head?.any isOp then (stepOver 0x7e l).2.tail else (stepOver 0x7e l).2)
  have run : readIndirect l = (readInType l).bind fun l =>
      (readInOffset (ops l).2).bind (close (ops l).1) := by
    rw [readIndirect]
    cases readInType l with
    | none => rfl
    | some l =>
        dsimp only [Option.bind_some]
        cases readInOffset (ops l).2 with
        | none => rfl
        | some l => rfl
  rw [run, frontIndirect, ← frontInType_rest { m with inType := .long } l]
  apply restOf_bind
  intro m l
  have pair := frontOps_rest m l
  rw [← frontInOffset_rest (frontOps m l).2.1 (ops l).2, show ops l = ((frontOps m l).1, (frontOps m l).2.2) from pair.symm]
  apply restOf_bind
  intro m' l'
  exact frontClose_rest (frontOps m l).1 m' l'

theorem frontSign_rest (flag : Nat) (l : Bytes) :
    (frontSign flag l).2 = if l.head? = some 0x2d ∨ l.head? = some 0x2b then l.tail else l := by
  simp only [frontSign, stepOver]
  by_cases negative : l.head? = some 0x2d
  · simp [negative]
  · by_cases positive : l.head? = some 0x2b
    · simp [positive]
    · simp [negative, positive]

theorem front_rest (level : Nat) (l : Bytes) : restOf (front level l) = readOffset level l := by
  rcases relativeEq : stepOver 0x26 l with ⟨relative, l₁⟩
  rcases indirEq : stepOver 0x28 l₁ with ⟨indir, l₂⟩
  rcases innerEq : (if indir then stepOver 0x26 l₂ else (false, l₂)) with ⟨inner, l₃⟩
  obtain ⟨flag, flags, added⟩ : ∃ flag, frontFlags l = (flag, indir, l₃) ∧
      (has flag (OFFADD ||| INDIROFFADD) = true ↔ relative = true ∨ inner = true) := by
    refine ⟨_, by simp only [frontFlags, relativeEq, indirEq, innerEq]; rfl, ?_⟩
    cases relative <;> cases indir <;> cases inner <;> decide
  simp only [front, readOffset, flags, relativeEq, indirEq, innerEq, added]
  by_cases top : level = 0 ∧ (relative = true ∨ inner = true)
  · rw [if_pos top, if_pos top]
    rfl
  · rw [if_neg top, if_neg top, frontSign_rest]
    cases readNumber (if l₃.head? = some 0x2d ∨ l₃.head? = some 0x2b then l₃.tail else l₃) with
    | none => rfl
    | some n =>
        dsimp only
        split_ifs
        · exact frontIndirect_rest _ _
        · rfl

/-- The parser of a loader is the one whose accesses of the level table are followed. -/
theorem loader_parse_follows (host : Host) (rest : Bytes → Bool) (line : Bytes) (s : Loader) :
    (s.parse host rest line).2.parser = s.parser.parse host line := by
  rw [Loader.parse, Parser.parse]
  rcases s.parser.openLevel host (contLevel line) with ⟨_ | _, p⟩
  · rfl
  dsimp only
  rcases p.begin host (contLevel line) with ⟨_ | _ | _, p⟩
  · rfl
  · rfl
  dsimp only
  rw [← front_rest]
  cases front (contLevel line % 2 ^ 8) (line.dropWhile (· == 0x3e)) <;> rfl

end Libmagic.Apprentice
