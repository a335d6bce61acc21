import Libmagic.Apprentice.Number
import Libmagic.Softmagic.Accesses

/-!
# `apprentice.c`: the levels of the lines of a magic file

`parse` takes the level of a line from its `>`s. Whether the table is made longer for it
depends on `last_cont_level`, which is static: it is carried over from file to file and
from handle to handle. The rest of `parse`, behind `check_cond`, uses neither.
-/
namespace Libmagic.Apprentice

open Softmagic

/-! ## The text before the condition -/

def eatab (l : Bytes) : Bytes := l.dropWhile isspace

/-- `if (*l == c) ++l`. -/
def stepOver (c : UInt8) (l : Bytes) : Bool × Bytes :=
  if l.head? = some c then (true, l.tail) else (false, l)

/-- The letters for `m->in_type`. -/
def inTypes : Bytes := asc "lLmhHsScCbBefgEFGiIoqQ"

/-- `get_op(c) != -1`. -/
def isOp (c : UInt8) : Bool := (asc "&|^+-*/%").contains c

/-- The type behind `.` or `,`. -/
def readInType (l : Bytes) : Option Bytes :=
  if l.head? = some 0x2e ∨ l.head? = some 0x2c then
    match l.tail with
    | [] => none
    | c :: l => if inTypes.contains c then some l else none
  else some l

/-- The number of `m->in_offset`. -/
def readInOffset (l : Bytes) : Option Bytes :=
  match l with
  | [] => some l
  | c :: _ => if isdigit c || c == 0x2d then (readNumber l).map Number.rest else some l

/-- The rest of an indirect offset, with its closing parentheses. -/
def readIndirect (l : Bytes) : Option Bytes :=
  match readInType l with
  | none => none
  | some l =>
      let l := (stepOver 0x7e l).2
      let l := if l.head?.any isOp then l.tail else l
      let (indirect, l) := stepOver 0x28 l
      match readInOffset l with
      | none => none
      | some l =>
          let (closed, l) := stepOver 0x29 l
          if !closed then none
          else if !indirect then some l
          else
            let (closed, l) := stepOver 0x29 l
            if closed then some l else none

/-- The offset of a line whose `m->cont_level` is `contLevel`; `none` is `return -1`. -/
def readOffset (contLevel : Nat) (l : Bytes) : Option Bytes :=
  let (relative, l) := stepOver 0x26 l
  let (indir, l) := stepOver 0x28 l
  let (inner, l) := if indir then stepOver 0x26 l else (false, l)
  if contLevel = 0 ∧ (relative ∨ inner) then none
  else
    let l := if l.head? = some 0x2d ∨ l.head? = some 0x2b then l.tail else l
    match readNumber l with
    | none => none
    | some n => if indir then readIndirect n.rest else some n.rest

/-- `get_cond`. -/
def getCond (l : Bytes) : Cond :=
  let word (name : String) : Bool :=
    (asc name).isPrefixOf l && (l.drop name.length).head?.any isspace
  if word "if" then .if' else if word "elif" then .elif else if word "else" then .else' else .none

/-- `check_cond`: the new `last_cond`, or `none` for `return -1`. -/
def checkCond (cond last : Cond) : Option Cond :=
  match cond with
  | .if' => if last ≠ .none ∧ last ≠ .elif then none else some .if'
  | .elif => if last ≠ .if' ∧ last ≠ .elif then none else some .elif
  | .else' => if last ≠ .if' ∧ last ≠ .elif then none else some .none
  | .none => some .none

/-! ## The levels -/

def ALLOC_CHUNK : Nat := 10

/-- `struct magic_entry` with an `mp` that is not `NULL`. -/
structure MagicEntry where
  contCount : Nat
  maxCount : Nat
  deriving DecidableEq

/-- What the calls of `parse` share: `last_cont_level`, the handle and the entry of the file
that is read, and the tables of all handles. -/
structure Parser where
  lastContLevel : Nat
  handle : Nat
  entry : Option MagicEntry
  table : Nat → Cont
  io : Io

def Parser.c (p : Parser) : Cont := p.table p.handle

def Parser.setTable (handle : Nat) (c : Cont) (p : Parser) : Parser :=
  { p with table := Function.update p.table handle c }

/-- `cont_level`, a `uint32_t`. -/
def contLevel (line : Bytes) : Nat := (line.takeWhile (· == 0x3e)).length % 2 ^ 32

/-- The table and the static level; `false` is `return -1`. -/
def Parser.openLevel (host : Host) (level : Nat) (p : Parser) : Bool × Parser :=
  if level = 0 ∨ level > p.lastContLevel then
    let r := fileCheckMem host level p.c p.io
    let p := { p.setTable p.handle r.2.1 with io := r.2.2 }
    if r.1 then (true, { p with lastContLevel := level }) else (false, p)
  else (true, { p with lastContLevel := level })

/-- How `parse` comes to its line: an error, an entry that has to be added first, or the
line of the entry that it goes on with. -/
inductive Begun where
  | failed | full | line
  deriving DecidableEq

/-- The array of the entry, which `realloc` makes longer. -/
def Parser.continueEntry (host : Host) (e : MagicEntry) (p : Parser) : Begun × Parser :=
  if e.contCount = 0 then
    (.failed, { p with io := fileMagerror host (asc "Continuations present with 0 count") [] p.io })
  else if e.contCount ≠ e.maxCount then
    (.line, { p with entry := some { e with contCount := e.contCount + 1 } })
  else
    let cnt := e.maxCount + ALLOC_CHUNK
    let io := { p.io with tick := p.io.tick + 1 }
    if host.malloc p.io.tick then (.line, { p with entry := some ⟨e.contCount + 1, cnt⟩, io })
    else (.failed, { p with io := fileOomem host (432 * cnt) io })

/-- The line of a new entry. -/
def Parser.newEntry (host : Host) (p : Parser) : Begun × Parser :=
  match p.entry with
  | some _ => (.full, p)
  | none =>
      let io := { p.io with tick := p.io.tick + 1 }
      if host.malloc p.io.tick then (.line, { p with entry := some ⟨1, ALLOC_CHUNK⟩, io })
      else (.failed, { p with io := fileOomem host (432 * ALLOC_CHUNK) io })

def Parser.begin (host : Host) (level : Nat) (p : Parser) : Begun × Parser :=
  if level = 0 then p.newEntry host
  else match p.entry with
    | none =>
        (.failed, { p with io := fileMagerror host (asc "No current entry for continuation") [] p.io })
    | some e => p.continueEntry host e

/-- `check_cond` in `parse`, at `ms->c.li[cont_level]`. -/
def Parser.condition (level : Nat) (l : Bytes) (p : Parser) : Parser :=
  match checkCond (getCond l) (p.c.li level).lastCond with
  | none => p
  | some lastCond => p.setTable p.handle (p.c.update level (fun info => { info with lastCond }))

/-- `parse`, up to the condition. The buffer of `getline` is longer than the line, so the
loop over the `>`s never comes to `el`. -/
def Parser.parse (host : Host) (line : Bytes) (p : Parser) : Parser :=
  let level := contLevel line
  match p.openLevel host level with
  | (false, p) => p
  | (true, p) =>
      match p.begin host level with
      | (.line, p) =>
          match readOffset (level % 2 ^ 8) (line.dropWhile (· == 0x3e)) with
          | none => p
          | some l => p.condition level (eatab l)
      | (_, p) => p

/-- The entry of the table that `file_check_mem` clears. -/
def Parser.openAccesses (host : Host) (level : Nat) (p : Parser) : List Access :=
  if level = 0 ∨ level > p.lastContLevel then
    if (p.openLevel host level).1 then [(p.openLevel host level).2.c.at level] else []
  else []

/-- The entries of the table that `file_check_mem` and `check_cond` go to. -/
def Parser.parseAccesses (host : Host) (line : Bytes) (p : Parser) : List Access :=
  let level := contLevel line
  p.openAccesses host level ++
    match p.openLevel host level with
    | (false, _) => []
    | (true, p) =>
        match p.begin host level with
        | (.line, p) =>
            match readOffset (level % 2 ^ 8) (line.dropWhile (· == 0x3e)) with
            | none => []
            | some _ => [p.c.at level]
        | (_, _) => []

/-- What happens to the parser: `load_1` opens a file for a handle, `parse` is called on a
line, `addentry` takes the entry; between two files a handle may be opened or used in any
other way. -/
inductive Action where
  | file (handle : Nat)
  | line (text : Bytes)
  | addentry
  | other (handle : Nat) (c : Cont)

def Parser.step (host : Host) (p : Parser) : Action → Parser
  | .file handle => { p with handle, entry := none }
  | .line text => p.parse host text
  | .addentry => { p with entry := none }
  | .other handle c => { p.setTable handle c with entry := none }

def Parser.stepAccesses (host : Host) (p : Parser) : Action → List Access
  | .line text => p.parseAccesses host text
  | _ => []

/-- Every access of a run. -/
def Parser.runAccesses (host : Host) : List Action → Parser → List Access
  | [], _ => []
  | action :: actions, p => p.stepAccesses host action ++ runAccesses host actions (p.step host action)

/-! ## The table is long enough -/

/-- In an entry, the static level is one of the handle's table. -/
def Parser.Open (p : Parser) : Prop := p.entry ≠ none → p.lastContLevel < p.c.len

/-- `20 + level` does not overflow. -/
def Action.Short : Action → Prop
  | .line text => contLevel text < 2 ^ 32 - 20
  | _ => True

section
variable {host : Host} {level : Nat} {p p' : Parser}

@[simp] theorem setTable_c (p : Parser) (c : Cont) : (p.setTable p.handle c).c = c := by
  simp [Parser.c, Parser.setTable]

theorem openLevel_static (opened : p.openLevel host level = (true, p')) :
    p'.lastContLevel = level ∧ p'.entry = p.entry := by
  simp only [Parser.openLevel] at opened
  split_ifs at opened
  · obtain rfl := (Prod.mk.inj opened).2
    exact ⟨rfl, rfl⟩
  · cases (Prod.mk.inj opened).1
  · obtain rfl := (Prod.mk.inj opened).2
    exact ⟨rfl, rfl⟩

theorem openLevel_checked (short : level < 2 ^ 32 - 20) (grows : level = 0 ∨ level > p.lastContLevel)
    (opened : p.openLevel host level = (true, p')) : level < p'.c.len := by
  rw [Parser.openLevel, if_pos grows] at opened
  dsimp only at opened
  split_ifs at opened with checked
  · obtain rfl := (Prod.mk.inj opened).2
    have inside := (fileCheckMem_len host p.c p.io short).2 checked
    simpa [Parser.c, Parser.setTable] using inside
  · cases (Prod.mk.inj opened).1

/-- A level that is opened is in the table if the parser is in an entry or the level is 0. -/
theorem openLevel_opened (short : level < 2 ^ 32 - 20) (isOpen : p.Open)
    (opened : p.openLevel host level = (true, p')) (entered : level = 0 ∨ p'.entry ≠ none) :
    level < p'.c.len := by
  by_cases grows : level = 0 ∨ level > p.lastContLevel
  · exact openLevel_checked short grows opened
  · have deeper : level ≠ 0 := fun zero => grows (.inl zero)
    have inside := isOpen ((openLevel_static opened).2 ▸ entered.resolve_left deeper)
    rw [Parser.openLevel, if_neg grows] at opened
    obtain rfl := (Prod.mk.inj opened).2
    exact (Nat.le_of_not_lt fun above => grows (.inr above)).trans_lt inside

/-- When the table could not be made longer, its length is that of the longer one. -/
theorem openLevel_failed (short : level < 2 ^ 32 - 20) (isOpen : p.Open)
    (failed : p.openLevel host level = (false, p')) : p'.Open := by
  by_cases grows : level = 0 ∨ level > p.lastContLevel
  · rw [Parser.openLevel, if_pos grows] at failed
    dsimp only at failed
    split_ifs at failed with checked
    · cases failed
    · obtain rfl := (Prod.mk.inj failed).2
      intro entered
      change p.lastContLevel < (p.setTable p.handle (fileCheckMem host level p.c p.io).2.1).c.len
      rw [setTable_c]
      exact (isOpen entered).trans_le (fileCheckMem_len host p.c p.io short).1
  · rw [Parser.openLevel, if_neg grows] at failed
    cases failed

theorem begin_kept (host : Host) (level : Nat) (p : Parser) :
    (p.begin host level).2.c = p.c ∧ (p.begin host level).2.lastContLevel = p.lastContLevel := by
  simp only [Parser.begin, Parser.newEntry, Parser.continueEntry]
  repeat' split
  all_goals exact ⟨rfl, rfl⟩

/-- A line is begun, and an entry is there, at level 0 or in an entry. -/
theorem begin_entry (host : Host) (level : Nat) (p : Parser)
    (begun : (p.begin host level).1 = .line ∨ (p.begin host level).2.entry ≠ none) :
    level = 0 ∨ p.entry ≠ none := by
  by_contra outside
  rw [not_or, not_not] at outside
  obtain ⟨deeper, none⟩ := outside
  simp [Parser.begin, deeper, none] at begun

theorem condition_kept (level : Nat) (l : Bytes) (p : Parser) :
    (p.condition level l).c.len = p.c.len ∧ (p.condition level l).entry = p.entry ∧
      (p.condition level l).lastContLevel = p.lastContLevel := by
  rw [Parser.condition]
  split
  · exact ⟨rfl, rfl, rfl⟩
  · refine ⟨?_, rfl, rfl⟩
    rw [setTable_c]
    rfl

theorem openLevel_accesses (short : level < 2 ^ 32 - 20) :
    ∀ a ∈ p.openAccesses host level, a.Inside := by
  intro a member
  rw [Parser.openAccesses] at member
  split_ifs at member with grows opened
  · obtain rfl := List.mem_singleton.mp member
    exact openLevel_checked short grows (Prod.ext opened rfl)
  · cases member
  · cases member

/-- One call of `parse`. -/
theorem parse_inside (line : Bytes) (short : contLevel line < 2 ^ 32 - 20) (isOpen : p.Open) :
    (p.parse host line).Open ∧ ∀ a ∈ p.parseAccesses host line, a.Inside := by
  rw [Parser.parse, Parser.parseAccesses, List.forall_mem_append]
  have first := @openLevel_accesses host _ p short
  rcases opened : p.openLevel host (contLevel line) with ⟨_ | _, p₁⟩
  · exact ⟨openLevel_failed short isOpen opened, first, List.forall_mem_nil _⟩
  have inside := openLevel_opened short isOpen opened
  obtain ⟨last, -⟩ := openLevel_static opened
  obtain ⟨same, last'⟩ := begin_kept host (contLevel line) p₁
  have entry := begin_entry host (contLevel line) p₁
  have kept : (p₁.begin host (contLevel line)).2.Open := by
    intro entered
    rw [last', last, same]
    exact inside (entry (.inr entered))
  dsimp only
  rcases begun : p₁.begin host (contLevel line) with ⟨_ | _ | _, p₂⟩
  all_goals
    rw [begun] at same entry kept
    dsimp only at same entry kept ⊢
  · exact ⟨kept, first, List.forall_mem_nil _⟩
  · exact ⟨kept, first, List.forall_mem_nil _⟩
  · cases offset : readOffset (contLevel line % 2 ^ 8) (line.dropWhile (· == 0x3e)) with
    | none => exact ⟨kept, first, List.forall_mem_nil _⟩
    | some l =>
        obtain ⟨len, entered, last''⟩ := condition_kept (contLevel line) (eatab l) p₂
        refine ⟨?_, first, ?_⟩
        · intro in'
          rw [last'', len]
          rw [entered] at in'
          exact kept in'
        · intro a member
          obtain rfl := List.mem_singleton.mp member
          change contLevel line < p₂.c.len
          rw [same]
          exact inside (entry (.inl rfl))

theorem step_inside {action : Action} (short : action.Short) (isOpen : p.Open) :
    (p.step host action).Open ∧ ∀ a ∈ p.stepAccesses host action, a.Inside := by
  cases action with
  | line text => exact parse_inside text short isOpen
  | file | addentry | other =>
      refine ⟨?_, List.forall_mem_nil _⟩
      intro entered
      exact absurd rfl entered

theorem run_inside (actions : List Action) (short : ∀ action ∈ actions, action.Short) (isOpen : p.Open) :
    ∀ a ∈ p.runAccesses host actions, a.Inside := by
  induction actions generalizing p with
  | nil => exact List.forall_mem_nil _
  | cons action actions ih =>
      obtain ⟨here, rest⟩ := List.forall_mem_cons.mp short
      obtain ⟨kept, inside⟩ := step_inside here isOpen
      exact List.forall_mem_append.mpr ⟨inside, ih rest kept⟩

/-- A level at which `20 + level` overflows is opened outside the table. -/
theorem parse_outside {line : Bytes} (long : ¬ contLevel line < 2 ^ 32 - 20)
    (deeper : p.lastContLevel < contLevel line) (beyond : p.c.len ≤ contLevel line)
    (allocated : host.malloc p.io.tick = true) : ∃ a ∈ p.parseAccesses host line, ¬ a.Inside := by
  have grows : contLevel line = 0 ∨ contLevel line > p.lastContLevel := .inr deeper
  have opened : fileCheckMem host (contLevel line) p.c p.io =
      (true, { p.c with len := (20 + contLevel line) % 2 ^ 32, live := true }.reset (contLevel line),
        { p.io with tick := p.io.tick + 1 }) := by
    simp only [fileCheckMem, if_neg (Nat.not_lt.mpr beyond), allocated, if_true]
  have longer : (p.openLevel host (contLevel line)).1 = true ∧
      (p.openLevel host (contLevel line)).2.c.len = (20 + contLevel line) % 2 ^ 32 := by
    rw [Parser.openLevel, if_pos grows]
    simp only [opened, if_true, true_and]
    simp [Parser.c, Parser.setTable, Cont.reset, Cont.update]
  refine ⟨(p.openLevel host (contLevel line)).2.c.at (contLevel line), ?_, ?_⟩
  · apply List.mem_append_left
    rw [Parser.openAccesses, if_pos grows, if_pos longer.1]
    exact List.mem_singleton_self _
  · have small : contLevel line < 2 ^ 32 := Nat.mod_lt _ (by decide)
    change ¬ contLevel line < (p.openLevel host (contLevel line)).2.c.len
    rw [longer.2]
    omega

theorem contLevel_replicate (k : Nat) : contLevel (List.replicate k 0x3e) = k % 2 ^ 32 := by
  simp [contLevel]

end

/-- The accesses of the level table are inside it: those of `match` and of all the calls nested
in it, if the DER entries at the head of its loop have their parent in the table; and those
of `parse`, over all files and handles, if no line has so many `>`s that `20 + level`
overflows. The static level and the tables may be any before the first file. -/
theorem levelTable_inside (env : Env) (n : Nat) (call : Call) (magic : List Magic) (s : Scan)
    (host : Host) (actions : List Action) (p : Parser) (narrow : env.Narrow) (small : Narrow magic)
    (fits : ∀ r ∈ (matchN env n call magic s).rows, r.Every Row.Fits) (fresh : p.entry = none)
    (short : ∀ action ∈ actions, action.Short) :
    (∀ a ∈ matchAccesses env n call magic s, a.Inside) ∧
      ∀ a ∈ p.runAccesses host actions, a.Inside := by
  constructor
  · exact (matchN_sound narrow n call magic s small fits).2
  · exact run_inside actions short fun entered => absurd fresh entered

/-- A handle as `file_ms_alloc` leaves it. -/
def newTable : Cont where
  len := 10
  live := true
  li := fun _ => ⟨0, false, false, .none⟩

def newParser : Parser where
  lastContLevel := 0
  handle := 0
  entry := none
  table := fun _ => newTable
  io := { buf := none, hadErr := false, error := 0, line := 0, tick := 0 }

/-- A DER entry `seq` at some level. -/
def derLine (contLevel : Nat) : Magic :=
  { plainLine with contLevel, type := .der, reln := .eq, value := Value.zero.write 0 (asc "seq") }

def derScan : Scan := { plainScan [0x30, 1, 0, 0] with c := newTable }

instance (r : Row) : Decidable r.Fits :=
  inferInstanceAs (Decidable (r.phase = .top → _ → _ → _))

theorem levelTable_inside_der :
    (∀ a ∈ matchAccesses (plainEnv [[derLine 0, derLine 1]] []) 201 plainCall [derLine 0, derLine 1] derScan,
      a.Inside) ∧
    ∀ a ∈ newParser.runAccesses plainHost [.file 0, .line (asc "0 byte x"), .line (asc ">>0 byte x"),
      .file 1, .line (asc "0 byte x"), .line (asc ">0 byte x")], a.Inside := by
  have narrow : Narrow [derLine 0, derLine 1] := by
    simp [Narrow, derLine]
  have rows : ((matchN (plainEnv [[derLine 0, derLine 1]] []) 201 plainCall [derLine 0, derLine 1]
      derScan).rows.all fun r => r.nested.isEmpty && decide r.Fits) = true := by
    decide +kernel
  apply levelTable_inside
  · refine ⟨?_, List.forall_mem_nil _⟩
    intro magic member
    obtain rfl := List.mem_singleton.mp member
    exact narrow
  · exact narrow
  · intro r member
    have here := List.all_eq_true.mp rows r member
    rw [Bool.and_eq_true, List.isEmpty_iff, decide_eq_true_iff] at here
    refine ⟨here.2, ?_⟩
    rw [here.1]
    exact List.forall_mem_nil _
  · rfl
  · have first : contLevel (asc "0 byte x") = 0 := by decide +kernel
    have second : contLevel (asc ">>0 byte x") = 2 := by decide +kernel
    have third : contLevel (asc ">0 byte x") = 1 := by decide +kernel
    simp [first, second, third, Action.Short]

theorem levelTable_outside :
    (plainEnv [[derLine 255]] []).Narrow ∧ Narrow [derLine 255] ∧
      (¬ ∀ a ∈ matchAccesses (plainEnv [[derLine 255]] []) 201 plainCall [derLine 255] derScan, a.Inside) ∧
      ¬ ∀ a ∈ newParser.runAccesses plainHost
        [.file 0, .line (asc "0 byte x"), .line (List.replicate (2 ^ 32 - 19) 0x3e)], a.Inside := by
  have narrow : Narrow [derLine 255] := by
    simp [Narrow, derLine]
  have outside : ⟨254, 10⟩ ∈
      matchAccesses (plainEnv [[derLine 255]] []) 201 plainCall [derLine 255] derScan := by
    decide +kernel
  refine ⟨⟨?_, List.forall_mem_nil _⟩, narrow, ?_, ?_⟩
  · intro magic member
    obtain rfl := List.mem_singleton.mp member
    exact narrow
  · intro inside
    have : 254 < 10 := inside _ outside
    omega
  · intro inside
    have level : contLevel (List.replicate (2 ^ 32 - 19) 0x3e) = 2 ^ 32 - 19 :=
      contLevel_replicate (2 ^ 32 - 19)
    -- the line itself is too long to be written out
    generalize (List.replicate (2 ^ 32 - 19) 0x3e : Bytes) = line at inside level
    have last : ((newParser.step plainHost (.file 0)).step plainHost (.line (asc "0 byte x"))).lastContLevel = 0 := by
      decide +kernel
    have len : ((newParser.step plainHost (.file 0)).step plainHost (.line (asc "0 byte x"))).c.len = 10 := by
      decide +kernel
    obtain ⟨a, member, beyond⟩ := @parse_outside plainHost
      ((newParser.step plainHost (.file 0)).step plainHost (.line (asc "0 byte x"))) line
      (by omega) (by omega) (by omega) rfl
    apply beyond
    apply inside
    apply List.mem_append_right
    apply List.mem_append_right
    exact List.mem_append_left _ member

end Libmagic.Apprentice
