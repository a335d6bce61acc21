import Libmagic.Heap
import Libmagic.Softmagic.Match

/-!
# The level table in memory

`file_check_mem`, `save_cont` and `restore_cont` on a heap. A handle owns the table that `ms->c.li`
points to, and each caller that has saved its table owns that one. `file_check_mem` writes the new length
and the new pointer before it looks at the pointer.
-/
namespace Libmagic.Softmagic.LevelTable

/-! ## The routines -/

/-- `struct cont`, where `li` is an address. -/
structure Cont where
  len : Nat
  li : Option Nat
  deriving DecidableEq

/-- `ms->c` with the heap, and what the callers on the stack have saved. -/
structure Handle where
  heap : Heap LevelInfo
  c : Cont
  saved : List Cont

/-- The entries that a pointer leads to; `NULL` has none. -/
def entries (heap : Heap LevelInfo) (c : Cont) : List LevelInfo := (c.li.bind heap.block).getD []

def Handle.table (s : Handle) : List LevelInfo := entries s.heap s.c

/-- An access of `ms->c.li[index]`, where so many entries are. -/
structure Touched where
  index : Nat
  size : Nat
  deriving DecidableEq

def Touched.Inside (t : Touched) : Prop := t.index < t.size

/-- What a routine returns, what it changes, and which entries it accesses. -/
structure Returned where
  ret : Int
  after : Handle
  touched : List Touched

def cleared (l : LevelInfo) : LevelInfo := { l with gotMatch := false, lastMatch := false, lastCond := .none }

def Handle.modify (s : Handle) (f : List LevelInfo → List LevelInfo) : Handle :=
  match s.c.li with
  | none => s
  | some p => { s with heap := s.heap.modify p f }

/-- The part of `file_check_mem` that makes the table longer. -/
def grow (level : Nat) (out : Allocation LevelInfo) (s : Handle) : Handle :=
  if level ≥ s.c.len then
    let len := (20 + level) % 2 ^ 32
    let r := match s.c.li with
      | none => s.heap.malloc len out
      | some p => s.heap.realloc p len out
    { s with heap := r.2, c := ⟨len, r.1⟩ }
  else s

/-- `file_check_mem(ms, level)`. -/
def fileCheckMem (level : Nat) (out : Allocation LevelInfo) (s : Handle) : Returned :=
  let grown := grow level out s
  if level ≥ s.c.len ∧ grown.c.li = none then ⟨-1, grown, []⟩
  else ⟨0, grown.modify (fun t => t.modify level cleared), [⟨level, grown.table.length⟩]⟩

/-- `save_cont(ms, &c)`. -/
def saveCont (out : Allocation LevelInfo) (s : Handle) : Returned :=
  match s.heap.malloc s.c.len out with
  | (none, heap) => ⟨-1, { s with heap, c := s.c }, []⟩
  | (some p, heap) =>
      let copy (t : List LevelInfo) := s.table.take s.c.len ++ t.drop s.table.length
      ⟨0, { heap := heap.modify p copy, c := ⟨s.c.len, some p⟩, saved := s.c :: s.saved }, []⟩

/-- `restore_cont(ms, &c)`. -/
def restoreCont (s : Handle) : Handle :=
  match s.saved with
  | [] => s
  | c :: saved =>
      let heap := match s.c.li with
        | none => s.heap
        | some p => s.heap.free p
      { heap, c, saved }

/-- A handle as `file_ms_alloc` leaves it. -/
def newHandle (fresh : Nat → LevelInfo) : Handle where
  heap := (Heap.add ⟨fun _ => none, 0, fun _ _ => rfl⟩ ((List.range 10).map fresh))
  c := ⟨10, some 0⟩
  saved := []

/-! ## What a handle owns -/

/-- `li` is an array of `len` entries. -/
def Valid (heap : Heap LevelInfo) (c : Cont) : Prop :=
  ∃ p t, c.li = some p ∧ heap.block p = some t ∧ t.length = c.len

/-- The table and the saved ones are arrays of their own. -/
structure Sound (s : Handle) : Prop where
  valid : ∀ c ∈ s.c :: s.saved, Valid s.heap c
  apart : (s.c :: s.saved).Pairwise (fun c c' => c.li ≠ c'.li)

/-! ## What a call should do -/

/-- `file_check_mem` leaves `ms->c` as it was where an allocation fails, keeps the entries where one succeeds, and
changes no other entry where none is made. It accesses only entries that are there. -/
structure CheckMemAtomic (level : Nat) (out : Allocation LevelInfo) (s : Handle) : Prop where
  failing : s.c.len ≤ level → out = none → (fileCheckMem level out s).ret = -1 ∧
    (fileCheckMem level out s).after.c = s.c ∧ (fileCheckMem level out s).after.table = s.table
  growing : s.c.len ≤ level → out.isSome → (fileCheckMem level out s).ret = 0 ∧
    (fileCheckMem level out s).after.table.length = (fileCheckMem level out s).after.c.len ∧
    ∀ i < s.c.len, (fileCheckMem level out s).after.table[i]? = s.table[i]?
  opening : level < s.c.len → (fileCheckMem level out s).ret = 0 ∧ (fileCheckMem level out s).after.c = s.c ∧
    ∀ i, i ≠ level → (fileCheckMem level out s).after.table[i]? = s.table[i]?
  inside : ∀ t ∈ (fileCheckMem level out s).touched, t.Inside

/-- `save_cont` leaves `ms->c` as it was where the allocation fails, and works on a copy where it succeeds. -/
structure SaveContAtomic (out : Allocation LevelInfo) (s : Handle) : Prop where
  failing : out = none → (saveCont out s).ret = -1 ∧ (saveCont out s).after.c = s.c ∧
    (saveCont out s).after.saved = s.saved ∧ (saveCont out s).after.table = s.table
  copying : out.isSome → (saveCont out s).ret = 0 ∧ (saveCont out s).after.saved = s.c :: s.saved ∧
    (saveCont out s).after.c.len = s.c.len ∧ (saveCont out s).after.table = s.table ∧
    entries (saveCont out s).after.heap s.c = s.table

/-- Where `file_check_mem` is atomic. -/
def Enough (level : Nat) (out : Allocation LevelInfo) (s : Handle) : Prop :=
  level < s.c.len ∨ (out.isSome ∧ 20 + level < 2 ^ 32)

/-! ## Tables -/

section

variable {s : Handle} {heap heap' : Heap LevelInfo} {c : Cont} {level p : Nat} {t : List LevelInfo}
  {out : Allocation LevelInfo} {fresh : Nat → LevelInfo}

theorem Handle.table_eq (here : s.c.li = some p) (block : s.heap.block p = some t) : s.table = t := by
  rw [Handle.table, entries, here, Option.bind_some, block, Option.getD_some]

theorem Handle.modify_eq (here : s.c.li = some p) (f : List LevelInfo → List LevelInfo) :
    s.modify f = { s with heap := s.heap.modify p f } := by
  rw [Handle.modify, here]

theorem Handle.modify_table (here : s.c.li = some p) (block : s.heap.block p = some t)
    (f : List LevelInfo → List LevelInfo) : (s.modify f).table = f t := by
  rw [s.modify_eq here]
  exact Handle.table_eq here (by rw [Heap.modify_self, block, Option.map_some])

/-- What is left alone stays an array. -/
theorem Valid.frame (valid : Valid heap c) (same : ∀ p, c.li = some p → heap'.block p = heap.block p) : Valid heap' c := by
  obtain ⟨p, t, here, block, length⟩ := valid
  exact ⟨p, t, here, (same p here).trans block, length⟩

theorem Sound.table (sound : Sound s) :
    ∃ p, s.c.li = some p ∧ s.heap.block p = some s.table ∧ s.table.length = s.c.len := by
  obtain ⟨p, t, here, block, length⟩ := sound.valid s.c List.mem_cons_self
  have same := Handle.table_eq here block
  exact ⟨p, here, by rw [same, block], by rw [same, length]⟩

/-- A handle whose saved tables are left alone, and whose table is an array of its own. -/
theorem Sound.of_frame {s' : Handle} (sound : Sound s) (saved : s'.saved = s.saved)
    (same : ∀ c ∈ s.saved, ∀ p, c.li = some p → s'.heap.block p = s.heap.block p) (valid : Valid s'.heap s'.c)
    (apart : ∀ c ∈ s.saved, s'.c.li ≠ c.li) : Sound s' where
  valid := by
    intro c mem
    rw [saved] at mem
    rcases List.mem_cons.mp mem with rfl | mem
    · exact valid
    · exact (sound.valid c (List.mem_cons_of_mem _ mem)).frame (same c mem)
  apart := by
    rw [saved]
    exact List.pairwise_cons.mpr ⟨apart, (List.pairwise_cons.mp sound.apart).2⟩

/-- A saved table has an address below the ones to come, and another one than the table. -/
theorem Sound.saved_apart (sound : Sound s) (here : s.c.li = some p) {q : Nat} (mem : c ∈ s.saved) (there : c.li = some q) :
    q ≠ p ∧ q < s.heap.next := by
  obtain ⟨q', t, there', block, -⟩ := sound.valid c (List.mem_cons_of_mem _ mem)
  obtain rfl := Option.some.inj (there.symm.trans there')
  refine ⟨?_, Heap.lt_next block⟩
  rintro rfl
  exact (List.pairwise_cons.mp sound.apart).1 c mem (here.trans there.symm)

/-! ## `file_check_mem` -/

theorem fileCheckMem_open (sound : Sound s) (inside : level < s.c.len) :
    fileCheckMem level out s = ⟨0, s.modify (fun t => t.modify level cleared), [⟨level, s.c.len⟩]⟩ := by
  obtain ⟨p, -, -, length⟩ := sound.table
  have small : ¬ level ≥ s.c.len := Nat.not_le_of_lt inside
  have same : grow level out s = s := if_neg small
  rw [fileCheckMem]
  rw [same, if_neg (fun both => small both.1), length]

theorem fileCheckMem_failed (sound : Sound s) (grows : s.c.len ≤ level) :
    fileCheckMem level none s = ⟨-1, { s with c := ⟨(20 + level) % 2 ^ 32, none⟩ }, []⟩ := by
  obtain ⟨p, here, -, -⟩ := sound.table
  have grown : grow level none s = { s with c := ⟨(20 + level) % 2 ^ 32, none⟩ } := by
    rw [grow, if_pos grows, here]
    rfl
  rw [fileCheckMem]
  rw [grown, if_pos ⟨grows, rfl⟩]

/-- The handle behind a `realloc` that succeeds. -/
def moved (level p : Nat) (fresh : Nat → LevelInfo) (s : Handle) : Handle :=
  { s with
    heap := (s.heap.add (Heap.resized s.table ((20 + level) % 2 ^ 32) fresh)).free p
    c := ⟨(20 + level) % 2 ^ 32, some s.heap.next⟩ }

theorem moved_block (below : p < s.heap.next) :
    (moved level p fresh s).heap.block s.heap.next = some (Heap.resized s.table ((20 + level) % 2 ^ 32) fresh) := by
  rw [moved, Heap.free_block (Nat.ne_of_gt below), Heap.add_next]

theorem fileCheckMem_grown (sound : Sound s) (grows : s.c.len ≤ level) (here : s.c.li = some p) :
    fileCheckMem level (some fresh) s = ⟨0, (moved level p fresh s).modify (fun t => t.modify level cleared),
      [⟨level, (20 + level) % 2 ^ 32⟩]⟩ := by
  obtain ⟨p', here', block, -⟩ := sound.table
  obtain rfl := Option.some.inj (here.symm.trans here')
  have grown : grow level (some fresh) s = moved level p fresh s := by
    rw [grow, if_pos grows, here, moved]
    dsimp only [Heap.realloc]
    rw [block, Option.getD_some]
  have some : ¬ (level ≥ s.c.len ∧ (moved level p fresh s).c.li = none) := fun both => Option.some_ne_none _ both.2
  have size : (moved level p fresh s).table.length = (20 + level) % 2 ^ 32 := by
    rw [Handle.table_eq rfl (moved_block (Heap.lt_next block)), Heap.resized_length]
  rw [fileCheckMem]
  rw [grown, if_neg some, size]

theorem grown_table (below : p < s.heap.next) :
    ((moved level p fresh s).modify (fun t => t.modify level cleared)).table =
      (Heap.resized s.table ((20 + level) % 2 ^ 32) fresh).modify level cleared :=
  Handle.modify_table rfl (moved_block below) _

theorem fileCheckMem_atomic (sound : Sound s) (enough : Enough level out s) : CheckMemAtomic level out s := by
  obtain ⟨p, here, block, length⟩ := sound.table
  by_cases grows : s.c.len ≤ level
  · obtain ⟨succeeds, small⟩ := enough.resolve_left (Nat.not_lt.mpr grows)
    obtain ⟨fresh, rfl⟩ := Option.isSome_iff_exists.mp succeeds
    have size : (20 + level) % 2 ^ 32 = 20 + level := Nat.mod_eq_of_lt small
    have table := @grown_table s level p fresh (Heap.lt_next block)
    refine ⟨fun _ none => absurd none (Option.some_ne_none _), ?_, fun opens => absurd opens (Nat.not_lt.mpr grows), ?_⟩
    · intro _ _
      rw [fileCheckMem_grown sound grows here, table]
      refine ⟨rfl, ?_, ?_⟩
      · rw [List.length_modify, Heap.resized_length]
        rfl
      · intro i before
        have other : level ≠ i := by omega
        rw [List.getElem?_modify_ne _ _ other, Heap.resized_kept fresh (by omega) (by omega)]
    · intro touched mem
      rw [fileCheckMem_grown sound grows here, List.mem_singleton] at mem
      rw [mem, size]
      exact Nat.lt_add_of_pos_left (by decide)
  · have opens := Nat.not_le.mp grows
    have table := s.modify_table here block (fun t => t.modify level cleared)
    refine ⟨fun le => absurd le grows, fun le => absurd le grows, ?_, ?_⟩
    · intro _
      rw [fileCheckMem_open sound opens, table]
      refine ⟨rfl, by rw [s.modify_eq here], ?_⟩
      intro i other
      exact List.getElem?_modify_ne _ _ other.symm
    · intro touched mem
      rw [fileCheckMem_open sound opens, List.mem_singleton] at mem
      rw [mem]
      exact opens

theorem enough_of_atomic (sound : Sound s) (atomic : CheckMemAtomic level out s) : Enough level out s := by
  obtain ⟨p, here, -, -⟩ := sound.table
  by_cases grows : s.c.len ≤ level
  · refine .inr ?_
    cases out with
    | none =>
        obtain ⟨-, same, -⟩ := atomic.failing grows rfl
        rw [fileCheckMem_failed sound grows] at same
        have lost := congrArg Cont.li same
        rw [here] at lost
        cases lost
    | some fresh =>
        have inside := atomic.inside ⟨level, (20 + level) % 2 ^ 32⟩ (by
          rw [fileCheckMem_grown sound grows here]
          exact List.mem_singleton_self _)
        have inside : level < (20 + level) % 2 ^ 32 := inside
        exact ⟨rfl, by omega⟩
  · exact .inl (Nat.not_le.mp grows)

theorem fileCheckMem_sound (sound : Sound s) (enough : Enough level out s) : Sound (fileCheckMem level out s).after := by
  obtain ⟨p, here, block, length⟩ := sound.table
  by_cases grows : s.c.len ≤ level
  · obtain ⟨succeeds, -⟩ := enough.resolve_left (Nat.not_lt.mpr grows)
    obtain ⟨fresh, rfl⟩ := Option.isSome_iff_exists.mp succeeds
    have below := Heap.lt_next block
    rw [fileCheckMem_grown sound grows here, Handle.modify_eq rfl]
    refine sound.of_frame rfl ?_ ?_ ?_
    · intro c mem q there
      obtain ⟨other, old⟩ := sound.saved_apart here mem there
      obtain ⟨q', t, there', live, -⟩ := sound.valid c (List.mem_cons_of_mem _ mem)
      obtain rfl := Option.some.inj (there.symm.trans there')
      exact ((Heap.modify_block (Nat.ne_of_lt old) _).trans (Heap.free_block other)).trans
        ((Heap.add_block live).trans live.symm)
    · refine ⟨s.heap.next, (Heap.resized s.table ((20 + level) % 2 ^ 32) fresh).modify level cleared, rfl, ?_, ?_⟩
      · exact (Heap.modify_self _ _ _).trans (congrArg (Option.map _) (moved_block below))
      · rw [List.length_modify, Heap.resized_length]
        rfl
    · intro c mem same
      exact Nat.lt_irrefl _ (sound.saved_apart here mem same.symm).2
  · have opens := Nat.not_le.mp grows
    rw [fileCheckMem_open sound opens, s.modify_eq here]
    refine sound.of_frame rfl ?_ ?_ ?_
    · intro c mem q there
      exact Heap.modify_block (sound.saved_apart here mem there).1 _
    · refine ⟨p, s.table.modify level cleared, here, ?_, ?_⟩
      · exact (Heap.modify_self _ _ _).trans (congrArg (Option.map _) block)
      · rw [List.length_modify, length]
    · intro c mem
      exact (List.pairwise_cons.mp sound.apart).1 c mem

/-- The table that `match` works on, with arbitrary entries behind its end. -/
structure Abstracts (c : Softmagic.Cont) (s : Handle) : Prop where
  len : c.len = s.c.len
  live : c.live = s.c.li.isSome
  entries : ∀ i < s.table.length, s.table[i]? = some (c.li i)

/-- The allocation of a routine of `match`: fresh entries are those that were behind the end. -/
def allocated (host : Host) (c : Softmagic.Cont) (io : Io) : Allocation LevelInfo :=
  if host.malloc io.tick then some c.li else none

theorem modify_entries (c : Softmagic.Cont) {t : List LevelInfo} (level : Nat)
    (entries : ∀ i < t.length, t[i]? = some (c.li i)) :
    ∀ i < (t.modify level cleared).length, (t.modify level cleared)[i]? = some ((c.reset level).li i) := by
  intro i inside
  rw [List.length_modify] at inside
  rw [List.getElem?_modify, entries i inside]
  by_cases here : level = i
  · subst here
    exact congrArg some (by simp only [Softmagic.Cont.reset, Softmagic.Cont.update, if_true]; rfl)
  · have other : i ≠ level := fun is => here is.symm
    exact congrArg some (by simp only [Softmagic.Cont.reset, Softmagic.Cont.update, if_neg here, if_neg other])

/-- `file_check_mem` on the heap is the one of `match`. -/
theorem fileCheckMem_refines (host : Host) (io : Io) {c : Softmagic.Cont} (sound : Sound s) (abs : Abstracts c s) :
    Abstracts (Softmagic.fileCheckMem host level c io).2.1 (fileCheckMem level (allocated host c io) s).after ∧
      ((Softmagic.fileCheckMem host level c io).1 = true ↔ (fileCheckMem level (allocated host c io) s).ret = 0) := by
  obtain ⟨p, here, block, length⟩ := sound.table
  rw [Softmagic.fileCheckMem, abs.len]
  by_cases inside : level < s.c.len
  · rw [if_pos inside, fileCheckMem_open sound inside]
    refine ⟨⟨?_, ?_, ?_⟩, iff_of_true rfl rfl⟩
    · rw [s.modify_eq here]
      exact abs.len
    · rw [s.modify_eq here]
      exact abs.live
    · rw [s.modify_table here block]
      exact modify_entries c level abs.entries
  · have grows := Nat.not_lt.mp inside
    rw [if_neg inside]
    cases out : host.malloc io.tick with
    | false =>
        have fails : allocated host c io = none := by rw [allocated, out, if_neg Bool.false_ne_true]
        have negative : (-1 : Int) ≠ 0 := by decide
        rw [if_neg Bool.false_ne_true, fails, fileCheckMem_failed sound grows]
        exact ⟨⟨rfl, rfl, fun i none => absurd none (Nat.not_lt_zero i)⟩, iff_of_false Bool.false_ne_true negative⟩
    | true =>
        have table := @grown_table s level p c.li (Heap.lt_next block)
        have succeeds : allocated host c io = some c.li := by rw [allocated, out, if_pos rfl]
        rw [if_pos rfl, succeeds, fileCheckMem_grown sound grows here]
        refine ⟨⟨?_, ?_, ?_⟩, iff_of_true rfl rfl⟩
        · rw [Handle.modify_eq rfl]
          rfl
        · rw [Handle.modify_eq rfl]
          rfl
        · rw [table]
          refine modify_entries { c with len := _, live := true } level ?_
          intro i there
          rw [Heap.resized_length] at there
          rw [Heap.resized_getElem c.li there]
          by_cases old : i < s.table.length
          · rw [abs.entries i old, Option.getD_some]
          · rw [List.getElem?_eq_none (Nat.not_lt.mp old), Option.getD_none]

/-! ## `save_cont` and `restore_cont` -/

/-- The handle behind a `malloc` that succeeds. -/
def copied (fresh : Nat → LevelInfo) (s : Handle) : Handle where
  heap := (s.heap.add ((List.range s.c.len).map fresh)).modify s.heap.next
    (fun t => s.table.take s.c.len ++ t.drop s.table.length)
  c := ⟨s.c.len, some s.heap.next⟩
  saved := s.c :: s.saved

theorem saveCont_copied : saveCont (some fresh) s = ⟨0, copied fresh s, []⟩ := rfl

theorem copied_block (sound : Sound s) : (copied fresh s).heap.block s.heap.next = some s.table := by
  obtain ⟨-, -, -, length⟩ := sound.table
  have none : ((List.range s.c.len).map fresh).drop s.table.length = [] :=
    List.drop_eq_nil_of_le (by rw [List.length_map, List.length_range, length])
  rw [copied, Heap.modify_self, Heap.add_next, Option.map_some, none, List.append_nil,
    List.take_of_length_le (Nat.le_of_eq length)]

/-- The blocks that were there before. -/
theorem copied_frame {q : Nat} (live : s.heap.block q = some t) : (copied fresh s).heap.block q = some t :=
  (Heap.modify_block (Nat.ne_of_lt (Heap.lt_next live)) _).trans (Heap.add_block live)

theorem saveCont_atomic (sound : Sound s) (out : Allocation LevelInfo) : SaveContAtomic out s := by
  obtain ⟨p, here, block, length⟩ := sound.table
  cases out with
  | none => exact ⟨fun _ => ⟨rfl, rfl, rfl, rfl⟩, fun succeeds => by cases succeeds⟩
  | some fresh =>
      refine ⟨fun fails => absurd fails (Option.some_ne_none _), fun _ => ⟨rfl, rfl, rfl, ?_, ?_⟩⟩
      · exact Handle.table_eq rfl (copied_block sound)
      · rw [saveCont_copied, entries, here, Option.bind_some, copied_frame block, Option.getD_some]

theorem saveCont_sound (sound : Sound s) (out : Allocation LevelInfo) : Sound (saveCont out s).after := by
  cases out with
  | none => exact ⟨sound.valid, sound.apart⟩
  | some fresh =>
      obtain ⟨-, -, -, length⟩ := sound.table
      rw [saveCont_copied]
      refine ⟨?_, List.pairwise_cons.mpr ⟨?_, sound.apart⟩⟩
      · intro c mem
        rcases List.mem_cons.mp mem with rfl | mem
        · exact ⟨_, _, rfl, copied_block sound, length⟩
        · obtain ⟨q, t, there, live, length⟩ := sound.valid c mem
          exact ⟨q, t, there, copied_frame live, length⟩
      · intro c mem same
        obtain ⟨q, t, there, live, -⟩ := sound.valid c mem
        obtain rfl := Option.some.inj (same.trans there)
        exact Nat.lt_irrefl _ (Heap.lt_next live)

theorem restoreCont_sound (sound : Sound s) : Sound (restoreCont s) := by
  obtain ⟨p, here, -, -⟩ := sound.table
  have apart := List.pairwise_cons.mp sound.apart
  rw [restoreCont]
  cases saved : s.saved with
  | nil => exact sound
  | cons c rest =>
      rw [saved] at apart
      rw [here]
      refine ⟨?_, apart.2⟩
      intro c' mem
      have valid := sound.valid c' (List.mem_cons_of_mem _ (saved ▸ mem))
      refine valid.frame ?_
      intro q there
      refine Heap.free_block ?_
      rintro rfl
      exact apart.1 c' mem (here.trans there.symm)

end

/-! ## Runs -/

inductive Op where
  | check (level : Nat) (out : Allocation LevelInfo)
  | save (out : Allocation LevelInfo)
  | restore

def Op.returned (s : Handle) : Op → Returned
  | check level out => fileCheckMem level out s
  | save out => saveCont out s
  | restore => ⟨0, restoreCont s, []⟩

/-- Allocations may fail in `save_cont`, and not in `file_check_mem`. -/
def Op.Meets (s : Handle) : Op → Prop
  | check level out => Enough level out s
  | save _ | restore => True

/-- The handle behind a run, and what the run accesses. -/
def run (s : Handle) : List Op → Handle × List Touched
  | [] => (s, [])
  | op :: ops =>
      let r := op.returned s
      let rest := run r.after ops
      (rest.1, r.touched ++ rest.2)

def AllMeet (s : Handle) : List Op → Prop
  | [] => True
  | op :: ops => op.Meets s ∧ AllMeet (op.returned s).after ops

theorem Op.sound {s : Handle} (sound : Sound s) (op : Op) (enough : op.Meets s) :
    Sound (op.returned s).after ∧ ∀ t ∈ (op.returned s).touched, t.Inside := by
  cases op with
  | check level out => exact ⟨fileCheckMem_sound sound enough, (fileCheckMem_atomic sound enough).inside⟩
  | save out =>
      refine ⟨saveCont_sound sound out, ?_⟩
      cases out <;> exact List.forall_mem_nil _
  | restore => exact ⟨restoreCont_sound sound, List.forall_mem_nil _⟩

theorem run_sound {s : Handle} (sound : Sound s) {ops : List Op} (enough : AllMeet s ops) :
    Sound (run s ops).1 ∧ ∀ t ∈ (run s ops).2, t.Inside := by
  induction ops generalizing s with
  | nil => exact ⟨sound, List.forall_mem_nil _⟩
  | cons op ops ih =>
      obtain ⟨first, rest⟩ := enough
      obtain ⟨next, inside⟩ := op.sound sound first
      obtain ⟨final, inside'⟩ := ih next rest
      refine ⟨final, ?_⟩
      intro t mem
      exact (List.mem_append.mp mem).elim (inside t) (inside' t)

theorem newHandle_sound (fresh : Nat → LevelInfo) : Sound (newHandle fresh) where
  valid := by
    intro c mem
    obtain rfl := List.mem_singleton.mp mem
    exact ⟨0, _, rfl, rfl, by rw [List.length_map, List.length_range]; rfl⟩
  apart := List.pairwise_singleton _ _

theorem growth_atomic_iff {s : Handle} (sound : Sound s) :
    (∀ level out, CheckMemAtomic level out s ↔ Enough level out s) ∧ (∀ out, SaveContAtomic out s) ∧
      ∀ ops, AllMeet s ops →
        (run s ops).1.table.length = (run s ops).1.c.len ∧ ∀ t ∈ (run s ops).2, t.Inside := by
  refine ⟨fun level out => ⟨enough_of_atomic sound, fileCheckMem_atomic sound⟩, saveCont_atomic sound, ?_⟩
  intro ops enough
  obtain ⟨final, inside⟩ := run_sound sound enough
  obtain ⟨-, -, -, length⟩ := final.table
  exact ⟨length, inside⟩

/-- What `malloc` may leave in the entries. -/
def noLevel (_ : Nat) : LevelInfo := ⟨0, false, false, .none⟩

theorem growth_atomic_iff_tenth : CheckMemAtomic 10 (some noLevel) (newHandle noLevel) :=
  ((growth_atomic_iff (newHandle_sound noLevel)).1 10 (some noLevel)).mpr (.inr (by decide))

/-- The table of ten entries is lost, and the next line is tested at level 0 of a table that should have 30. -/
theorem growth_lost : ¬ CheckMemAtomic 10 none (newHandle noLevel) ∧
    (fileCheckMem 10 none (newHandle noLevel)).after.c = ⟨30, none⟩ ∧
    (fileCheckMem 0 none (fileCheckMem 10 none (newHandle noLevel)).after).touched = [⟨0, 0⟩] := by
  refine ⟨?_, by decide, by decide⟩
  intro atomic
  have same := (atomic.failing (by decide) rfl).2.1
  exact absurd same (by decide)

end Libmagic.Softmagic.LevelTable
