import Libmagic.Cells
import Libmagic.Format.Expand
import Libmagic.Softmagic.Cstring

/-!
# `varexpand` in its two buffers

`varexpand` with every byte that it reads of `str` and writes to `buf`. What is behind the end
of the object `str` counts as 0, so that every `str` has its NUL. `Expands` and `Malformed` say
what the groups of a text mean.
-/
namespace Libmagic.Format

open Softmagic (Bytes cstring getD_cstring zero_notMem_cstring findGroup splitAt varexpandFrom)
open Run Cells

/-! ## The routine -/

def strstrRound (str : Bytes) (i : Nat) : Run CellAccess (Nat ⊕ Option Nat) := do
  let c ← readAt str i
  if c = 0 then pure (.inr none)
  else if c = 0x24 then
    let d ← readAt str (i + 1)
    if d = 0x7b then pure (.inr (some i)) else pure (.inl (i + 1))
  else pure (.inl (i + 1))

/-- `strstr(str + i, "${")`. -/
def strstr (str : Bytes) (i : Nat) : Run CellAccess (Option Nat) :=
  loop (strstrRound str) (str.length + 1) i

def skipRound (str : Bytes) (stop : UInt8) (i : Nat) : Run CellAccess (Nat ⊕ Nat) := do
  let c ← readAt str i
  if c ≠ 0 ∧ c ≠ stop then pure (.inl (i + 1)) else pure (.inr i)

/-- `for (p = str + i; *p && *p != stop; p++)`, and `strlen` where `stop` is the NUL. -/
def skipTo (str : Bytes) (stop : UInt8) (i : Nat) : Run CellAccess Nat :=
  loop (skipRound str stop) (str.length + 1) i

/-- The object that `buf` points into, how far it is in, and `len`. -/
structure Room where
  bytes : Bytes
  pos : Nat
  len : Nat

/-- `if (l >= len) return -1; memcpy(buf, p, l); buf += l; len -= l;` -/
def Room.put (b : Room) (str : Bytes) (p l : Nat) : Run CellAccess (Option Room) :=
  if l ≥ b.len then pure none
  else do
    let bytes ← memcpy str l p b.pos b.bytes
    pure (some ⟨bytes, b.pos + l, b.len - l⟩)

/-- What is behind the loop. -/
def varexpandEnd (str : Bytes) (b : Room) (sptr : Nat) : Run CellAccess (Option Bytes) := do
  let fin ← skipTo str 0 sptr
  match ← b.put str sptr (fin - sptr) with
  | none => pure none
  | some b => do
      let bytes ← writeAt b.bytes b.pos 0
      pure (some bytes)

/-- The body of the loop from `ptr += 2` on, where `b` has the text in front of the group. -/
def varexpandGroup (str : Bytes) (mode : Nat) (b : Room) (ptr : Nat) :
    Run CellAccess ((Room × Nat) ⊕ Option Bytes) := do
  let x ← readAt str ptr
  if x = 0 then pure (.inr none)
  else
    let mark ← readAt str (ptr + 1)
    if mark ≠ 0x3f then pure (.inr none)
    else
      let t := ptr + 2
      let et ← skipTo str 0x3a t
      let colon ← readAt str et
      if colon ≠ 0x3a then pure (.inr none)
      else
        let e := et + 1
        let ee ← skipTo str 0x7d e
        let close ← readAt str ee
        if close ≠ 0x7d then pure (.inr none)
        else
          let x ← readAt str ptr
          if x ≠ 0x78 then pure (.inr none)
          else
            let choice := if mode &&& 0o111 ≠ 0 then (t, et - t) else (e, ee - e)
            match ← b.put str choice.1 choice.2 with
            | none => pure (.inr none)
            | some b => pure (.inl (b, ee + 1))

/-- One round of the loop, from `sptr`, and what is behind the loop. -/
def varexpandRound (str : Bytes) (mode : Nat) (s : Room × Nat) :
    Run CellAccess ((Room × Nat) ⊕ Option Bytes) := do
  match ← strstr str s.2 with
  | none => do
      let r ← varexpandEnd str s.1 s.2
      pure (.inr r)
  | some ptr =>
      match ← s.1.put str s.2 (ptr - s.2) with
      | none => pure (.inr none)
      | some b => varexpandGroup str mode b (ptr + 2)

/-- `varexpand(ms, buf, len, str)` where `len` is the size of `buf`: what is in `buf` when it returns
0, or `none` for `-1`. -/
def varexpandIn (mode : Nat) (str buf : Bytes) : Run CellAccess (Option Bytes) :=
  loop (varexpandRound str mode) (str.length + 1) (⟨buf, 0, buf.length⟩, 0)

/-! ## What groups mean -/

/-- A text without a group's beginning. -/
def Plain (s : Bytes) : Prop := ¬ [0x24, 0x7b] <:+: s

/-- The group is the first of its text, and as `varexpand` reads one. -/
structure Group.Leads (g : Group) : Prop where
  before : Plain g.before
  yes : 0x3a ∉ g.yes
  no : 0x7d ∉ g.no

/-- Each group is replaced by the text for an execute bit that is set, or by the other one. -/
inductive Expands (exec : Bool) : Bytes → Bytes → Prop
  | plain {s : Bytes} (plain : Plain s) : Expands exec s s
  | group {g : Group} {out : Bytes} (leads : g.Leads) (rest : Expands exec g.rest out) :
      Expands exec g.text (g.before ++ g.choice exec ++ out)

/-- Behind the groups there is a `${` that is no group's beginning. -/
inductive Malformed : Bytes → Prop
  | here {before rest : Bytes} (plain : Plain before)
      (none : ∀ yes no rest', 0x3a ∉ yes → 0x7d ∉ no →
        rest ≠ 0x78 :: 0x3f :: (yes ++ 0x3a :: (no ++ 0x7d :: rest'))) :
      Malformed (before ++ 0x24 :: 0x7b :: rest)
  | behind {g : Group} (leads : g.Leads) (rest : Malformed g.rest) : Malformed g.text

/-! ### Groups are read in one way -/

theorem findGroup_cons (c : UInt8) (s : Bytes) :
    findGroup (c :: s) = if c = 0x24 ∧ s.head? = some 0x7b then some ([], s.tail)
      else (findGroup s).map (fun r => (c :: r.1, r.2)) := by
  conv =>
    lhs
    unfold findGroup
  split
  · rename_i rest h
    obtain ⟨rfl, rfl⟩ := List.cons.inj h
    rw [if_pos ⟨rfl, rfl⟩, List.tail_cons]
  · rename_i d s' other h
    obtain ⟨rfl, rfl⟩ := List.cons.inj h
    rw [if_neg]
    rintro ⟨rfl, head⟩
    obtain ⟨rest, rfl⟩ := List.head?_eq_some_iff.mp head
    exact other rest rfl rfl
  · rename_i h
    cases h

theorem Plain.tail {c : UInt8} {s : Bytes} (plain : Plain (c :: s)) : Plain s :=
  fun inside => plain (inside.trans (List.suffix_cons c s).isInfix)

theorem Plain.head {c : UInt8} {s : Bytes} (plain : Plain (c :: s)) :
    ¬ (c = 0x24 ∧ s.head? = some 0x7b) := by
  rintro ⟨rfl, head⟩
  obtain ⟨rest, rfl⟩ := List.head?_eq_some_iff.mp head
  exact plain (List.prefix_append [0x24, 0x7b] rest).isInfix

theorem findGroup_none_iff {s : Bytes} : findGroup s = none ↔ Plain s := by
  induction s with
  | nil =>
      refine ⟨fun _ inside => ?_, fun _ => rfl⟩
      exact absurd (List.infix_nil.mp inside) (List.cons_ne_nil _ _)
  | cons c s ih =>
      rw [findGroup_cons]
      by_cases opens : c = 0x24 ∧ s.head? = some 0x7b
      · rw [if_pos opens]
        exact ⟨nofun, fun plain => absurd opens plain.head⟩
      · rw [if_neg opens, Option.map_eq_none_iff, ih]
        refine ⟨fun plain inside => ?_, Plain.tail⟩
        rcases List.infix_cons_iff.mp inside with here | behind
        · obtain ⟨rest, h⟩ := here
          obtain ⟨rfl, rfl⟩ := List.cons.inj h
          exact opens ⟨rfl, rfl⟩
        · exact plain behind

theorem findGroup_lead {before : Bytes} (plain : Plain before) (rest : Bytes) :
    findGroup (before ++ 0x24 :: 0x7b :: rest) = some (before, rest) := by
  induction before with
  | nil => rfl
  | cons c before ih =>
      rw [List.cons_append, findGroup_cons, if_neg, ih plain.tail]
      · rfl
      · rintro ⟨rfl, head⟩
        cases before with
        | nil => exact absurd (Option.some.inj head) (by decide)
        | cons d before => exact plain.head ⟨rfl, head⟩

theorem findGroup_plain {s : Bytes} {r : Bytes × Bytes} (h : findGroup s = some r) : Plain r.1 := by
  induction s generalizing r with
  | nil => cases h
  | cons c s ih =>
      rw [findGroup_cons] at h
      split at h
      · obtain rfl := Option.some.inj h
        exact findGroup_none_iff.mp rfl
      · rename_i opens
        obtain ⟨r', hr', rfl⟩ := Option.map_eq_some_iff.mp h
        apply findGroup_none_iff.mp
        rw [findGroup_cons, if_neg, findGroup_none_iff.mpr (ih hr'), Option.map_none]
        rintro ⟨rfl, head⟩
        obtain ⟨rest, same⟩ := List.head?_eq_some_iff.mp head
        rw [findGroup_eq hr', same] at opens
        exact opens ⟨rfl, rfl⟩

theorem splitAt_append {c : UInt8} {a : Bytes} (free : c ∉ a) (b : Bytes) :
    splitAt c (a ++ c :: b) = some (a, b) := by
  have keep : ∀ x ∈ a, (x != c) = true := fun x mem => bne_iff_ne.mpr (fun eq => free (eq ▸ mem))
  rw [splitAt, List.dropWhile_append_of_pos keep, List.takeWhile_append_of_pos keep,
    List.dropWhile_cons_of_neg (by simp), List.takeWhile_cons_of_neg (by simp), List.append_nil]

theorem firstGroup_leads {s : Bytes} {g : Group} (h : firstGroup s = some g) : g.Leads := by
  obtain ⟨r, hr, h⟩ := Option.bind_eq_some_iff.mp h
  split at h
  swap
  · cases h
  obtain ⟨y, hy, h⟩ := Option.bind_eq_some_iff.mp h
  obtain ⟨n, hn, rfl⟩ := Option.map_eq_some_iff.mp h
  exact ⟨findGroup_plain hr, splitAt_free hy, splitAt_free hn⟩

theorem Group.Leads.first {g : Group} (leads : g.Leads) : firstGroup g.text = some g := by
  rw [firstGroup, Group.text, findGroup_lead leads.before, Option.bind_some]
  simp only [List.take_succ_cons, List.take_zero, List.drop_succ_cons, List.drop_zero, if_true]
  rw [splitAt_append leads.yes, Option.bind_some, splitAt_append leads.no, Option.map_some]

theorem firstGroup_plain {s : Bytes} (plain : Plain s) : firstGroup s = none := by
  rw [firstGroup, findGroup_none_iff.mpr plain, Option.bind_none]

theorem firstGroup_eq_none {before rest : Bytes} (plain : Plain before)
    (none : ∀ yes no rest', 0x3a ∉ yes → 0x7d ∉ no →
      rest ≠ 0x78 :: 0x3f :: (yes ++ 0x3a :: (no ++ 0x7d :: rest'))) :
    firstGroup (before ++ 0x24 :: 0x7b :: rest) = .none := by
  cases h : firstGroup (before ++ 0x24 :: 0x7b :: rest) with
  | none => rfl
  | some g =>
      have leads := firstGroup_leads h
      have same := findGroup_lead plain rest
      rw [← firstGroup_text h, Group.text, findGroup_lead leads.before] at same
      exact absurd (Prod.mk.inj (Option.some.inj same)).2.symm (none g.yes g.no g.rest leads.yes leads.no)

theorem expands_plain_iff {exec : Bool} {s out : Bytes} (plain : Plain s) :
    Expands exec s out ↔ out = s := by
  constructor
  · intro h
    cases h with
    | plain _ => rfl
    | group leads _ =>
        have found := leads.first
        rw [firstGroup_plain plain] at found
        cases found
  · rintro rfl
    exact .plain plain

theorem expands_text_iff {exec : Bool} {g : Group} {out : Bytes} (leads : g.Leads) :
    Expands exec g.text out ↔
      ∃ tail, Expands exec g.rest tail ∧ out = g.before ++ g.choice exec ++ tail := by
  constructor
  · generalize same : g.text = s
    intro h
    have found := leads.first
    rw [same] at found
    cases h with
    | plain plain =>
        rw [firstGroup_plain plain] at found
        cases found
    | group leads' rest =>
        rw [leads'.first] at found
        obtain rfl := Option.some.inj found
        exact ⟨_, rest, rfl⟩
  · rintro ⟨tail, rest, rfl⟩
    exact .group leads rest

theorem malformed_text_iff {g : Group} (leads : g.Leads) : Malformed g.text ↔ Malformed g.rest := by
  constructor
  · generalize same : g.text = s
    intro h
    have found := leads.first
    rw [same] at found
    cases h with
    | here plain none =>
        rw [firstGroup_eq_none plain none] at found
        cases found
    | behind leads' rest =>
        rw [leads'.first] at found
        obtain rfl := Option.some.inj found
        exact rest
  · exact .behind leads

theorem not_malformed_plain {s : Bytes} (plain : Plain s) : ¬ Malformed s := by
  intro h
  cases h with
  | here plain' _ =>
      have found := findGroup_lead plain' ‹Bytes›
      rw [findGroup_none_iff.mpr plain] at found
      cases found
  | behind leads _ =>
      have found := leads.first
      rw [firstGroup_plain plain] at found
      cases found

/-- A text has one expansion, and none when it is malformed. -/
theorem Expands.unique {exec : Bool} {s out out' : Bytes} (h : Expands exec s out)
    (h' : Expands exec s out') : out' = out := by
  induction h generalizing out' with
  | plain plain => exact (expands_plain_iff plain).mp h'
  | group leads _ ih =>
      obtain ⟨tail, rest, rfl⟩ := (expands_text_iff leads).mp h'
      rw [ih rest]

theorem Expands.not_malformed {exec : Bool} {s out : Bytes} (h : Expands exec s out) : ¬ Malformed s := by
  induction h with
  | plain plain => exact not_malformed_plain plain
  | group leads _ ih => exact fun bad => ih ((malformed_text_iff leads).mp bad)

theorem Expands.free {exec : Bool} {c : UInt8} {s out : Bytes} (h : Expands exec s out) (free : c ∉ s) :
    c ∉ out := by
  induction h with
  | plain _ => exact free
  | @group g out _ _ ih =>
      rw [Group.text] at free
      simp only [List.mem_append, List.mem_cons, not_or] at free
      obtain ⟨before, _, _, _, _, yes, _, no, _, rest⟩ := free
      rw [List.mem_append, List.mem_append, not_or, not_or]
      refine ⟨⟨before, ?_⟩, ih rest⟩
      cases exec
      · exact no
      · exact yes

/-! ## The text in memory -/

section Memory

variable {str : Bytes} {i w : Nat}

/-- What is left of the text at an index of its object. -/
def behind (str : Bytes) (i : Nat) : Bytes := (cstring str).drop i

/-- At an index there is the NUL or a character of the text. -/
theorem behind_cases (str : Bytes) (inside : i ≤ (cstring str).length) :
    (behind str i = [] ∧ str.getD i 0 = 0 ∧ i = (cstring str).length) ∨
      (behind str i = str.getD i 0 :: behind str (i + 1) ∧ str.getD i 0 ≠ 0 ∧
        i < (cstring str).length) := by
  rw [getD_cstring inside]
  rcases Nat.lt_or_eq_of_le inside with lt | rfl
  · right
    rw [List.getD_eq_getElem _ _ lt]
    exact ⟨List.drop_eq_getElem_cons lt,
      fun zero => zero_notMem_cstring str (zero ▸ List.getElem_mem lt), lt⟩
  · exact .inl ⟨List.drop_length, List.getD_eq_default _ _ (Nat.le_refl _), rfl⟩

theorem behind_add {front back : Bytes} (h : behind str i = front ++ back) :
    behind str (i + front.length) = back := by
  rw [behind, ← List.drop_drop]
  exact (congrArg (List.drop front.length) h).trans List.drop_left

theorem behind_inside {front back : Bytes} (inside : i ≤ (cstring str).length)
    (h : behind str i = front ++ back) : i + front.length ≤ (cstring str).length := by
  have size := congrArg List.length h
  rw [behind, List.length_drop, List.length_append] at size
  omega

theorem getD_behind {front back : Bytes} (h : behind str i = front ++ back) {j : Nat}
    (lt : j < front.length) : str.getD (i + j) 0 = front.getD j 0 := by
  have size := congrArg List.length h
  rw [behind, List.length_drop, List.length_append] at size
  have moved : (behind str i).getD j 0 = (cstring str).getD (i + j) 0 := by
    rw [behind, List.getD_eq_getElem?_getD, List.getElem?_drop, ← List.getD_eq_getElem?_getD]
  rw [getD_cstring (by omega), ← moved, h, List.getD_append _ _ _ _ lt]

theorem skipTo_meets (stop : UInt8) (inside : i ≤ (cstring str).length) :
    Meets (within ((cstring str).length + 1) w) 0 (skipTo str stop i) (fun j =>
      ∃ front, behind str i = front ++ behind str j ∧ stop ∉ front ∧ j = i + front.length ∧
        j ≤ (cstring str).length ∧ (behind str j ≠ [] → str.getD j 0 = stop)) := by
  have bound : (cstring str).length ≤ str.length := (List.takeWhile_sublist _).length_le
  let passed (j : Nat) := j ≤ (cstring str).length ∧
    ∃ front, behind str i = front ++ behind str j ∧ stop ∉ front ∧ j = i + front.length
  have round : ∀ j, passed j →
      Meets (within ((cstring str).length + 1) w) 0 (skipRound str stop j)
        (Sum.elim (fun j' => passed j' ∧ (cstring str).length - j' < (cstring str).length - j)
          (fun j => ∃ front, behind str i = front ++ behind str j ∧ stop ∉ front ∧
            j = i + front.length ∧ j ≤ (cstring str).length ∧
              (behind str j ≠ [] → str.getD j 0 = stop))) := by
    rintro j ⟨within, front, split, free, at'⟩
    apply Meets.bind (readAt_meets (by omega))
    intro c hc
    subst hc
    apply Meets.ite
    · rintro ⟨char, other⟩
      apply Meets.pure
      rcases behind_cases str within with ⟨_, nul, _⟩ | ⟨cons, _, lt⟩
      · exact absurd nul char
      · refine ⟨⟨lt, front ++ [str.getD j 0], ?_, ?_, ?_⟩, by omega⟩
        · rw [split, cons, List.append_assoc, List.singleton_append]
        · rw [List.mem_append, List.mem_singleton, not_or]
          exact ⟨free, Ne.symm other⟩
        · rw [List.length_append, List.length_singleton, at', Nat.add_assoc]
    · intro stops
      apply Meets.pure
      refine ⟨front, split, free, at', within, fun more => ?_⟩
      rcases behind_cases str within with ⟨none, _, _⟩ | ⟨_, char, _⟩
      · exact absurd none more
      · by_contra other
        exact stops ⟨char, other⟩
  exact Meets.loop round _ _ ⟨inside, [], rfl, List.not_mem_nil, rfl⟩ (by omega)

/-- Where the first group of what is left begins. -/
def groupAt (str : Bytes) (i : Nat) : Option Nat :=
  (findGroup (behind str i)).map (fun r => i + r.1.length)

theorem groupAt_next {c : UInt8} (cons : behind str i = c :: behind str (i + 1))
    (other : ¬ (c = 0x24 ∧ (behind str (i + 1)).head? = some 0x7b)) :
    groupAt str i = groupAt str (i + 1) := by
  rw [groupAt, groupAt, cons, findGroup_cons, if_neg other, Option.map_map]
  congr 1
  funext r
  rw [Function.comp_apply, List.length_cons, Nat.add_assoc, Nat.add_comm 1]

theorem strstr_meets (inside : i ≤ (cstring str).length) :
    Meets (within ((cstring str).length + 1) w) 0 (strstr str i) (· = groupAt str i) := by
  have bound : (cstring str).length ≤ str.length := (List.takeWhile_sublist _).length_le
  have round : ∀ j, j ≤ (cstring str).length ∧ groupAt str i = groupAt str j →
      Meets (within ((cstring str).length + 1) w) 0 (strstrRound str j)
        (Sum.elim (fun j' => (j' ≤ (cstring str).length ∧ groupAt str i = groupAt str j') ∧
          (cstring str).length - j' < (cstring str).length - j) (· = groupAt str i)) := by
    rintro j ⟨within, same⟩
    rw [same]
    apply Meets.bind (readAt_meets (by omega))
    intro c hc
    subst hc
    rcases behind_cases str within with ⟨none, nul, _⟩ | ⟨cons, char, lt⟩
    · rw [if_pos nul]
      apply Meets.pure
      change Option.none = groupAt str j
      rw [groupAt, none]
      rfl
    rw [if_neg char]
    have step := groupAt_next cons
    apply Meets.ite
    · intro dollar
      apply Meets.bind (readAt_meets (by omega))
      intro d hd
      subst hd
      apply Meets.ite
      · intro brace
        apply Meets.pure
        change some j = groupAt str j
        rcases behind_cases str (Nat.succ_le_of_lt lt) with ⟨_, nul, _⟩ | ⟨cons', _, _⟩
        · rw [nul] at brace
          exact absurd brace (by decide)
        · rw [groupAt, cons, cons', dollar, brace]
          rfl
      · intro other
        apply Meets.pure
        refine ⟨⟨lt, step ?_⟩, by omega⟩
        rintro ⟨_, head⟩
        rcases behind_cases str (Nat.succ_le_of_lt lt) with ⟨none, _, _⟩ | ⟨cons', _, _⟩
        · rw [none] at head
          cases head
        · rw [cons'] at head
          exact other (Option.some.inj head)
    · intro other
      apply Meets.pure
      exact ⟨⟨lt, step (fun opens => other opens.1)⟩, by omega⟩
  exact Meets.loop round _ _ ⟨inside, rfl⟩ (by omega)

/-- The text was put behind what is there, and there is room for the NUL. -/
structure Room.Grows (b b' : Room) (text : Bytes) : Prop where
  room : text.length < b.len
  length : b'.bytes.length = b.bytes.length
  pos : b'.pos = b.pos + text.length
  len : b'.len = b.len - text.length
  bytes : b'.bytes.take b'.pos = b.bytes.take b.pos ++ text

theorem put_meets {b : Room} {p : Nat} {text back : Bytes} (here : behind str p = text ++ back)
    (inside : p ≤ (cstring str).length) (size : b.pos + b.len = b.bytes.length) (fits : b.bytes.length ≤ w) :
    Meets (within ((cstring str).length + 1) w) 0 (b.put str p text.length) (fun r =>
      (r = none ∧ b.len ≤ text.length) ∨ ∃ b', r = some b' ∧ b.Grows b' text) := by
  have within := behind_inside inside here
  unfold Room.put
  apply Meets.ite
  · intro short
    exact Meets.pure (.inl ⟨rfl, short⟩)
  · intro room
    apply Meets.bind (memcpy_meets (by omega) (fun i lt => getD_behind here lt) (by omega) fits)
    rintro bytes ⟨length, front⟩
    exact Meets.pure (.inr ⟨_, rfl, by omega, length, rfl, rfl, front⟩)

/-- What is behind a `${` that begins the group. -/
structure Group.Begins (g : Group) (s : Bytes) : Prop where
  yes : 0x3a ∉ g.yes
  no : 0x7d ∉ g.no
  text : s = 0x78 :: 0x3f :: (g.yes ++ 0x3a :: (g.no ++ 0x7d :: g.rest))

theorem split_unique {c : UInt8} {front back front' back' : Bytes} (free : c ∉ front) (free' : c ∉ front')
    (same : front ++ c :: back = front' ++ c :: back') : front = front' ∧ back = back' := by
  have found := splitAt_append free back
  rw [same, splitAt_append free'] at found
  exact (Prod.mk.inj (Option.some.inj found)).imp Eq.symm Eq.symm

/-- Where a text goes up to its first `stop`, `skipTo` stops there. -/
theorem skipTo_found {stop : UInt8} {front text rest : Bytes} {j : Nat} (free : stop ∉ front)
    (split : behind str i = front ++ behind str j) (stops : behind str j ≠ [] → str.getD j 0 = stop)
    (same : behind str i = text ++ stop :: rest) :
    str.getD j 0 = stop := by
  apply stops
  intro none
  rw [none, List.append_nil] at split
  rw [← split, same] at free
  exact free (List.mem_append_right _ List.mem_cons_self)

theorem varexpandGroup_meets (mode : Nat) {b : Room} {ptr : Nat} (inside : ptr ≤ (cstring str).length)
    (size : b.pos + b.len = b.bytes.length) (fits : b.bytes.length ≤ w) :
    Meets (within ((cstring str).length + 1) w) 0 (varexpandGroup str mode b ptr)
      (Sum.elim
        (fun s => s.2 ≤ (cstring str).length ∧ ∃ g : Group, g.Begins (behind str ptr) ∧
          g.rest = behind str s.2 ∧ b.Grows s.1 (g.choice (isExec mode)))
        (fun ret => ret = none ∧ ((∀ g : Group, ¬ g.Begins (behind str ptr)) ∨
          ∃ g : Group, g.Begins (behind str ptr) ∧ b.len ≤ (g.choice (isExec mode)).length))) := by
  have refuse (bad : ∀ g : Group, ¬ g.Begins (behind str ptr)) :
      (none : Option Bytes) = none ∧ ((∀ g : Group, ¬ g.Begins (behind str ptr)) ∨
        ∃ g : Group, g.Begins (behind str ptr) ∧ b.len ≤ (g.choice (isExec mode)).length) :=
    ⟨rfl, .inl bad⟩
  unfold varexpandGroup
  apply Meets.bind (readAt_meets (by omega))
  intro x hx
  subst hx
  rcases behind_cases str inside with ⟨none, nul, _⟩ | ⟨cons, char, lt⟩
  · rw [if_pos nul]
    refine Meets.pure (refuse fun g begins => ?_)
    rw [none] at begins
    exact absurd begins.text (List.cons_ne_nil _ _).symm
  rw [if_neg char]
  apply Meets.bind (readAt_meets (by omega))
  intro mark hmark
  subst hmark
  apply Meets.ite
  · intro other
    refine Meets.pure (refuse fun g begins => other ?_)
    have text := begins.text
    rw [cons] at text
    have next := (List.cons.inj text).2
    rcases behind_cases str (Nat.succ_le_of_lt lt) with ⟨none, _, _⟩ | ⟨cons', _, _⟩
    · rw [none] at next
      cases next
    · rw [cons'] at next
      exact (List.cons.inj next).1
  intro mark
  rw [not_not] at mark
  rcases behind_cases str (Nat.succ_le_of_lt lt) with ⟨_, nul, _⟩ | ⟨cons', _, lt'⟩
  · rw [nul] at mark
    exact absurd mark (by decide)
  -- from here on the text is `x?` and what is at `t`
  have opened : behind str ptr = str.getD ptr 0 :: 0x3f :: behind str (ptr + 2) := by
    rw [cons, cons', mark]
  have colon_free {g : Group} (begins : g.Begins (behind str ptr)) :
      behind str (ptr + 2) = g.yes ++ 0x3a :: (g.no ++ 0x7d :: g.rest) := by
    have text := begins.text
    rw [opened] at text
    exact (List.cons.inj (List.cons.inj text).2).2
  apply Meets.bind (skipTo_meets 0x3a (Nat.succ_le_of_lt lt'))
  rintro et ⟨yes, hyes, freeYes, rfl, et_le, stopsYes⟩
  apply Meets.bind (readAt_meets (by omega))
  intro colon hcolon
  subst hcolon
  apply Meets.ite
  · intro other
    exact Meets.pure (refuse fun g begins => other
      (skipTo_found freeYes hyes stopsYes (colon_free begins)))
  intro colon
  rw [not_not] at colon
  rcases behind_cases str et_le with ⟨_, nul, _⟩ | ⟨consE, _, ltE⟩
  · rw [nul] at colon
    exact absurd colon (by decide)
  rw [colon] at consE
  have parted {g : Group} (begins : g.Begins (behind str ptr)) :
      yes = g.yes ∧ behind str (ptr + 2 + yes.length + 1) = g.no ++ 0x7d :: g.rest := by
    have whole := colon_free begins
    rw [hyes, consE] at whole
    exact split_unique freeYes begins.yes whole
  apply Meets.bind (skipTo_meets 0x7d (Nat.succ_le_of_lt ltE))
  rintro ee ⟨no, hno, freeNo, rfl, ee_le, stopsNo⟩
  apply Meets.bind (readAt_meets (by omega))
  intro close hclose
  subst hclose
  apply Meets.ite
  · intro other
    exact Meets.pure (refuse fun g begins => other
      (skipTo_found freeNo hno stopsNo (parted begins).2))
  intro close
  rw [not_not] at close
  rcases behind_cases str ee_le with ⟨_, nul, _⟩ | ⟨consR, _, ltR⟩
  · rw [nul] at close
    exact absurd close (by decide)
  rw [close] at consR
  apply Meets.bind (readAt_meets (by omega))
  intro x hx
  subst hx
  apply Meets.ite
  · intro other
    refine Meets.pure (refuse fun g begins => other ?_)
    have text := begins.text
    rw [opened] at text
    exact (List.cons.inj text).1
  intro letter
  rw [not_not] at letter
  -- the group is complete
  let g : Group := ⟨[], yes, no, behind str (ptr + 2 + yes.length + 1 + no.length + 1)⟩
  have begins : g.Begins (behind str ptr) := by
    refine ⟨freeYes, freeNo, ?_⟩
    rw [opened, letter, hyes, consE, hno, consR]
  have chosen : ∃ p back, p ≤ (cstring str).length ∧
      behind str p = g.choice (isExec mode) ++ back ∧
        (if mode &&& 0o111 ≠ 0 then (ptr + 2, ptr + 2 + yes.length - (ptr + 2))
          else (ptr + 2 + yes.length + 1, ptr + 2 + yes.length + 1 + no.length - (ptr + 2 + yes.length + 1))) =
          (p, (g.choice (isExec mode)).length) := by
    by_cases exec : mode &&& 0o111 ≠ 0
    · have set : isExec mode = true := decide_eq_true exec
      rw [if_pos exec, set, Nat.add_sub_cancel_left]
      exact ⟨_, _, Nat.succ_le_of_lt lt', hyes, rfl⟩
    · have clear : isExec mode = false := decide_eq_false exec
      rw [if_neg exec, clear, Nat.add_sub_cancel_left]
      exact ⟨_, _, Nat.succ_le_of_lt ltE, hno, rfl⟩
  obtain ⟨p, back, p_le, here, pair⟩ := chosen
  dsimp only
  rw [pair]
  apply Meets.bind (put_meets here p_le size fits)
  rintro r (⟨rfl, short⟩ | ⟨b', rfl, grows⟩)
  · exact Meets.pure ⟨rfl, .inr ⟨g, begins, short⟩⟩
  · exact Meets.pure ⟨Nat.succ_le_of_lt ltR, g, begins, rfl, grows⟩

end Memory

/-! ## The whole routine -/

theorem Group.Begins.leads {g : Group} {s before : Bytes} (begins : g.Begins s) (plain : Plain before) :
    (⟨before, g.yes, g.no, g.rest⟩ : Group).Leads ∧
      (⟨before, g.yes, g.no, g.rest⟩ : Group).text = before ++ 0x24 :: 0x7b :: s :=
  ⟨⟨plain, begins.yes, begins.no⟩, by rw [Group.text, begins.text]⟩

/-- Every text has an expansion or is malformed. -/
theorem expands_or_malformed (exec : Bool) (s : Bytes) : (∃ out, Expands exec s out) ∨ Malformed s := by
  cases found : findGroup s with
  | none => exact .inl ⟨s, .plain (findGroup_none_iff.mp found)⟩
  | some r =>
      by_cases begins : ∃ g : Group, g.Begins r.2
      · obtain ⟨g, begins⟩ := begins
        obtain ⟨leads, text⟩ := begins.leads (findGroup_plain found)
        rw [← findGroup_eq found] at text
        have shorter : g.rest.length < s.length := by
          rw [← text, Group.text]
          simp only [List.length_append, List.length_cons]
          omega
        rw [← text]
        rcases expands_or_malformed exec g.rest with ⟨out, rest⟩ | rest
        · exact .inl ⟨_, .group leads rest⟩
        · exact .inr (.behind leads rest)
      · right
        rw [findGroup_eq found]
        apply Malformed.here (findGroup_plain found)
        intro yes no rest' free free' eq
        exact begins ⟨⟨[], yes, no, rest'⟩, free, free', eq⟩
termination_by s.length

/-- Between two rounds: what is in front of `buf` is the expansion so far. -/
structure Expanding (exec : Bool) (str buf : Bytes) (s : Room × Nat) : Prop where
  size : s.1.pos + s.1.len = s.1.bytes.length
  length : s.1.bytes.length = buf.length
  room : 0 < s.1.len
  inside : s.2 ≤ (cstring str).length
  expands : ∀ out, Expands exec (cstring str) out ↔
    ∃ tail, Expands exec (behind str s.2) tail ∧ out = s.1.bytes.take s.1.pos ++ tail
  malformed : Malformed (cstring str) ↔ Malformed (behind str s.2)

/-- What `-1` and `0` say. -/
def Expanded (exec : Bool) (str buf : Bytes) : Option Bytes → Prop
  | none => Malformed (cstring str) ∨ ∃ out, Expands exec (cstring str) out ∧ buf.length ≤ out.length
  | some bytes => bytes.length = buf.length ∧
      ∃ out, Expands exec (cstring str) out ∧ bytes.take (out.length + 1) = out ++ [0]

namespace Expanding

variable {exec : Bool} {str buf : Bytes} {s : Room × Nat}

theorem start (exec : Bool) (str : Bytes) {buf : Bytes} (room : 0 < buf.length) :
    Expanding exec str buf (⟨buf, 0, buf.length⟩, 0) where
  size := Nat.zero_add _
  length := rfl
  room := room
  inside := Nat.zero_le _
  expands out := ⟨fun h => ⟨out, h, rfl⟩, by rintro ⟨tail, h, rfl⟩; exact h⟩
  malformed := Iff.rfl

theorem done_length (h : Expanding exec str buf s) : (s.1.bytes.take s.1.pos).length = s.1.pos := by
  have := h.size
  rw [List.length_take]
  omega

/-- A text in front of every expansion of what is left does not fit. -/
theorem refused (h : Expanding exec str buf s) {front : Bytes} (short : s.1.len ≤ front.length)
    (leads : ∀ tail, Expands exec (behind str s.2) tail → front <+: tail) :
    Expanded exec str buf none := by
  rcases expands_or_malformed exec (behind str s.2) with ⟨tail, rest⟩ | bad
  · refine .inr ⟨_, (h.expands _).mpr ⟨tail, rest, rfl⟩, ?_⟩
    have longer := (leads tail rest).length_le
    have size := h.size
    have length := h.length
    rw [List.length_append, h.done_length]
    omega
  · exact .inl (h.malformed.mpr bad)

end Expanding

theorem leads_expansion {exec : Bool} {s out : Bytes} {r : Bytes × Bytes} (found : findGroup s = some r)
    (h : Expands exec s out) : r.1 <+: out := by
  cases h with
  | plain plain =>
      rw [findGroup_none_iff.mpr plain] at found
      cases found
  | group leads _ =>
      rw [Group.text, findGroup_lead leads.before] at found
      rw [← congrArg Prod.fst (Option.some.inj found), List.append_assoc]
      exact List.prefix_append _ _

section Rounds

variable {str buf : Bytes} {mode : Nat} {s : Room × Nat}

theorem varexpandEnd_meets (h : Expanding (isExec mode) str buf s) (plain : Plain (behind str s.2)) :
    Meets (within ((cstring str).length + 1) buf.length) 0 (varexpandEnd str s.1 s.2)
      (Expanded (isExec mode) str buf) := by
  unfold varexpandEnd
  apply Meets.bind (skipTo_meets 0 h.inside)
  rintro fin ⟨front, split, _, rfl, fin_le, stops⟩
  have all : behind str (s.2 + front.length) = [] := by
    rcases behind_cases str fin_le with ⟨none, _, _⟩ | ⟨cons, char, _⟩
    · exact none
    · exact absurd (stops (cons ▸ List.cons_ne_nil _ _)) char
  have whole : behind str s.2 = front := by rw [split, all, List.append_nil]
  rw [Nat.add_sub_cancel_left]
  apply Meets.bind (put_meets split h.inside h.size (Nat.le_of_eq h.length))
  rintro r (⟨rfl, short⟩ | ⟨b, rfl, grows⟩)
  · apply Meets.pure
    apply h.refused short
    intro tail rest
    have same := (expands_plain_iff plain).mp rest
    exact (same.trans whole) ▸ List.prefix_rfl
  · have size := h.size
    have room := grows.room
    have inside : b.pos < b.bytes.length := by
      rw [grows.pos, grows.length]
      omega
    have length : b.bytes.length = buf.length := grows.length.trans h.length
    apply Meets.bind (writeAt_meets 0 (by omega))
    rintro bytes rfl
    have out_length : (s.1.bytes.take s.1.pos ++ front).length = b.pos := by
      rw [List.length_append, h.done_length, grows.pos]
    refine Meets.pure ⟨by rw [List.length_set, length], s.1.bytes.take s.1.pos ++ front, ?_, ?_⟩
    · rw [h.expands]
      exact ⟨front, (expands_plain_iff plain).mpr whole.symm, rfl⟩
    · rw [out_length, take_set_succ _ inside, grows.bytes]

/-- The group is expanded behind what is there. -/
theorem Expanding.next {b b' : Room} {g : Group} {sptr : Nat}
    (h : Expanding (isExec mode) str buf s) (inside : sptr ≤ (cstring str).length)
    (leads : g.Leads) (text : behind str s.2 = g.text) (rest : g.rest = behind str sptr)
    (before : s.1.Grows b g.before) (choice : b.Grows b' (g.choice (isExec mode))) :
    Expanding (isExec mode) str buf (b', sptr) where
  size := by
    have := h.size
    have := before.room
    have := choice.room
    rw [choice.pos, choice.len, choice.length, before.pos, before.len, before.length]
    have := before.len
    omega
  length := choice.length.trans (before.length.trans h.length)
  room := by
    have := choice.room
    rw [choice.len]
    omega
  inside := inside
  expands out := by
    rw [h.expands, choice.bytes, before.bytes, text]
    constructor
    · rintro ⟨tail, expands, rfl⟩
      obtain ⟨tail', expands', rfl⟩ := (expands_text_iff leads).mp expands
      exact ⟨tail', rest ▸ expands', by simp only [List.append_assoc]⟩
    · rintro ⟨tail, expands, rfl⟩
      exact ⟨_, .group leads (rest.symm ▸ expands), by simp only [List.append_assoc]⟩
  malformed := by rw [h.malformed, text, malformed_text_iff leads, rest]

theorem varexpandRound_meets (h : Expanding (isExec mode) str buf s) :
    Meets (within ((cstring str).length + 1) buf.length) 0 (varexpandRound str mode s)
      (Sum.elim (fun s' => Expanding (isExec mode) str buf s' ∧
          (behind str s'.2).length < (behind str s.2).length)
        (Expanded (isExec mode) str buf)) := by
  unfold varexpandRound
  apply Meets.bind (strstr_meets h.inside)
  rintro _ rfl
  cases found : findGroup (behind str s.2) with
  | none =>
      rw [groupAt, found]
      apply Meets.bind (varexpandEnd_meets h (findGroup_none_iff.mp found))
      exact fun _ done => Meets.pure done
  | some r =>
      have split := findGroup_eq found
      have plain := findGroup_plain found
      rw [groupAt, found]
      dsimp only [Option.map_some]
      rw [Nat.add_sub_cancel_left]
      apply Meets.bind (put_meets split h.inside h.size (Nat.le_of_eq h.length))
      rintro _ (⟨rfl, short⟩ | ⟨b, rfl, before⟩)
      · exact Meets.pure (h.refused short (fun tail => leads_expansion found))
      have opened : behind str s.2 = (r.1 ++ [0x24, 0x7b]) ++ r.2 := by
        rw [split, List.append_assoc]
        rfl
      have size : (r.1 ++ [0x24, 0x7b]).length = r.1.length + 2 := List.length_append
      have here := behind_add opened
      have inside := behind_inside h.inside opened
      rw [size, ← Nat.add_assoc] at here inside
      have sizeB : b.pos + b.len = b.bytes.length := by
        have := h.size
        have := before.room
        rw [before.pos, before.len, before.length]
        omega
      have fits : b.bytes.length ≤ buf.length := Nat.le_of_eq (before.length.trans h.length)
      apply (varexpandGroup_meets mode inside sizeB fits).mono (Nat.le_refl 0)
      rw [here]
      rintro (s' | ret)
      · rintro ⟨inside', g, begins, rest, choice⟩
        obtain ⟨leads, text⟩ := begins.leads plain
        rw [← split] at text
        refine ⟨h.next inside' leads text.symm rest before choice, ?_⟩
        rw [← text, ← rest, Group.text]
        simp only [List.length_append, List.length_cons]
        omega
      · rintro ⟨rfl, none | ⟨g, begins, short⟩⟩
        · refine .inl (h.malformed.mpr ?_)
          rw [split]
          exact .here plain (fun yes no rest free free' eq => none ⟨[], yes, no, rest⟩ ⟨free, free', eq⟩)
        · obtain ⟨leads, text⟩ := begins.leads plain
          rw [← split] at text
          apply @Expanding.refused _ _ _ _ h (r.1 ++ g.choice (isExec mode))
          · have := before.len
            have := before.room
            rw [List.length_append]
            omega
          · intro tail expands
            rw [← text] at expands
            obtain ⟨tail, _, rfl⟩ := (expands_text_iff leads).mp expands
            exact List.prefix_append _ _

theorem varexpandIn_meets (mode : Nat) (str : Bytes) (room : 0 < buf.length) :
    Meets (within ((cstring str).length + 1) buf.length) 0 (varexpandIn mode str buf)
      (Expanded (isExec mode) str buf) := by
  have bound : (cstring str).length ≤ str.length := (List.takeWhile_sublist _).length_le
  apply Meets.loop (fun s => varexpandRound_meets) _ _ (Expanding.start (isExec mode) str room)
  change (cstring str).length < str.length + 1
  omega

end Rounds

/-! ## The list model -/

theorem varexpandFrom_plain {mode k len : Nat} {s : Bytes} (plain : Plain s) :
    varexpandFrom mode (k + 1) len s = if len ≤ s.length then none else some s := by
  rw [varexpandFrom, findGroup_none_iff.mpr plain]

theorem varexpandFrom_text {mode k len : Nat} {g : Group} (leads : g.Leads) :
    varexpandFrom mode (k + 1) len g.text =
      if len ≤ g.before.length then none
      else if len - g.before.length ≤ (g.choice (isExec mode)).length then none
      else (varexpandFrom mode k (len - g.before.length - (g.choice (isExec mode)).length) g.rest).map
        (fun tail => g.before ++ g.choice (isExec mode) ++ tail) := by
  rw [varexpandFrom, Group.text, findGroup_lead leads.before]
  simp only [splitAt_append leads.yes, splitAt_append leads.no, ne_eq, not_true_eq_false, if_false, ge_iff_le]
  rw [← choice_eq g]

theorem varexpandFrom_expands {mode k len : Nat} {s out : Bytes} (h : Expands (isExec mode) s out)
    (enough : s.length < k) :
    varexpandFrom mode k len s = if len ≤ out.length then none else some out := by
  induction h generalizing k len with
  | plain plain =>
      obtain ⟨k, rfl⟩ := Nat.exists_eq_add_of_lt enough
      exact varexpandFrom_plain plain
  | @group g out leads _ ih =>
      cases k with
      | zero => exact absurd enough (Nat.not_lt_zero _)
      | succ k =>
          have shorter : g.rest.length < k := by
            rw [Group.text] at enough
            simp only [List.length_append, List.length_cons] at enough
            omega
          rw [varexpandFrom_text leads, ih shorter]
          simp only [List.length_append]
          by_cases short : len ≤ g.before.length
          · rw [if_pos short, if_pos (by omega)]
          by_cases short' : len - g.before.length ≤ (g.choice (isExec mode)).length
          · rw [if_neg short, if_pos short', if_pos (by omega)]
          rw [if_neg short, if_neg short']
          by_cases fits : len ≤ g.before.length + (g.choice (isExec mode)).length + out.length
          · rw [if_pos fits, if_pos (by omega), Option.map_none]
          · rw [if_neg fits, if_neg (by omega), Option.map_some]

theorem varexpandFrom_malformed {mode k len : Nat} {s : Bytes} (h : Malformed s) :
    varexpandFrom mode k len s = none := by
  induction h generalizing k len with
  | here plain none =>
      cases out : varexpandFrom mode k len _ with
      | none => rfl
      | some out =>
          cases k with
          | zero => cases out
          | succ k =>
              rcases varexpandFrom_some out with ⟨found, _⟩ | ⟨g, _, _, found, _⟩
              · rw [findGroup_lead plain] at found
                cases found
              · rw [firstGroup_eq_none plain none] at found
                cases found
  | behind leads _ ih =>
      cases k with
      | zero => rfl
      | succ k =>
          rw [varexpandFrom_text leads, ih, Option.map_none, ite_self, ite_self]

theorem cstring_of_take {bytes out : Bytes} (free : 0 ∉ out)
    (front : bytes.take (out.length + 1) = out ++ [0]) : cstring bytes = out := by
  have keep : ∀ c ∈ out, (c != 0) = true := fun c mem => bne_iff_ne.mpr (fun zero => free (zero ▸ mem))
  rw [cstring, ← List.take_append_drop (out.length + 1) bytes, front, List.append_assoc,
    List.takeWhile_append_of_pos keep]
  exact List.append_nil out

/-- What `varexpand` returns, and what it touches of its two buffers. -/
theorem varexpand_exact (mode : Nat) (str buf : Bytes) (room : 0 < buf.length) :
    (∀ e ∈ (varexpandIn mode str buf).events, e.within ((cstring str).length + 1) buf.length) ∧
      ∃ ret, (varexpandIn mode str buf).value = some ret ∧
        (ret = none ↔ Malformed (cstring str) ∨
          ∃ out, Expands (isExec mode) (cstring str) out ∧ buf.length ≤ out.length) ∧
        (∀ bytes, ret = some bytes → bytes.length = buf.length ∧ (cstring bytes).length < buf.length ∧
          Expands (isExec mode) (cstring str) (cstring bytes)) ∧
        ret.map cstring = Softmagic.varexpand mode buf.length (cstring str) := by
  obtain ⟨allowed, _, ret, value, expanded⟩ := varexpandIn_meets mode str room
  have enough : (cstring str).length < (cstring str).length + 1 := Nat.lt_succ_self _
  refine ⟨allowed, ret, value, ?_⟩
  cases ret with
  | none =>
      refine ⟨⟨fun _ => expanded, fun _ => rfl⟩, nofun, Eq.symm ?_⟩
      rcases expanded with bad | ⟨out, expands, long⟩
      · exact varexpandFrom_malformed bad
      · exact (varexpandFrom_expands expands enough).trans (if_pos long)
  | some bytes =>
      obtain ⟨length, out, expands, front⟩ := expanded
      obtain rfl := cstring_of_take (expands.free (zero_notMem_cstring str)) front
      have short : (cstring bytes).length < buf.length := by
        have size := congrArg List.length front
        rw [List.length_take, List.length_append, List.length_singleton] at size
        omega
      refine ⟨⟨nofun, ?_⟩, ?_, ?_⟩
      · rintro (bad | ⟨out, expands', long⟩)
        · exact absurd bad expands.not_malformed
        · obtain rfl := expands.unique expands'
          omega
      · intro bytes' same
        obtain rfl := Option.some.inj same
        exact ⟨length, short, expands⟩
      · exact ((varexpandFrom_expands expands enough).trans (if_neg (by omega))).symm

theorem varexpand_exact_pie :
    ∃ bytes, (varexpandIn 0o755 (Softmagic.asc "LSB $\x7bx?pie:shared\x7d") (List.replicate 8 0x20)).value =
      some (some bytes) ∧ cstring bytes = Softmagic.asc "LSB pie" := by
  obtain ⟨_, ret, value, _, _, same⟩ :=
    varexpand_exact 0o755 (Softmagic.asc "LSB $\x7bx?pie:shared\x7d") (List.replicate 8 0x20) (by decide)
  obtain ⟨bytes, rfl, text⟩ := Option.map_eq_some_iff.mp (same.trans (by decide +kernel :
    Softmagic.varexpand 0o755 8 (cstring (Softmagic.asc "LSB $\x7bx?pie:shared\x7d")) =
      some (Softmagic.asc "LSB pie")))
  exact ⟨bytes, value, text⟩

end Libmagic.Format
