import Libmagic.Format.Fits

/-!
# `varexpand` and a directive

A directive has none of the characters of a `${x?yes:no}` group, so that it is kept whole or left
out, and one of the two modes keeps it.
-/
namespace Libmagic.Format

open Softmagic

/-- `mode & 0111`. -/
def isExec (mode : Nat) : Bool := decide (mode &&& 0o111 ≠ 0)

/-! ## Groups -/

/-- A group of a description, with what stands before and behind it. -/
structure Group where
  before : Bytes
  yes : Bytes
  no : Bytes
  rest : Bytes

def Group.text (g : Group) : Bytes :=
  g.before ++ 0x24 :: (0x7b :: 0x78 :: 0x3f :: (g.yes ++ 0x3a :: (g.no ++ 0x7d :: g.rest)))

/-- The text that a group stands for. -/
def Group.choice (g : Group) (exec : Bool) : Bytes := if exec then g.yes else g.no

/-- The first group of a description that `varexpand` can expand. -/
def firstGroup (str : Bytes) : Option Group :=
  (findGroup str).bind (fun r =>
    if r.2.take 2 = [0x78, 0x3f] then
      (splitAt 0x3a (r.2.drop 2)).bind (fun s =>
        (splitAt 0x7d s.2).map (fun t => ⟨r.1, s.1, t.1, t.2⟩))
    else none)

theorem findGroup_eq {str : Bytes} {r : Bytes × Bytes} (h : findGroup str = some r) :
    str = r.1 ++ 0x24 :: 0x7b :: r.2 := by
  fun_induction findGroup str generalizing r with
  | case1 rest =>
      obtain rfl := Option.some.inj h
      rfl
  | case2 c s _ ih =>
      obtain ⟨r', hr', rfl⟩ := Option.map_eq_some_iff.mp h
      rw [ih hr']
      rfl
  | case3 => cases h

theorem splitAt_eq {c : UInt8} {s : Bytes} {r : Bytes × Bytes} (h : splitAt c s = some r) :
    s = r.1 ++ c :: r.2 := by
  unfold splitAt at h
  split at h
  · cases h
  · rename_i d rest hdrop
    obtain rfl := Option.some.inj h
    have whole := List.takeWhile_append_dropWhile (p := (· != c)) (l := s)
    have stop : (d != c) = false := by
      have := List.head?_dropWhile_not (· != c) s
      rw [hdrop] at this
      simpa using this
    rw [hdrop, bne_eq_false_iff_eq.mp stop] at whole
    exact whole.symm

theorem splitAt_none {c : UInt8} {s : Bytes} (h : splitAt c s = none) : c ∉ s := by
  intro mem
  unfold splitAt at h
  split at h
  · rename_i nil
    have all := List.dropWhile_eq_nil_iff.mp nil c mem
    exact absurd rfl (bne_iff_ne.mp all)
  · cases h

theorem splitAt_free {c : UInt8} {s : Bytes} {r : Bytes × Bytes} (h : splitAt c s = some r) : c ∉ r.1 := by
  unfold splitAt at h
  split at h
  · cases h
  · obtain rfl := Option.some.inj h
    intro mem
    have ne := @List.mem_takeWhile_imp _ (· != c) s c mem
    exact absurd rfl (bne_iff_ne.mp ne)

theorem firstGroup_text {str : Bytes} {g : Group} (h : firstGroup str = some g) : g.text = str := by
  obtain ⟨r, hr, h⟩ := Option.bind_eq_some_iff.mp h
  split at h
  swap
  · cases h
  rename_i open'
  obtain ⟨s, hs, h⟩ := Option.bind_eq_some_iff.mp h
  obtain ⟨t, ht, rfl⟩ := Option.map_eq_some_iff.mp h
  have group : r.2 = 0x78 :: 0x3f :: r.2.drop 2 := by
    conv_lhs => rw [← List.take_append_drop 2 r.2, open']
    rfl
  rw [findGroup_eq hr, group, splitAt_eq hs, splitAt_eq ht]
  rfl

theorem choice_eq (g : Group) (mode : Nat) :
    (if mode &&& 0o111 ≠ 0 then g.yes else g.no) = g.choice (isExec mode) := by
  unfold Group.choice isExec
  by_cases exec : mode &&& 0o111 ≠ 0
  · rw [if_pos exec, decide_eq_true exec, if_pos rfl]
  · rw [if_neg exec, decide_eq_false exec, if_neg Bool.false_ne_true]

/-- `varexpand` copies a description without groups, or expands the first group. -/
theorem varexpandFrom_some {mode k len : Nat} {str out : Bytes}
    (h : varexpandFrom mode (k + 1) len str = some out) :
    (findGroup str = none ∧ out = str) ∨
      ∃ g len' tail, firstGroup str = some g ∧ varexpandFrom mode k len' g.rest = some tail ∧
        out = g.before ++ g.choice (isExec mode) ++ tail := by
  unfold varexpandFrom at h
  split at h
  · rename_i none
    split at h
    · cases h
    · exact .inl ⟨none, (Option.some.inj h).symm⟩
  · rename_i before group hgroup
    split at h
    · cases h
    · split at h
      · rename_i x t
        split at h
        · cases h
        · rename_i yes e hyes
          split at h
          · cases h
          · rename_i no rest hno
            split at h
            · cases h
            · rename_i letter
              obtain rfl : x = 0x78 := by simpa using letter
              dsimp only at h
              rw [choice_eq ⟨before, yes, no, rest⟩] at h
              split at h
              · cases h
              · obtain ⟨tail, htail, rfl⟩ := Option.map_eq_some_iff.mp h
                refine .inr ⟨⟨before, yes, no, rest⟩, _, tail, ?_, htail, rfl⟩
                rw [firstGroup, hgroup, Option.bind_some]
                simp only [List.take_succ_cons, List.take_zero, List.drop_succ_cons, List.drop_zero, if_true]
                rw [hyes, Option.bind_some, hno, Option.map_some]
      · cases h

/-! ## A block inside -/

/-- A `%` with what belongs to it. -/
structure Block (b : Bytes) : Prop where
  start : ∃ c rest, b = 0x25 :: c :: rest
  dollar : 0x24 ∉ b
  brace : 0x7b ∉ b
  mark : 0x3f ∉ b
  colon : 0x3a ∉ b
  close : 0x7d ∉ b

/-- A text whose only `%` is the one of the block. -/
def Holds (b out : Bytes) : Prop :=
  ∃ pre post, out = pre ++ (b ++ post) ∧ 0x25 ∉ pre ∧ 0x25 ∉ post

theorem Holds.append {b out : Bytes} (holds : Holds b out) {front back : Bytes} (no : 0x25 ∉ front)
    (no' : 0x25 ∉ back) : Holds b (front ++ (out ++ back)) := by
  obtain ⟨pre, post, rfl, none, none'⟩ := holds
  refine ⟨front ++ pre, post ++ back, by simp only [List.append_assoc], ?_, ?_⟩
  · rw [List.mem_append, not_or]
    exact ⟨no, none⟩
  · rw [List.mem_append, not_or]
    exact ⟨none', no'⟩

/-- A character that is not in the block is in front of it or behind it. -/
theorem locate {c : UInt8} {xs ys pre b post : Bytes} (absent : c ∉ b)
    (eq : xs ++ c :: ys = pre ++ (b ++ post)) :
    (∃ mid, pre = xs ++ c :: mid ∧ ys = mid ++ (b ++ post)) ∨
      (∃ mid, xs = pre ++ (b ++ mid) ∧ post = mid ++ c :: ys) := by
  rcases List.append_eq_append_iff.mp eq with ⟨as, hpre, htail⟩ | ⟨bs, hxs, htail⟩
  · cases as with
    | nil =>
        rw [List.nil_append] at htail
        cases b with
        | nil => exact .inr ⟨[], by simpa using hpre.symm, htail.symm⟩
        | cons d b => exact absurd (List.mem_cons.mpr (.inl (List.cons.inj htail).1)) absent
    | cons d as =>
        obtain ⟨rfl, rfl⟩ := List.cons.inj htail
        exact .inl ⟨as, hpre, rfl⟩
  · rcases List.append_eq_append_iff.mp htail with ⟨cs, hbs, hpost⟩ | ⟨cs, hb, hc⟩
    · exact .inr ⟨cs, by rw [hxs, hbs], hpost⟩
    · cases cs with
      | nil =>
          rw [List.append_nil] at hb
          rw [List.nil_append] at hc
          exact .inr ⟨[], by rw [hxs, hb, List.append_nil], hc.symm⟩
      | cons d cs =>
          rw [List.cons_append] at hc
          have mem : c ∈ b := by
            rw [hb, (List.cons.inj hc).1]
            simp
          exact absurd mem absent

theorem not_mem_append_cons {c : UInt8} {xs ys : Bytes} (no : 0x25 ∉ xs ++ c :: ys) :
    0x25 ∉ xs ∧ 0x25 ∉ ys := by
  rw [List.mem_append, List.mem_cons, not_or, not_or] at no
  exact ⟨no.1, no.2.2⟩

/-- The parts of a group without a `%`. -/
structure Group.Free (g : Group) : Prop where
  before : 0x25 ∉ g.before
  yes : 0x25 ∉ g.yes
  no : 0x25 ∉ g.no
  rest : 0x25 ∉ g.rest

/-- The block is in one part of the group, and the other parts have no `%`. -/
inductive Group.Inside (b : Bytes) (g : Group) : Prop where
  | before (holds : Holds b g.before) (yes : 0x25 ∉ g.yes) (no : 0x25 ∉ g.no) (rest : 0x25 ∉ g.rest)
  | yes (before : 0x25 ∉ g.before) (holds : Holds b g.yes) (no : 0x25 ∉ g.no) (rest : 0x25 ∉ g.rest)
  | no (before : 0x25 ∉ g.before) (yes : 0x25 ∉ g.yes) (holds : Holds b g.no) (rest : 0x25 ∉ g.rest)
  | rest (before : 0x25 ∉ g.before) (yes : 0x25 ∉ g.yes) (no : 0x25 ∉ g.no) (holds : Holds b g.rest)

theorem Group.free_of_text {g : Group} (no : 0x25 ∉ g.text) : g.Free := by
  obtain ⟨before, tail⟩ := not_mem_append_cons no
  have parts : 0x25 ∉ g.yes ++ 0x3a :: (g.no ++ 0x7d :: g.rest) :=
    fun mem => tail (List.mem_cons_of_mem _ (List.mem_cons_of_mem _ (List.mem_cons_of_mem _ mem)))
  obtain ⟨yes, tail⟩ := not_mem_append_cons parts
  obtain ⟨none, rest⟩ := not_mem_append_cons tail
  exact ⟨before, yes, none, rest⟩

theorem Group.inside_of_text {b : Bytes} {g : Group} (block : Block b) (holds : Holds b g.text) :
    g.Inside b := by
  obtain ⟨pre, post, text, no, no'⟩ := holds
  rcases locate block.dollar text with ⟨mid, rfl, tail⟩ | ⟨mid, before, rfl⟩
  swap
  · obtain ⟨none, behind⟩ := not_mem_append_cons no'
    have free : Group.Free ⟨[], g.yes, g.no, g.rest⟩ := free_of_text (fun mem => behind (by
      rcases List.mem_cons.mp mem with eq | mem
      · exact absurd eq (by decide)
      · exact mem))
    exact .before ⟨pre, mid, before, no, none⟩ free.yes free.no free.rest
  obtain ⟨before, front⟩ := not_mem_append_cons no
  -- the characters of the group itself are in front of the block
  have opened : [0x7b, 0x78] ++ 0x3f :: (g.yes ++ 0x3a :: (g.no ++ 0x7d :: g.rest)) = mid ++ (b ++ post) := tail
  rcases locate block.mark opened with ⟨mid', rfl, parts⟩ | ⟨mid', short, _⟩
  swap
  · obtain ⟨c, rest, rfl⟩ := block.start
    have mem : (0x25 : UInt8) ∈ [0x7b, 0x78] := by
      rw [short]
      simp
    exact absurd mem (by decide)
  obtain ⟨_, front⟩ := not_mem_append_cons front
  rcases locate block.colon parts with ⟨mid, rfl, behind⟩ | ⟨mid, yes, rfl⟩
  swap
  · obtain ⟨none, behind⟩ := not_mem_append_cons no'
    obtain ⟨hno, hrest⟩ := not_mem_append_cons behind
    exact .yes before ⟨mid', mid, yes, front, none⟩ hno hrest
  obtain ⟨hyes, front⟩ := not_mem_append_cons front
  rcases locate block.close behind with ⟨mid', rfl, rest⟩ | ⟨mid', hno, rfl⟩
  · obtain ⟨hno, front⟩ := not_mem_append_cons front
    exact .rest before hyes hno ⟨mid', post, rest, front, no'⟩
  · obtain ⟨none, behind⟩ := not_mem_append_cons no'
    exact .no before hyes ⟨mid, mid', hno, front, none⟩ behind

/-! ## What is left of a block -/

theorem Group.not_mem_choice {g : Group} (yes : 0x25 ∉ g.yes) (no : 0x25 ∉ g.no) (exec : Bool) :
    0x25 ∉ g.choice exec := by
  cases exec
  · exact no
  · exact yes

theorem varexpandFrom_free {mode k len : Nat} {str out : Bytes} (no : 0x25 ∉ str)
    (h : varexpandFrom mode k len str = some out) : 0x25 ∉ out := by
  induction k generalizing len str out with
  | zero => cases h
  | succ k ih =>
      rcases varexpandFrom_some h with ⟨_, rfl⟩ | ⟨g, len', tail, hg, htail, rfl⟩
      · exact no
      · rw [← firstGroup_text hg] at no
        have free := Group.free_of_text no
        rw [List.mem_append, List.mem_append, not_or, not_or]
        exact ⟨⟨free.before, Group.not_mem_choice free.yes free.no _⟩, ih free.rest htail⟩

/-- A block is kept or left out, as the execute bits say, and for one of their values it is kept. -/
theorem varexpandFrom_block {b : Bytes} (block : Block b) (k : Nat) {str : Bytes} (holds : Holds b str) :
    ∃ kept : Bool → Bool, (∃ exec, kept exec = true) ∧
      ∀ {mode len : Nat} {out : Bytes}, varexpandFrom mode k len str = some out →
        if kept (isExec mode) then Holds b out else 0x25 ∉ out := by
  induction k generalizing str with
  | zero => exact ⟨fun _ => true, ⟨true, rfl⟩, nofun⟩
  | succ k ih =>
      cases first : firstGroup str with
      | none =>
          refine ⟨fun _ => true, ⟨true, rfl⟩, fun {mode len out} h => ?_⟩
          rcases varexpandFrom_some h with ⟨_, rfl⟩ | ⟨g, _, _, hg, _⟩
          · exact holds
          · rw [first] at hg
            cases hg
      | some g =>
          -- the first group is the same for every mode
          have expand : ∀ {mode len : Nat} {out : Bytes}, varexpandFrom mode (k + 1) len str = some out →
              out = str ∧ findGroup str = none ∨ ∃ len' tail,
                varexpandFrom mode k len' g.rest = some tail ∧
                  out = g.before ++ (g.choice (isExec mode) ++ tail) := by
            intro mode len out h
            rcases varexpandFrom_some h with ⟨none, rfl⟩ | ⟨g', len', tail, hg, htail, rfl⟩
            · exact .inl ⟨rfl, none⟩
            · rw [first] at hg
              obtain rfl := Option.some.inj hg
              exact .inr ⟨len', tail, htail, List.append_assoc _ _ _⟩
          have group : ∀ {mode len : Nat} {out : Bytes}, varexpandFrom mode (k + 1) len str = some out →
              ∃ len' tail, varexpandFrom mode k len' g.rest = some tail ∧
                out = g.before ++ (g.choice (isExec mode) ++ tail) := by
            intro mode len out h
            rcases expand h with ⟨_, none⟩ | some
            · rw [firstGroup, none] at first
              cases first
            · exact some
          rw [← firstGroup_text first] at holds
          cases Group.inside_of_text block holds with
          | before here yes no rest =>
              refine ⟨fun _ => true, ⟨true, rfl⟩, fun {mode len out} h => ?_⟩
              obtain ⟨len', tail, htail, rfl⟩ := group h
              have free : 0x25 ∉ g.choice (isExec mode) ++ tail := by
                rw [List.mem_append, not_or]
                exact ⟨Group.not_mem_choice yes no _, varexpandFrom_free rest htail⟩
              exact here.append List.not_mem_nil free
          | yes before here no rest =>
              refine ⟨fun exec => exec, ⟨true, rfl⟩, fun {mode len out} h => ?_⟩
              obtain ⟨len', tail, htail, rfl⟩ := group h
              have free := varexpandFrom_free rest htail
              cases isExec mode with
              | true => exact here.append before free
              | false =>
                  rw [if_neg Bool.false_ne_true, List.mem_append, List.mem_append, not_or, not_or]
                  exact ⟨before, no, free⟩
          | no before yes here rest =>
              refine ⟨fun exec => !exec, ⟨false, rfl⟩, fun {mode len out} h => ?_⟩
              obtain ⟨len', tail, htail, rfl⟩ := group h
              have free := varexpandFrom_free rest htail
              cases isExec mode with
              | false => exact here.append before free
              | true =>
                  rw [if_neg (by decide), List.mem_append, List.mem_append, not_or, not_or]
                  exact ⟨before, yes, free⟩
          | rest before yes no here =>
              obtain ⟨kept, some, all⟩ := ih here
              refine ⟨kept, some, fun {mode len out} h => ?_⟩
              obtain ⟨len', tail, htail, rfl⟩ := group h
              have choice := Group.not_mem_choice yes no (isExec mode)
              have tail := all htail
              by_cases keep : kept (isExec mode) = true
              · rw [if_pos keep] at tail ⊢
                have moved := (tail.append choice List.not_mem_nil).append before List.not_mem_nil
                simpa only [List.append_nil] using moved
              · rw [if_neg keep] at tail ⊢
                rw [List.mem_append, List.mem_append, not_or, not_or]
                exact ⟨before, choice, tail⟩

end Libmagic.Format
