import Mathlib.Data.List.TakeDrop
import Mathlib.Data.List.TakeWhile

/-!
# Trees written as lines with levels

A list of lines with levels stands for a forest: the parent of a line is the
nearest line before it with a smaller level. `scan` reads the lines from left to
right with one counter, `eval` descends through the forest; both test the lines
with the same `step` and both test the same lines in the same order.
-/
namespace LevelTree

variable {α σ : Type*}

inductive Tree (α : Type*) where
  | node (line : α) (children : List (Tree α))

section
variable (level : α → Nat)

/-- The lines that stand under `a`, at the front of `as`. -/
def under (a : α) (as : List α) : List α := as.takeWhile (fun b => decide (level a < level b))

/-- The lines behind those that stand under `a`. -/
def behind (a : α) (as : List α) : List α := as.dropWhile (fun b => decide (level a < level b))

/-- The forest of a list of lines. -/
def forest : List α → List (Tree α)
  | [] => []
  | a :: as => .node a (forest (under level a as)) :: forest (behind level a as)
termination_by as => as.length
decreasing_by
  · exact Nat.lt_succ_of_le (List.takeWhile_sublist _).length_le
  · exact Nat.lt_succ_of_le (List.dropWhile_sublist _).length_le

variable (step : α → σ → Option (Bool × σ))

/-- The tests of the trees whose parent is one below `k`: the lines tested, and the state
unless a test stopped. A tree is entered if its line is at `k` and its children are
tested if the line opened them. -/
def eval : Nat → List (Tree α) → σ → List α × Option σ
  | _, [], s => ([], some s)
  | k, .node a children :: trees, s =>
      if level a = k then
        match step a s with
        | none => ([a], none)
        | some (opened, s) =>
            let sub := if opened then eval (k + 1) children s else ([], some s)
            match sub.2 with
            | none => (a :: sub.1, none)
            | some s =>
                let rest := eval k trees s
                (a :: (sub.1 ++ rest.1), rest.2)
      else eval k trees s
termination_by _ trees => sizeOf trees
decreasing_by
  all_goals
    simp only [List.cons.sizeOf_spec, Tree.node.sizeOf_spec]
    omega

/-- The tests of a list of lines with the counter `cur`: the lines tested, with the
counter and the state unless a test stopped. -/
def scan : Nat → List α → σ → List α × Option (Nat × σ)
  | cur, [], s => ([], some (cur, s))
  | cur, a :: as, s =>
      if cur < level a then scan cur as s
      else match step a s with
        | none => ([a], none)
        | some (opened, s) =>
            let rest := scan (if opened then level a + 1 else level a) as s
            (a :: rest.1, rest.2)

end

section
variable {level : α → Nat} {step : α → σ → Option (Bool × σ)}

theorem under_append_behind (a : α) (as : List α) : under level a as ++ behind level a as = as :=
  List.takeWhile_append_dropWhile

theorem lt_of_mem_under {a b : α} {as : List α} (member : b ∈ under level a as) :
    level a < level b := by
  simpa using List.mem_takeWhile_imp member

/-- The first line behind those under `a` is not above `a`. -/
theorem head_behind_le (a : α) (as : List α) :
    ∀ b ∈ (behind level a as).head?, level b ≤ level a := by
  intro b head
  have stops := List.head?_dropWhile_not (fun b => decide (level a < level b)) as
  rw [behind] at head
  simpa [Option.mem_def.mp head] using stops

theorem scan_append_none {cur : Nat} {as : List α} {s : σ}
    (stops : (scan level step cur as s).2 = none) (bs : List α) :
    scan level step cur (as ++ bs) s = scan level step cur as s := by
  induction as generalizing cur s with
  | nil => cases stops
  | cons a as ih =>
      rw [List.cons_append, scan, scan]
      rw [scan] at stops
      split_ifs at stops ⊢ with above
      · exact ih stops
      · rcases tested : step a s with _ | ⟨opened, s'⟩
        · rfl
        · simp only [tested] at stops ⊢
          rw [ih stops]

theorem scan_append_some {cur cur' : Nat} {as : List α} {s s' : σ}
    (goes : (scan level step cur as s).2 = some (cur', s')) (bs : List α) :
    scan level step cur (as ++ bs) s =
      ((scan level step cur as s).1 ++ (scan level step cur' bs s').1,
        (scan level step cur' bs s').2) := by
  induction as generalizing cur s with
  | nil =>
      obtain ⟨rfl, rfl⟩ := Prod.mk.inj (Option.some.inj goes)
      rfl
  | cons a as ih =>
      rw [List.cons_append, scan, scan]
      rw [scan] at goes
      split_ifs at goes ⊢ with above
      · exact ih goes
      · rcases tested : step a s with _ | ⟨opened, s''⟩
        · simp [tested] at goes
        · simp only [tested] at goes ⊢
          rw [ih goes]
          rfl

/-- The counter does not fall below the lines. -/
theorem le_scan {k cur cur' : Nat} {as : List α} {s s' : σ} (le : k ≤ cur)
    (levels : ∀ a ∈ as, k ≤ level a) (goes : (scan level step cur as s).2 = some (cur', s')) :
    k ≤ cur' := by
  induction as generalizing cur s with
  | nil =>
      obtain ⟨rfl, -⟩ := Prod.mk.inj (Option.some.inj goes)
      exact le
  | cons a as ih =>
      have tail (b : α) (member : b ∈ as) := levels b (List.mem_cons_of_mem a member)
      have head := levels a List.mem_cons_self
      rw [scan] at goes
      split_ifs at goes with above
      · exact ih le tail goes
      · rcases tested : step a s with _ | ⟨opened, s''⟩
        · simp [tested] at goes
        · simp only [tested] at goes
          refine ih ?_ tail goes
          split <;> omega

/-- Lines above the counter are passed over. -/
theorem scan_above {cur : Nat} {as : List α} (above : ∀ a ∈ as, cur < level a) (s : σ) :
    scan level step cur as s = ([], some (cur, s)) := by
  induction as with
  | nil => rfl
  | cons a as ih =>
      rw [scan, if_pos (above a List.mem_cons_self)]
      exact ih (fun b member => above b (List.mem_cons_of_mem a member))

/-- A line that is tested under two counters sets both to the same value. -/
theorem scan_congr {cur cur' : Nat} {as : List α} (low : ∀ a ∈ as.head?, level a ≤ cur)
    (low' : ∀ a ∈ as.head?, level a ≤ cur') (s : σ) :
    (scan level step cur as s).1 = (scan level step cur' as s).1 ∧
      (scan level step cur as s).2.map Prod.snd = (scan level step cur' as s).2.map Prod.snd := by
  cases as with
  | nil => exact ⟨rfl, rfl⟩
  | cons a as =>
      have stays := Nat.not_lt.mpr (low a rfl)
      have stays' := Nat.not_lt.mpr (low' a rfl)
      rw [scan, scan, if_neg stays, if_neg stays']
      exact ⟨rfl, rfl⟩

/-- Reading the lines with one counter tests what descending through their forest tests. -/
theorem scan_eq_eval (k : Nat) (as : List α) (levels : ∀ a ∈ as, k ≤ level a) (s : σ) :
    (scan level step k as s).1 = (eval level step k (forest level as) s).1 ∧
      (scan level step k as s).2.map Prod.snd = (eval level step k (forest level as) s).2 := by
  induction hn : as.length using Nat.strong_induction_on generalizing as k s with
  | _ n ih =>
      cases as with
      | nil => simp [forest, eval, scan]
      | cons a as =>
          have split : under level a as ++ behind level a as = as := under_append_behind a as
          have shorter : (under level a as).length < n ∧ (behind level a as).length < n := by
            have := congrArg List.length split
            simp only [List.length_append, List.length_cons] at this hn
            omega
          have behindLevels (b : α) (member : b ∈ behind level a as) : k ≤ level b :=
            levels b (List.mem_cons_of_mem a (split ▸ List.mem_append_right _ member))
          have rest (s : σ) := ih _ shorter.2 k (behind level a as) behindLevels s rfl
          -- the lines under `a` are passed over where `a` is not tested or does not open
          have passed (s : σ) (closed : k ≤ level a) :
              scan level step k as s = scan level step k (behind level a as) s := by
            have above (b : α) (member : b ∈ under level a as) : k < level b :=
              closed.trans_lt (lt_of_mem_under member)
            conv_lhs => rw [← split]
            rw [scan_append_some (congrArg Prod.snd (scan_above above s)), scan_above above s]
            rfl
          rw [forest, eval]
          by_cases here : level a = k
          · subst here
            rw [if_pos rfl, scan, if_neg (Nat.lt_irrefl _)]
            rcases step a s with _ | ⟨_ | _, s'⟩
            · exact ⟨rfl, rfl⟩
            · simp only [Bool.false_eq_true, ↓reduceIte, passed s' le_rfl, List.nil_append]
              exact ⟨congrArg _ (rest s').1, (rest s').2⟩
            · simp only [↓reduceIte]
              have children := ih _ shorter.1 (level a + 1) (under level a as)
                (fun b member => lt_of_mem_under member) s' rfl
              rcases goes : scan level step (level a + 1) (under level a as) s' with
                ⟨tested, _ | ⟨cur, s''⟩⟩
              · have whole : scan level step (level a + 1) as s' = (tested, none) := by
                  conv_lhs => rw [← split]
                  rw [scan_append_none (congrArg Prod.snd goes), goes]
                rw [goes] at children
                simp only [whole, ← children.1, ← children.2]
                exact ⟨rfl, rfl⟩
              · have whole : scan level step (level a + 1) as s' =
                    (tested ++ (scan level step cur (behind level a as) s'').1,
                      (scan level step cur (behind level a as) s'').2) := by
                  conv_lhs => rw [← split]
                  rw [scan_append_some (congrArg Prod.snd goes), goes]
                have low : level a ≤ cur := (Nat.le_succ _).trans
                  (le_scan le_rfl (fun b member => lt_of_mem_under member) (congrArg Prod.snd goes))
                have same :
                    (scan level step cur (behind level a as) s'').1 =
                        (scan level step (level a) (behind level a as) s'').1 ∧
                      (scan level step cur (behind level a as) s'').2.map Prod.snd =
                        (scan level step (level a) (behind level a as) s'').2.map Prod.snd :=
                  scan_congr (fun b head => (head_behind_le a as b head).trans low)
                    (head_behind_le a as) s''
                rw [goes] at children
                simp only [whole, ← children.1, ← children.2, Option.map_some]
                rw [same.1, same.2, (rest s'').1, (rest s'').2]
                exact ⟨rfl, rfl⟩
          · have above : k < level a := lt_of_le_of_ne (levels a List.mem_cons_self) (Ne.symm here)
            rw [if_neg here, scan, if_pos above, passed s above.le]
            exact rest s

end

/-! ## Siblings -/

section
variable {level : α → Nat} {k : Nat} {a : α}

/-- The lines at `k` behind the last line below `k`, in a history with the latest line
first. -/
def siblings (level : α → Nat) (k : Nat) (history : List α) : List α :=
  (history.takeWhile (fun a => decide (k ≤ level a))).filter (fun a => decide (level a = k))

theorem siblings_cons_lt (lt : level a < k) (history : List α) :
    siblings level k (a :: history) = [] := by
  simp [siblings, Nat.not_le.mpr lt]

theorem siblings_cons_gt (gt : k < level a) (history : List α) :
    siblings level k (a :: history) = siblings level k history := by
  simp [siblings, gt.le, gt.ne']

theorem siblings_cons_self (a : α) (history : List α) :
    siblings level (level a) (a :: history) = a :: siblings level (level a) history := by
  simp [siblings]

/-- A sibling has the siblings that come before it. -/
theorem siblings_split {history before later : List α}
    (split : siblings level k history = later ++ a :: before) :
    level a = k ∧ ∃ newer older, history = newer ++ a :: older ∧ siblings level k older = before := by
  induction history generalizing later with
  | nil => simp [siblings] at split
  | cons b history ih =>
      rcases Nat.lt_trichotomy (level b) k with lt | rfl | gt
      · simp [siblings_cons_lt lt] at split
      · rw [siblings_cons_self] at split
        cases later with
        | nil =>
            obtain ⟨rfl, rfl⟩ := List.cons.inj split
            exact ⟨rfl, [], history, rfl, rfl⟩
        | cons c later =>
            obtain ⟨same, newer, older, rfl, rest⟩ := ih (List.cons.inj split).2
            exact ⟨same, b :: newer, older, rfl, rest⟩
      · rw [siblings_cons_gt gt] at split
        obtain ⟨same, newer, older, rfl, rest⟩ := ih split
        exact ⟨same, b :: newer, older, rfl, rest⟩

end

end LevelTree
