import Mathlib.Data.List.Basic

/-!
# Runs that leave a log

A run of a routine of an imperative program, as far as safety is concerned: the
events it makes, in their order, how many frames its calls have on the stack at the
deepest point, and its value, which is missing where a loop ran out of rounds. `Meets` is
total correctness of such a run, with one rule for each way of building it.
-/
namespace Libmagic

structure Run (ε α : Type) where
  events : List ε
  depth : Nat
  value : Option α

namespace Run

variable {ε α β σ : Type}

/-- Do one thing, with the value `a`. -/
def event (e : ε) (a : α) : Run ε α := ⟨[e], 0, some a⟩

/-- Run the body of a routine in a frame of its own. -/
def call (body : Run ε α) : Run ε α := { body with depth := body.depth + 1 }

def andThen (first : Run ε α) (rest : α → Run ε β) : Run ε β :=
  match first.value with
  | some a =>
      ⟨first.events ++ (rest a).events, max first.depth (rest a).depth, (rest a).value⟩
  | none => ⟨first.events, first.depth, none⟩

instance : Monad (Run ε) where
  pure a := ⟨[], 0, some a⟩
  bind := andThen

/-- At most so many rounds of a loop whose body says how to go on or what to leave
with. -/
def loop (body : σ → Run ε (σ ⊕ α)) : Nat → σ → Run ε α
  | 0, _ => ⟨[], 0, none⟩
  | k + 1, s => do
      match ← body s with
      | .inl s => loop body k s
      | .inr a => pure a

theorem event_bind (e : ε) (a : α) (rest : α → Run ε β) :
    event e a >>= rest = { rest a with events := e :: (rest a).events } := by
  simp only [Bind.bind, andThen, event, List.cons_append, List.nil_append, Nat.zero_max]

theorem pure_bind (a : α) (rest : α → Run ε β) : (pure a : Run ε α) >>= rest = rest a := by
  simp only [Bind.bind, andThen, Pure.pure, List.nil_append, Nat.zero_max]

theorem bind_assoc {γ : Type} (first : Run ε α) (next : α → Run ε β) (last : β → Run ε γ) :
    first >>= next >>= last = first >>= (fun a => next a >>= last) := by
  simp only [Bind.bind, andThen]
  cases first.value with
  | none => rfl
  | some a =>
      dsimp only
      cases (next a).value with
      | none => rfl
      | some b =>
          dsimp only
          rw [List.append_assoc, Nat.max_assoc]

/-! ## Values -/

@[simp] theorem value_pure (a : α) : (pure a : Run ε α).value = some a := rfl

@[simp] theorem value_event (e : ε) (a : α) : (event e a).value = some a := rfl

@[simp] theorem value_bind (first : Run ε α) (rest : α → Run ε β) :
    (first >>= rest).value = first.value.bind (fun a => (rest a).value) := by
  simp only [Bind.bind, andThen]
  cases first.value <;> rfl

theorem value_loop_succ (body : σ → Run ε (σ ⊕ α)) (k : Nat) (s : σ) :
    (loop body (k + 1) s).value =
      (body s).value.bind (Sum.elim (fun s' => (loop body k s').value) some) := by
  rw [loop, value_bind]
  congr 1
  funext next
  cases next <;> rfl

/-- What a run may do: a property of logs that runs put together keep. -/
structure Policy (ε : Type) where
  allows : List ε → Prop
  nil : allows []
  append : ∀ {l l'}, allows l → allows l' → allows (l ++ l')

/-- The policy that looks at each event by itself. -/
def Policy.each (p : ε → Prop) : Policy ε where
  allows log := ∀ e ∈ log, p e
  nil := fun _ h => absurd h List.not_mem_nil
  append := fun first second e he => (List.mem_append.mp he).elim (first e) (second e)

theorem Policy.each_single {p : ε → Prop} {e : ε} (h : p e) : (Policy.each p).allows [e] :=
  fun _ he => List.mem_singleton.mp he ▸ h

variable {P : Policy ε} {d d' : Nat}

/-- The run comes to its end with a value that `post` holds of, within `P` and with at
most `d` frames. -/
structure Meets (P : Policy ε) (d : Nat) (r : Run ε α) (post : α → Prop) : Prop where
  allowed : P.allows r.events
  depth_le : r.depth ≤ d
  value_post : ∃ a, r.value = some a ∧ post a

theorem Meets.pure {a : α} {post : α → Prop} (h : post a) :
    Meets P d (Pure.pure a : Run ε α) post :=
  ⟨P.nil, Nat.zero_le d, a, rfl, h⟩

theorem Meets.event {e : ε} {a : α} {post : α → Prop} (allowed : P.allows [e]) (h : post a) :
    Meets P d (event e a) post :=
  ⟨allowed, Nat.zero_le d, a, rfl, h⟩

theorem Meets.bind {first : Run ε α} {rest : α → Run ε β} {mid : α → Prop} {post : β → Prop}
    (hfirst : Meets P d first mid) (hrest : ∀ a, mid a → Meets P d (rest a) post) :
    Meets P d (first >>= rest) post := by
  obtain ⟨allowed, depth_le, a, hvalue, ha⟩ := hfirst
  have next := hrest a ha
  have unfolded : first >>= rest =
      ⟨first.events ++ (rest a).events, max first.depth (rest a).depth, (rest a).value⟩ := by
    simp only [Bind.bind, andThen, hvalue]
  rw [unfolded]
  constructor
  · exact P.append allowed next.allowed
  · exact Nat.max_le.mpr ⟨depth_le, next.depth_le⟩
  · exact next.value_post

theorem Meets.call {body : Run ε α} {post : α → Prop} (h : Meets P d body post) :
    Meets P (d + 1) (call body) post :=
  ⟨h.allowed, Nat.succ_le_succ h.depth_le, h.value_post⟩

theorem Meets.mono {r : Run ε α} {post post' : α → Prop} (h : Meets P d r post) (le : d ≤ d')
    (weaker : ∀ a, post a → post' a) : Meets P d' r post' := by
  obtain ⟨a, hvalue, ha⟩ := h.value_post
  exact ⟨h.allowed, Nat.le_trans h.depth_le le, a, hvalue, weaker a ha⟩

theorem Meets.ite {c : Prop} [Decidable c] {x y : Run ε α} {post : α → Prop}
    (hx : c → Meets P d x post) (hy : ¬ c → Meets P d y post) :
    Meets P d (if c then x else y) post := by
  by_cases h : c
  · rw [if_pos h]
    exact hx h
  · rw [if_neg h]
    exact hy h

/-- An invariant that every round keeps, and a measure that every round lowers. -/
theorem Meets.loop {body : σ → Run ε (σ ⊕ α)} {inv : σ → Prop} {measure : σ → Nat}
    {post : α → Prop}
    (step : ∀ s, inv s →
      Meets P d (body s) (Sum.elim (fun s' => inv s' ∧ measure s' < measure s) post)) :
    ∀ (k : Nat) (s : σ), inv s → measure s < k → Meets P d (loop body k s) post := by
  intro k
  induction k with
  | zero =>
      intro s _ enough
      exact absurd enough (Nat.not_lt_zero _)
  | succ k ih =>
      intro s start enough
      apply Meets.bind (step s start)
      intro next hnext
      cases next with
      | inl s' => exact ih s' hnext.1 (Nat.lt_of_lt_of_le hnext.2 (Nat.le_of_lt_succ enough))
      | inr a => exact Meets.pure hnext

/-! ## Logs -/

/-- The run stays within `P`, whether it comes to its end or not. -/
def Within (P : Policy ε) (r : Run ε α) : Prop := P.allows r.events

theorem Within.pure (a : α) : Within P (Pure.pure a : Run ε α) := P.nil

theorem Within.event {e : ε} {a : α} (allowed : P.allows [e]) : Within P (event e a) := allowed

theorem Within.bind {first : Run ε α} {rest : α → Run ε β} (hfirst : Within P first)
    (hrest : ∀ a, first.value = some a → Within P (rest a)) : Within P (first >>= rest) := by
  unfold Within at hfirst hrest ⊢
  simp only [Bind.bind, andThen]
  cases hvalue : first.value with
  | none => exact hfirst
  | some a => exact P.append hfirst (hrest a hvalue)

theorem Within.ite {c : Prop} [Decidable c] {x y : Run ε α} (hx : c → Within P x)
    (hy : ¬ c → Within P y) : Within P (if c then x else y) := by
  by_cases h : c
  · rw [if_pos h]
    exact hx h
  · rw [if_neg h]
    exact hy h

theorem Within.loop {body : σ → Run ε (σ ⊕ α)} (step : ∀ s, Within P (body s)) (k : Nat) (s : σ) :
    Within P (loop body k s) := by
  induction k generalizing s with
  | zero => exact P.nil
  | succ k ih =>
      apply Within.bind (step s)
      intro next _
      cases next with
      | inl s' => exact ih s'
      | inr a => exact Within.pure a

/-- A run as far as its value is concerned. -/
def silent {δ : Type} (r : Run ε α) : Run δ α := ⟨[], r.depth, r.value⟩

@[simp] theorem value_silent {δ : Type} (r : Run ε α) : (silent r : Run δ α).value = r.value := rfl

theorem Meets.silent {δ : Type} {Q : Policy δ} {r : Run δ α} {post : α → Prop} (h : Meets Q d r post) :
    Meets P d (silent r) post :=
  ⟨P.nil, h.depth_le, h.value_post⟩

/-- What ends ends with its value. -/
theorem Meets.at_value {r : Run ε α} {post : α → Prop} (h : Meets P d r post) {a : α}
    (value : r.value = some a) : Meets P d r (· = a) :=
  ⟨h.allowed, h.depth_le, a, value, rfl⟩

theorem Within.silent {δ : Type} (r : Run δ α) : Within P (silent r : Run ε α) := P.nil

/-- Loops whose rounds have the same values have the same value. -/
theorem value_loop_congr {δ : Type} {body : σ → Run ε (σ ⊕ α)} {body' : σ → Run δ (σ ⊕ α)}
    (same : ∀ s, (body s).value = (body' s).value) (k : Nat) (s : σ) :
    (loop body k s).value = (loop body' k s).value := by
  induction k generalizing s with
  | zero => rfl
  | succ k ih =>
      rw [value_loop_succ, value_loop_succ, same]
      congr 1
      funext next
      cases next with
      | inl s' => exact ih s'
      | inr a => rfl

/-! ## Routines with a state -/

/-- From every state, the routine comes to its end within `P` and its value is one that `post`
holds of. -/
def Yields (P : Policy ε) (x : StateT σ (Run ε) α) (post : α → Prop) : Prop :=
  ∀ s, Meets P 0 (x s) (fun r => post r.1)

/-- A routine that does one thing and leaves the state alone. -/
def once (e : ε) (a : α) : StateT σ (Run ε) α := fun s => event e (a, s)

section Yields

variable {x : StateT σ (Run ε) α} {f : α → StateT σ (Run ε) β}

theorem Yields.pure {a : α} {post : α → Prop} (h : post a) :
    Yields P (Pure.pure a : StateT σ (Run ε) α) post :=
  fun _ => Meets.pure h

theorem Yields.once {e : ε} {a : α} {post : α → Prop} (allowed : P.allows [e]) (h : post a) :
    Yields P (once e a : StateT σ (Run ε) α) post :=
  fun _ => Meets.event allowed h

theorem Yields.bind {mid : α → Prop} {post : β → Prop} (hx : Yields P x mid)
    (hf : ∀ a, mid a → Yields P (f a) post) : Yields P (x >>= f) post :=
  fun s => Meets.bind (hx s) (fun r hr => hf r.1 hr r.2)

theorem Yields.mono {post post' : α → Prop} (h : Yields P x post) (weaker : ∀ a, post a → post' a) :
    Yields P x post' :=
  fun s => (h s).mono (Nat.le_refl 0) (fun r => weaker r.1)

theorem Yields.ite {c : Prop} [Decidable c] {x y : StateT σ (Run ε) α} {post : α → Prop}
    (hx : c → Yields P x post) (hy : ¬ c → Yields P y post) :
    Yields P (if c then x else y) post := by
  intro s
  by_cases h : c
  · rw [if_pos h]
    exact hx h s
  · rw [if_neg h]
    exact hy h s

/-- A routine that only changes the state. -/
theorem Yields.state {post : α → Prop} {g : σ → α × σ} (h : ∀ s, post (g s).1) :
    Yields P (fun s => Pure.pure (g s)) post :=
  fun s => Meets.pure (h s)

end Yields

end Run

end Libmagic
