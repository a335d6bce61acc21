import Mathlib.Logic.Function.Basic

/-!
# `compress.c`: the descriptors of a decompressor

The pipes are made where there is room, so that the numbers of the child's standard streams may be among those of the
pipes. `handledesc` moves them nevertheless.
-/
namespace Libmagic.Compress.Descriptors

/-- What a descriptor refers to: an end of a pipe of `fdp`, or what the process had before. -/
inductive End where
  | pipe (i : Fin 3) (j : Fin 2)
  | given (k : Nat)
  deriving DecidableEq

structure Entry where
  refers : End
  cloexec : Bool
  deriving DecidableEq

abbrev Table := Nat → Option Entry

/-- The lowest number that is free. -/
def Lowest (t : Table) (n : Nat) : Prop := t n = none ∧ ∀ m < n, t m ≠ none

/-- `pipe2` with `O_CLOEXEC`, which takes the lowest numbers. -/
inductive Piped (i : Fin 3) (t : Table) (a b : Nat) : Table → Prop where
  | made (first : Lowest t a) (second : Lowest (Function.update t a (some ⟨.pipe i 0, true⟩)) b) :
      Piped i t a b (Function.update (Function.update t a (some ⟨.pipe i 0, true⟩)) b (some ⟨.pipe i 1, true⟩))

/-- The pipes of `uncompressbuf`: the first is there unless there is a file. -/
inductive Opened (t : Table) : (fd : Option Nat) → (fdp : Fin 3 → Fin 2 → Nat) → Table → Prop where
  | three {fdp : Fin 3 → Fin 2 → Nat} {t₀ t₁ t₂ : Table} (stdin : Piped 0 t (fdp 0 0) (fdp 0 1) t₀)
      (stdout : Piped 1 t₀ (fdp 1 0) (fdp 1 1) t₁) (stderr : Piped 2 t₁ (fdp 2 0) (fdp 2 1) t₂) : Opened t none fdp t₂
  | two {fd : Nat} {fdp : Fin 3 → Fin 2 → Nat} {t₁ t₂ : Table} (there : t fd ≠ none)
      (stdout : Piped 1 t (fdp 1 0) (fdp 1 1) t₁) (stderr : Piped 2 t₁ (fdp 2 0) (fdp 2 1) t₂) : Opened t (some fd) fdp t₂

/-- The actions of the child between `fork` and `exec`. -/
inductive Action where
  | dup2 (fd fd' : Nat)
  | close (fd : Nat)

/-- `movedesc`. -/
def movedesc (i fd : Nat) : List Action := if fd = i then [] else [.dup2 fd i, .close fd]

/-- `closedesc`, of a descriptor that is no standard stream. -/
def closedesc (fd : Nat) : List Action := if 2 < fd then [.close fd] else []

/-- `handledesc`: the actions of the child. -/
def handledesc (fd : Option Nat) (fdp : Fin 3 → Fin 2 → Nat) : List Action :=
  (match fd with
    | some fd => movedesc 0 fd
    | none => movedesc 0 (fdp 0 0) ++ closedesc (fdp 0 1)) ++
  (movedesc 1 (fdp 1 1) ++ closedesc (fdp 1 0)) ++ (movedesc 2 (fdp 2 1) ++ closedesc (fdp 2 0))

/-- `file_clear_closexec`. -/
def fileClearClosexec (fd : Nat) (t : Table) : Table :=
  Function.update t fd ((t fd).map fun e => { e with cloexec := false })

/-- What `handledesc` does to the process itself. -/
def cleared (t : Table) : Table := fileClearClosexec 2 (fileClearClosexec 1 (fileClearClosexec 0 t))

/-- An action, which may not be possible. -/
def Action.run (t : Table) : Action → Option Table
  | .dup2 fd fd' => (t fd).map fun e => Function.update t fd' (some ⟨e.refers, false⟩)
  | .close fd => some (Function.update t fd none)

def run (t : Table) : List Action → Option Table
  | [] => some t
  | a :: as => (a.run t).bind fun t => run t as

/-- What is left behind `exec`. -/
def exec (t : Table) : Table := fun n => (t n).filter fun e => !e.cloexec

/-- `posix_spawnp`: the descriptors of the program. -/
def spawn (fd : Option Nat) (fdp : Fin 3 → Fin 2 → Nat) (t : Table) : Option Table :=
  (run (cleared t) (handledesc fd fdp)).map exec

/-! ## Actions -/

section

variable {t t' : Table} {i fd n : Nat} {e : Entry}

theorem run_append (t : Table) (xs ys : List Action) : run t (xs ++ ys) = (run t xs).bind fun t => run t ys := by
  induction xs generalizing t with
  | nil => rfl
  | cons a xs ih =>
      rw [List.cons_append, run, run, Option.bind_assoc]
      congr 1
      funext t
      exact ih t

/-- `movedesc` moves the descriptor and leaves the others alone. -/
theorem run_movedesc (there : t fd = some e) (stays : fd = i → e.cloexec = false) :
    ∃ t', run t (movedesc i fd) = some t' ∧ t' i = some ⟨e.refers, false⟩ ∧ (fd ≠ i → t' fd = none) ∧
      ∀ n, n ≠ i → n ≠ fd → t' n = t n := by
  rw [movedesc]
  split
  next same =>
    subst same
    refine ⟨t, rfl, ?_, fun other => absurd rfl other, fun _ _ _ => rfl⟩
    rw [there, ← stays rfl]
  next other =>
    refine ⟨Function.update (Function.update t i (some ⟨e.refers, false⟩)) fd none, ?_, ?_, fun _ => Function.update_self .., ?_⟩
    · rw [run, Action.run, there]
      rfl
    · rw [Function.update_of_ne (Ne.symm other), Function.update_self]
    · intro n away away'
      rw [Function.update_of_ne away', Function.update_of_ne away]

theorem run_closedesc (t : Table) (fd : Nat) :
    ∃ t', run t (closedesc fd) = some t' ∧ (2 < fd → t' fd = none) ∧ ∀ n, n ≠ fd ∨ n ≤ 2 → t' n = t n := by
  rw [closedesc]
  split
  next high =>
    refine ⟨Function.update t fd none, rfl, fun _ => Function.update_self .., fun n away => Function.update_of_ne ?_ _ _⟩
    omega
  next low => exact ⟨t, rfl, fun high => absurd high low, fun _ _ => rfl⟩

theorem fileClearClosexec_of_ne (other : n ≠ fd) : fileClearClosexec fd t n = t n := Function.update_of_ne other _ _

theorem fileClearClosexec_self : fileClearClosexec fd t fd = (t fd).map fun e => { e with cloexec := false } :=
  Function.update_self ..

/-- `cleared` lets `exec` keep the standard streams, and changes nothing else. -/
theorem cleared_some (there : t n = some e) :
    ∃ e', cleared t n = some e' ∧ e'.refers = e.refers ∧ (n ≤ 2 → e'.cloexec = false) := by
  have step (fd : Nat) {t : Table} {e : Entry} (there : t n = some e) :
      ∃ e', fileClearClosexec fd t n = some e' ∧ e'.refers = e.refers ∧
        ((n = fd ∨ e.cloexec = false) → e'.cloexec = false) := by
    by_cases same : n = fd
    · subst same
      exact ⟨{ e with cloexec := false }, by rw [fileClearClosexec_self, there]; rfl, rfl, fun _ => rfl⟩
    · exact ⟨e, by rw [fileClearClosexec_of_ne same, there], rfl, fun either => either.resolve_left same⟩
  obtain ⟨e₀, there₀, same₀, kept₀⟩ := step 0 there
  obtain ⟨e₁, there₁, same₁, kept₁⟩ := step 1 there₀
  obtain ⟨e₂, there₂, same₂, kept₂⟩ := step 2 there₁
  refine ⟨e₂, there₂, by rw [same₂, same₁, same₀], fun low => kept₂ ?_⟩
  obtain rfl | rfl | rfl : n = 0 ∨ n = 1 ∨ n = 2 := by omega
  · exact .inr (kept₁ (.inr (kept₀ (.inl rfl))))
  · exact .inr (kept₁ (.inl rfl))
  · exact .inl rfl

theorem cleared_high (high : 2 < n) : cleared t n = t n := by
  rw [cleared, fileClearClosexec_of_ne (by omega), fileClearClosexec_of_ne (by omega), fileClearClosexec_of_ne (by omega)]

/-- One of the standard streams is moved, and a number is closed beside it. -/
structure Moved (i fd other : Nat) (refers : End) (t t' : Table) : Prop where
  stream : t' i = some ⟨refers, false⟩
  low : ∀ n ≤ 2, n ≠ i → n ≠ fd → t' n = t n
  high : ∀ n > 2, t' n = if n = fd ∨ n = other then none else t n

theorem run_movedesc_high (low : i ≤ 2) (there : t fd = some e) (stays : fd = i → e.cloexec = false) :
    ∃ t', run t (movedesc i fd) = some t' ∧ Moved i fd fd e.refers t t' := by
  obtain ⟨t', moves, stream, gone, same⟩ := run_movedesc there stays
  refine ⟨t', moves, stream, fun n _ => same n, fun n high => ?_⟩
  split
  next either =>
    obtain rfl : n = fd := either.elim id id
    exact gone (by omega)
  next neither => exact same n (by omega) fun at' => neither (.inl at')

theorem run_stream {other : Nat} (low : i ≤ 2) (there : t fd = some e) (stays : fd = i → e.cloexec = false) :
    ∃ t', run t (movedesc i fd ++ closedesc other) = some t' ∧ Moved i fd other e.refers t t' := by
  obtain ⟨t₁, moves, moved⟩ := run_movedesc_high low there stays
  obtain ⟨t₂, closes, gone, same⟩ := run_closedesc t₁ other
  refine ⟨t₂, by rw [run_append, moves, Option.bind_some, closes], ?_, fun n low' away away' => ?_, fun n high => ?_⟩
  · rw [same i (.inr low), moved.stream]
  · rw [same n (.inr low'), moved.low n low' away away']
  · by_cases beside : n = other
    · rw [if_pos (.inr beside), beside, gone (beside ▸ high)]
    · rw [same n (.inl beside), moved.high n high]
      exact if_congr (by simp [beside]) rfl rfl

/-! ## Pipes -/

/-- The numbers up to this one are taken. -/
def Full (t : Table) (b : Nat) : Prop := ∀ m ≤ b, t m ≠ none

theorem Lowest.above {b : Nat} (lowest : Lowest t n) (full : Full t b) : b < n := by
  by_contra below
  exact full n (Nat.le_of_not_lt below) lowest.1

/-- What there is of a pipe. -/
structure Ends (i : Fin 3) (t : Table) (a b : Nat) (t' : Table) : Prop where
  order : a < b
  reader : t' a = some ⟨.pipe i 0, true⟩
  writer : t' b = some ⟨.pipe i 1, true⟩
  free : t a = none ∧ t b = none
  others : ∀ n, n ≠ a → n ≠ b → t' n = t n
  full : Full t' b

theorem Piped.ends {i : Fin 3} {a b : Nat} (piped : Piped i t a b t') : Ends i t a b t' := by
  obtain ⟨first, second⟩ := piped
  have apart : b ≠ a := by
    rintro rfl
    have none := second.1
    rw [Function.update_self] at none
    cases none
  have free : t b = none := by
    have none := second.1
    rwa [Function.update_of_ne apart] at none
  refine ⟨?_, ?_, Function.update_self .., ⟨first.1, free⟩, fun n away away' => ?_, fun m below => ?_⟩
  · by_contra above
    exact first.2 b (by omega) free
  · rw [Function.update_of_ne (Ne.symm apart), Function.update_self]
  · rw [Function.update_of_ne away', Function.update_of_ne away]
  · by_cases last : m = b
    · rw [last, Function.update_self]
      exact Option.some_ne_none _
    · rw [Function.update_of_ne last]
      exact second.2 m (by omega)

end

/-! ## `handledesc` -/

section

variable {t u : Table} {fd : Option Nat} {fdp : Fin 3 → Fin 2 → Nat}

/-- The descriptors of the program: its standard streams are what they should be, and it has what the process had kept
for it besides, without the file and the pipes. -/
structure Wired (t : Table) (fd : Option Nat) (c : Table) : Prop where
  stdin : ∃ refers, c 0 = some ⟨refers, false⟩ ∧
    match fd with
    | some fd => (t fd).map Entry.refers = some refers
    | none => refers = .pipe 0 0
  stdout : c 1 = some ⟨.pipe 1 1, false⟩
  stderr : c 2 = some ⟨.pipe 2 1, false⟩
  rest : ∀ n > 2, c n = if fd = some n then none else exec t n

/-- The streams for what the program writes, behind that for what it reads. -/
theorem run_outputs {t₁ t₂ : Table} {input : End} {own : Nat → Prop} [DecidablePred own]
    (stdout : Ends 1 t (fdp 1 0) (fdp 1 1) t₁) (stderr : Ends 2 t₁ (fdp 2 0) (fdp 2 1) t₂) (above : fdp 1 1 < fdp 2 0)
    (stream : u 0 = some ⟨input, false⟩) (here : ∀ n, 0 < n → n ≤ 2 → ¬ own n → u n = cleared t₂ n)
    (high : ∀ n > 2, u n = if own n then none else t₂ n)
    (apart : ¬ own (fdp 1 0) ∧ ¬ own (fdp 1 1) ∧ ¬ own (fdp 2 0) ∧ ¬ own (fdp 2 1)) :
    ∃ c, run u ((movedesc 1 (fdp 1 1) ++ closedesc (fdp 1 0)) ++ (movedesc 2 (fdp 2 1) ++ closedesc (fdp 2 0))) = some c ∧
      c 0 = some ⟨input, false⟩ ∧ c 1 = some ⟨.pipe 1 1, false⟩ ∧ c 2 = some ⟨.pipe 2 1, false⟩ ∧
      ∀ n > 2, c n = if own n then none else t n := by
  obtain ⟨own₁₀, own₁₁, own₂₀, own₂₁⟩ := apart
  have order := stdout.order
  have order' := stderr.order
  have writer : t₂ (fdp 1 1) = some ⟨.pipe 1 1, true⟩ := by
    rw [stderr.others _ (by omega) (by omega), stdout.writer]
  have there : ∃ e, u (fdp 1 1) = some e ∧ e.refers = .pipe 1 1 ∧ (fdp 1 1 = 1 → e.cloexec = false) := by
    by_cases low : fdp 1 1 ≤ 2
    · obtain ⟨e, there, refers, kept⟩ := cleared_some writer
      exact ⟨e, by rw [here _ (by omega) low own₁₁, there], refers, fun _ => kept low⟩
    · refine ⟨⟨.pipe 1 1, true⟩, by rw [high _ (by omega), if_neg own₁₁, writer], rfl, fun one => ?_⟩
      omega
  obtain ⟨e, there, refers, stays⟩ := there
  obtain ⟨v, moves, moved⟩ := @run_stream u 1 (fdp 1 1) e (fdp 1 0) (by decide) there stays
  have there' : v (fdp 2 1) = some ⟨.pipe 2 1, true⟩ := by
    rw [moved.high _ (by omega), if_neg (by omega), high _ (by omega), if_neg own₂₁, stderr.writer]
  obtain ⟨c, moves', moved'⟩ := @run_stream v 2 (fdp 2 1) _ (fdp 2 0) (by decide) there' fun two => by omega
  refine ⟨c, by rw [run_append, moves, Option.bind_some, moves'], ?_, ?_, moved'.stream, fun n above' => ?_⟩
  · rw [moved'.low 0 (by decide) (by decide) (by omega), moved.low 0 (by decide) (by decide) (by omega), stream]
  · rw [moved'.low 1 (by decide) (by decide) (by omega), moved.stream, refers]
  · have before (m : Nat) (away : m ≠ fdp 1 0) (away' : m ≠ fdp 1 1) : t₁ m = t m := stdout.others m away away'
    have none₁ : t (fdp 1 0) = none ∧ t (fdp 1 1) = none := stdout.free
    have none₂ : t (fdp 2 0) = none ∧ t (fdp 2 1) = none := by
      rw [← before _ (by omega) (by omega), ← before _ (by omega) (by omega)]
      exact stderr.free
    rw [moved'.high n above']
    split
    next either =>
      obtain rfl | rfl := either
      · rw [if_neg own₂₁, none₂.2]
      · rw [if_neg own₂₀, none₂.1]
    next neither =>
      rw [moved.high n above']
      split
      next either =>
        obtain rfl | rfl := either
        · rw [if_neg own₁₁, none₁.2]
        · rw [if_neg own₁₀, none₁.1]
      next neither' =>
        rw [not_or] at neither neither'
        rw [high n above', stderr.others n neither.2 neither.1, before n neither'.2 neither'.1]

theorem Piped.lowest {i : Fin 3} {a b : Nat} {t t' : Table} (piped : Piped i t a b t') : Lowest t a := by
  obtain ⟨first, _⟩ := piped
  exact first

theorem exec_some {c : Table} {n : Nat} {refers : End} (there : c n = some ⟨refers, false⟩) :
    exec c n = some ⟨refers, false⟩ := by
  rw [exec, there]
  rfl

theorem wired_three {t t₀ t₁ t₂ : Table} (stdin : Piped 0 t (fdp 0 0) (fdp 0 1) t₀)
    (stdout : Piped 1 t₀ (fdp 1 0) (fdp 1 1) t₁) (stderr : Piped 2 t₁ (fdp 2 0) (fdp 2 1) t₂) :
    ∃ c, spawn none fdp t₂ = some c ∧ Wired t none c := by
  have e₀ := stdin.ends
  have e₁ := stdout.ends
  have e₂ := stderr.ends
  have above₁ := stdout.lowest.above e₀.full
  have above₂ := stderr.lowest.above e₁.full
  have order₀ := e₀.order
  have order₁ := e₁.order
  have order₂ := e₂.order
  have reader : t₂ (fdp 0 0) = some ⟨.pipe 0 0, true⟩ := by
    rw [e₂.others _ (by omega) (by omega), e₁.others _ (by omega) (by omega), e₀.reader]
  obtain ⟨e, there, refers, kept⟩ := cleared_some reader
  obtain ⟨u, moves, moved⟩ := @run_stream _ 0 _ _ (fdp 0 1) (by decide) there fun zero => kept (by omega)
  rw [refers] at moved
  obtain ⟨c, outputs, zero, one, two, high⟩ := @run_outputs t₀ u fdp t₁ t₂ (.pipe 0 0) (fun n => n = fdp 0 0 ∨ n = fdp 0 1) _ e₁ e₂
    above₂ moved.stream (fun n pos low own => moved.low n low (by omega) fun first => own (.inl first))
    (fun n above => by rw [moved.high n above, cleared_high above]) (by omega)
  refine ⟨exec c, ?_, ⟨.pipe 0 0, exec_some zero, rfl⟩, exec_some one, exec_some two, fun n above => ?_⟩
  · rw [spawn, handledesc, List.append_assoc, run_append, moves, Option.bind_some, outputs]
    rfl
  · have same : c n = t n := by
      rw [high n above]
      split
      next own =>
        obtain rfl | rfl := own
        · exact e₀.free.1.symm
        · exact e₀.free.2.symm
      next others => exact e₀.others n (fun first => others (.inl first)) fun second => others (.inr second)
    rw [if_neg nofun, exec, exec, same]

theorem wired_two {t t₁ t₂ : Table} {fd : Nat} (there : t fd ≠ none) (stdout : Piped 1 t (fdp 1 0) (fdp 1 1) t₁)
    (stderr : Piped 2 t₁ (fdp 2 0) (fdp 2 1) t₂) : ∃ c, spawn (some fd) fdp t₂ = some c ∧ Wired t (some fd) c := by
  have e₁ := stdout.ends
  have e₂ := stderr.ends
  have above₂ := stderr.lowest.above e₁.full
  have order₁ := e₁.order
  have order₂ := e₂.order
  have taken (n : Nat) (free : t n = none) : n ≠ fd := by
    rintro rfl
    exact there free
  have free₂ : t (fdp 2 0) = none ∧ t (fdp 2 1) = none := by
    rw [← e₁.others (fdp 2 0) (by omega) (by omega), ← e₁.others (fdp 2 1) (by omega) (by omega)]
    exact e₂.free
  have apart := And.intro (taken _ e₁.free.1) (And.intro (taken _ e₁.free.2) (And.intro (taken _ free₂.1) (taken _ free₂.2)))
  obtain ⟨file, here⟩ := Option.ne_none_iff_exists'.mp there
  have here' : t₂ fd = some file := by
    rw [e₂.others _ (Ne.symm apart.2.2.1) (Ne.symm apart.2.2.2), e₁.others _ (Ne.symm apart.1) (Ne.symm apart.2.1), here]
  obtain ⟨e, there', refers, kept⟩ := cleared_some here'
  obtain ⟨u, moves, moved⟩ := @run_movedesc_high _ 0 _ _ (by decide) there' fun zero => kept (by omega)
  rw [refers] at moved
  obtain ⟨c, outputs, zero, one, two, high⟩ := @run_outputs t u fdp t₁ t₂ file.refers (fun n => n = fd) _ e₁ e₂
    above₂ moved.stream (fun n pos low own => moved.low n low (by omega) own)
    (fun n above => by rw [moved.high n above, cleared_high above]; exact if_congr (or_self_iff) rfl rfl) apart
  refine ⟨exec c, ?_, ⟨file.refers, exec_some zero, congrArg (Option.map Entry.refers) here⟩, exec_some one, exec_some two, fun n above => ?_⟩
  · rw [spawn, handledesc, List.append_assoc, run_append, moves, Option.bind_some, outputs]
    rfl
  · rw [exec, high n above]
    by_cases own : n = fd
    · rw [if_pos own, if_pos (congrArg some own.symm)]
      rfl
    · rw [if_neg own, if_neg fun same => own (Option.some.inj same).symm]
      rfl

/-- Wherever the pipes are, the program gets what it should: its standard streams, and none of the other ends. -/
theorem handledesc_wires {t t' : Table} {fd : Option Nat} {fdp : Fin 3 → Fin 2 → Nat} (opened : Opened t fd fdp t') :
    ∃ c, spawn fd fdp t' = some c ∧ Wired t fd c := by
  cases opened with
  | three stdin stdout stderr => exact wired_three stdin stdout stderr
  | two there stdout stderr => exact wired_two there stdout stderr

end

/-- A process whose standard output and standard error are closed. -/
def silent : Table := fun n => if n = 0 then some ⟨.given 0, false⟩ else none

/-- The numbers that its pipes get. -/
def silentPipes (i : Fin 3) (j : Fin 2) : Nat := 2 * i.val + j.val + 1

theorem handledesc_wires_silent :
    ∃ t' c, Opened silent none silentPipes t' ∧ spawn none silentPipes t' = some c ∧ Wired silent none c := by
  have opened : Opened silent none silentPipes _ :=
    .three (.made ⟨rfl, by decide⟩ ⟨rfl, by decide⟩) (.made ⟨rfl, by decide⟩ ⟨rfl, by decide⟩)
      (.made ⟨rfl, by decide⟩ ⟨rfl, by decide⟩)
  obtain ⟨c, spawned, wired⟩ := handledesc_wires opened
  exact ⟨_, c, opened, spawned, wired⟩

end Libmagic.Compress.Descriptors
