import Mathlib.Data.Fintype.Basic
import Mathlib.Tactic.FinCases
import Libmagic.Compress.Errors
import Libmagic.Compress.Pipe

/-!
# `compress.c`: `uncompressbuf` and its descriptors

A decompressor runs as a child, with a second child that writes to it. What is opened, closed, started and waited for is
logged. The build has `posix_spawnp`.
-/
namespace Libmagic.Compress.Child

open Softmagic hiding Result
open Pipe (Source sread)
open Errors (Result readPipes)

-- the sizes of fdp
local instance three : NeZero 3 := ⟨by decide⟩

local instance two : NeZero 2 := ⟨by decide⟩

/-- What happens to the descriptors, which are those of `fdp`, and to the children. -/
inductive Event where
  | opened (i : Fin 3)
  | closed (i : Fin 3) (j : Fin 2)
  | spawned
  | forked
  | reaped (writer : Bool)
  deriving DecidableEq

/-- Which entries of `fdp` are not -1, and the log. -/
structure State where
  fdp : Fin 3 → Fin 2 → Bool
  log : List Event

/-- What the kernel does: the error of each call if there is one, and what comes through the two pipes. -/
structure Kernel where
  malloc : Bool
  pipe : Fin 3 → Option Nat
  spawn : Option Nat
  fork : Option Nat
  out : Source
  err : Source
  wait : Option Nat
  waitWriter : Option Nat

def State.logs (event : Event) (s : State) : State := { s with log := s.log ++ [event] }

/-- `closefd`. -/
def closefd (i : Fin 3) (j : Fin 2) (s : State) : State :=
  if s.fdp i j then { fdp := Function.update s.fdp i (Function.update (s.fdp i) j false), log := s.log ++ [.closed i j] }
  else s

/-- `closep`. -/
def closep (i : Fin 3) (s : State) : State := closefd i 1 (closefd i 0 s)

/-- `file_pipe_closexec`. -/
def filePipeClosexec (k : Kernel) (i : Fin 3) (s : State) : Option Nat × State :=
  match k.pipe i with
  | some errno => (some errno, s)
  | none => (none, { fdp := Function.update s.fdp i fun _ => true, log := s.log ++ [.opened i] })

/-- The pipes, the first of them unless there is a file. -/
def openPipes (k : Kernel) (file : Bool) (s : State) : Option Nat × State :=
  let r := if file then (none, s) else filePipeClosexec k 0 s
  if r.1.isSome then r
  else
    let r := filePipeClosexec k 1 r.2
    if r.1.isSome then r else filePipeClosexec k 2 r.2

/-- `makeerror`. -/
def makeerror (host : Host) (fmt : Bytes) (args : List Arg) : Result := Errors.makeerror (host.vasprintf fmt args)

/-- The second child, which writes to the first: whether it is there. -/
def feed (k : Kernel) (file : Bool) (s : State) : Option Nat × State :=
  if file then (none, s)
  else
    let s := closefd 0 0 s
    match k.fork with
    | some errno => (some errno, s)
    | none => (none, closefd 0 1 (s.logs .forked))

/-- From the first `sread` to label `err`. -/
def readBoth (host : Host) (k : Kernel) (fresh : Bytes) (bytesMax n : Nat) (s : State) : Option (Result × State) :=
  (sread false bytesMax k.out).bind fun
    | (.error _, _) => some (readPipes fresh bytesMax n none none none, s)
    | (.ok out, _) =>
        if out.length = bytesMax then some (readPipes fresh bytesMax n (some out) none none, closefd 1 0 s)
        else
          (sread false bytesMax k.err).map fun
            | (.error errno, _) =>
                (readPipes fresh bytesMax n (some out) none
                  (host.vasprintf (asc "Read stderr failed, %s") [.str (host.strerror errno)]), s)
            | (.ok err, _) => (readPipes fresh bytesMax n (some out) (some err) none, s)

/-- `waitpid`, with what becomes of the result. -/
def waitFor (host : Host) (wait : Option Nat) (writer : Bool) (r : Result × State) : Result × State :=
  match wait with
  | some errno => (makeerror host (asc "Wait failed, %s") [.str (host.strerror errno)], r.2)
  | none => (r.1, r.2.logs (.reaped writer))

/-- From label `err` on. -/
def finish (host : Host) (k : Kernel) (writer : Bool) (r : Result × State) : Result × State :=
  let r := (r.1, closefd 2 0 (closefd 1 0 (closefd 0 1 r.2)))
  let r := waitFor host k.wait false r
  let r := if writer then waitFor host k.waitWriter true r else r
  (r.1, closefd 0 0 r.2)

/-- `uncompressbuf`, once the child is there. -/
def withChild (host : Host) (k : Kernel) (file : Bool) (fresh : Bytes) (bytesMax n : Nat) (s : State) :
    Option (Result × State) :=
  let (failed, s) := feed k file (closefd 2 1 (closefd 1 1 (s.logs .spawned)))
  match failed with
  | some errno =>
      some (finish host k false (makeerror host (asc "Write to child failed, %s") [.str (host.strerror errno)], s))
  | none => (readBoth host k fresh bytesMax n s).map (finish host k (!file))

def start : State := ⟨fun _ _ => false, []⟩

/-- `uncompressbuf`. `decompress` is what a library does, `fresh` what `malloc` returns, and `n` the length of what is
decompressed. -/
def uncompressbuf (host : Host) (k : Kernel) (decompress : Option Result) (argv : Bytes) (file nofork : Bool)
    (fresh : Bytes) (bytesMax n : Nat) : Option (Result × State) :=
  if !k.malloc then some (makeerror host (asc "No buffer, %s") [.str (host.strerror ENOMEM)], start)
  else match decompress with
    | some r =>
        some (if nofork then makeerror host (asc "Fork is required to uncompress, but disabled") [] else r, start)
    | none =>
        let (failed, s) := openPipes k file start
        match failed with
        | some errno =>
            some (makeerror host (asc "Cannot create pipe, %s") [.str (host.strerror errno)], closep 1 (closep 0 s))
        | none =>
            match k.spawn with
            | some status =>
                some (makeerror host (asc "Cannot posix_spawn `%s', %s") [.str argv, .str (host.strerror status)], s)
            | none => withChild host k file fresh bytesMax n s

/-! ## Descriptors -/

section

variable {s : State} {i i' : Fin 3} {j j' : Fin 2} {event : Event}

@[simp]
theorem closefd_fdp : (closefd i j s).fdp i' j' = if i' = i ∧ j' = j then false else s.fdp i' j' := by
  unfold closefd
  split
  · by_cases same : i' = i
    · subst same
      by_cases same : j' = j
      · simp [same]
      · simp [same]
    · simp [same]
  next closed =>
    split
    next same =>
      rw [same.1, same.2]
      exact Bool.eq_false_of_not_eq_true closed
    · rfl

@[simp]
theorem logs_fdp : (s.logs event).fdp = s.fdp := rfl

@[simp]
theorem logs_log : (s.logs event).log = s.log ++ [event] := rfl

theorem closefd_count (other : event ≠ .closed i j) : (closefd i j s).log.count event = s.log.count event := by
  unfold closefd
  split
  · exact (List.count_append ..).trans (by rw [List.count_singleton, beq_eq_false_iff_ne.mpr (Ne.symm other)]; rfl)
  · rfl

/-- Nothing is closed that is not open. -/
def Orderly (log : List Event) : Prop :=
  ∀ past, past <+: log → ∀ i j, past.count (.closed i j) ≤ past.count (.opened i)

/-- The entries of `fdp` are what has been opened and not closed. -/
structure Sound (s : State) : Prop where
  orderly : Orderly s.log
  entries : ∀ i j, s.log.count (.closed i j) + (if s.fdp i j then 1 else 0) = s.log.count (.opened i)

theorem Orderly.snoc {log : List Event} (orderly : Orderly log)
    (last : ∀ i j, (log ++ [event]).count (.closed i j) ≤ (log ++ [event]).count (.opened i)) :
    Orderly (log ++ [event]) := by
  intro past before i j
  obtain same | before := List.prefix_concat_iff.mp before
  · rw [same]
    exact last i j
  · exact orderly past before i j

theorem Sound.of_entries {log : List Event} {fdp : Fin 3 → Fin 2 → Bool} (orderly : Orderly log)
    (entries : ∀ i j, (log ++ [event]).count (.closed i j) + (if fdp i j then 1 else 0) = (log ++ [event]).count (.opened i)) :
    Sound ⟨fdp, log ++ [event]⟩ :=
  ⟨orderly.snoc fun i j => Nat.le_of_add_right_le (Nat.le_of_eq (entries i j)), entries⟩

theorem Sound.logs (sound : Sound s) (closed : ∀ i j, event ≠ .closed i j) (opened : ∀ i, event ≠ .opened i) :
    Sound (s.logs event) := by
  refine Sound.of_entries sound.orderly fun i j => ?_
  have here := sound.entries i j
  rw [List.count_append, List.count_append, List.count_singleton, List.count_singleton,
    beq_eq_false_iff_ne.mpr (closed i j), beq_eq_false_iff_ne.mpr (opened i)]
  exact here

theorem Sound.closefd (sound : Sound s) (i : Fin 3) (j : Fin 2) : Sound (closefd i j s) := by
  have fdp (i' : Fin 3) (j' : Fin 2) := @closefd_fdp s i i' j j'
  unfold Child.closefd at fdp ⊢
  split
  next there =>
    rw [if_pos there] at fdp
    dsimp only at fdp
    refine Sound.of_entries sound.orderly fun i' j' => ?_
    have here := sound.entries i' j'
    have apart : (Event.closed i j == .opened i') = false := rfl
    rw [fdp, List.count_append, List.count_append, List.count_singleton, List.count_singleton, apart]
    by_cases same : i' = i ∧ j' = j
    · rw [same.1, same.2] at here ⊢
      rw [there, if_pos rfl] at here
      rw [if_pos (And.intro rfl rfl : i = i ∧ j = j), beq_self_eq_true]
      exact here
    · have other : (Event.closed i j == .closed i' j') = false := by
        rw [beq_eq_false_iff_ne]
        rintro ⟨⟩
        exact same ⟨rfl, rfl⟩
      rw [if_neg same, other]
      exact here
  · exact sound

theorem Sound.filePipeClosexec {k : Kernel} (sound : Sound s) (i : Fin 3) (free : s.fdp i = fun _ => false) :
    Sound (filePipeClosexec k i s).2 := by
  unfold Child.filePipeClosexec
  split
  · exact sound
  · refine Sound.of_entries sound.orderly fun i' j' => ?_
    have here := sound.entries i' j'
    rw [List.count_append, List.count_append, List.count_singleton, List.count_singleton]
    by_cases same : i' = i
    · subst same
      rw [free] at here
      rw [Function.update_self, beq_self_eq_true]
      change _ + 0 + 1 = _ + 1
      change _ + 0 = _ at here
      rw [here]
    · have other : (Event.opened i == .opened i') = false := by
        rw [beq_eq_false_iff_ne]
        rintro ⟨⟩
        exact same rfl
      rw [Function.update_of_ne same, other]
      exact here

theorem start_sound : Sound start := by
  refine ⟨fun past before i j => ?_, fun i j => rfl⟩
  rw [List.prefix_nil.mp before]
  exact Nat.le_refl 0

end

/-! ## The stages -/

section

variable {host : Host} {k : Kernel} {file : Bool} {s : State}

theorem filePipeClosexec_fdp (i : Fin 3) (i' : Fin 3) (other : i' ≠ i) : (filePipeClosexec k i s).2.fdp i' = s.fdp i' := by
  unfold filePipeClosexec
  split
  · rfl
  · exact Function.update_of_ne other _ _

theorem openPipes_sound : Sound (openPipes k file start).2 := by
  unfold openPipes
  dsimp only
  generalize first : (if file then (none, start) else filePipeClosexec k 0 start) = r
  have sound : Sound r.2 ∧ r.2.fdp 1 = (fun _ => false) ∧ r.2.fdp 2 = fun _ => false := by
    cases file with
    | true =>
        subst first
        exact ⟨start_sound, rfl, rfl⟩
    | false =>
        subst first
        refine ⟨start_sound.filePipeClosexec 0 rfl, ?_, ?_⟩
        · exact filePipeClosexec_fdp 0 1 (by decide)
        · exact filePipeClosexec_fdp 0 2 (by decide)
  obtain ⟨sound, free, free'⟩ := sound
  split
  · exact sound
  · split
    · exact sound.filePipeClosexec 1 free
    · refine (sound.filePipeClosexec 1 free).filePipeClosexec 2 ?_
      rw [filePipeClosexec_fdp 1 2 (by decide), free']

/-- Where a pipe could not be made, the last one is not there. -/
theorem openPipes_failed (failed : (openPipes k file start).1.isSome = true) :
    (openPipes k file start).2.fdp 2 = fun _ => false := by
  unfold openPipes at failed ⊢
  dsimp only at failed ⊢
  generalize first : (if file then (none, start) else filePipeClosexec k 0 start) = r at failed
  have free : r.2.fdp 2 = fun _ => false := by
    cases file with
    | true =>
        subst first
        rfl
    | false =>
        subst first
        exact filePipeClosexec_fdp 0 2 (by decide)
  split at failed
  next one =>
    rw [if_pos one]
    exact free
  next one =>
    rw [if_neg one]
    split at failed
    next two =>
      rw [if_pos two, filePipeClosexec_fdp 1 2 (by decide), free]
    next two =>
      rw [if_neg two]
      unfold filePipeClosexec at failed ⊢
      cases pipe : k.pipe 2 with
      | some errno => exact (filePipeClosexec_fdp 1 2 (by decide)).trans free
      | none =>
          rw [pipe] at failed
          cases failed

theorem filePipeClosexec_made {i : Fin 3} (made : (filePipeClosexec k i s).1 = none) :
    (filePipeClosexec k i s).2 = ⟨Function.update s.fdp i fun _ => true, s.log ++ [.opened i]⟩ := by
  unfold filePipeClosexec at made ⊢
  cases pipe : k.pipe i with
  | none => rfl
  | some errno =>
      rw [pipe] at made
      cases made

/-- All three are opened, or the last two when there is a file. -/
theorem openPipes_made (made : (openPipes k file start).1 = none) :
    (openPipes k file start).2.log = (if file then [] else [.opened 0]) ++ [.opened 1, .opened 2] ∧
      (openPipes k file start).2.fdp 1 0 = true := by
  unfold openPipes at made ⊢
  dsimp only at made ⊢
  generalize first : (if file then (none, start) else filePipeClosexec k 0 start) = r at made
  split at made
  next failed =>
    rw [made] at failed
    cases failed
  next one =>
    rw [if_neg one]
    split at made
    next failed =>
      rw [made] at failed
      cases failed
    next two =>
      rw [if_neg two, filePipeClosexec_made made, filePipeClosexec_made (Option.not_isSome_iff_eq_none.mp two)]
      refine ⟨?_, rfl⟩
      cases file with
      | true =>
          subst first
          rfl
      | false =>
          subst first
          rw [if_neg Bool.false_ne_true] at one
          have log := filePipeClosexec_made (Option.not_isSome_iff_eq_none.mp one)
          dsimp only
          rw [if_neg Bool.false_ne_true, log]
          rfl

/-- How many children there are of each kind, and how many were waited for. -/
def tally (s : State) : Nat × Nat × Nat × Nat :=
  (s.log.count .spawned, s.log.count .forked, s.log.count (.reaped false), s.log.count (.reaped true))

@[simp]
theorem closefd_tally (i : Fin 3) (j : Fin 2) (s : State) : tally (closefd i j s) = tally s := by
  have same {event : Event} (child : ∀ i j, event ≠ .closed i j) := @closefd_count s i j event (child i j)
  rw [tally, @same .spawned fun _ _ => nofun, @same .forked fun _ _ => nofun, @same (.reaped false) fun _ _ => nofun,
    @same (.reaped true) fun _ _ => nofun, tally]

theorem filePipeClosexec_tally (i : Fin 3) (s : State) : tally (filePipeClosexec k i s).2 = tally s := by
  unfold filePipeClosexec
  split
  · rfl
  · simp [tally]

theorem openPipes_tally : tally (openPipes k file start).2 = (0, 0, 0, 0) := by
  unfold openPipes
  dsimp only
  generalize first : (if file then (none, start) else filePipeClosexec k 0 start) = r
  have none : tally r.2 = (0, 0, 0, 0) := by
    cases file with
    | true =>
        subst first
        rfl
    | false =>
        subst first
        exact filePipeClosexec_tally 0 start
  split
  · exact none
  · split
    · rw [filePipeClosexec_tally, none]
    · rw [filePipeClosexec_tally, filePipeClosexec_tally, none]

/-- One kind of event is logged, as often as it happens. -/
theorem logs_tally (event : Event) (s : State) : tally (s.logs event) =
    ((tally s).1 + if event = .spawned then 1 else 0, (tally s).2.1 + if event = .forked then 1 else 0,
      (tally s).2.2.1 + if event = .reaped false then 1 else 0,
      (tally s).2.2.2 + if event = .reaped true then 1 else 0) := by
  simp only [tally, logs_log, List.count_append, List.count_singleton, beq_iff_eq]

/-! ## With the child -/

theorem waitFor_fdp (wait : Option Nat) (writer : Bool) (r : Result × State) :
    (waitFor host wait writer r).2.fdp = r.2.fdp := by
  unfold waitFor
  split
  · rfl
  · rfl

theorem waitFor_sound (wait : Option Nat) (writer : Bool) {r : Result × State} (sound : Sound r.2) :
    Sound (waitFor host wait writer r).2 := by
  unfold waitFor
  split
  · exact sound
  · exact sound.logs nofun nofun

/-- At the end nothing is open but what the child had, which was closed before. -/
theorem finish_fdp (writer : Bool) {r : Result × State} (child : r.2.fdp 1 1 = false ∧ r.2.fdp 2 1 = false) (i : Fin 3)
    (j : Fin 2) : (finish host k writer r).2.fdp i j = false := by
  have closed : (closefd 2 0 (closefd 1 0 (closefd 0 1 r.2))).fdp i j = (i == 0 && j == 0 && r.2.fdp 0 0) := by
    fin_cases i <;> fin_cases j <;> simp [child.1, child.2]
  have kept : (finish host k writer r).2.fdp i j =
      (closefd 0 0 (closefd 2 0 (closefd 1 0 (closefd 0 1 r.2)))).fdp i j := by
    unfold finish
    dsimp only
    cases writer with
    | true => simp only [if_true, closefd_fdp, waitFor_fdp]
    | false => simp only [Bool.false_eq_true, if_false, closefd_fdp, waitFor_fdp]
  rw [kept, closefd_fdp, closed]
  split
  · rfl
  next other =>
    rw [Bool.and_eq_false_iff, Bool.and_eq_false_iff]
    left
    rw [beq_eq_false_iff_ne, beq_eq_false_iff_ne]
    exact not_and_or.mp other

theorem finish_sound (writer : Bool) {r : Result × State} (sound : Sound r.2) : Sound (finish host k writer r).2 := by
  have closed : Sound (closefd 2 0 (closefd 1 0 (closefd 0 1 r.2))) := ((sound.closefd 0 1).closefd 1 0).closefd 2 0
  unfold finish
  dsimp only
  cases writer with
  | true => exact (waitFor_sound _ _ (waitFor_sound _ _ closed)).closefd 0 0
  | false => exact (waitFor_sound _ _ closed).closefd 0 0

/-- One for a call that succeeds. -/
def succeeds (call : Option Nat) : Nat := if call.isSome then 0 else 1

theorem waitFor_tally (wait : Option Nat) (writer : Bool) (r : Result × State) :
    tally (waitFor host wait writer r).2 =
      ((tally r.2).1, (tally r.2).2.1, (tally r.2).2.2.1 + (if writer then 0 else succeeds wait),
        (tally r.2).2.2.2 + if writer then succeeds wait else 0) := by
  unfold waitFor
  cases wait with
  | some errno => cases writer <;> rfl
  | none =>
      dsimp only
      rw [logs_tally]
      cases writer <;> rfl

theorem finish_tally (writer : Bool) (r : Result × State) :
    tally (finish host k writer r).2 =
      ((tally r.2).1, (tally r.2).2.1, (tally r.2).2.2.1 + succeeds k.wait,
        (tally r.2).2.2.2 + if writer then succeeds k.waitWriter else 0) := by
  unfold finish
  dsimp only
  cases writer with
  | true => simp only [if_true, closefd_tally, waitFor_tally, Bool.false_eq_true, if_false, Nat.add_zero]
  | false => simp only [closefd_tally, waitFor_tally, Bool.false_eq_true, if_false, Nat.add_zero]

theorem feed_fdp (s : State) (i : Fin 3) (j : Fin 2) (other : i ≠ 0) : (feed k file s).2.fdp i j = s.fdp i j := by
  have apart (j' : Fin 2) : ¬ (i = 0 ∧ j = j') := fun both => other both.1
  unfold feed
  split
  · rfl
  · dsimp only
    split
    · rw [closefd_fdp, if_neg (apart 0)]
    · rw [closefd_fdp, if_neg (apart 1), logs_fdp, closefd_fdp, if_neg (apart 0)]

theorem feed_sound (sound : Sound s) : Sound (feed k file s).2 := by
  unfold feed
  split
  · exact sound
  · dsimp only
    split
    · exact sound.closefd 0 0
    · exact Sound.closefd (@Sound.logs _ .forked (sound.closefd 0 0) (fun _ _ => nofun) fun _ => nofun) 0 1

theorem feed_tally (s : State) : tally (feed k file s).2 =
    ((tally s).1, (tally s).2.1 + (if file then 0 else succeeds k.fork), (tally s).2.2) := by
  unfold feed
  cases file with
  | true => rfl
  | false =>
      dsimp only
      rw [if_neg Bool.false_ne_true, if_neg Bool.false_ne_true]
      cases k.fork with
      | some errno => exact closefd_tally 0 0 s
      | none =>
          dsimp only
          rw [closefd_tally, logs_tally, closefd_tally]
          rfl

/-- Nothing is opened or started while the pipes are read. -/
theorem readBoth_state {fresh : Bytes} {bytesMax n : Nat} {r : Result} {s' : State}
    (result : readBoth host k fresh bytesMax n s = some (r, s')) : s' = s ∨ s' = closefd 1 0 s := by
  unfold readBoth at result
  cases out : sread false bytesMax k.out with
  | none =>
      rw [out] at result
      cases result
  | some o =>
      rw [out, Option.bind_some] at result
      obtain ⟨got, source⟩ := o
      cases got with
      | error errno =>
          cases result
          exact .inl rfl
      | ok bs =>
          dsimp only at result
          split at result
          · cases result
            exact .inr rfl
          · cases err : sread false bytesMax k.err with
            | none =>
                rw [err] at result
                cases result
            | some e =>
                rw [err] at result
                obtain ⟨got, source⟩ := e
                cases got with
                | error errno =>
                    cases result
                    exact .inl rfl
                | ok bs =>
                    cases result
                    exact .inl rfl

end

/-! ## What was read -/

section

variable {host : Host} {k : Kernel} {file : Bool} {s s' : State} {fresh : Bytes} {bytesMax n : Nat} {r : Result}

/-- The data are the front of what the child wrote to its standard output. -/
def Reads (k : Kernel) (bytesMax : Nat) (r : Result) : Prop :=
  r.rv = .OKDATA → r.newch.take r.n = k.out.rest.take bytesMax

theorem makeerror_reads (msg : Option Bytes) : Reads k bytesMax (Errors.makeerror msg) := by
  cases msg with
  | none => exact nofun
  | some msg => exact nofun

theorem ok_reads {out : Bytes} (front : out = k.out.rest.take bytesMax) :
    Reads k bytesMax (Errors.ok .OKDATA (Errors.store fresh out) out.length) := by
  intro _
  change ((Errors.store fresh out).set out.length 0).take out.length = _
  rw [List.take_set_of_le (Nat.le_refl _), Errors.store, List.take_left, front]

theorem sread_out {bs : Bytes} {source : Source} (out : sread false bytesMax k.out = some (.ok bs, source)) :
    bs = k.out.rest.take bytesMax := by
  have loop : Pipe.readLoop k.out.polls k.out.answers bytesMax [] k.out.rest = some (.ok bs, source) := out
  obtain ⟨front, split', -, few, more⟩ := Pipe.readLoop_reads loop
  obtain ⟨rfl, enough⟩ := more bs rfl
  rw [← split']
  change bs = _
  obtain full | none := enough
  · rw [← full, List.take_left]
  · rw [none, List.append_nil, List.take_of_length_le few]

theorem readBoth_reads (result : readBoth host k fresh bytesMax n s = some (r, s')) : Reads k bytesMax r := by
  unfold readBoth at result
  cases out : sread false bytesMax k.out with
  | none =>
      rw [out] at result
      cases result
  | some o =>
      rw [out, Option.bind_some] at result
      obtain ⟨got, source⟩ := o
      cases got with
      | error errno =>
          cases result
          intro ok
          cases ok
      | ok bs =>
          have front := sread_out out
          dsimp only at result
          split at result
          next full =>
            cases result
            rw [readPipes, if_pos full]
            exact ok_reads front
          next part =>
            cases err : sread false bytesMax k.err with
            | none =>
                rw [err] at result
                cases result
            | some e =>
                rw [err] at result
                obtain ⟨got, source⟩ := e
                cases got with
                | error errno =>
                    cases result
                    rw [readPipes, if_neg part]
                    exact makeerror_reads _
                | ok text =>
                    cases result
                    cases text with
                    | nil =>
                        rw [readPipes, if_neg part]
                        exact ok_reads front
                    | cons b text =>
                        rw [readPipes, if_neg part]
                        · intro ok
                          cases ok
                        · intro nil
                          cases nil

theorem waitFor_reads {wait : Option Nat} {writer : Bool} {a : Result × State} (reads : Reads k bytesMax a.1) :
    Reads k bytesMax (waitFor host wait writer a).1 := by
  unfold waitFor
  split
  · exact makeerror_reads _
  · exact reads

theorem finish_reads {writer : Bool} {a : Result × State} (reads : Reads k bytesMax a.1) :
    Reads k bytesMax (finish host k writer a).1 := by
  unfold finish
  dsimp only
  cases writer with
  | true => exact waitFor_reads (waitFor_reads reads)
  | false => exact waitFor_reads reads

end

/-! ## `uncompressbuf` -/

section

variable {host : Host} {k : Kernel} {file : Bool} {s s' : State} {fresh : Bytes} {bytesMax n : Nat} {r : Result}

/-- Every descriptor that was opened has been closed, once. -/
def AllClosed (s : State) : Prop := ∀ i j, s.log.count (.closed i j) = s.log.count (.opened i)

/-- The children that there are, by whether the calls succeeded: the decompressor and its writer, and which of them were
waited for. -/
def children (k : Kernel) (file : Bool) : Nat × Nat × Nat × Nat :=
  let writer := if file then 0 else succeeds k.fork
  (1, writer, succeeds k.wait, if writer = 1 then succeeds k.waitWriter else 0)

theorem Sound.allClosed (sound : Sound s) (gone : ∀ i j, s.fdp i j = false) : AllClosed s := by
  intro i j
  have here := sound.entries i j
  rw [gone] at here
  exact here

theorem feed_failed (s : State) : (feed k file s).1 = if file then none else k.fork := by
  unfold feed
  cases file with
  | true => rfl
  | false => cases k.fork <;> rfl

/-- What holds when `uncompressbuf` has waited for the child. -/
structure Tidy (k : Kernel) (file : Bool) (bytesMax : Nat) (a : Result × State) : Prop where
  sound : Sound a.2
  closed : AllClosed a.2
  tally : tally a.2 = children k file
  reads : Reads k bytesMax a.1

theorem finish_tidy {a : Result × State} (writer : Bool) (sound : Sound a.2)
    (child : a.2.fdp 1 1 = false ∧ a.2.fdp 2 1 = false) (reads : Reads k bytesMax a.1)
    (count : tally a.2 = (1, (children k file).2.1, 0, 0)) (same : writer = decide ((children k file).2.1 = 1)) :
    Tidy k file bytesMax (finish host k writer a) where
  sound := finish_sound writer sound
  closed := (finish_sound writer sound).allClosed (finish_fdp writer child)
  tally := by
    rw [finish_tally, count, same, children]
    congr 4
    · exact Nat.zero_add _
    · rw [Nat.zero_add]
      exact if_congr decide_eq_true_iff rfl rfl
  reads := finish_reads reads

theorem withChild_tidy (sound : Sound s) (idle : tally s = (0, 0, 0, 0))
    (result : withChild host k file fresh bytesMax n s = some (r, s')) : Tidy k file bytesMax (r, s') := by
  have sound' : Sound (closefd 2 1 (closefd 1 1 (s.logs .spawned))) :=
    ((@Sound.logs _ .spawned sound (fun _ _ => nofun) fun _ => nofun).closefd 1 1).closefd 2 1
  have count : tally (closefd 2 1 (closefd 1 1 (s.logs .spawned))) = (1, 0, 0, 0) := by
    rw [closefd_tally, closefd_tally, logs_tally, idle]
    rfl
  have child : (closefd 2 1 (closefd 1 1 (s.logs .spawned))).fdp 1 1 = false ∧
      (closefd 2 1 (closefd 1 1 (s.logs .spawned))).fdp 2 1 = false := by
    simp
  unfold withChild at result
  generalize closefd 2 1 (closefd 1 1 (s.logs .spawned)) = s₁ at result sound' count child
  have fed := @feed_sound k file s₁ sound'
  have fed_count := @feed_tally k file s₁
  have fed_failed := @feed_failed k file s₁
  have fed_child : (feed k file s₁).2.fdp 1 1 = false ∧ (feed k file s₁).2.fdp 2 1 = false := by
    rw [feed_fdp s₁ 1 1 (by decide), feed_fdp s₁ 2 1 (by decide)]
    exact child
  rw [count] at fed_count
  generalize feed k file s₁ = fed' at result fed fed_count fed_failed fed_child
  obtain ⟨failed, s₂⟩ := fed'
  dsimp only at result fed fed_count fed_failed fed_child
  cases failed with
  | some errno =>
      rw [← Option.some.inj result]
      cases file with
      | true => cases fed_failed
      | false =>
          have fork : some errno = k.fork := fed_failed
          rw [← fork] at fed_count
          refine finish_tidy false fed fed_child (makeerror_reads _) ?_ ?_
          · rw [children, ← fork]
            exact fed_count
          · rw [children, ← fork]
            rfl
  | none =>
      cases read : readBoth host k fresh bytesMax n s₂ with
      | none =>
          rw [read] at result
          cases result
      | some a =>
          obtain ⟨r', s₃⟩ := a
          rw [read] at result
          rw [← Option.some.inj result]
          have after : Sound s₃ ∧ tally s₃ = tally s₂ ∧ s₃.fdp 1 1 = false ∧ s₃.fdp 2 1 = false := by
            obtain rfl | rfl := readBoth_state read
            · exact ⟨fed, rfl, fed_child⟩
            · refine ⟨fed.closefd 1 0, closefd_tally 1 0 s₂, ?_⟩
              rw [closefd_fdp, closefd_fdp, if_neg (by decide), if_neg (by decide)]
              exact fed_child
          obtain ⟨sound₃, count₃, child₃⟩ := after
          refine finish_tidy (!file) sound₃ child₃ (readBoth_reads read) ?_ ?_
          · rw [count₃, fed_count, Nat.zero_add]
            rfl
          · cases file with
            | true => rfl
            | false =>
                have fork : none = k.fork := fed_failed
                rw [children, ← fork]
                rfl

/-- Whether the child could not be started, with the pipes there. -/
def SpawnFails (k : Kernel) (decompress : Option Result) (file : Bool) : Prop :=
  k.malloc = true ∧ decompress = none ∧ (file = true ∨ k.pipe 0 = none) ∧ k.pipe 1 = none ∧ k.pipe 2 = none ∧ k.spawn ≠ none

theorem filePipeClosexec_failed (i : Fin 3) (s : State) : (filePipeClosexec k i s).1 = k.pipe i := by
  unfold filePipeClosexec
  split
  next errno pipe => exact pipe.symm
  next pipe => exact pipe.symm

theorem openPipes_none_iff :
    (openPipes k file start).1 = none ↔ (file = true ∨ k.pipe 0 = none) ∧ k.pipe 1 = none ∧ k.pipe 2 = none := by
  unfold openPipes
  dsimp only
  generalize first : (if file then (none, start) else filePipeClosexec k 0 start) = r
  have here : r.1 = none ↔ file = true ∨ k.pipe 0 = none := by
    subst first
    cases file with
    | true => exact iff_of_true rfl (.inl rfl)
    | false =>
        rw [if_neg Bool.false_ne_true, filePipeClosexec_failed]
        exact ⟨.inr, fun either => either.resolve_left Bool.false_ne_true⟩
  rw [← here]
  split
  next failed =>
    have some' : r.1 ≠ none := Option.isSome_iff_ne_none.mp failed
    exact iff_of_false some' fun all => some' all.1
  next one =>
    have none' := Option.not_isSome_iff_eq_none.mp one
    split
    next failed =>
      rw [filePipeClosexec_failed] at failed ⊢
      have some' : k.pipe 1 ≠ none := Option.isSome_iff_ne_none.mp failed
      exact iff_of_false some' fun all => some' all.2.1
    next two =>
      rw [filePipeClosexec_failed] at two ⊢
      exact ⟨fun three => ⟨none', Option.not_isSome_iff_eq_none.mp two, three⟩, fun all => all.2.2⟩

/-- However its calls fail, `uncompressbuf` closes no descriptor that is not open, and closes each one that it opened,
but for the pipes of a child that could not be started. It waits for each child once, if `waitpid` allows. Its data are the
front of what the child wrote. -/
theorem uncompressbuf_tidy {decompress : Option Result} {argv : Bytes} {nofork : Bool}
    (result : uncompressbuf host k decompress argv file nofork fresh bytesMax n = some (r, s)) :
    Orderly s.log ∧ (AllClosed s ↔ ¬ SpawnFails k decompress file) ∧
      (tally s = (0, 0, 0, 0) ∨ tally s = children k file) ∧ (decompress = none → Reads k bytesMax r) := by
  have idle {r' : Result} (some' : ¬ SpawnFails k decompress file) (reads : decompress = none → Reads k bytesMax r')
      (same : some (r', start) = some (r, s)) :
      Orderly s.log ∧ (AllClosed s ↔ ¬ SpawnFails k decompress file) ∧
        (tally s = (0, 0, 0, 0) ∨ tally s = children k file) ∧ (decompress = none → Reads k bytesMax r) := by
    cases same
    exact ⟨start_sound.orderly, iff_of_true (fun _ _ => rfl) some', .inl rfl, reads⟩
  unfold uncompressbuf at result
  split at result
  next memory =>
    rw [Bool.not_eq_true'] at memory
    refine idle (fun fails => ?_) (fun _ => makeerror_reads _) result
    have got := fails.1
    rw [memory] at got
    cases got
  next memory =>
    rw [Bool.not_eq_true', Bool.not_eq_false] at memory
    cases decompress with
    | some d => exact idle (fun fails => nomatch fails.2.1) nofun result
    | none =>
        have sound := @openPipes_sound k file
        have count := @openPipes_tally k file
        have made := @openPipes_none_iff k file
        have log := @openPipes_made k file
        have third := @openPipes_failed k file
        dsimp only at result
        generalize openPipes k file start = o at result sound count made log third
        obtain ⟨failed, s₁⟩ := o
        dsimp only at result sound count made log third
        cases failed with
        | some errno =>
            cases result
            have sound' : Sound (closep 1 (closep 0 s₁)) :=
              (((sound.closefd 0 0).closefd 0 1).closefd 1 0).closefd 1 1
            refine ⟨sound'.orderly, iff_of_true (sound'.allClosed fun i j => ?_) ?_, .inl ?_, fun _ => makeerror_reads _⟩
            · rw [closep, closep, closefd_fdp, closefd_fdp, closefd_fdp, closefd_fdp]
              have gone (j : Fin 2) : s₁.fdp 2 j = false := congrFun (third rfl) j
              fin_cases i <;> fin_cases j <;> simp [gone]
            · rintro ⟨-, -, first, second, third, -⟩
              cases made.mpr ⟨first, second, third⟩
            · rw [closep, closep, closefd_tally, closefd_tally, closefd_tally, closefd_tally, count]
        | none =>
            obtain ⟨first, second, third'⟩ := made.mp rfl
            cases spawn : k.spawn with
            | some status =>
                rw [spawn] at result
                cases result
                refine ⟨sound.orderly, iff_of_false (fun all => ?_) (not_not_intro ?_), .inl count, fun _ => makeerror_reads _⟩
                · have here := sound.entries 1 0
                  rw [(log rfl).2, all 1 0] at here
                  exact absurd here (Nat.succ_ne_self _)
                · refine ⟨memory, rfl, first, second, third', ?_⟩
                  rw [spawn]
                  exact Option.some_ne_none status
            | none =>
                rw [spawn] at result
                have tidy := withChild_tidy sound count result
                refine ⟨tidy.sound.orderly, iff_of_true tidy.closed ?_, .inr tidy.tally, fun _ => tidy.reads⟩
                exact fun fails => fails.2.2.2.2.2 spawn

end

/-- A child that writes three bytes, one of them behind a signal, and says nothing. -/
def quietChild : Kernel where
  malloc := true
  pipe := fun _ => none
  spawn := none
  fork := none
  out := ⟨[1, 2, 3], [.moved 2, .interrupted, .moved 9, .moved 9], []⟩
  err := ⟨[], [.moved 9], []⟩
  wait := none
  waitWriter := none

theorem uncompressbuf_tidy_quiet :
    ∃ r s, uncompressbuf plainHost quietChild none (asc "gzip") false false (List.replicate 17 0) 16 3 = some (r, s) ∧
      Orderly s.log ∧ (AllClosed s ↔ ¬ SpawnFails quietChild none false) ∧
      (tally s = (0, 0, 0, 0) ∨ tally s = children quietChild false) ∧
      ((none : Option Result) = none → Reads quietChild 16 r) := by
  have ends : (uncompressbuf plainHost quietChild none (asc "gzip") false false (List.replicate 17 0) 16 3).isSome = true := by
    decide +kernel
  obtain ⟨a, result⟩ := Option.isSome_iff_exists.mp ends
  exact ⟨a.1, a.2, result, uncompressbuf_tidy result⟩

end Libmagic.Compress.Child
