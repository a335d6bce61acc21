import Libmagic.Softmagic.Match

/-!
# `compress.c`: `swrite`, `sread` and `file_pipe2file`

The kernel moves as many bytes as it likes, and signals come when they like. A list of what it does is given, and there
is no result where the list ends too early.
-/
namespace Libmagic.Compress.Pipe

open Softmagic

/-- What happens at a call of `read` or `write`: a signal, an error, or bytes are moved. -/
inductive Answer where
  | interrupted
  | failed (errno : Nat)
  | moved (k : Nat)
  deriving DecidableEq

/-- What `select` says. -/
inductive Selected where
  | failed | timeout | ready
  deriving DecidableEq

/-- The calls that find out how much a pipe holds: `ioctl`, `select` again and again, `ioctl`. -/
structure Poll where
  before : Option Nat
  selected : List Selected
  after : Option Nat

/-- A pipe, with what is to come through it, and what happens at the calls. -/
structure Source where
  rest : Bytes
  answers : List Answer
  polls : List Poll

/-- A file that is written to. -/
structure Sink where
  written : Bytes
  answers : List Answer

/-! ## `swrite` -/

/-- The loop of `swrite`: the error if there is one. -/
def writeLoop : List Answer → (buf written : Bytes) → Option (Option Nat × Sink)
  | [], _, _ => none
  | .interrupted :: as, buf, written => writeLoop as buf written
  | .failed errno :: as, _, written => some (some errno, ⟨written, as⟩)
  | .moved k :: as, buf, written =>
      if buf.length ≤ k then some (none, ⟨written ++ buf, as⟩) else writeLoop as (buf.drop k) (written ++ buf.take k)

def swrite (buf : Bytes) (s : Sink) : Option (Option Nat × Sink) := writeLoop s.answers buf s.written

/-! ## `sread` -/

/-- The loop around `select`, which gives up after a timeout behind five failures. -/
def selectLoop : (cnt : Nat) → List Selected → Option Bool
  | _, [] => none
  | cnt, .failed :: ss => selectLoop (cnt + 1) ss
  | cnt, .timeout :: _ => some (decide (cnt < 5))
  | _, .ready :: _ => some true

/-- `t`, unless `sread` returns 0. -/
def Poll.available (p : Poll) : Option (Option Nat) :=
  if p.before.getD 0 ≠ 0 then some p.before
  else (selectLoop 0 p.selected).map fun ready => if ready then some (p.after.getD 0) else none

/-- The loop of `sread`, for `n` bytes more: the bytes, or the error. Nothing is read at the end of the file alone. -/
def readLoop (polls : List Poll) : List Answer → (n : Nat) → (got rest : Bytes) → Option (Except Nat Bytes × Source)
  | [], _, _, _ => none
  | .interrupted :: as, n, got, rest => readLoop polls as n got rest
  | .failed errno :: as, _, _, rest => some (.error errno, ⟨rest, as, polls⟩)
  | .moved k :: as, n, got, rest =>
      let bs := rest.take (min n (max 1 k))
      if bs = [] then some (.ok got, ⟨rest, as, polls⟩)
      else if n ≤ bs.length then some (.ok (got ++ bs), ⟨rest.drop bs.length, as, polls⟩)
      else readLoop polls as (n - bs.length) (got ++ bs) (rest.drop bs.length)

/-- `sread`. Where the descriptor cannot be a pipe or is that of the standard input, it is not polled. -/
def sread (polled : Bool) (n : Nat) (s : Source) : Option (Except Nat Bytes × Source) :=
  if !polled then readLoop s.polls s.answers n [] s.rest
  else match s.polls with
    | [] => none
    | p :: polls => p.available.bind fun
        | none => some (.ok [], { s with polls })
        | some t => readLoop polls s.answers (if 0 < t ∧ t < n then t else n) [] s.rest

/-! ## `file_pipe2file` -/

/-- What happens at the other calls: the error, if there is one. -/
structure Calls where
  mkstemp : Option Nat
  dup2 : Option Nat
  lseek : Option Nat

/-- What `file_pipe2file` leaves: its answer, the pipe, the temporary file, whether `tfd` is open, whether `fd` is a
descriptor of the temporary file, and its position. -/
structure Copied where
  answer : Bool
  source : Source
  file : Bytes
  tfd : Bool
  moved : Bool
  position : Nat
  io : Io

/-- Where the copying ends: an error of `sread`, the end, or an error of `swrite`. -/
inductive Ended where
  | read (errno : Nat)
  | done
  | write (errno : Nat)
  deriving DecidableEq

/-- The loop of `file_pipe2file`. There is something to read in every round but the last. -/
def copyLoop (polled : Bool) : (rounds : Nat) → Source → Sink → Option (Ended × Source × Sink)
  | 0, _, _ => none
  | rounds + 1, source, sink =>
      (sread polled 4096 source).bind fun
        | (.error errno, source) => some (.read errno, source, sink)
        | (.ok bs, source) =>
            if bs = [] then some (.done, source, sink)
            else (swrite bs sink).bind fun
              | (some errno, sink) => some (.write errno, source, sink)
              | (none, sink) => copyLoop polled rounds source sink

/-- The copying. -/
def copy (polled : Bool) (startbuf : Bytes) (source : Source) (sink : Sink) : Option (Ended × Source × Sink) :=
  (swrite startbuf sink).bind fun
    | (some errno, sink) => some (.write errno, source, sink)
    | (none, sink) => copyLoop polled (source.rest.length + 1) source sink

/-- `file_pipe2file`, behind the copying. -/
def putBack (host : Host) (calls : Calls) (io : Io) (r : Ended × Source × Sink) : Copied :=
  let left : Copied := ⟨false, r.2.1, r.2.2.written, true, false, r.2.2.written.length, io⟩
  match r.1 with
  | .read errno => { left with io := fileError host errno (asc "error copying from pipe to temp file") [] io }
  | .write errno => { left with io := fileError host errno (asc "error while writing to temp file") [] io }
  | .done =>
      match calls.dup2 with
      | some errno => { left with io := fileError host errno (asc "could not dup descriptor for temp file") [] io }
      | none =>
          let left : Copied := { left with tfd := false, moved := true }
          match calls.lseek with
          | some errno => { left with io := fileError host errno (asc "error seeking") [] io }
          | none => { left with answer := true, position := 0 }

/-- `file_pipe2file`. The temporary file is a new one. -/
def filePipe2file (host : Host) (polled : Bool) (startbuf : Bytes) (calls : Calls) (source : Source) (writes : List Answer)
    (io : Io) : Option Copied :=
  match calls.mkstemp with
  | some errno =>
      let io := fileError host errno (asc "cannot create temporary file for pipe copy") [] io
      some ⟨false, source, [], false, false, 0, io⟩
  | none => (copy polled startbuf source ⟨[], writes⟩).map (putBack host calls io)

/-! ## What is moved -/

section

variable {as : List Answer} {buf written rest got : Bytes} {n : Nat} {polls : List Poll}

/-- What `swrite` writes is the front of its buffer, and all of it unless there is an error. -/
theorem writeLoop_writes {r : Option Nat} {s : Sink} (result : writeLoop as buf written = some (r, s)) :
    ∃ front, front <+: buf ∧ s.written = written ++ front ∧ (r = none → front = buf) := by
  induction as generalizing buf written with
  | nil => cases result
  | cons a as ih =>
      cases a with
      | interrupted => exact ih result
      | failed errno =>
          cases result
          exact ⟨[], List.nil_prefix, (List.append_nil _).symm, nofun⟩
      | moved k =>
          rw [writeLoop] at result
          split at result
          · cases result
            exact ⟨buf, List.prefix_rfl, rfl, fun _ => rfl⟩
          · obtain ⟨front, ⟨back, split'⟩, more, all⟩ := ih result
            refine ⟨buf.take k ++ front, ⟨back, ?_⟩, ?_, fun done => ?_⟩
            · rw [List.append_assoc, split', List.take_append_drop]
            · rw [more, List.append_assoc]
            · rw [all done, List.take_append_drop]

/-- What `sread` takes is the front of what is to come, as much as it asks for or all there is. -/
theorem readLoop_reads {r : Except Nat Bytes} {s : Source} (result : readLoop polls as n got rest = some (r, s)) :
    ∃ front, front ++ s.rest = rest ∧ s.polls = polls ∧ front.length ≤ n ∧
      ∀ bs, r = .ok bs → bs = got ++ front ∧ (front.length = n ∨ s.rest = []) := by
  induction as generalizing n got rest with
  | nil => cases result
  | cons a as ih =>
      cases a with
      | interrupted => exact ih result
      | failed errno =>
          cases result
          exact ⟨[], rfl, rfl, Nat.zero_le n, nofun⟩
      | moved k =>
          have whole := List.prefix_iff_eq_append.mp (List.take_prefix (min n (max 1 k)) rest)
          have size := List.length_take (i := min n (max 1 k)) (l := rest)
          rw [readLoop] at result
          have ended := List.take_eq_nil_iff (l := rest) (k := min n (max 1 k))
          generalize rest.take (min n (max 1 k)) = bs at result whole size ended
          split at result
          next none =>
            cases result
            refine ⟨[], rfl, rfl, Nat.zero_le n, ?_⟩
            rintro bs' ⟨⟩
            refine ⟨(List.append_nil _).symm, (ended.mp none).imp (fun zero => ?_) id⟩
            change 0 = n
            omega
          split at result
          next full =>
            cases result
            refine ⟨bs, whole, rfl, by omega, ?_⟩
            rintro bs' ⟨⟩
            exact ⟨rfl, .inl (by omega)⟩
          next short =>
            obtain ⟨front, split', same, few, more⟩ := ih result
            refine ⟨bs ++ front, ?_, same, ?_, fun bs' done => ?_⟩
            · rw [List.append_assoc, split', whole]
            · rw [List.length_append]
              omega
            · obtain ⟨rfl, enough⟩ := more bs' done
              rw [List.append_assoc, List.length_append]
              exact ⟨rfl, enough.imp_left fun length => by omega⟩

/-- `sread` gives up, as it sees nothing to read. -/
def Source.GivesUp (s : Source) : Prop := ∃ p ∈ s.polls, p.available = some none

/-- What `sread` takes is the front of what is to come, and something unless there is nothing or it gives up. -/
theorem sread_reads {polled : Bool} {s s' : Source} {r : Except Nat Bytes} (result : sread polled n s = some (r, s')) :
    ∃ front, front ++ s'.rest = s.rest ∧ (∃ gone, gone ++ s'.polls = s.polls) ∧
      ∀ bs, r = .ok bs → bs = front ∧ (0 < n → bs = [] → s'.rest = [] ∨ s.GivesUp) := by
  have start {n' : Nat} {polls gone : List Poll} (pos : 0 < n → 0 < n') (same : gone ++ polls = s.polls)
      (result : readLoop polls s.answers n' [] s.rest = some (r, s')) :
      ∃ front, front ++ s'.rest = s.rest ∧ (∃ gone, gone ++ s'.polls = s.polls) ∧
        ∀ bs, r = .ok bs → bs = front ∧ (0 < n → bs = [] → s'.rest = [] ∨ s.GivesUp) := by
    obtain ⟨front, split', stays, -, more⟩ := readLoop_reads result
    refine ⟨front, split', ⟨gone, by rw [stays, same]⟩, fun bs done => ?_⟩
    obtain ⟨rfl, enough⟩ := more bs done
    refine ⟨rfl, fun some' none => .inl (enough.resolve_left fun length => ?_)⟩
    have empty : bs.length = 0 := congrArg List.length none
    have := pos some'
    omega
  unfold sread at result
  split at result
  · exact start id (List.nil_append _) result
  · split at result
    · cases result
    next p polls all =>
      have same : [p] ++ polls = s.polls := all.symm
      cases available : p.available with
      | none =>
          rw [available] at result
          cases result
      | some t =>
          rw [available] at result
          cases t with
          | none =>
              cases result
              refine ⟨[], rfl, ⟨[p], same⟩, ?_⟩
              rintro bs ⟨⟩
              refine ⟨rfl, fun _ _ => .inr ⟨p, ?_, available⟩⟩
              rw [all]
              exact List.mem_cons_self
          | some t =>
              refine start (fun pos => ?_) same result
              split
              next less => exact less.1
              next => exact pos

theorem Source.GivesUp.of_suffix {s s' : Source} (gives : s'.GivesUp) (gone : ∃ gone, gone ++ s'.polls = s.polls) :
    s.GivesUp := by
  obtain ⟨p, mem, available⟩ := gives
  obtain ⟨gone, same⟩ := gone
  exact ⟨p, same ▸ List.mem_append_right gone mem, available⟩

/-- What has been copied when the copying ends. -/
structure Copies (text : Bytes) (source source' : Source) (ended : Ended) (written : Bytes) : Prop where
  rest : source'.rest <:+ source.rest
  front : written <+: text ++ source.rest
  done : ended = .done → written ++ source'.rest = text ++ source.rest ∧ (source'.rest = [] ∨ source.GivesUp)

theorem copyLoop_copies {polled : Bool} {rounds : Nat} {source source' : Source} {sink sink' : Sink} {ended : Ended}
    (result : copyLoop polled rounds source sink = some (ended, source', sink')) :
    Copies sink.written source source' ended sink'.written := by
  induction rounds generalizing source sink with
  | zero => cases result
  | succ rounds ih =>
      rw [copyLoop] at result
      cases read : sread polled 4096 source with
      | none =>
          rw [read] at result
          cases result
      | some r =>
          obtain ⟨got, source₁⟩ := r
          obtain ⟨front, split', gone, more⟩ := sread_reads read
          rw [read, Option.bind_some] at result
          cases got with
          | error errno =>
              cases result
              exact ⟨⟨front, split'⟩, List.prefix_append _ _, nofun⟩
          | ok bs =>
              obtain ⟨rfl, none⟩ := more bs rfl
              dsimp only at result
              split at result
              next empty =>
                cases result
                subst empty
                refine ⟨⟨[], split'⟩, List.prefix_append _ _, fun _ => ⟨?_, none (by decide) rfl⟩⟩
                rw [← split', List.nil_append]
              next =>
                cases wrote : swrite bs sink with
                | none =>
                    rw [wrote] at result
                    cases result
                | some w =>
                    obtain ⟨failed, sink₁⟩ := w
                    obtain ⟨part, ⟨missing, whole⟩, written, all⟩ := writeLoop_writes wrote
                    rw [wrote, Option.bind_some] at result
                    cases failed with
                    | some errno =>
                        cases result
                        refine ⟨⟨bs, split'⟩, ⟨missing ++ source'.rest, ?_⟩, nofun⟩
                        rw [written, ← split', ← whole, List.append_assoc, List.append_assoc]
                    | none =>
                        have copies := ih result
                        have sum : sink₁.written ++ source₁.rest = sink.written ++ source.rest := by
                          rw [written, all rfl, List.append_assoc, split']
                        refine ⟨copies.rest.trans ⟨bs, split'⟩, ?_, fun done => ?_⟩
                        · rw [← sum]
                          exact copies.front
                        · obtain ⟨same, ends⟩ := copies.done done
                          exact ⟨by rw [same, sum], ends.imp_right fun gives => gives.of_suffix gone⟩

theorem copy_copies {polled : Bool} {startbuf : Bytes} {source source' : Source} {sink sink' : Sink} {ended : Ended}
    (empty : sink.written = []) (result : copy polled startbuf source sink = some (ended, source', sink')) :
    Copies startbuf source source' ended sink'.written := by
  rw [copy] at result
  cases wrote : swrite startbuf sink with
  | none =>
      rw [wrote] at result
      cases result
  | some w =>
      obtain ⟨failed, sink₁⟩ := w
      obtain ⟨part, front, written, all⟩ := writeLoop_writes wrote
      rw [empty, List.nil_append] at written
      rw [wrote, Option.bind_some] at result
      cases failed with
      | some errno =>
          cases result
          refine ⟨List.suffix_rfl, ?_, nofun⟩
          rw [written]
          exact front.trans (List.prefix_append _ _)
      | none =>
          have copies := copyLoop_copies result
          rwa [written, all rfl] at copies

end

/-! ## A kernel that serves -/

/-- Something is moved. -/
def Answer.moves : Answer → Bool
  | .moved k => decide (0 < k)
  | _ => false

/-- There are no errors, and something is moved `n` times or more. -/
structure Serves (as : List Answer) (n : Nat) : Prop where
  calm : ∀ errno, .failed errno ∉ as
  often : n ≤ as.countP Answer.moves

section

variable {as : List Answer} {buf written rest got : Bytes} {n m : Nat} {polls : List Poll}

theorem Serves.tail {a : Answer} (serves : Serves (a :: as) (n + 1)) : Serves as n := by
  refine ⟨fun errno mem => serves.calm errno (List.mem_cons_of_mem _ mem), ?_⟩
  have often := serves.often
  rw [List.countP_cons] at often
  split at often
  · omega
  · omega

theorem Serves.idle {a : Answer} (serves : Serves (a :: as) n) (idle : a.moves = false) : Serves as n := by
  refine ⟨fun errno mem => serves.calm errno (List.mem_cons_of_mem _ mem), ?_⟩
  have often := serves.often
  rwa [List.countP_cons_of_neg (by rw [idle]; exact Bool.false_ne_true)] at often

theorem Serves.le (serves : Serves as n) (less : m ≤ n) : Serves as m := ⟨serves.calm, Nat.le_trans less serves.often⟩

theorem Serves.nil (serves : Serves [] (n + 1)) : False := absurd serves.often (Nat.not_succ_le_zero n)

/-- A buffer is written with as many answers as it has bytes, and one more. -/
theorem writeLoop_ends (serves : Serves as (buf.length + 1 + n)) :
    ∃ s, writeLoop as buf written = some (none, s) ∧ Serves s.answers n := by
  induction as generalizing buf written with
  | nil => exact (Serves.nil (serves.le (m := 0 + 1) (by omega))).elim
  | cons a as ih =>
      cases a with
      | interrupted => exact ih (serves.idle rfl)
      | failed errno => exact absurd List.mem_cons_self (serves.calm errno)
      | moved k =>
          rw [writeLoop]
          split
          · exact ⟨_, rfl, (serves.le (m := n + 1) (by omega)).tail⟩
          next more =>
            refine ih ?_
            rw [List.length_drop]
            cases k with
            | zero => exact serves.idle rfl
            | succ k => exact (serves.le (by omega)).tail

/-- What is read is read with as many answers, and one more. -/
theorem readLoop_ends (serves : Serves as (rest.length + 1 + n)) (asked : Nat) :
    ∃ bs s, readLoop polls as asked got rest = some (.ok bs, s) ∧ Serves s.answers (s.rest.length + n) := by
  induction as generalizing asked got rest with
  | nil => exact (Serves.nil (serves.le (m := 0 + 1) (by omega))).elim
  | cons a as ih =>
      cases a with
      | interrupted => exact ih (serves.idle rfl) asked
      | failed errno => exact absurd List.mem_cons_self (serves.calm errno)
      | moved k =>
          have length := List.length_drop (i := (rest.take (min asked (max 1 k))).length) (l := rest)
          have size := (List.take_prefix (min asked (max 1 k)) rest).length_le
          rw [readLoop]
          generalize rest.take (min asked (max 1 k)) = bs at length size
          have next : Serves as (rest.length + n) := (serves.le (m := rest.length + n + 1) (by omega)).tail
          split
          · exact ⟨_, _, rfl, next⟩
          next some' =>
            have pos := List.length_pos_iff.mpr some'
            split
            · exact ⟨_, _, rfl, next.le (by dsimp only; omega)⟩
            · exact ih (next.le (by omega)) _

/-- Every poll finds something, or the end. -/
def Source.Ready (s : Source) : Prop := ∀ p ∈ s.polls, ∃ t, p.available = some (some t)

theorem Source.Ready.tail {s s' : Source} (ready : s.Ready) (gone : ∃ gone, gone ++ s'.polls = s.polls) : s'.Ready := by
  obtain ⟨gone, same⟩ := gone
  exact fun p mem => ready p (same ▸ List.mem_append_right gone mem)

theorem Source.Ready.not_givesUp {s : Source} (ready : s.Ready) : ¬ s.GivesUp := by
  rintro ⟨p, mem, none⟩
  obtain ⟨t, found⟩ := ready p mem
  rw [found] at none
  cases none

theorem sread_ends {polled : Bool} {s : Source} (ready : s.Ready) (polls : m + 1 ≤ s.polls.length)
    (serves : Serves s.answers (s.rest.length + 1 + n)) (asked : Nat) :
    ∃ bs s', sread polled asked s = some (.ok bs, s') ∧ Serves s'.answers (s'.rest.length + n) ∧ m ≤ s'.polls.length := by
  unfold sread
  split
  · obtain ⟨bs, s', result, more⟩ := @readLoop_ends s.answers s.rest [] n s.polls serves asked
    obtain ⟨_, _, same, _⟩ := readLoop_reads result
    exact ⟨bs, s', result, more, by rw [same]; omega⟩
  · split
    next none =>
      rw [none] at polls
      cases polls
    next p ps all =>
      obtain ⟨t, available⟩ := ready p (by rw [all]; exact List.mem_cons_self)
      obtain ⟨bs, s', result, more⟩ := @readLoop_ends s.answers s.rest [] n ps serves (if 0 < t ∧ t < asked then t else asked)
      obtain ⟨_, _, same, _⟩ := readLoop_reads result
      rw [all, List.length_cons] at polls
      refine ⟨bs, s', ?_, more, by rw [same]; omega⟩
      rw [available, Option.bind_some]
      exact result

theorem copyLoop_ends {polled : Bool} {rounds : Nat} {source : Source} {sink : Sink} (ready : source.Ready)
    (enough : source.rest.length < rounds) (polls : source.rest.length + 1 ≤ source.polls.length)
    (reads : Serves source.answers (2 * source.rest.length + 1)) (writes : Serves sink.answers (2 * source.rest.length)) :
    ∃ source' sink', copyLoop polled rounds source sink = some (.done, source', sink') := by
  induction rounds generalizing source sink with
  | zero => cases enough
  | succ rounds ih =>
      obtain ⟨bs, source₁, read, reads', polls'⟩ :=
        @sread_ends source.rest.length source.rest.length polled source ready polls (reads.le (by omega)) 4096
      obtain ⟨front, split', gone, more⟩ := sread_reads read
      obtain ⟨rfl, none⟩ := more bs rfl
      rw [copyLoop, read, Option.bind_some]
      dsimp only
      split
      · exact ⟨_, _, rfl⟩
      next some' =>
        have pos := List.length_pos_iff.mpr some'
        have length := congrArg List.length split'
        rw [List.length_append] at length
        obtain ⟨sink₁, wrote, writes'⟩ :=
          @writeLoop_ends sink.answers bs sink.written (2 * source₁.rest.length) (writes.le (by omega))
        rw [swrite, wrote, Option.bind_some]
        exact ih (ready.tail gone) (by omega) (by omega) (reads'.le (by omega)) writes'

end

/-! ## `file_pipe2file` -/

theorem fileError_hadErr (host : Host) (error : Nat) (fmt : Bytes) (args : List Arg) (io : Io) :
    (fileError host error fmt args io).hadErr = true := by
  rw [fileError, fileErrorCore]
  split
  next err => exact err
  next => rfl

/-- No byte is lost, moved or doubled. Where there is no answer, there is an error. The descriptor `tfd` stays open
exactly if the temporary file could be made and did not come to be `fd`. -/
structure Lossless (startbuf : Bytes) (calls : Calls) (source : Source) (o : Copied) : Prop where
  rest : o.source.rest <:+ source.rest
  file : o.file <+: startbuf ++ source.rest
  answer : o.answer = true → o.file ++ o.source.rest = startbuf ++ source.rest ∧ (o.source.rest = [] ∨ source.GivesUp) ∧
    o.moved = true ∧ o.position = 0
  failed : o.answer = false → o.io.hadErr = true
  left : o.tfd = true ↔ calls.mkstemp = none ∧ o.moved = false

theorem putBack_lossless (host : Host) {calls : Calls} (io : Io) {startbuf : Bytes} {source : Source}
    {r : Ended × Source × Sink} (made : calls.mkstemp = none) (copies : Copies startbuf source r.2.1 r.1 r.2.2.written) :
    Lossless startbuf calls source (putBack host calls io r) := by
  obtain ⟨ended, source', sink'⟩ := r
  have left {moved : Bool} (same : moved = false) : true = true ↔ calls.mkstemp = none ∧ moved = false :=
    ⟨fun _ => ⟨made, same⟩, fun _ => rfl⟩
  have closed : false = true ↔ calls.mkstemp = none ∧ true = false := ⟨nofun, fun both => both.2.symm⟩
  unfold putBack
  cases ended with
  | read errno => exact ⟨copies.rest, copies.front, nofun, fun _ => fileError_hadErr _ _ _ _ _, left rfl⟩
  | write errno => exact ⟨copies.rest, copies.front, nofun, fun _ => fileError_hadErr _ _ _ _ _, left rfl⟩
  | done =>
      dsimp only
      cases calls.dup2 with
      | some errno => exact ⟨copies.rest, copies.front, nofun, fun _ => fileError_hadErr _ _ _ _ _, left rfl⟩
      | none =>
          cases calls.lseek with
          | some errno => exact ⟨copies.rest, copies.front, nofun, fun _ => fileError_hadErr _ _ _ _ _, closed⟩
          | none =>
              obtain ⟨whole, ends⟩ := copies.done rfl
              exact ⟨copies.rest, copies.front, fun _ => ⟨whole, ends, rfl, rfl⟩, nofun, closed⟩

theorem filePipe2file_lossless {host : Host} {polled : Bool} {startbuf : Bytes} {calls : Calls} {source : Source}
    {writes : List Answer} {io : Io} {o : Copied}
    (result : filePipe2file host polled startbuf calls source writes io = some o) :
    Lossless startbuf calls source o := by
  unfold filePipe2file at result
  cases made : calls.mkstemp with
  | some errno =>
      rw [made] at result
      cases result
      refine ⟨List.suffix_rfl, List.nil_prefix, nofun, fun _ => fileError_hadErr _ _ _ _ _, nofun, ?_⟩
      rw [made]
      exact fun both => nomatch both.1
  | none =>
      rw [made] at result
      dsimp only at result
      cases copied : copy polled startbuf source ⟨[], writes⟩ with
      | none =>
          rw [copied] at result
          cases result
      | some r =>
          rw [copied] at result
          cases result
          exact putBack_lossless host io made (copy_copies rfl copied)

/-- However the kernel cuts the reads and writes, and whenever signals come, `file_pipe2file` loses no byte. Where it
can make the file, no call fails and something is moved often enough, it comes to its end and the file is whole. -/
theorem filePipe2file_copies (host : Host) (polled : Bool) (startbuf : Bytes) (calls : Calls) (source : Source)
    (writes : List Answer) (io : Io) :
    (∀ o, filePipe2file host polled startbuf calls source writes io = some o → Lossless startbuf calls source o) ∧
    (calls.mkstemp = none → calls.dup2 = none → calls.lseek = none → source.Ready →
      source.rest.length + 1 ≤ source.polls.length → Serves source.answers (2 * source.rest.length + 1) →
      Serves writes (startbuf.length + 1 + 2 * source.rest.length) →
      ∃ o, filePipe2file host polled startbuf calls source writes io = some o ∧ o.answer = true ∧
        o.file = startbuf ++ source.rest ∧ o.source.rest = [] ∧ o.tfd = false) := by
  refine ⟨fun o => filePipe2file_lossless, fun made dup2 lseek ready polls reads writes' => ?_⟩
  obtain ⟨sink, wrote, writes'⟩ := @writeLoop_ends writes startbuf [] (2 * source.rest.length) writes'
  obtain ⟨source', sink', done⟩ :=
    @copyLoop_ends polled (source.rest.length + 1) source sink ready (Nat.lt_succ_self _) polls reads writes'
  have copied : copy polled startbuf source ⟨[], writes⟩ = some (.done, source', sink') := by
    rw [copy, swrite, wrote, Option.bind_some]
    exact done
  have result : filePipe2file host polled startbuf calls source writes io =
      some (putBack host calls io (.done, source', sink')) := by
    rw [filePipe2file, made]
    dsimp only
    rw [copied]
    rfl
  have lossless := filePipe2file_lossless result
  have answer : (putBack host calls io (.done, source', sink')).answer = true := by
    rw [putBack]
    dsimp only
    rw [dup2, lseek]
  obtain ⟨whole, ends, moved, _⟩ := lossless.answer answer
  have none := ends.resolve_right ready.not_givesUp
  refine ⟨_, result, answer, ?_, none, ?_⟩
  · rwa [none, List.append_nil] at whole
  · apply Bool.eq_false_iff.mpr
    intro tfd
    have closed := (lossless.left.mp tfd).2
    rw [moved] at closed
    cases closed

/-- Three bytes behind two, with a signal, in pieces. -/
theorem filePipe2file_copies_pieces :
    ∃ o, filePipe2file plainHost true [1, 2] ⟨none, none, none⟩
        ⟨[3, 4, 5], .interrupted :: List.replicate 8 (.moved 2), List.replicate 4 ⟨none, [.failed, .timeout], some 3⟩⟩
        (List.replicate 9 (.moved 1)) ⟨none, false, 0, 0, 0⟩ = some o ∧ o.answer = true ∧ o.file = [1, 2] ++ [3, 4, 5] ∧
      o.source.rest = [] ∧ o.tfd = false := by
  have reads : Serves (.interrupted :: List.replicate 8 (.moved 2)) (2 * 3 + 1) :=
    ⟨fun errno mem => by simp at mem, by decide⟩
  have writes : Serves (List.replicate 9 (.moved 1)) (2 + 1 + 2 * 3) :=
    ⟨fun errno mem => by simp at mem, by decide⟩
  refine (filePipe2file_copies plainHost true [1, 2] ⟨none, none, none⟩ ⟨[3, 4, 5], _, _⟩ _ _).2 rfl rfl rfl ?_ (by decide)
    reads writes
  intro p mem
  obtain ⟨-, rfl⟩ := List.mem_replicate.mp mem
  exact ⟨3, rfl⟩

end Libmagic.Compress.Pipe
