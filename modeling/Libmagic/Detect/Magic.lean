import Libmagic.Compress.Pipe
import Libmagic.Detect.Fsmagic
import Libmagic.Funcs.Getbuffer

/-!
# `magic.c`: `magic_file`, `magic_descriptor` and `magic_buffer`

A run of `file_or_fd` logs what it does to descriptors and times. What the kernel answers is given.
-/
namespace Libmagic.Detect

open Softmagic
open Compress.Pipe (Answer Source sread)
open Funcs (fileGetbuffer)

def MAGIC_PRESERVE_ATIME : Nat := 0x80
def STDIN_FILENO : Nat := 0
def PIPE_BUF : Nat := 4096

/-- What a run does to the world. -/
inductive Act where
  | opened (fd : Nat)
  | closed (fd : Nat)
  | sought (fd pos : Nat)
  | timed (name : Bytes) (atime mtime : Int)
  deriving DecidableEq

/-- A `magic_set` that is used: whether magic is loaded, and what does not change. -/
structure Opened where
  world : World
  locale : Funcs.Locale
  bytesMax : Nat
  loaded : Bool

/-- What the kernel answers in a run, in its order. -/
structure Calls where
  path : Path
  opened : Option Nat
  stat : Option Stat
  writable : Bool
  executable : Bool
  fstat : Option Stat
  position : Option Nat
  read : Answer
  source : Source
  fstatAgain : Option Stat
  pread : Nat → Nat → Option Bytes

/-- How a run ends: the text that is returned, what was read if `file_buffer` was asked, and what the run did. -/
structure Ended where
  text : Option Bytes
  looked : Option Bytes
  state : State
  acts : List Act

def isKind (kind : Nat) (st : Option Stat) : Bool := st.any fun st => st.mode &&& S_IFMT == kind

/-- `unreadable_info` of a name. -/
def unreadableInfo (mode : Nat) (c : Calls) : Printfs :=
  (if c.writable then [(asc "writable, ", [])] else []) ++ (if c.executable then [(asc "executable, ", [])] else []) ++
    (if mode &&& S_IFMT = S_IFREG then [(asc "regular file, ", [])] else []) ++ [(asc "no read permission", [])]

/-- `close_and_restore`. -/
def closeAndRestore (flags : Nat) (name : Option Bytes) (fd : Nat) (st : Option Stat) : List Act :=
  match name with
  | none => []
  | some name =>
      if fd = STDIN_FILENO then []
      else .closed fd :: match st with
        | some st => if has flags MAGIC_PRESERVE_ATIME then [.timed name st.atime st.mtime] else []
        | none => []

/-- The loop that reads from a pipe. -/
def pipeLoop (fd : Nat) : (rounds : Nat) → (n : Nat) → (got : Bytes) → Source → Option (Bytes × Source)
  | 0, _, _, _ => none
  | rounds + 1, n, got, source =>
      (sread (fd != STDIN_FILENO) n source).bind fun
        | (.error _, source) => some (got, source)
        | (.ok bs, source) =>
            if bs = [] then some (got, source)
            else if bs.length < PIPE_BUF then some (got ++ bs, source)
            else pipeLoop fd rounds (n - bs.length) (got ++ bs) source

/-- A single `read`. -/
def readOnce (n : Nat) (rest : Bytes) : Answer → Except Nat Bytes
  | .interrupted => .error 4
  | .failed errno => .error errno
  | .moved k => .ok (rest.take (min n (max 1 k)))

/-- The bytes that are looked at. -/
def readBytes (o : Opened) (c : Calls) (ispipe : Bool) : (fd : Option Nat) → Option (Except Nat Bytes)
  | none => some (.ok [])
  | some fd =>
      if ispipe then (pipeLoop fd (o.bytesMax + 1) o.bytesMax [] c.source).map fun r => .ok r.1
      else some (readOnce o.bytesMax c.source.rest c.read)

/-- The message for a `read` that failed. -/
def cannotRead (host : Host) (name : Option Bytes) (fd : Option Nat) (errno : Nat) (io : Io) : Io :=
  match name with
  | some name => fileError host errno (asc "cannot read `%s'") [.str name] io
  | none =>
      if fd = some STDIN_FILENO then fileError host errno (asc "cannot read `%s'") [.str (asc "/dev/stdin")] io
      else fileError host errno (asc "cannot read fd %d") [.int (fd.getD 0)] io

/-- The buffer of `buffer_init`, and the mode it has. -/
def Calls.buffer (c : Calls) (fd : Option Nat) (st : Option Stat) (bytes : Bytes) : Nat × Buffer :=
  let st := if st.isSome then st else if fd.isSome then c.fstatAgain else none
  let file (_ : Nat) : File := ⟨isKind S_IFREG st, (st.map Stat.size).getD 0, c.pread⟩
  ((st.map Stat.mode).getD 0, { file := fd.map file, fbuf := some bytes, ebuf := none, elen := 0 })

/-- Where `file_or_fd` is at `done`: whether `rv` is 0, and what was looked at. -/
structure AtDone where
  found : Bool
  looked : Option Bytes
  state : State

/-- The answer behind some calls of `file_printf`. -/
def sayDone (host : Host) (printfs : Printfs) (s : State) : AtDone :=
  let r := prints host printfs s.ms.io
  ⟨r.1, none, s.withIo r.2⟩

/-- What is done with the bytes. -/
def lookInto (o : Opened) (c : Calls) (name : Option Bytes) (fd : Option Nat) (st : Option Stat) (s : State) : Except Nat Bytes →
    Option AtDone
  | .error errno => some ⟨false, none, s.withIo (cannotRead o.world.env.host name fd errno s.ms.io)⟩
  | .ok bytes =>
      if isKind S_IFIFO st && bytes.isEmpty && name.isSome then
        some (sayDone o.world.env.host (unreadableInfo ((st.map Stat.mode).getD 0) c) s)
      else
        let b := c.buffer fd st bytes
        (fileBuffer o.world b.1 b.2 s).toOption.map fun r => ⟨r.1 != -1, some bytes, r.2⟩

/-- `file_or_fd` with an open descriptor, or with -1. -/
def withDescriptor (o : Opened) (c : Calls) (name : Option Bytes) (fd : Option Nat) (s : State) :
    Option (AtDone × Option Nat × Option Stat) :=
  let st := if fd.isSome then c.fstat else none
  let pos := if fd.isSome && name.isNone then c.position else none
  ((readBytes o c (isKind S_IFIFO st) fd).bind (lookInto o c name fd st s)).map fun a => (a, pos, st)

/-- What is done to the descriptor at `done`. -/
def leave (flags : Nat) (name : Option Bytes) (pos : Option Nat) (st : Option Stat) : (fd : Option Nat) → List Act
  | none => []
  | some fd => (pos.map fun pos => Act.sought fd pos).toList ++ closeAndRestore flags name fd st

/-- From `done` on. -/
def fromDone (o : Opened) (name : Option Bytes) (opened fd : Option Nat) (a : AtDone) (pos : Option Nat) (st : Option Stat) :
    Option Ended :=
  let acts := (opened.map Act.opened).toList ++ leave a.state.flags name pos st fd
  if a.found then
    (fileGetbuffer o.world.env.host o.locale a.state.flags a.state.ms.io).map fun r =>
      ⟨r.1, a.looked, a.state.withIo r.2, acts⟩
  else some ⟨none, a.looked, a.state, acts⟩

/-- `file_or_fd`, behind `file_fsmagic`. -/
def behindFsmagic (o : Opened) (c : Calls) (name : Option Bytes) (fd : Option Nat) (s : State) : Option Ended :=
  match name with
  | none => (withDescriptor o c none fd s).bind fun r => fromDone o none none fd r.1 r.2.1 r.2.2
  | some name =>
      match c.opened with
      | none =>
          let a := match c.stat with
            | some st => sayDone o.world.env.host (unreadableInfo st.mode c) s
            | none => ⟨true, none, s⟩
          fromDone o (some name) none none a none none
      | some fd => (withDescriptor o c (some name) (some fd) s).bind fun r =>
          fromDone o (some name) (some fd) (some fd) r.1 r.2.1 r.2.2

/-- `file_reset(ms, 1)`: whether it succeeds. -/
def fileReset (o : Opened) (io : Io) : Bool × Io :=
  if o.loaded then (true, { fileClearbuf io with hadErr := false })
  else (false, fileError o.world.env.host 0 (asc "no magic files loaded") [] io)

/-- `file_or_fd`. -/
def fileOrFd (o : Opened) (follow : Follow) (c : Calls) (name : Option Bytes) (fd : Option Nat) (s : State) : Option Ended :=
  let r := fileReset o s.ms.io
  if !r.1 then some ⟨none, none, s.withIo r.2, []⟩
  else
    let malloc := o.world.env.host.malloc r.2.tick
    let s := s.withIo { r.2 with tick := r.2.tick + 1 }
    if !malloc then some ⟨none, none, s, []⟩
    else (fileFsmagic o.world.env.host follow name c.path s).bind fun a =>
      if a.1 = 0 then behindFsmagic o c name fd a.2
      else fromDone o name none fd ⟨a.1 != -1, none, a.2⟩ none none

/-- `magic_descriptor`, where no descriptor is -1. -/
def magicDescriptor (o : Opened) (c : Calls) (fd : Option Nat) (s : State) : Option Ended :=
  fileOrFd o (fun _ _ => none) c none fd s

/-- `magic_file`, given what it does on the target of a link. -/
def magicFile (o : Opened) (follow : Follow) (c : Calls) (inname : Bytes) (s : State) : Option Ended :=
  fileOrFd o follow c (some inname) (some STDIN_FILENO) s

/-- `magic_buffer`. -/
def magicBuffer (o : Opened) (buf : Bytes) (s : State) : Option (Option Bytes × State) :=
  let r := fileReset o s.ms.io
  let s := s.withIo r.2
  if !r.1 then some (none, s)
  else (fileBuffer o.world 0 (Buffer.alone buf) s).toOption.bind fun a =>
    if a.1 = -1 then some (none, a.2)
    else (fileGetbuffer o.world.env.host o.locale a.2.flags a.2.ms.io).map fun r => (r.1, a.2.withIo r.2)

/-- `magic_error`. -/
def magicError (s : State) : Option Bytes := if s.ms.io.hadErr then s.ms.io.buf else none

/-! ## What is read -/

section

variable {o : Opened} {c : Calls} {name : Option Bytes} {fd : Option Nat} {s : State} {bytes : Bytes}

/-- `sread` takes no more than it is asked for. -/
theorem sread_front {polled : Bool} {n : Nat} {source source' : Source}
    (result : sread polled n source = some (.ok bytes, source')) :
    bytes ++ source'.rest = source.rest ∧ bytes.length ≤ n := by
  obtain ⟨front, split', -, more⟩ := Compress.Pipe.sread_reads result
  obtain ⟨rfl, -⟩ := more bytes rfl
  refine ⟨split', ?_⟩
  have bounded {n' : Nat} {polls : List Compress.Pipe.Poll} (le : n' ≤ n)
      (loop : Compress.Pipe.readLoop polls source.answers n' [] source.rest = some (.ok bytes, source')) : bytes.length ≤ n := by
    obtain ⟨front, -, -, few, more⟩ := Compress.Pipe.readLoop_reads loop
    obtain ⟨rfl, -⟩ := more bytes rfl
    exact few.trans le
  unfold sread at result
  cases polled with
  | false => exact bounded (Nat.le_refl n) result
  | true =>
      rw [if_neg (by decide)] at result
      cases polls : source.polls with
      | nil =>
          rw [polls] at result
          cases result
      | cons p polls' =>
          rw [polls] at result
          dsimp only at result
          cases available : p.available with
          | none =>
              rw [available] at result
              cases result
          | some t =>
              rw [available, Option.bind_some] at result
              cases t with
              | none =>
                  cases result
                  exact Nat.zero_le n
              | some t =>
                  refine bounded ?_ result
                  split
                  next less => exact less.2.le
                  next => exact Nat.le_refl n

theorem pipeLoop_front {rounds n fd : Nat} {got : Bytes} {source source' : Source}
    (result : pipeLoop fd rounds n got source = some (bytes, source')) :
    ∃ front, bytes = got ++ front ∧ front <+: source.rest ∧ front.length ≤ n := by
  induction rounds generalizing n got source with
  | zero => cases result
  | succ rounds ih =>
      rw [pipeLoop] at result
      cases first : sread (fd != STDIN_FILENO) n source with
      | none =>
          rw [first] at result
          cases result
      | some r =>
          obtain ⟨taken, left⟩ := r
          rw [first, Option.bind_some] at result
          cases taken with
          | error errno =>
              cases result
              exact ⟨[], (List.append_nil _).symm, List.nil_prefix, Nat.zero_le n⟩
          | ok bs =>
              obtain ⟨split', few⟩ := sread_front first
              dsimp only at result
              by_cases none : bs = []
              · rw [if_pos none] at result
                cases result
                exact ⟨[], (List.append_nil _).symm, List.nil_prefix, Nat.zero_le n⟩
              rw [if_neg none] at result
              by_cases short : bs.length < PIPE_BUF
              · rw [if_pos short] at result
                cases result
                exact ⟨bs, rfl, ⟨_, split'⟩, few⟩
              rw [if_neg short] at result
              obtain ⟨front, rfl, more, length⟩ := ih result
              refine ⟨bs ++ front, List.append_assoc _ bs front, ?_, ?_⟩
              · rw [← split']
                exact (List.prefix_append_right_inj bs).mpr more
              · rw [List.length_append]
                omega

/-- Each round of the loop but the last takes `PIPE_BUF` bytes, so that the rounds are enough. -/
theorem readBytes_front {ispipe : Bool} (result : readBytes o c ispipe fd = some (.ok bytes)) :
    bytes <+: c.source.rest ∧ bytes.length ≤ o.bytesMax := by
  unfold readBytes at result
  cases fd with
  | none =>
      cases result
      exact ⟨List.nil_prefix, Nat.zero_le _⟩
  | some fd =>
      dsimp only at result
      by_cases pipe : ispipe = true
      · rw [if_pos pipe, Option.map_eq_some_iff] at result
        obtain ⟨⟨got, source⟩, loop, same⟩ := result
        cases same
        obtain ⟨front, rfl, prefix', few⟩ := pipeLoop_front loop
        exact ⟨prefix', few⟩
      rw [if_neg pipe] at result
      cases read : c.read with
      | interrupted =>
          rw [read] at result
          cases result
      | failed errno =>
          rw [read] at result
          cases result
      | moved k =>
          rw [read] at result
          cases result
          exact ⟨List.take_prefix _ _, (List.length_take_le _ _).trans (Nat.min_le_left _ _)⟩

/-! ## What a run leaves -/

/-- At `done`: the flags are those of the call, and what was looked at is the front of what was to come. -/
structure AtDone.Sound (o : Opened) (c : Calls) (flags : Nat) (a : AtDone) : Prop where
  flags : a.state.flags = flags
  looked : ∀ bytes, a.looked = some bytes → bytes <+: c.source.rest ∧ bytes.length ≤ o.bytesMax

theorem sayDone_sound (printfs : Printfs) : (sayDone o.world.env.host printfs s).Sound o c s.flags := ⟨rfl, nofun⟩

theorem lookInto_sound {st : Option Stat} {r : Except Nat Bytes} {a : AtDone}
    (front : ∀ bytes, r = .ok bytes → bytes <+: c.source.rest ∧ bytes.length ≤ o.bytesMax)
    (result : lookInto o c name fd st s r = some a) : a.Sound o c s.flags := by
  cases r with
  | error errno =>
      cases result
      exact ⟨rfl, nofun⟩
  | ok bytes =>
      unfold lookInto at result
      dsimp only at result
      by_cases unread : (isKind S_IFIFO st && bytes.isEmpty && name.isSome) = true
      · rw [if_pos unread] at result
        cases result
        exact sayDone_sound _
      rw [if_neg unread, Option.map_eq_some_iff] at result
      obtain ⟨⟨m, s'⟩, ran, same⟩ := result
      cases same
      refine ⟨?_, ?_⟩
      · cases whole : fileBuffer o.world (c.buffer fd st bytes).1 (c.buffer fd st bytes).2 s with
        | error stop =>
            rw [whole] at ran
            cases ran
        | ok r =>
            rw [whole] at ran
            cases ran
            exact ((fileBuffer_recursive _ _ _).2.2 _ _ whole).1
      · intro bytes' same
        cases same
        exact front bytes rfl

theorem withDescriptor_sound {r : AtDone × Option Nat × Option Stat} (result : withDescriptor o c name fd s = some r) :
    r.1.Sound o c s.flags ∧ r.2.1 = (if fd.isSome && name.isNone then c.position else none) ∧
      r.2.2 = if fd.isSome then c.fstat else none := by
  unfold withDescriptor at result
  dsimp only at result
  rw [Option.map_eq_some_iff] at result
  obtain ⟨a, looked, same⟩ := result
  cases same
  rw [Option.bind_eq_some_iff] at looked
  obtain ⟨r, read, looked⟩ := looked
  refine ⟨lookInto_sound (fun bytes ok => ?_) looked, rfl, rfl⟩
  subst ok
  exact readBytes_front read

theorem fileGetbuffer_calm {host : Host} {l : Funcs.Locale} {flags : Nat} {io io' : Io} {text : Bytes}
    (result : fileGetbuffer host l flags io = some (some text, io')) : io'.hadErr = false := by
  unfold fileGetbuffer at result
  cases err : io.hadErr with
  | true =>
      rw [if_pos err] at result
      cases result
  | false =>
      rw [if_neg (Bool.eq_false_iff.mp err)] at result
      by_cases raw : has flags MAGIC_RAW = true
      · rw [if_pos raw] at result
        obtain ⟨-, rfl⟩ := Prod.mk.inj (Option.some.inj result)
        exact err
      rw [if_neg raw] at result
      cases buf : io.buf with
      | none =>
          rw [buf] at result
          cases result
      | some b =>
          rw [buf] at result
          dsimp only at result
          split at result
          · cases result
          split at result
          · cases result
          rw [Option.map_eq_some_iff] at result
          obtain ⟨w, -, same⟩ := result
          cases same
          exact err

/-- The times that are put back. -/
def timesBack (flags : Nat) (name : Bytes) (st : Option Stat) : List Act :=
  match st with
  | some st => if has flags MAGIC_PRESERVE_ATIME then [.timed name st.atime st.mtime] else []
  | none => []

theorem closeAndRestore_eq (flags : Nat) (name : Bytes) (n : Nat) (st : Option Stat) :
    closeAndRestore flags (some name) n st = if n = STDIN_FILENO then [] else .closed n :: timesBack flags name st := rfl

theorem mem_timesBack {flags : Nat} {name : Bytes} {st : Option Stat} {x : Act} : x ∈ timesBack flags name st ↔
    has flags MAGIC_PRESERVE_ATIME = true ∧ ∃ st', st = some st' ∧ x = .timed name st'.atime st'.mtime := by
  cases st with
  | none => exact ⟨nofun, fun h => nomatch h.2.choose_spec.1⟩
  | some st =>
      unfold timesBack
      dsimp only
      by_cases preserve : has flags MAGIC_PRESERVE_ATIME = true
      · rw [if_pos preserve, List.mem_singleton]
        refine ⟨fun same => ⟨preserve, st, rfl, same⟩, ?_⟩
        rintro ⟨-, _, ⟨⟩, same⟩
        exact same
      · rw [if_neg preserve]
        exact ⟨nofun, fun h => absurd h.1 preserve⟩

theorem timesBack_count (flags : Nat) (name : Bytes) (st : Option Stat) (m : Nat) :
    (timesBack flags name st).count (.opened m) = 0 ∧ (timesBack flags name st).count (.closed m) = 0 := by
  constructor <;>
  · refine List.count_eq_zero_of_not_mem fun mem => ?_
    obtain ⟨-, _, -, same⟩ := mem_timesBack.mp mem
    cases same

/-- What a run does: nothing, a descriptor that was passed is put back where it was, or a file is opened. -/
inductive Traced (c : Calls) (flags : Nat) : (name : Option Bytes) → (fd : Option Nat) → List Act → Prop where
  | untouched {name : Option Bytes} {fd : Option Nat} : Traced c flags name fd []
  | passed {fd pos : Nat} (told : c.position = some pos) : Traced c flags none (some fd) [.sought fd pos]
  | opened {name : Bytes} {fd : Option Nat} {n : Nat} (opens : c.opened = some n) :
      Traced c flags (some name) fd (.opened n :: closeAndRestore flags (some name) n c.fstat)

/-- How a run ends, up to what it does. -/
structure Finished (o : Opened) (c : Calls) (flags : Nat) (e : Ended) : Prop where
  flags : e.state.flags = flags
  looked : ∀ bytes, e.looked = some bytes → bytes <+: c.source.rest ∧ bytes.length ≤ o.bytesMax
  text : e.text.isSome = true → magicError e.state = none

theorem fromDone_ends {opened pos : Option Nat} {st : Option Stat} {a : AtDone} {flags : Nat} {e : Ended}
    (sound : a.Sound o c flags) (result : fromDone o name opened fd a pos st = some e) :
    Finished o c flags e ∧ e.looked = a.looked ∧ e.acts = (opened.map Act.opened).toList ++ leave flags name pos st fd := by
  obtain ⟨rfl, looked⟩ := sound
  unfold fromDone at result
  dsimp only at result
  by_cases found : a.found = true
  · rw [if_pos found, Option.map_eq_some_iff] at result
    obtain ⟨⟨text, io⟩, got, same⟩ := result
    cases same
    refine ⟨⟨rfl, looked, fun some' => ?_⟩, rfl, rfl⟩
    obtain ⟨text', rfl⟩ := Option.isSome_iff_exists.mp some'
    exact if_neg (Bool.eq_false_iff.mp (fileGetbuffer_calm got))
  · rw [if_neg found] at result
    cases result
    exact ⟨⟨rfl, looked, nofun⟩, rfl, rfl⟩

theorem behindFsmagic_named {name : Bytes} {e : Ended} (result : behindFsmagic o c (some name) fd s = some e) :
    Finished o c s.flags e ∧ Traced c s.flags (some name) fd e.acts := by
  unfold behindFsmagic at result
  dsimp only at result
  cases opens : c.opened with
  | none =>
      rw [opens] at result
      dsimp only at result
      have sound : AtDone.Sound o c s.flags (match c.stat with
          | some st => sayDone o.world.env.host (unreadableInfo st.mode c) s
          | none => ⟨true, none, s⟩) := by
        cases c.stat with
        | none => exact ⟨rfl, nofun⟩
        | some st => exact sayDone_sound _
      obtain ⟨ends, -, acts⟩ := fromDone_ends sound result
      exact ⟨ends, acts ▸ .untouched⟩
  | some n =>
      rw [opens] at result
      dsimp only at result
      rw [Option.bind_eq_some_iff] at result
      obtain ⟨r, read, result⟩ := result
      obtain ⟨sound, pos, st⟩ := withDescriptor_sound read
      obtain ⟨ends, -, acts⟩ := fromDone_ends sound result
      refine ⟨ends, ?_⟩
      have same : e.acts = .opened n :: closeAndRestore s.flags (some name) n c.fstat := by
        rw [acts, pos, st]
        rfl
      exact same ▸ .opened opens

theorem behindFsmagic_passed {e : Ended} (result : behindFsmagic o c none fd s = some e) :
    Finished o c s.flags e ∧ Traced c s.flags none fd e.acts ∧
      ∀ n pos, fd = some n → c.position = some pos → Act.sought n pos ∈ e.acts := by
  unfold behindFsmagic at result
  dsimp only at result
  rw [Option.bind_eq_some_iff] at result
  obtain ⟨r, read, result⟩ := result
  obtain ⟨sound, pos, st⟩ := withDescriptor_sound read
  obtain ⟨ends, -, acts⟩ := fromDone_ends sound result
  rw [pos] at acts
  cases fd with
  | none => exact ⟨ends, acts ▸ .untouched, nofun⟩
  | some n =>
      have same : e.acts = (c.position.map fun pos => Act.sought n pos).toList := by
        rw [acts]
        exact List.append_nil _
      cases told : c.position with
      | none =>
          rw [told] at same
          exact ⟨ends, same ▸ .untouched, nofun⟩
      | some pos =>
          rw [told] at same
          refine ⟨ends, same ▸ .passed told, ?_⟩
          rintro _ _ ⟨⟩ ⟨⟩
          rw [same]
          exact List.mem_singleton_self _

/-- A run of `magic_file` or `magic_descriptor` that ends. What it opens it closes, unless that is descriptor 0, and it
closes nothing else; a descriptor that was passed is where it was, and the times of a file are put back on demand. What is
looked at is the front of what was to come, and an answer comes without an error. -/
structure Served (o : Opened) (c : Calls) (name : Option Bytes) (fd : Option Nat) (flags : Nat) (e : Ended) : Prop where
  ends : Finished o c flags e
  opened : ∀ n, Act.opened n ∈ e.acts → name.isSome = true ∧ c.opened = some n ∧ e.acts.count (.opened n) = 1
  closed : ∀ n, e.acts.count (.closed n) = if n = STDIN_FILENO then 0 else e.acts.count (.opened n)
  sought : ∀ n pos, Act.sought n pos ∈ e.acts → name = none ∧ fd = some n ∧ c.position = some pos
  restored : name = none → e.looked.isSome = true → ∀ n pos, fd = some n → c.position = some pos →
    Act.sought n pos ∈ e.acts
  timed : ∀ file atime mtime, Act.timed file atime mtime ∈ e.acts ↔ name = some file ∧
    has flags MAGIC_PRESERVE_ATIME = true ∧ (∃ n, Act.closed n ∈ e.acts) ∧
    ∃ st, c.fstat = some st ∧ st.atime = atime ∧ st.mtime = mtime

theorem Traced.served {flags : Nat} {e : Ended} (ends : Finished o c flags e) (traced : Traced c flags name fd e.acts)
    (restored : name = none → e.looked.isSome = true → ∀ n pos, fd = some n → c.position = some pos →
      Act.sought n pos ∈ e.acts) : Served o c name fd flags e := by
  generalize log : e.acts = acts at traced
  cases traced with
  | untouched =>
      refine ⟨ends, ?_, ?_, ?_, restored, ?_⟩
      all_goals rw [log]
      · exact nofun
      · intro n
        exact (ite_self _).symm
      · exact nofun
      · intro file atime mtime
        exact ⟨nofun, fun h => absurd h.2.2.1.choose_spec List.not_mem_nil⟩
  | @passed n pos told =>
      refine ⟨ends, ?_, ?_, ?_, restored, ?_⟩
      all_goals rw [log]
      · intro m mem
        cases List.mem_singleton.mp mem
      · intro m
        rw [List.count_eq_zero_of_not_mem (by simp), List.count_eq_zero_of_not_mem (by simp), ite_self]
      · intro m pos' mem
        cases List.mem_singleton.mp mem
        exact ⟨rfl, rfl, told⟩
      · intro file atime mtime
        refine ⟨fun mem => ?_, fun h => ?_⟩
        · cases List.mem_singleton.mp mem
        · cases h.1
  | @opened name fd n opens =>
      have log' : e.acts = .opened n :: if n = STDIN_FILENO then [] else .closed n :: timesBack flags name c.fstat := by
        rw [log, closeAndRestore_eq]
      have others {x : Act} (mem : x ∈ e.acts) :
          x = .opened n ∨ n ≠ STDIN_FILENO ∧ (x = .closed n ∨ x ∈ timesBack flags name c.fstat) := by
        rw [log'] at mem
        obtain first | mem := List.mem_cons.mp mem
        · exact .inl first
        by_cases zero : n = STDIN_FILENO
        · rw [if_pos zero] at mem
          cases mem
        rw [if_neg zero] at mem
        exact .inr ⟨zero, List.mem_cons.mp mem⟩
      have counts (m : Nat) : e.acts.count (.opened m) = (if n = m then 1 else 0) ∧
          e.acts.count (.closed m) = if n = STDIN_FILENO then 0 else if n = m then 1 else 0 := by
        obtain ⟨opened, closed⟩ := timesBack_count flags name c.fstat m
        by_cases zero : n = STDIN_FILENO
        · simp [log', zero, List.count_cons]
        · simp [log', zero, List.count_cons, opened, closed]
      refine ⟨ends, ?_, ?_, ?_, nofun, ?_⟩
      · intro m mem
        obtain same | ⟨-, same | mem⟩ := others mem
        · cases same
          exact ⟨rfl, opens, (counts _).1.trans (if_pos rfl)⟩
        · cases same
        · obtain ⟨-, _, -, same⟩ := mem_timesBack.mp mem
          cases same
      · intro m
        rw [(counts m).1, (counts m).2]
        by_cases same : n = m
        · rw [same, if_pos rfl]
        · rw [if_neg same, ite_self, ite_self]
      · intro m pos mem
        obtain same | ⟨-, same | mem⟩ := others mem
        · cases same
        · cases same
        · obtain ⟨-, _, -, same⟩ := mem_timesBack.mp mem
          cases same
      · intro file atime mtime
        constructor
        · intro mem
          obtain same | ⟨nonzero, same | mem⟩ := others mem
          · cases same
          · cases same
          · obtain ⟨preserve, st, there, same⟩ := mem_timesBack.mp mem
            cases same
            refine ⟨rfl, preserve, ⟨n, ?_⟩, st, there, rfl, rfl⟩
            rw [log', if_neg nonzero]
            exact List.mem_cons_of_mem _ List.mem_cons_self
        · rintro ⟨⟨⟩, preserve, ⟨m, closed⟩, st, there, rfl, rfl⟩
          obtain same | ⟨nonzero, -⟩ := others closed
          · cases same
          rw [log', if_neg nonzero]
          exact List.mem_cons_of_mem _ (List.mem_cons_of_mem _ (mem_timesBack.mpr ⟨preserve, st, there, rfl⟩))

/-- What a caller sees of a run. -/
def Ended.answer (e : Ended) : Option Bytes × Option Bytes × State := (e.text, e.looked, e.state)

theorem fromDone_answer (name' : Option Bytes) (opened opened' fd' pos pos' : Option Nat) (st st' : Option Stat) (a : AtDone) :
    (fromDone o name opened fd a pos st).map Ended.answer = (fromDone o name' opened' fd' a pos' st').map Ended.answer := by
  unfold fromDone
  dsimp only
  by_cases found : a.found = true
  · rw [if_pos found, if_pos found, Option.map_map, Option.map_map]
    rfl
  · rw [if_neg found, if_neg found]
    rfl

/-- The name of a plain file that can be read gives what its descriptor gives. -/
theorem magicFile_descriptor (follow : Follow) (inname : Bytes) {st : Stat} {n k : Nat} (plain : st.Plain s.flags)
    (found : (if has s.flags MAGIC_SYMLINK then c.path.stat else c.path.lstat) = .ok st) (opens : c.opened = some n)
    (file : isKind S_IFIFO c.fstat = false) (read : c.read = .moved k) :
    (magicFile o follow c inname s).map Ended.answer = (magicDescriptor o c (some n) s).map Ended.answer := by
  unfold magicFile magicDescriptor fileOrFd
  dsimp only
  by_cases reset : (!(fileReset o s.ms.io).1) = true
  · rw [if_pos reset, if_pos reset]
  rw [if_neg reset, if_neg reset]
  by_cases malloc : (!o.world.env.host.malloc (fileReset o s.ms.io).2.tick) = true
  · rw [if_pos malloc, if_pos malloc]
  rw [if_neg malloc, if_neg malloc]
  generalize ready : s.withIo { (fileReset o s.ms.io).2 with tick := (fileReset o s.ms.io).2.tick + 1 } = s'
  have same : s'.flags = s.flags := ready ▸ rfl
  have looks : fileFsmagic o.world.env.host follow (some inname) c.path s' = some (0, s') :=
    fileFsmagic_plain (same.symm ▸ plain) (same.symm ▸ found) inname
  have passed : fileFsmagic o.world.env.host (fun _ _ => none) none c.path s' = some (0, s') := rfl
  rw [looks, passed, Option.bind_some, Option.bind_some, if_pos rfl, if_pos rfl]
  have bytes : readBytes o c false (some n) = some (.ok (c.source.rest.take (min o.bytesMax (max 1 k)))) := by
    unfold readBytes
    rw [read]
    rfl
  have descriptor (name : Option Bytes) : withDescriptor o c name (some n) s' =
      (lookInto o c none (some n) c.fstat s' (.ok (c.source.rest.take (min o.bytesMax (max 1 k))))).map
        fun a => (a, if name.isNone then c.position else none, c.fstat) := by
    unfold withDescriptor
    dsimp only [Option.isSome_some]
    rw [if_pos rfl, file, bytes, Option.bind_some]
    unfold lookInto
    dsimp only
    rw [file]
    rfl
  unfold behindFsmagic
  dsimp only
  rw [opens]
  dsimp only
  rw [descriptor, descriptor]
  cases lookInto o c none (some n) c.fstat s' (.ok (c.source.rest.take (min o.bytesMax (max 1 k)))) with
  | none => rfl
  | some a => exact fromDone_answer ..

end

/-! ## A file with a letter -/

def letterStat : Stat := ⟨0o100644, 1, 0, 0, 10, 20⟩

def letterHandle : Opened := ⟨lineWorld, Funcs.asciiLocale, 16, true⟩

/-- A file with a letter is opened as descriptor 5. -/
def letterCalls : Calls where
  path := ⟨.ok letterStat, .ok letterStat, [], 0, none⟩
  opened := some 5
  stat := none
  writable := false
  executable := false
  fstat := some letterStat
  position := some 0
  read := .moved 1
  source := ⟨[0x61], [], []⟩
  fstatAgain := none
  pread := fun _ _ => none

/-- The times are to be put back. -/
def letterState : State := ⟨(plainScan []).toMs, MAGIC_PRESERVE_ATIME⟩

theorem letterPath_resolved : letterCalls.path.Resolved := by
  rintro st ⟨⟩
  decide

theorem magicFile_descriptor_letter :
    (magicFile letterHandle (fun _ _ => none) letterCalls [0x66] letterState).map Ended.answer =
      (magicDescriptor letterHandle letterCalls (some 5) letterState).map Ended.answer :=
  magicFile_descriptor (fun _ _ => none) [0x66] ⟨by decide, by decide, .inl (by decide)⟩ rfl rfl (by decide) rfl

example : (magicFile letterHandle (fun _ _ => none) letterCalls [0x66] letterState).map Ended.acts =
    some [.opened 5, .closed 5, .timed [0x66] 10 20] := by decide +kernel

end Libmagic.Detect
