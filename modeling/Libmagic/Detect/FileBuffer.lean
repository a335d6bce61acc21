import Libmagic.Compress.Errors
import Libmagic.Detect.Builtin

/-!
# `funcs.c`: `file_buffer`, and `compress.c`: `file_zmagic`

`file_buffer` asks one test after the other. The one for compressed files asks `file_buffer` in turn, so that both are
written over what it does there.
-/
namespace Libmagic.Detect

open Softmagic
open Encoding (MAGIC_MIME MAGIC_NO_CHECK_SOFT Code scanOf fileEncoding fileAscmagic)
open Compress.Errors (Status)

def MAGIC_COMPRESS : Nat := 0x4
def MAGIC_COMPRESS_TRANSP : Nat := 0x2000000
def MAGIC_NO_COMPRESS_FORK : Nat := 0x4000000
def MAGIC_NO_CHECK_COMPRESS : Nat := 0x1000
def MAGIC_NO_CHECK_TAR : Nat := 0x2000
def MAGIC_NO_CHECK_ELF : Nat := 0x10000
def MAGIC_NO_CHECK_TEXT : Nat := 0x20000
def MAGIC_NO_CHECK_CDF : Nat := 0x40000
def MAGIC_NO_CHECK_CSV : Nat := 0x80000
def MAGIC_NO_CHECK_ENCODING : Nat := 0x200000
def MAGIC_NO_CHECK_JSON : Nat := 0x400000
def MAGIC_NO_CHECK_SIMH : Nat := 0x800000

/-- The libraries a build has. -/
structure Libraries where
  zlib : Bool
  bzlib : Bool
  xzlib : Bool
  zstd : Bool
  lzlib : Bool

/-- The machine, the magic, and what is not modelled here: the tests for CDF and ELF files, and what comes out of a
decompressor. The number tells one call of it from another. -/
structure World where
  env : Env
  encodingMax : Nat
  signed : Bool
  rounds : Nat
  libraries : Libraries
  fileTrycdf : (flags : Nat) → Buffer → Ms → Int × Ms
  fileTryelf : (flags : Nat) → Buffer → Ms → Int × Ms
  uncompressbuf : (method : Nat) → (nofork : Bool) → Buffer → (call : Nat) → Compress.Errors.Result

/-- Why there is no answer: `abort`, a `file_replace` that does not end in the rounds, or a call that is nested too
deep. -/
inductive Stop where
  | aborted | rounds | nested
  deriving DecidableEq

/-- A `magic_set` with its flags. -/
structure State where
  ms : Ms
  flags : Nat

def State.withIo (s : State) (io : Io) : State := { s with ms := { s.ms with io } }

/-- `file_buffer(ms, -1, NULL, .., buf, nb)`. -/
abbrev Nested := Bytes → State → Except Stop (Int × State)

/-! ## The output buffer -/

/-- `file_push_buffer`, with what it keeps. -/
def filePushBuffer (host : Host) (ms : Ms) : Option (Option Bytes × Nat) × Ms :=
  if ms.io.hadErr then (none, ms)
  else
    let io := { ms.io with tick := ms.io.tick + 1 }
    if !host.malloc ms.io.tick then (none, { ms with io })
    else (some (ms.io.buf, ms.offset), { ms with io := { io with buf := none }, offset := 0 })

/-- `file_pop_buffer`. -/
def filePopBuffer (pb : Option Bytes × Nat) (ms : Ms) : Option Bytes × Ms :=
  if ms.io.hadErr then (none, ms) else (ms.io.buf, { ms with io := { ms.io with buf := pb.1 }, offset := pb.2 })

/-! ## Compressed files -/

/-- An entry of `compr`. -/
structure Compr where
  maglen : Nat
  test : (bigendian : Bool) → Bytes → Bool
  argv : Bytes

def Compr.magic (magic argv : Bytes) : Compr := ⟨magic.length, fun _ buf => buf.take magic.length == magic, argv⟩

def lzmacmp (buf : Bytes) : Bool :=
  buf.getD 0 0 == 0x5d && buf.getD 1 0 == 0 && buf.getD 2 0 == 0 && (buf.getD 12 0 == 0 || buf.getD 12 0 == 0xff)

def zlibcmp (bigendian : Bool) (buf : Bytes) : Bool :=
  if buf.getD 0 0 &&& 0xf ≠ 8 ∨ buf.getD 0 0 &&& 0x80 ≠ 0 then false
  else
    let x := if bigendian then (buf.getD 0 0).toNat ||| (buf.getD 1 0).toNat <<< 8
      else (buf.getD 1 0).toNat ||| (buf.getD 0 0).toNat <<< 8
    x % 31 == 0

/-- `compr`. -/
def compr (libraries : Libraries) : List Compr :=
  [.magic [0x1f, 0x9d] (asc "gzip"),
    .magic [0x1f, 0x9d] (asc "uncompress"),
    .magic [0x1f, 0x8b] (asc "gzip"),
    .magic [0x1f, 0x9e] (asc "gzip"),
    .magic [0x1f, 0xa0] (asc "gzip"),
    .magic [0x1f, 0x1e] (asc "gzip"),
    .magic (asc "PK\x03\x04") (asc "gzip"),
    .magic (asc "BZh") (asc "bzip2"),
    .magic (asc "LZIP") (asc "lzip"),
    .magic [0xfd, 0x37, 0x7a, 0x58, 0x5a, 0] (asc "xz"),
    .magic (asc "LRZI") (asc "lrzip"),
    .magic (asc "\x04\"M\x18") (asc "lz4"),
    .magic [0x28, 0xb5, 0x2f, 0xfd] (asc "zstd"),
    ⟨13, fun _ => lzmacmp, asc "xz"⟩] ++
    if libraries.zlib then [⟨2, zlibcmp, asc "python"⟩] else []

/-- `methodname`. -/
def methodname (libraries : Libraries) (method : Nat) : Bytes :=
  if libraries.zlib ∧ (method = 2 ∨ method = 14) then asc "zlib"
  else if libraries.bzlib ∧ method = 7 then asc "bzlib"
  else if libraries.xzlib ∧ (method = 9 ∨ method = 13) then asc "xzlib"
  else if libraries.zstd ∧ method = 12 then asc "zstd"
  else if libraries.lzlib ∧ method = 8 then asc "lzlib"
  else ((compr libraries).map Compr.argv).getD method []

/-- `format_decompression_error`. -/
def formatDecompressionError (w : World) (flags i : Nat) (buf : Bytes) (io : Io) : Int × Io :=
  let name := methodname w.libraries i
  let r :=
    if has flags MAGIC_MIME then
      filePrintf w.env.host (asc "application/x-decompression-error-%s-%s")
        [.str name, .str (buf.map fun c => if isalpha c || isdigit c then c else 0x2d)] io
    else filePrintf w.env.host (asc "ERROR:[%s: %s]") [.str name, .str buf] io
  (if r.1 then 0 else -1, r.2)

/-- The answer of a nested call is put behind what was pushed: whether that succeeded. -/
def popOuter (w : World) (pb : Option Bytes × Nat) (mime : Bool) (a : Int × State) : Except Stop (Bool × State) :=
  let (rbuf, ms) := filePopBuffer pb a.2.ms
  let s := { a.2 with ms }
  if a.1 = -1 then
    if rbuf.isSome then .error .aborted else .ok (false, s)
  else
    let r := match rbuf with
      | some text => filePrintf w.env.host (asc "%s") [.str text] ms.io
      | none => (true, ms.io)
    let r := if r.1 && !mime then filePrintf w.env.host (asc ")") [] r.2 else r
    .ok (r.1, s.withIo r.2)

/-- What is printed of the file as it is, behind what is inside it. -/
def describeOuter (w : World) (nested : Nested) (buf : Bytes) (mime : Bool) (s : State) : Except Stop (Bool × State) :=
  let r := filePrintf w.env.host (if mime then asc " compressed-encoding=" else asc " (") [] s.ms.io
  if !r.1 then .ok (false, s.withIo r.2)
  else match filePushBuffer w.env.host (s.withIo r.2).ms with
    | (none, ms) => .ok (false, { s with ms })
    | (some pb, ms) => nested buf { s with ms } >>= popOuter w pb mime

/-- `flags & ~MAGIC_COMPRESS`. -/
def clear (flags : Nat) : Nat := flags ^^^ (flags &&& MAGIC_COMPRESS)

/-- What is inside a compressed file, or the error: the answer. -/
def describeInner (w : World) (nested : Nested) (i : Nat) (r : Compress.Errors.Result) (s : State) : Except Stop (Int × State) :=
  if r.rv = .ERRDATA then
    let e := formatDecompressionError w s.flags i (cstring r.newch) s.ms.io
    .ok (e.1, s.withIo e.2)
  else nested (r.newch.take r.n) s

/-- What comes behind that: `rv`, and whether that is all. -/
def behindInner (w : World) (nested : Nested) (buf : Bytes) (a : Int × State) : Except Stop ((Int × Bool) × State) :=
  let mime := a.2.flags &&& MAGIC_MIME
  if a.1 = -1 then .ok ((-1, false), a.2)
  else if has a.2.flags MAGIC_COMPRESS_TRANSP then .ok ((1, true), a.2)
  else if mime ≠ MAGIC_MIME ∧ mime ≠ 0 then .ok ((1, true), a.2)
  else (describeOuter w nested buf (mime != 0) a.2).map fun o => ((if o.1 then 1 else -1, false), o.2)

/-- What becomes of a file that has the magic of a compressed one. -/
def tryMethod (w : World) (nested : Nested) (b : Buffer) (i : Nat) (rv : Int) (s : State) :
    Except Stop ((Int × Bool) × State) :=
  let r := w.uncompressbuf i (has s.flags MAGIC_NO_COMPRESS_FORK) b s.ms.io.tick
  if r.rv = .NODATA then .ok ((rv, false), s)
  else describeInner w nested i r { s with flags := clear s.flags } >>= behindInner w nested (b.fbuf.getD [])

/-- The loop of `file_zmagic`, from the `i`th entry on. -/
def zmagicLoop (w : World) (nested : Nested) (b : Buffer) : (i : Nat) → List Compr → (rv : Int) → State →
    Except Stop (Int × State)
  | _, [], rv, s => .ok (rv, s)
  | i, c :: cs, rv, s =>
      let buf := b.fbuf.getD []
      if buf.length < c.maglen then zmagicLoop w nested b (i + 1) cs rv s
      else if !c.test w.env.host.bigendian buf then zmagicLoop w nested b (i + 1) cs rv s
      else tryMethod w nested b i rv s >>= fun a =>
        if a.1.2 then .ok (a.1.1, a.2) else zmagicLoop w nested b (i + 1) cs a.1.1 a.2

/-- `file_zmagic`. -/
def fileZmagic (w : World) (nested : Nested) (b : Buffer) (s : State) : Except Stop (Int × State) :=
  if !has s.flags MAGIC_COMPRESS then .ok (0, s)
  else (zmagicLoop w nested b 0 (compr w.libraries) 0 s).map fun a => (a.1, { a.2 with flags := a.2.flags ||| MAGIC_COMPRESS })

/-! ## `file_buffer` -/

/-- Where `file_buffer` is: `m`, `rv`, and whether it is at `done`. -/
structure Progress where
  m : Int
  rv : Int
  done : Bool
  ms : Ms
  b : Buffer

/-- `checkdone` behind an answer. -/
def checkdone (env : Env) (p : Progress) : Progress :=
  if !has env.flags MAGIC_CONTINUE then { p with done := true }
  else
    let r := fileSeparator env.host p.ms.io
    { p with rv := if r.1 then p.rv else -1, ms := { p.ms with io := r.2 } }

/-- A test, unless it is switched off. -/
def attempt (env : Env) (off : Nat) (test : Ms → Int × Ms) (p : Progress) : Progress :=
  if p.done || has env.flags off then p
  else
    let r := test p.ms
    let p := { p with m := r.1, ms := r.2 }
    if r.1 ≠ 0 then checkdone env p else p

/-- A test that changes the output alone. -/
def onIo (test : Io → Int × Io) (ms : Ms) : Int × Ms :=
  let r := test ms.io
  (r.1, { ms with io := r.2 })

/-- The test for ELF files, whose output waits for the magic: no result is the `return -1`. -/
def attemptElf (w : World) (env : Env) (p : Progress) : Option (Progress × Option Bytes) × Ms :=
  if p.done || has env.flags MAGIC_NO_CHECK_ELF || decide (flen p.b.fbuf ≤ 5) || p.b.file.isNone then (some (p, none), p.ms)
  else match filePushBuffer env.host p.ms with
    | (none, ms) => (none, ms)
    | (some pb, ms) =>
        let r := w.fileTryelf env.flags p.b ms
        let (rbuf, ms) := filePopBuffer pb r.2
        (some ({ p with rv := r.1, ms }, if r.1 = -1 then none else rbuf), ms)

/-- The magic entries, with the output of the test for ELF files. -/
def attemptSoft (env : Env) (looksText : Bool) (rbuf : Option Bytes) (p : Progress) : Progress :=
  if p.done || has env.flags MAGIC_NO_CHECK_SOFT then p
  else
    let r := fileSoftmagic env BINTEST looksText (scanOf p.ms p.b)
    let m : Int := match r.1 with
      | none => -1
      | some found => if found then 1 else 0
    let p := { p with m, ms := r.2.toMs, b := r.2.b }
    match (if m = 1 then rbuf else none) with
    | some text =>
        let r := filePrintf env.host (asc "%s") [.str text] p.ms.io
        let p := { p with ms := { p.ms with io := r.2 } }
        if r.1 then checkdone env p else { p with done := true }
    | none => if m ≠ 0 then checkdone env p else p

/-- The properties of a text. -/
def attemptText (w : World) (env : Env) (looksText : Bool) (p : Progress) : Except Stop Progress :=
  if p.done || has env.flags MAGIC_NO_CHECK_TEXT then .ok p
  else match fileAscmagic env w.encodingMax w.rounds looksText p.b p.ms with
    | none => .error .rounds
    | some (m, ms) => .ok { p with m, ms, done := m != 0 }

/-- At `simple`. -/
def giveUp (env : Env) (nb : Nat) (fallback : Bytes) (p : Progress) : Progress :=
  if p.done || p.m != 0 then p
  else
    let d := fileDefault env.host env.flags nb p.ms.io
    let r := if d.1 = 0 then filePrintf env.host (asc "%s") [.str fallback] d.2 else (true, d.2)
    { p with m := 1, rv := if r.1 then d.1 else -1, ms := { p.ms with io := r.2 } }

/-- At `done`. The length of the output is that before `trim_separator`. -/
def finish (env : Env) (codeMime : Bytes) (p : Progress) : Progress :=
  let o := Funcs.trimSeparator (.ofIo p.ms.io)
  if !has env.flags MAGIC_MIME_ENCODING then { p with ms := { p.ms with io := o.io } }
  else
    let r := if has env.flags MAGIC_MIME_TYPE then Funcs.filePrintf env.host 3 (asc "; charset=") [] o else (true, o)
    let r' := Funcs.filePrintf env.host 3 (asc "%s") [.str codeMime] r.2
    { p with rv := if r.1 && r'.1 then p.rv else -1, ms := { p.ms with io := r'.2.io } }

/-- What `file_buffer` returns. -/
def Progress.result (p : Progress) : Int := if p.rv ≠ 0 then p.rv else p.m

/-- What `file_encoding` says, when it is asked. -/
structure Looked where
  looksText : Bool
  code : Option Bytes
  codeMime : Bytes
  io : Io

def lookAt (w : World) (flags : Nat) (buf : Bytes) (io : Io) : Looked :=
  if has flags MAGIC_NO_CHECK_ENCODING then ⟨false, none, asc "binary", io⟩
  else
    let (e, io) := fileEncoding w.env.host w.encodingMax buf io
    ⟨e.rv, some e.code.text, e.code.mime, io⟩

/-- The tests without magic entries. -/
def builtinTests (w : World) (env : Env) (l : Looked) (buf : Bytes) (p : Progress) : Progress :=
  let host := env.host
  let p := attempt env MAGIC_NO_CHECK_TAR (onIo (fileIsTar host w.signed env.flags buf)) p
  let p := attempt env MAGIC_NO_CHECK_JSON (onIo (fileIsJson host env.flags buf)) p
  let p := attempt env MAGIC_NO_CHECK_CSV (onIo (fileIsCsv host env.flags l.looksText l.code buf)) p
  let p := attempt env MAGIC_NO_CHECK_SIMH (onIo (fileIsSimh host env.flags buf)) p
  attempt env MAGIC_NO_CHECK_CDF (w.fileTrycdf env.flags p.b) p

/-- The tests behind the one for compressed files. -/
def plainTests (w : World) (env : Env) (l : Looked) (b : Buffer) (ms : Ms) : Except Stop (Int × Ms) :=
  let buf := b.fbuf.getD []
  match attemptElf w env (builtinTests w env l buf ⟨0, 0, false, ms, b⟩) with
  | (none, ms) => .ok (-1, ms)
  | (some (p, rbuf), _) =>
      (attemptText w env l.looksText (attemptSoft env l.looksText rbuf p)).map fun p =>
        let p := finish env l.codeMime (giveUp env buf.length (asc "data") p)
        (p.result, p.ms)

/-- A file with a byte or none. -/
def shortFile (env : Env) (b : Buffer) (ms : Ms) : Int × Ms :=
  let nb := flen b.fbuf
  let fallback := if nb = 0 then asc "empty" else asc "very short file (no magic)"
  let p := finish env (asc "binary") (giveUp env nb fallback ⟨0, 0, false, ms, b⟩)
  (p.result, p.ms)

/-- The test for compressed files, unless it is switched off. -/
def attemptZmagic (w : World) (nested : Nested) (b : Buffer) (s : State) : Except Stop (Int × State) :=
  if has s.flags MAGIC_NO_CHECK_COMPRESS then .ok (0, s) else fileZmagic w nested b s

/-- The environment of a call. -/
def World.at (w : World) (flags mode : Nat) : Env := { w.env with flags, mode }

/-- What comes behind the test for compressed files. -/
def behindZmagic (w : World) (mode : Nat) (l : Looked) (b : Buffer) (r : Int × State) : Except Stop (Int × State) :=
  if r.1 ≠ 0 then .ok r
  else (plainTests w (w.at r.2.flags mode) l b r.2.ms).map fun a => (a.1, { r.2 with ms := a.2 })

/-- A file with two bytes or more. -/
def longFile (w : World) (nested : Nested) (mode : Nat) (l : Looked) (b : Buffer) (s : State) : Except Stop (Int × State) :=
  attemptZmagic w nested b (s.withIo l.io) >>= behindZmagic w mode l b

/-- `file_buffer` of a file with the mode. -/
def fileBufferWith (w : World) (nested : Nested) (mode : Nat) (b : Buffer) (s : State) : Except Stop (Int × State) :=
  if flen b.fbuf ≤ 1 then
    let r := shortFile (w.at s.flags mode) b s.ms
    .ok (r.1, { s with ms := r.2 })
  else longFile w nested mode (lookAt w s.flags (b.fbuf.getD []) s.ms.io) b s

/-- The buffer of `file_buffer(ms, -1, NULL, .., buf, nb)`. -/
def Buffer.alone (buf : Bytes) : Buffer := { file := none, fbuf := some buf, ebuf := none, elen := 0 }

/-- `file_buffer` where nothing is nested in what is nested. -/
def fileBuffer (w : World) : (mode : Nat) → Buffer → State → Except Stop (Int × State) :=
  fileBufferWith w fun buf s => fileBufferWith w (fun _ _ => .error .nested) 0 (Buffer.alone buf) s

/-! ## Nested calls -/

section

variable {w : World} {nested other : Nested} {mode : Nat} {b : Buffer} {s s' : State} {m : Int}

/-- Compressed files are not looked into. -/
def Shut (s : State) : Prop := has s.flags MAGIC_COMPRESS = false

theorem shut_clear (flags : Nat) : has (clear flags) MAGIC_COMPRESS = false := by
  have none : clear flags &&& MAGIC_COMPRESS = 0 := by
    apply Nat.eq_of_testBit_eq
    intro i
    rw [clear, Nat.testBit_and, Nat.testBit_xor, Nat.testBit_and, Nat.zero_testBit]
    cases flags.testBit i <;> cases MAGIC_COMPRESS.testBit i <;> rfl
  rw [has, none]
  rfl

theorem clear_clear (flags : Nat) : clear (clear flags) = clear flags := by
  apply Nat.eq_of_testBit_eq
  intro i
  simp only [clear, Nat.testBit_and, Nat.testBit_xor]
  cases flags.testBit i <;> cases MAGIC_COMPRESS.testBit i <;> rfl

/-- The flag is set again. -/
theorem clear_set {flags : Nat} (compress : has flags MAGIC_COMPRESS = true) : clear flags ||| MAGIC_COMPRESS = flags := by
  have bit : flags &&& MAGIC_COMPRESS ≠ 0 := by
    rw [has, bne_iff_ne] at compress
    exact compress
  have bits : flags &&& MAGIC_COMPRESS = MAGIC_COMPRESS := by
    rw [show MAGIC_COMPRESS = 2 ^ 2 from rfl, Nat.and_two_pow] at bit ⊢
    cases set : flags.testBit 2 with
    | true => rfl
    | false => exact absurd (by rw [set]; rfl) bit
  apply Nat.eq_of_testBit_eq
  intro i
  have here := congrArg (·.testBit i) bits
  simp only [Nat.testBit_and] at here
  simp only [clear, Nat.testBit_or, Nat.testBit_xor, Nat.testBit_and]
  cases set : flags.testBit i <;> cases mask : MAGIC_COMPRESS.testBit i <;> simp_all

/-- A call that leaves the flags alone. -/
def Keeps {α : Type} (r : Except Stop (α × State)) (flags : Nat) : Prop := ∀ a s', r = .ok (a, s') → s'.flags = flags

theorem Keeps.bind {α β : Type} {r : Except Stop (α × State)} {f : α × State → Except Stop (β × State)} {flags flags' : Nat}
    (first : Keeps r flags) (rest : ∀ a, a.2.flags = flags → Keeps (f a) flags') : Keeps (r >>= f) flags' := by
  cases r with
  | error stop => nofun
  | ok a => exact rest a (first a.1 a.2 rfl)

theorem Keeps.ok {α : Type} {a : α} {s : State} : Keeps (.ok (a, s)) s.flags := by
  rintro a s' ⟨⟩
  rfl

theorem attemptZmagic_shut (shut : Shut s) : attemptZmagic w nested b s = .ok (0, s) := by
  rw [attemptZmagic, fileZmagic, shut]
  split
  · rfl
  · rfl

theorem longFile_shut (l : Looked) (shut : Shut s) :
    longFile w nested mode l b s = behindZmagic w mode l b (0, s.withIo l.io) := by
  have shut' : Shut (s.withIo l.io) := shut
  rw [longFile, attemptZmagic_shut shut']
  rfl

/-- Without the flag, nothing is nested. -/
theorem fileBufferWith_shut (shut : Shut s) : fileBufferWith w nested mode b s = fileBufferWith w other mode b s := by
  rw [fileBufferWith, fileBufferWith, longFile_shut _ shut, longFile_shut _ shut]

theorem behindZmagic_keeps (l : Looked) (r : Int × State) : Keeps (behindZmagic w mode l b r) r.2.flags := by
  rw [behindZmagic]
  split
  · exact .ok
  · cases plainTests w (w.at r.2.flags mode) l b r.2.ms with
    | error stop => nofun
    | ok a => exact .ok

theorem fileBufferWith_keeps (shut : Shut s) : Keeps (fileBufferWith w nested mode b s) s.flags := by
  rw [fileBufferWith]
  split
  · exact .ok
  · rw [longFile_shut _ shut]
    exact behindZmagic_keeps _ _

/-- Two nested calls that are the same where compressed files are not looked into, and leave the flags alone there. -/
structure Alike (nested other : Nested) : Prop where
  same : ∀ buf s, Shut s → nested buf s = other buf s
  keeps : ∀ buf s, Shut s → Keeps (nested buf s) s.flags

theorem describeOuter_alike (alike : Alike nested other) (shut : Shut s) (buf : Bytes) (mime : Bool) :
    describeOuter w nested buf mime s = describeOuter w other buf mime s := by
  unfold describeOuter
  generalize filePrintf w.env.host (if mime then _ else _) [] s.ms.io = r
  dsimp only
  split
  · rfl
  · obtain ⟨pb, ms⟩ := filePushBuffer w.env.host (s.withIo r.2).ms
    cases pb with
    | none => rfl
    | some pb => exact congrArg (· >>= popOuter w pb mime) (alike.same buf { s with ms := ms } shut)

theorem popOuter_keeps (pb : Option Bytes × Nat) (mime : Bool) (a : Int × State) : Keeps (popOuter w pb mime a) a.2.flags := by
  unfold popOuter
  dsimp only
  split
  · split
    · nofun
    · exact Keeps.ok
  · exact Keeps.ok

theorem describeOuter_keeps (alike : Alike nested other) (shut : Shut s) (buf : Bytes) (mime : Bool) :
    Keeps (describeOuter w nested buf mime s) s.flags := by
  unfold describeOuter
  generalize filePrintf w.env.host (if mime then _ else _) [] s.ms.io = r
  dsimp only
  split
  · exact Keeps.ok
  · obtain ⟨pb, ms⟩ := filePushBuffer w.env.host (s.withIo r.2).ms
    cases pb with
    | none => exact Keeps.ok
    | some pb =>
        refine (alike.keeps buf { s with ms := ms } shut).bind fun a flags => ?_
        exact flags ▸ popOuter_keeps pb mime a

theorem describeInner_keeps (alike : Alike nested other) (shut : Shut s) (i : Nat) (r : Compress.Errors.Result) :
    Keeps (describeInner w nested i r s) s.flags := by
  rw [describeInner]
  split
  · exact Keeps.ok
  · exact alike.keeps _ s shut

theorem describeInner_alike (alike : Alike nested other) (shut : Shut s) (i : Nat) (r : Compress.Errors.Result) :
    describeInner w nested i r s = describeInner w other i r s := by
  rw [describeInner, describeInner, alike.same _ s shut]

theorem behindInner_alike (alike : Alike nested other) (buf : Bytes) {a : Int × State} (shut : Shut a.2) :
    behindInner w nested buf a = behindInner w other buf a := by
  rw [behindInner, behindInner, describeOuter_alike alike shut]

theorem behindInner_keeps (alike : Alike nested other) (buf : Bytes) {a : Int × State} (shut : Shut a.2) :
    Keeps (behindInner w nested buf a) a.2.flags := by
  unfold behindInner
  dsimp only
  split
  · exact Keeps.ok
  split
  · exact Keeps.ok
  split
  · exact Keeps.ok
  · have keeps := @describeOuter_keeps w nested other a.2 alike shut buf (a.2.flags &&& MAGIC_MIME != 0)
    cases outer : describeOuter w nested buf (a.2.flags &&& MAGIC_MIME != 0) a.2 with
    | error stop => nofun
    | ok o => exact keeps o.1 o.2 outer ▸ Keeps.ok

theorem tryMethod_alike (alike : Alike nested other) (i : Nat) (rv : Int) (s : State) :
    tryMethod w nested b i rv s = tryMethod w other b i rv s := by
  have shut : Shut { s with flags := clear s.flags } := shut_clear s.flags
  unfold tryMethod
  dsimp only
  rw [← describeInner_alike alike shut]
  split
  · rfl
  · have keeps := @describeInner_keeps w nested other _ alike shut i
      (w.uncompressbuf i (has s.flags MAGIC_NO_COMPRESS_FORK) b s.ms.io.tick)
    cases inner : describeInner w nested i (w.uncompressbuf i (has s.flags MAGIC_NO_COMPRESS_FORK) b s.ms.io.tick)
        { s with flags := clear s.flags } with
    | error stop => rfl
    | ok a =>
        have flags := keeps a.1 a.2 inner
        exact behindInner_alike alike _ (by rw [Shut, flags]; exact shut)

/-- The flag is there or it is cleared. -/
def Around (flags : Nat) (s : State) : Prop := s.flags = flags ∨ s.flags = clear flags

theorem tryMethod_around (alike : Alike nested other) {i : Nat} {rv : Int} {flags : Nat} (around : Around flags s)
    {a : Int × Bool} (result : tryMethod w nested b i rv s = .ok (a, s')) : Around flags s' := by
  have cleared : clear s.flags = clear flags := by
    obtain same | same := around
    · rw [same]
    · rw [same, clear_clear]
  have shut : Shut { s with flags := clear s.flags } := shut_clear s.flags
  unfold tryMethod at result
  dsimp only at result
  split at result
  · cases result
    exact around
  · right
    rw [← cleared]
    refine Keeps.bind (describeInner_keeps alike shut i _) (fun a same => ?_) _ _ result
    have shut' : Shut a.2 := by
      rw [Shut, same]
      exact shut
    have keeps := @behindInner_keeps w nested other alike (b.fbuf.getD []) a shut'
    rwa [same] at keeps

theorem zmagicLoop_alike (alike : Alike nested other) (i : Nat) (cs : List Compr) (rv : Int) (s : State) :
    zmagicLoop w nested b i cs rv s = zmagicLoop w other b i cs rv s := by
  induction cs generalizing i rv s with
  | nil => rfl
  | cons c cs ih =>
      simp only [zmagicLoop, ih, tryMethod_alike alike]

theorem zmagicLoop_around (alike : Alike nested other) {flags : Nat} (i : Nat) (cs : List Compr) (rv : Int)
    (around : Around flags s) (result : zmagicLoop w nested b i cs rv s = .ok (m, s')) : Around flags s' := by
  induction cs generalizing i rv s with
  | nil =>
      cases result
      exact around
  | cons c cs ih =>
      rw [zmagicLoop] at result
      split at result
      · exact ih _ _ around result
      split at result
      · exact ih _ _ around result
      · cases tried : tryMethod w nested b i rv s with
        | error stop =>
            rw [tried] at result
            cases result
        | ok a =>
            have after := tryMethod_around alike around tried
            rw [tried] at result
            change (if a.1.2 then _ else _) = _ at result
            split at result
            · cases result
              exact after
            · exact ih _ _ after result

theorem fileZmagic_keeps (alike : Alike nested other) : Keeps (fileZmagic w nested b s) s.flags := by
  rw [fileZmagic]
  cases compress : has s.flags MAGIC_COMPRESS with
  | false => exact Keeps.ok
  | true =>
      intro m s' result
      cases loop : zmagicLoop w nested b 0 (compr w.libraries) 0 s with
      | error stop =>
          rw [loop] at result
          cases result
      | ok a =>
          rw [loop] at result
          cases result
          obtain same | same := zmagicLoop_around alike 0 (compr w.libraries) 0 (.inl rfl) loop
          · change a.2.flags ||| MAGIC_COMPRESS = s.flags
            rw [same]
            conv_lhs => rw [← clear_set compress, Nat.or_assoc, Nat.or_self]
            exact clear_set compress
          · change a.2.flags ||| MAGIC_COMPRESS = s.flags
            rw [same]
            exact clear_set compress

theorem fileBufferWith_alike (alike : Alike nested other) (s : State) :
    fileBufferWith w nested mode b s = fileBufferWith w other mode b s := by
  simp only [fileBufferWith, longFile, attemptZmagic, fileZmagic, zmagicLoop_alike alike]

theorem fileBufferWith_flags (alike : Alike nested other) : Keeps (fileBufferWith w nested mode b s) s.flags := by
  rw [fileBufferWith]
  split
  · exact Keeps.ok
  · refine @Keeps.bind _ _ _ _ s.flags _ ?_ fun a flags => flags ▸ behindZmagic_keeps _ a
    rw [attemptZmagic]
    split
    · exact Keeps.ok
    · exact @fileZmagic_keeps w nested other b (s.withIo _) alike

end

/-! ## The answer -/

section

variable {w : World}

/-- A test that ended the search has an answer. -/
def Progress.Sound (p : Progress) : Prop := p.done = true → p.m ≠ 0

theorem checkdone_sound (env : Env) {p : Progress} (answer : p.m ≠ 0) : (checkdone env p).Sound := by
  unfold checkdone
  split
  · exact fun _ => answer
  · exact fun _ => answer

theorem attempt_sound (env : Env) (off : Nat) (test : Ms → Int × Ms) {p : Progress} (sound : p.Sound) :
    (attempt env off test p).Sound := by
  unfold attempt
  dsimp only
  split
  · exact sound
  next on =>
    split
    next answer => exact checkdone_sound env answer
    next =>
      intro done
      simp only [Bool.or_eq_true, not_or] at on
      exact absurd done on.1

theorem builtinTests_sound (env : Env) (l : Looked) (buf : Bytes) {p : Progress} (sound : p.Sound) :
    (builtinTests w env l buf p).Sound :=
  attempt_sound env _ _ (attempt_sound env _ _ (attempt_sound env _ _ (attempt_sound env _ _ (attempt_sound env _ _ sound))))

theorem attemptElf_sound (env : Env) {p p' : Progress} {rbuf : Option Bytes} {ms : Ms} (sound : p.Sound)
    (result : attemptElf w env p = (some (p', rbuf), ms)) : p'.Sound := by
  unfold attemptElf at result
  split at result
  · cases result
    exact sound
  · split at result
    · cases result
    · cases result
      exact sound

theorem attemptSoft_sound (env : Env) (looksText : Bool) (rbuf : Option Bytes) {p : Progress} (sound : p.Sound) :
    (attemptSoft env looksText rbuf p).Sound := by
  unfold attemptSoft
  dsimp only
  split
  · exact sound
  next on =>
    have open_ : p.done = false := by
      simp only [Bool.or_eq_true, not_or, Bool.not_eq_true] at on
      exact on.1
    generalize fileSoftmagic env BINTEST looksText (scanOf p.ms p.b) = r
    generalize (match r.1 with | none => (-1 : Int) | some found => if found then 1 else 0) = m
    split
    next text behind =>
      have found : m = 1 := by
        by_contra other
        rw [if_neg other] at behind
        cases behind
      have answer : m ≠ 0 := by
        rw [found]
        exact one_ne_zero
      split
      · exact checkdone_sound env answer
      · exact fun _ => answer
    next =>
      split
      next answer => exact checkdone_sound env answer
      next =>
        intro done
        exact absurd done (by rw [open_]; exact Bool.false_ne_true)

theorem attemptText_sound {env : Env} {looksText : Bool} {p p' : Progress} (sound : p.Sound)
    (result : attemptText w env looksText p = .ok p') : p'.Sound := by
  unfold attemptText at result
  split at result
  · cases result
    exact sound
  · split at result
    · cases result
    · cases result
      intro done
      exact bne_iff_ne.mp done

/-- Behind the last word there is an answer. -/
theorem giveUp_answer (env : Env) (nb : Nat) (fallback : Bytes) {p : Progress} (sound : p.Sound) :
    (giveUp env nb fallback p).m ≠ 0 := by
  unfold giveUp
  split
  next answered =>
    rw [Bool.or_eq_true] at answered
    exact answered.elim sound bne_iff_ne.mp
  next => exact one_ne_zero

theorem finish_m (env : Env) (codeMime : Bytes) (p : Progress) : (finish env codeMime p).m = p.m := by
  unfold finish
  dsimp only
  split
  · rfl
  · rfl

theorem Progress.result_answer {p : Progress} (answer : p.m ≠ 0) : p.result ≠ 0 := by
  unfold Progress.result
  split
  next failed => exact failed
  next => exact answer

theorem giveUp_result (env : Env) (nb : Nat) (fallback codeMime : Bytes) {p : Progress} (sound : p.Sound) :
    (finish env codeMime (giveUp env nb fallback p)).result ≠ 0 :=
  Progress.result_answer (by rw [finish_m]; exact giveUp_answer env nb fallback sound)

theorem plainTests_answer {env : Env} {l : Looked} {b : Buffer} {ms ms' : Ms} {m : Int}
    (result : plainTests w env l b ms = .ok (m, ms')) : m ≠ 0 := by
  unfold plainTests at result
  have sound : Progress.Sound ⟨0, 0, false, ms, b⟩ := nofun
  replace sound := @builtinTests_sound w env l (b.fbuf.getD []) _ sound
  dsimp only at result
  split at result
  next => cases result; decide
  next p' rbuf _ elf =>
    replace sound := attemptSoft_sound env l.looksText rbuf (attemptElf_sound env sound elf)
    cases text : attemptText w env l.looksText (attemptSoft env l.looksText rbuf p') with
    | error stop =>
        rw [text] at result
        cases result
    | ok p =>
        rw [text] at result
        cases result
        exact giveUp_result env _ _ _ (attemptText_sound sound text)

theorem behindZmagic_answer {mode : Nat} {l : Looked} {b : Buffer} {r : Int × State} {m : Int} {s' : State}
    (result : behindZmagic w mode l b r = .ok (m, s')) : m ≠ 0 := by
  rw [behindZmagic] at result
  split at result
  next answer =>
    cases result
    exact answer
  next =>
    cases plain : plainTests w (w.at r.2.flags mode) l b r.2.ms with
    | error stop =>
        rw [plain] at result
        cases result
    | ok a =>
        rw [plain] at result
        cases result
        exact plainTests_answer plain

theorem fileBufferWith_answer {nested : Nested} {mode : Nat} {b : Buffer} {s s' : State} {m : Int}
    (result : fileBufferWith w nested mode b s = .ok (m, s')) : m ≠ 0 := by
  rw [fileBufferWith] at result
  split at result
  · cases result
    exact giveUp_result _ _ _ _ nofun
  · rw [longFile] at result
    cases zmagic : attemptZmagic w nested b (s.withIo (lookAt w s.flags (b.fbuf.getD []) s.ms.io).io) with
    | error stop =>
        rw [zmagic] at result
        cases result
    | ok r =>
        rw [zmagic] at result
        exact behindZmagic_answer result

/-- What is nested in a nested call is never asked for, so that `file_buffer` is the recursive function of the
source. It leaves the flags as they were, and its answer is never 0. -/
theorem fileBuffer_recursive (mode : Nat) (b : Buffer) (s : State) :
    (∀ deeper : Nested,
      fileBufferWith w (fun buf s => fileBufferWith w deeper 0 (Buffer.alone buf) s) mode b s = fileBuffer w mode b s) ∧
    fileBufferWith w (fun buf s => fileBuffer w 0 (Buffer.alone buf) s) mode b s = fileBuffer w mode b s ∧
    ∀ m s', fileBuffer w mode b s = .ok (m, s') → s'.flags = s.flags ∧ m ≠ 0 := by
  have alike (deeper : Nested) : Alike (fun buf s => fileBufferWith w deeper 0 (Buffer.alone buf) s)
      (fun buf s => fileBufferWith w (fun _ _ => .error .nested) 0 (Buffer.alone buf) s) :=
    ⟨fun _ _ shut => fileBufferWith_shut shut, fun _ _ shut => fileBufferWith_keeps shut⟩
  refine ⟨fun deeper => fileBufferWith_alike (alike deeper) s, fileBufferWith_alike (alike _) s, fun m s' result => ?_⟩
  exact ⟨fileBufferWith_flags (alike fun _ _ => .error .nested) m s' result, fileBufferWith_answer result⟩

end

/-- A machine whose decompressors find an empty line. -/
def lineWorld : World where
  env := { plainEnv [] [] with host := { plainHost with vasprintf := expand } }
  encodingMax := 65536
  signed := true
  rounds := 3
  libraries := ⟨true, true, true, true, true⟩
  fileTrycdf := fun _ _ ms => (0, ms)
  fileTryelf := fun _ _ ms => (0, ms)
  uncompressbuf := fun _ _ _ _ => ⟨.OKDATA, [0x0a, 0x0a], 2⟩

/-- Compressed files are looked into, and their MIME types asked for. -/
def looking : State := ⟨(plainScan []).toMs, MAGIC_COMPRESS ||| MAGIC_MIME⟩

def gzipped : Buffer := Buffer.alone [0x1f, 0x8b, 8]

theorem fileBuffer_recursive_gzipped :
    ∃ m s', fileBuffer lineWorld 0 gzipped looking = .ok (m, s') ∧ s'.flags = looking.flags ∧ m ≠ 0 := by
  have ends : (fileBuffer lineWorld 0 gzipped looking).isOk = true := by decide +kernel
  cases result : fileBuffer lineWorld 0 gzipped looking with
  | error stop =>
      rw [result] at ends
      cases ends
  | ok r => exact ⟨r.1, r.2, rfl, (fileBuffer_recursive 0 gzipped looking).2.2 r.1 r.2 result⟩

end Libmagic.Detect
