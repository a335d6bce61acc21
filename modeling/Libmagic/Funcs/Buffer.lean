import Libmagic.Softmagic.Cstring
import Libmagic.Softmagic.Match

/-!
# `funcs.c`: the output buffer and its length

`ms->o.buf` is memory that some operations change in place, and `ms->o.blen` is kept next to
it by hand. `Softmagic.Io` has the text alone.
-/
namespace Libmagic.Funcs

open Softmagic

/-- The part of `struct magic_set` that printing changes. `buf` is an allocated string
without its last byte, which is 0; other bytes of it may be 0 too. -/
structure Output where
  buf : Option Bytes
  blen : Nat
  hadErr : Bool
  error : Int
  line : Nat
  tick : Nat
  deriving DecidableEq

/-- `strlen`, or 0 for `NULL`. -/
def strlen (buf : Option Bytes) : Nat := (cstring (buf.getD [])).length

/-- `file_clearbuf`. -/
def fileClearbuf (o : Output) : Output := { o with buf := none, blen := 0 }

/-- `file_vprintf`, with what reports an error. -/
def fileVprintf (error : Int → Bytes → List Arg → Output → Output) (host : Host) (fmt : Bytes)
    (args : List Arg) (o : Output) : Bool × Output :=
  if o.hadErr then (true, o)
  else match fileCheckfmt fmt with
    | some msg =>
        (false, error 0 (asc "Bad magic format `%s' (%s)") [.str fmt, .str msg] (fileClearbuf o))
    | none =>
        let o := { o with tick := o.tick + 1 }
        let exceeded (len : Int) :=
          error 0 (asc "Output buffer space exceeded %d+%zu") [.int len, .uint o.blen] (fileClearbuf o)
        match host.vasprintf fmt args with
        | none => (false, exceeded (-1))
        | some text =>
            if text.length > 1024 ∨ text.length + o.blen > 1024 * 1024 then (false, exceeded text.length)
            else match o.buf with
              | none => (true, { o with buf := some text, blen := text.length })
              | some old =>
                  let newstr := cstring old ++ cstring text
                  if host.malloc o.tick then
                    (true, { o with buf := some newstr, blen := newstr.length, tick := o.tick + 1 })
                  else
                    (false, error ENOMEM (asc "vasprintf failed") []
                      (fileClearbuf { o with tick := o.tick + 1 }))

/-- `file_error_core`, whose reports of its own failures stop after `n` of them. -/
def fileErrorCore (host : Host) (lineno : Nat) : Nat → Int → Bytes → List Arg → Output → Output
  | 0, error, _, _, o => { o with hadErr := true, error }
  | n + 1, error, fmt, args, o =>
      if o.hadErr then o
      else
        let print := fileVprintf (fileErrorCore host 0 n) host
        let o :=
          if lineno ≠ 0 then (print (asc "line %zu:") [.uint lineno] (fileClearbuf o)).2 else o
        let o := if strlen o.buf ≠ 0 then (print (asc " ") [] o).2 else o
        let o := (print fmt args o).2
        let o :=
          if error > 0 then (print (asc " (%s)") [.str (host.strerror error.toNat)] o).2 else o
        { o with hadErr := true, error }

section
variable (host : Host) (n : Nat)

/-- `file_printf`. -/
def filePrintf (fmt : Bytes) (args : List Arg) (o : Output) : Bool × Output :=
  fileVprintf (fileErrorCore host 0 n) host fmt args o

def FILE_SEPARATOR : Bytes := asc "\n- "

/-- `file_separator`. -/
def fileSeparator (o : Output) : Bool × Output := filePrintf host n FILE_SEPARATOR [] o

/-- Whether `trim_separator` finds the separator behind some text. -/
def endsInSeparator (b : Bytes) : Bool :=
  decide (4 ≤ (cstring b).length) && (cstring b).drop ((cstring b).length - 3) == FILE_SEPARATOR

/-- `trim_separator`. -/
def trimSeparator (o : Output) : Output :=
  match o.buf with
  | none => o
  | some b => if endsInSeparator b then { o with buf := some (b.set ((cstring b).length - 3) 0) } else o

/-- `ms->o.buf[rm.rm_so] = '\0'`. -/
def Output.cut (o : Output) (b : Bytes) (so : Int) : Output := { o with buf := some (b.set so.toNat 0) }

/-- The arguments of `file_printf` in `file_replace`. -/
def replaceArgs (rep b : Bytes) (so eo : Int) : List Arg :=
  [.str rep, .str (if eo ≠ 0 then cstring ((b.set so.toNat 0).drop eo.toNat) else [])]

/-- The loop of `file_replace`, when it comes to its end. -/
inductive Replaced (pat rep : Bytes) : Output → Output → Prop where
  | done {o : Output} {b : Bytes} (buf : o.buf = some b)
      (missing : ∀ so eo, host.regexec pat false (cstring b) ≠ .found so eo) : Replaced pat rep o o
  | failed {o o' : Output} {b : Bytes} {so eo : Int} (buf : o.buf = some b)
      (found : host.regexec pat false (cstring b) = .found so eo)
      (printed : filePrintf host n (asc "%s%s") (replaceArgs rep b so eo) (o.cut b so) = (false, o')) :
      Replaced pat rep o o'
  | round {o o' o'' : Output} {b : Bytes} {so eo : Int} (buf : o.buf = some b)
      (found : host.regexec pat false (cstring b) = .found so eo)
      (printed : filePrintf host n (asc "%s%s") (replaceArgs rep b so eo) (o.cut b so) = (true, o'))
      (rest : Replaced pat rep o' o'') : Replaced pat rep o o''

end

/-! ## Runs -/

/-- `file_pushbuf_t`. -/
structure Pushbuf where
  buf : Option Bytes
  blen : Nat
  offset : Nat

/-- The handle, with the buffers that were pushed and not popped. `loaded` is
`ms->mlist[0] != NULL`. -/
structure Handle where
  out : Output
  offset : Nat
  pushed : List Pushbuf
  loaded : Bool
  flags : Nat

/-- A call, with its arguments. -/
inductive Op where
  | printf (fmt : Bytes) (args : List Arg)
  | separator
  | replace (pat rep : Bytes)
  | trimSeparator
  | clearbuf
  | pushBuffer
  | popBuffer (i : Nat)
  | reset (checkloaded : Bool)

/-- `file_regcomp` in `file_replace`: whether it succeeds, and the report. -/
def replaceRegcomp (host : Host) (n : Nat) (flags : Nat) (pat : Bytes) (o : Output) : Bool × Output :=
  if !checkRegex pat then (false, o)
  else match host.regcomp pat false with
    | none => (true, o)
    | some (rc, errmsg) =>
        (false, if has flags MAGIC_CHECK then
          fileErrorCore host o.line n 0 (asc "regex error %d for `%s', (%s)")
            [.int rc, .str (filePrintable (has flags MAGIC_RAW) 511 pat), .str errmsg] o
        else o)

/-- `file_push_buffer`. -/
def filePushBuffer (host : Host) (h : Handle) : Handle :=
  if h.out.hadErr then h
  else if !host.malloc h.out.tick then { h with out := { h.out with tick := h.out.tick + 1 } }
  else
    { h with
      out := { h.out with buf := none, blen := 0, tick := h.out.tick + 1 }
      offset := 0
      pushed := ⟨h.out.buf, h.out.blen, h.offset⟩ :: h.pushed }

/-- `file_pop_buffer` of the `i`th buffer, which is `pb`. -/
def filePopBuffer (i : Nat) (pb : Pushbuf) (h : Handle) : Handle :=
  let h := { h with pushed := h.pushed.eraseIdx i }
  if h.out.hadErr then h
  else { h with out := { h.out with buf := pb.buf, blen := pb.blen }, offset := pb.offset }

/-- `file_reset`. -/
def fileReset (host : Host) (n : Nat) (checkloaded : Bool) (h : Handle) : Handle :=
  if checkloaded && !h.loaded then
    { h with out := fileErrorCore host 0 n 0 (asc "no magic files loaded") [] h.out }
  else { h with out := { fileClearbuf h.out with hadErr := false, error := -1 } }

/-- What a call does to the handle. A `file_replace` without a buffer has no meaning, nor has a
pop of a buffer that is not there. -/
inductive Step (host : Host) (n : Nat) : Handle → Op → Handle → Prop where
  | printf (h : Handle) (fmt : Bytes) (args : List Arg) :
      Step host n h (.printf fmt args) { h with out := (filePrintf host n fmt args h.out).2 }
  | separator (h : Handle) : Step host n h .separator { h with out := (fileSeparator host n h.out).2 }
  | unreplaced (h : Handle) (pat rep : Bytes) {o : Output}
      (failed : replaceRegcomp host n h.flags pat h.out = (false, o)) :
      Step host n h (.replace pat rep) { h with out := o }
  | replaced (h : Handle) (pat rep : Bytes) {o o' : Output}
      (compiled : replaceRegcomp host n h.flags pat h.out = (true, o))
      (loop : Replaced host n pat rep o o') : Step host n h (.replace pat rep) { h with out := o' }
  | trimSeparator (h : Handle) : Step host n h .trimSeparator { h with out := Funcs.trimSeparator h.out }
  | clearbuf (h : Handle) : Step host n h .clearbuf { h with out := fileClearbuf h.out }
  | pushBuffer (h : Handle) : Step host n h .pushBuffer (filePushBuffer host h)
  | popBuffer (h : Handle) (i : Nat) (pb : Pushbuf) (live : h.pushed[i]? = some pb) :
      Step host n h (.popBuffer i) (filePopBuffer i pb h)
  | reset (h : Handle) (checkloaded : Bool) :
      Step host n h (.reset checkloaded) (fileReset host n checkloaded h)

/-- The states that calls lead to, when each of them is `good`. -/
inductive Run (host : Host) (n : Nat) (good : Handle → Op → Prop) (h : Handle) : Handle → Prop where
  | start : Run host n good h h
  | step {h' h'' : Handle} {op : Op} (run : Run host n good h h') (here : good h' op)
      (step : Step host n h' op h'') : Run host n good h h''

/-! ## Strings -/

theorem cstring_set (b : Bytes) (k : Nat) : cstring (b.set k 0) = (cstring b).take k := by
  induction b generalizing k with
  | nil => simp [cstring]
  | cons c b ih =>
      cases k with
      | zero => simp [cstring]
      | succ k =>
          have next := ih k
          rw [cstring, cstring] at next ⊢
          rw [List.set_cons_succ, List.takeWhile_cons, List.takeWhile_cons, next]
          split_ifs
          · rw [List.take_succ_cons]
          · rw [List.take_nil]

theorem cstring_append (a b : Bytes) : cstring (cstring a ++ cstring b) = cstring a ++ cstring b := by
  apply cstring_self
  rw [List.mem_append]
  rintro (mem | mem)
  · exact zero_notMem_cstring a mem
  · exact zero_notMem_cstring b mem

/-! ## What printing does -/

/-- What `file_vprintf` and `file_error_core` print on their own account. -/
def reports : List Bytes :=
  [asc "Bad magic format `%s' (%s)", asc "Output buffer space exceeded %d+%zu", asc "vasprintf failed",
    asc "line %zu:", asc " ", asc " (%s)"]

/-- What `file_vprintf` does. -/
inductive Printed (error : Int → Bytes → List Arg → Output → Output) (host : Host) (fmt : Bytes)
    (args : List Arg) (o : Output) : Bool × Output → Prop where
  /-- nothing, after an error -/
  | muted (err : o.hadErr = true) : Printed error host fmt args o (true, o)
  /-- it fails and reports the failure in an empty buffer -/
  | reported (err : o.hadErr = false) (e : Int) (report : Bytes) (mem : report ∈ reports)
      (reportArgs : List Arg) (o' : Output) :
      Printed error host fmt args o (false, error e report reportArgs (fileClearbuf o'))
  | started (err : o.hadErr = false) (buf : o.buf = none) (accepted : fileCheckfmt fmt = none)
      (text : Bytes) (printed : host.vasprintf fmt args = some text) (short : text.length ≤ 1024) (tick : Nat) :
      Printed error host fmt args o (true, { o with buf := some text, blen := text.length, tick })
  | appended (err : o.hadErr = false) (old text : Bytes) (buf : o.buf = some old)
      (room : text.length + o.blen ≤ 1024 * 1024) (tick : Nat) :
      Printed error host fmt args o (true, { o with
        buf := some (cstring old ++ cstring text)
        blen := (cstring old ++ cstring text).length
        tick })

theorem fileVprintf_printed (error : Int → Bytes → List Arg → Output → Output) (host : Host) (fmt : Bytes)
    (args : List Arg) (o : Output) : Printed error host fmt args o (fileVprintf error host fmt args o) := by
  rw [fileVprintf]
  cases err : o.hadErr with
  | true => exact .muted err
  | false =>
      simp only [Bool.false_eq_true, if_false]
      split
      · exact .reported err _ _ (by simp [reports]) _ _
      rename_i accepted
      split
      · exact .reported err _ _ (by simp [reports]) _ _
      rename_i text printed
      by_cases long : text.length > 1024 ∨ text.length + o.blen > 1024 * 1024
      · rw [if_pos long]
        exact .reported err _ _ (by simp [reports]) _ _
      rw [if_neg long]
      split
      · rename_i empty
        rw [← err]
        exact .started err empty accepted text printed (by omega) _
      · rename_i old buf
        split_ifs
        · rw [← err]
          exact .appended err old text buf (by omega) _
        · exact .reported err _ _ (by simp [reports]) _ _

/-- A property of the buffer and its length that clearing and appending keep. -/
structure Closed (P : Option Bytes → Nat → Prop) : Prop where
  empty : P none 0
  append : ∀ {old text : Bytes} {blen : Nat}, P (some old) blen → text.length + blen ≤ 1024 * 1024 →
    P (some (cstring old ++ cstring text)) (cstring old ++ cstring text).length

/-- The property holds of a text that is printed first. -/
def Starts (P : Option Bytes → Nat → Prop) (host : Host) (fmt : Bytes) (args : List Arg) : Prop :=
  ∀ text, host.vasprintf fmt args = some text → text.length ≤ 1024 → P (some text) text.length

def Output.Has (P : Option Bytes → Nat → Prop) (o : Output) : Prop := P o.buf o.blen

section
variable {P : Option Bytes → Nat → Prop} {host : Host}

theorem fileVprintf_keeps {error : Int → Bytes → List Arg → Output → Output} {fmt : Bytes} {args : List Arg}
    {o : Output} (closed : Closed P)
    (reported : ∀ e, ∀ fmt ∈ reports, ∀ args o, o.Has P → (error e fmt args o).Has P)
    (starts : o.buf = none → o.hadErr = false → fileCheckfmt fmt = none → Starts P host fmt args)
    (before : o.Has P) : (fileVprintf error host fmt args o).2.Has P := by
  generalize result : fileVprintf error host fmt args o = r
  have printed := fileVprintf_printed error host fmt args o
  rw [result] at printed
  cases printed with
  | muted _ => exact before
  | reported _ e report mem reportArgs o' => exact reported e report mem reportArgs _ closed.empty
  | started err buf accepted text printed short _ => exact starts buf err accepted text printed short
  | appended _ old text buf room _ =>
      rw [Output.Has, buf] at before
      exact closed.append before room

theorem fileErrorCore_keeps (closed : Closed P) (clean : ∀ fmt ∈ reports, ∀ args, Starts P host fmt args)
    (n lineno : Nat) (error : Int) (fmt : Bytes) (args : List Arg) (o : Output)
    (starts : Starts P host fmt args) (before : o.Has P) :
    (fileErrorCore host lineno n error fmt args o).Has P := by
  induction n generalizing lineno error fmt args o with
  | zero => exact before
  | succ n ih =>
      have print : ∀ {fmt args o}, Starts P host fmt args → o.Has P →
          (fileVprintf (fileErrorCore host 0 n) host fmt args o).2.Has P := by
        intro fmt args o starts before
        refine fileVprintf_keeps closed ?_ (fun _ _ _ => starts) before
        intro e fmt mem args o before
        exact ih 0 e fmt args o (clean fmt mem args) before
      have own : ∀ fmt ∈ reports, ∀ {args o}, o.Has P →
          (fileVprintf (fileErrorCore host 0 n) host fmt args o).2.Has P :=
        fun fmt mem {args o} before => print (clean fmt mem args) before
      have optional : ∀ {c : Prop} [Decidable c] {o o' : Output}, o.Has P → o'.Has P →
          (if c then o' else o).Has P := by
        intro c _ o o' left right
        split_ifs
        · exact right
        · exact left
      have line := @optional (lineno ≠ 0) _ _ _ before
        (@own (asc "line %zu:") (by simp [reports]) [.uint lineno] (fileClearbuf o) closed.empty)
      have space : ∀ o : Output, o.Has P →
          (if strlen o.buf ≠ 0 then (fileVprintf (fileErrorCore host 0 n) host (asc " ") [] o).2 else o).Has P :=
        fun o h => optional h (own _ (by simp [reports]) h)
      have reason : ∀ o : Output, o.Has P →
          (if error > 0 then (fileVprintf (fileErrorCore host 0 n) host (asc " (%s)")
            [.str (host.strerror error.toNat)] o).2 else o).Has P :=
        fun o h => optional h (own _ (by simp [reports]) h)
      rw [fileErrorCore]
      refine optional ?_ before
      exact reason _ (print starts (space _ line))

end

/-! ## The length is at most 1 MiB -/

/-- The length is not too small, and below the limit. -/
def Limited (buf : Option Bytes) (blen : Nat) : Prop := strlen buf ≤ blen ∧ blen ≤ 1024 * 1024

theorem closed_limited : Closed Limited where
  empty := ⟨Nat.le_refl 0, Nat.zero_le _⟩
  append := by
    rintro old text blen ⟨le, -⟩ room
    have short := cstring_length_le text
    refine ⟨?_, ?_⟩
    · rw [strlen, Option.getD_some, cstring_append]
    · rw [strlen, Option.getD_some] at le
      rw [List.length_append]
      omega

theorem starts_limited (host : Host) (fmt : Bytes) (args : List Arg) : Starts Limited host fmt args := by
  intro text _ short
  refine ⟨?_, by omega⟩
  rw [strlen, Option.getD_some]
  exact cstring_length_le text

/-! ## The length is right -/

def Counted (buf : Option Bytes) (blen : Nat) : Prop := blen = strlen buf

theorem closed_counted : Closed Counted where
  empty := rfl
  append := by
    intro old text blen _ _
    rw [Counted, strlen, Option.getD_some, cstring_append]

/-- A directive `%c`, perhaps with flags, a width, a precision and a length. -/
def hasCharFormat : Bytes → Bool
  | 0x25 :: p =>
      (p.dropWhile (fun c => isdigit c || (asc "#.'+- hlqjzt").contains c)).head?.any
          (fun c => c == 0x63 || c == 0x43) ||
        hasCharFormat p
  | _ :: p => hasCharFormat p
  | [] => false

/-- Only the directive `%c` prints a 0. -/
def NulOnlyByChar (host : Host) : Prop :=
  ∀ fmt args text, host.vasprintf fmt args = some text → 0 ∈ text → hasCharFormat fmt = true

theorem starts_counted_of_clean {host : Host} {fmt : Bytes} {args : List Arg}
    (clean : ∀ text, host.vasprintf fmt args = some text → text.length ≤ 1024 → 0 ∉ text) :
    Starts Counted host fmt args := by
  intro text printed short
  rw [Counted, strlen, Option.getD_some, cstring_self (clean text printed short)]

theorem starts_counted {host : Host} (lawful : NulOnlyByChar host) {fmt : Bytes}
    (plain : hasCharFormat fmt = false) (args : List Arg) : Starts Counted host fmt args := by
  apply starts_counted_of_clean
  intro text printed _ mem
  rw [lawful fmt args text printed mem] at plain
  cases plain

theorem reports_plain : ∀ fmt ∈ reports, hasCharFormat fmt = false := by decide +kernel

/-! ## Steps -/

/-- The property of the handle's buffer and of those that were pushed. -/
structure Handle.Has (P : Option Bytes → Nat → Prop) (h : Handle) : Prop where
  out : h.out.Has P
  pushed : ∀ pb ∈ h.pushed, P pb.buf pb.blen

/-- What a call has to see to for the property, next to what clearing and appending keep. -/
def Sees (P : Option Bytes → Nat → Prop) (host : Host) (n : Nat) (h : Handle) : Op → Prop
  | .printf fmt args =>
      h.out.buf = none → h.out.hadErr = false → fileCheckfmt fmt = none → Starts P host fmt args
  | .replace pat rep =>
      checkRegex pat = true → host.regcomp pat false = none →
        ∀ o, Replaced host n pat rep h.out o → o.Has P
  | .trimSeparator => (trimSeparator h.out).Has P
  | _ => True

theorem replaceRegcomp_true {host : Host} {n flags : Nat} {pat : Bytes} {o o' : Output}
    (compiled : replaceRegcomp host n flags pat o = (true, o')) :
    o' = o ∧ checkRegex pat = true ∧ host.regcomp pat false = none := by
  rw [replaceRegcomp] at compiled
  cases regex : checkRegex pat with
  | false =>
      rw [regex] at compiled
      cases compiled
  | true =>
      rw [regex] at compiled
      cases none : host.regcomp pat false with
      | none =>
          rw [none] at compiled
          cases compiled
          exact ⟨rfl, rfl, rfl⟩
      | some failure =>
          rw [none] at compiled
          cases compiled

section
variable {P : Option Bytes → Nat → Prop} {host : Host} {n : Nat}

theorem fileErrorCore_plain (closed : Closed P)
    (clean : ∀ fmt, hasCharFormat fmt = false → ∀ args, Starts P host fmt args) (lineno : Nat) (error : Int)
    {fmt : Bytes} (plain : hasCharFormat fmt = false) (args : List Arg) {o : Output} (before : o.Has P) :
    (fileErrorCore host lineno n error fmt args o).Has P :=
  fileErrorCore_keeps closed (fun fmt mem => clean fmt (reports_plain fmt mem)) n lineno error fmt args o
    (clean fmt plain args) before

theorem filePrintf_keeps (closed : Closed P)
    (clean : ∀ fmt, hasCharFormat fmt = false → ∀ args, Starts P host fmt args) {fmt : Bytes}
    {args : List Arg} {o : Output}
    (starts : o.buf = none → o.hadErr = false → fileCheckfmt fmt = none → Starts P host fmt args)
    (before : o.Has P) : (filePrintf host n fmt args o).2.Has P := by
  refine fileVprintf_keeps closed ?_ starts before
  intro e fmt mem args o before
  exact fileErrorCore_plain closed clean 0 e (reports_plain fmt mem) args before

theorem replaceRegcomp_keeps (closed : Closed P)
    (clean : ∀ fmt, hasCharFormat fmt = false → ∀ args, Starts P host fmt args) {flags : Nat} {pat : Bytes}
    {o : Output} (before : o.Has P) : (replaceRegcomp host n flags pat o).2.Has P := by
  rw [replaceRegcomp]
  split_ifs
  · exact before
  · split
    · exact before
    · dsimp only
      exact fileErrorCore_plain closed clean _ _ (by decide +kernel) _ before
  · split <;> exact before

theorem step_keeps (closed : Closed P)
    (clean : ∀ fmt, hasCharFormat fmt = false → ∀ args, Starts P host fmt args) {h h' : Handle} {op : Op}
    (step : Step host n h op h') (sees : Sees P host n h op) (before : h.Has P) : h'.Has P := by
  cases step with
  | printf fmt args => exact ⟨filePrintf_keeps closed clean sees before.out, before.pushed⟩
  | separator =>
      refine ⟨filePrintf_keeps closed clean (fun _ _ _ => ?_) before.out, before.pushed⟩
      exact clean _ (by decide +kernel) _
  | unreplaced pat rep failed =>
      have kept := @replaceRegcomp_keeps P host n closed clean h.flags pat h.out before.out
      rw [failed] at kept
      exact ⟨kept, before.pushed⟩
  | replaced pat rep compiled loop =>
      obtain ⟨rfl, regex, none⟩ := replaceRegcomp_true compiled
      exact ⟨sees regex none _ loop, before.pushed⟩
  | trimSeparator => exact ⟨sees, before.pushed⟩
  | clearbuf => exact ⟨closed.empty, before.pushed⟩
  | pushBuffer =>
      rw [filePushBuffer]
      split_ifs
      · exact before
      · exact ⟨before.out, before.pushed⟩
      · refine ⟨closed.empty, ?_⟩
        intro pb mem
        rcases List.mem_cons.mp mem with rfl | mem
        · exact before.out
        · exact before.pushed pb mem
  | popBuffer i pb live =>
      have rest : ∀ pb' ∈ h.pushed.eraseIdx i, P pb'.buf pb'.blen :=
        fun pb' mem => before.pushed pb' (List.mem_of_mem_eraseIdx mem)
      rw [filePopBuffer]
      dsimp only
      split_ifs
      · exact ⟨before.out, rest⟩
      · exact ⟨before.pushed pb (List.mem_of_getElem? live), rest⟩
  | reset checkloaded =>
      rw [fileReset]
      split_ifs
      · exact ⟨fileErrorCore_plain closed clean _ _ (by decide +kernel) _ before.out, before.pushed⟩
      · exact ⟨closed.empty, before.pushed⟩

/-- What every call of a run keeps holds of every state of the run. -/
theorem run_keeps (closed : Closed P)
    (clean : ∀ fmt, hasCharFormat fmt = false → ∀ args, Starts P host fmt args)
    {good : Handle → Op → Prop} (sees : ∀ h op, h.Has P → good h op → Sees P host n h op) {h h' : Handle}
    (run : Run host n good h h') (before : h.Has P) : h'.Has P := by
  induction run with
  | start => exact before
  | step _ here step ih => exact step_keeps closed clean step (sees _ _ ih here) ih

end

/-! ## Editing in place -/

theorem strlen_set (b : Bytes) (k : Nat) : strlen (some (b.set k 0)) = min k (strlen (some b)) := by
  rw [strlen, strlen, Option.getD_some, Option.getD_some, cstring_set, List.length_take]

theorem Output.cut_limited {o : Output} {b : Bytes} (so : Int) (buf : o.buf = some b) (before : o.Has Limited) :
    (o.cut b so).Has Limited := by
  obtain ⟨le, limit⟩ := before
  rw [buf] at le
  refine ⟨?_, limit⟩
  rw [Output.cut, strlen_set]
  exact (Nat.min_le_right _ _).trans le

section
variable {host : Host} {n : Nat}

theorem replaced_limited {pat rep : Bytes} {o o' : Output} (loop : Replaced host n pat rep o o')
    (before : o.Has Limited) : o'.Has Limited := by
  have print : ∀ {o o' : Output} {b : Bytes} {so : Int} {args : List Arg} {ok : Bool}, o.buf = some b →
      o.Has Limited → filePrintf host n (asc "%s%s") args (o.cut b so) = (ok, o') → o'.Has Limited := by
    intro o o' b so args ok buf before printed
    have kept := @filePrintf_keeps _ host n closed_limited (fun fmt _ => starts_limited host fmt)
      (asc "%s%s") args _
      (fun _ _ _ => starts_limited host _ _) (Output.cut_limited so buf before)
    rwa [printed] at kept
  induction loop with
  | done _ _ => exact before
  | failed buf _ printed => exact print buf before printed
  | round buf _ printed _ ih => exact ih (print buf before printed)

theorem trimSeparator_limited {o : Output} (before : o.Has Limited) : (trimSeparator o).Has Limited := by
  rw [trimSeparator]
  split
  · exact before
  · rename_i b buf
    split_ifs
    · exact @Output.cut_limited o b ((cstring b).length - 3 : Nat) buf before
    · exact before

/-- Every call keeps the limit. -/
theorem sees_limited (h : Handle) (op : Op) (before : h.Has Limited) : Sees Limited host n h op := by
  cases op with
  | printf fmt args => exact fun _ _ _ => starts_limited host fmt args
  | replace pat rep => exact fun _ _ o loop => replaced_limited loop before.out
  | trimSeparator => exact trimSeparator_limited before.out
  | separator | clearbuf | pushBuffer | popBuffer _ | reset _ => trivial

/-! ## Calls that keep the length right -/

/-- A call that does not leave a length behind: a text with a 0 is not printed into an empty
buffer, no separator is cut off, and nothing is replaced after an error. -/
def Accounted (host : Host) (h : Handle) : Op → Prop
  | .printf fmt args =>
      h.out.buf = none → h.out.hadErr = false → fileCheckfmt fmt = none →
        ∀ text, host.vasprintf fmt args = some text → text.length ≤ 1024 → 0 ∉ text
  | .replace pat _ =>
      h.out.hadErr = true → checkRegex pat = true → host.regcomp pat false = none →
        ∀ b so eo, h.out.buf = some b → host.regexec pat false (cstring b) = .found so eo →
          (cstring b).length ≤ so.toNat
  | .trimSeparator => ∀ b, h.out.buf = some b → endsInSeparator b = false
  | _ => True

/-- Printing behind a text counts anew. -/
theorem filePrintf_recounts (lawful : NulOnlyByChar host) {fmt : Bytes} {args : List Arg} {o : Output}
    {b : Bytes} (buf : o.buf = some b) (err : o.hadErr = false) :
    (filePrintf host n fmt args o).2.Has Counted ∧
      ((filePrintf host n fmt args o).1 = true →
        (filePrintf host n fmt args o).2.hadErr = false) := by
  generalize result : filePrintf host n fmt args o = r
  have printed := fileVprintf_printed (fileErrorCore host 0 n) host fmt args o
  rw [filePrintf] at result
  rw [result] at printed
  cases printed with
  | muted err' =>
      rw [err] at err'
      cases err'
  | reported _ e report mem reportArgs o' =>
      refine ⟨?_, Bool.noConfusion⟩
      exact fileErrorCore_plain closed_counted (fun fmt plain => starts_counted lawful plain) 0 e
        (reports_plain report mem) reportArgs closed_counted.empty
  | started _ empty _ _ _ _ _ =>
      rw [buf] at empty
      cases empty
  | appended _ old text _ _ _ =>
      refine ⟨?_, fun _ => err⟩
      rw [Output.Has, Counted, strlen, Option.getD_some, cstring_append]

/-- A replacement that prints counts anew at the end. -/
theorem replaced_counted (lawful : NulOnlyByChar host) {pat rep : Bytes} {o o' : Output}
    (loop : Replaced host n pat rep o o') (err : o.hadErr = false) (before : o.Has Counted) :
    o'.Has Counted := by
  induction loop with
  | done _ _ => exact before
  | @failed o o' b so eo buf _ printed =>
      have kept := @filePrintf_recounts host n lawful (asc "%s%s") (replaceArgs rep b so eo) (o.cut b so)
        (b.set so.toNat 0) rfl err
      rw [printed] at kept
      exact kept.1
  | @round o o' o'' b so eo buf _ printed _ ih =>
      have kept := @filePrintf_recounts host n lawful (asc "%s%s") (replaceArgs rep b so eo) (o.cut b so)
        (b.set so.toNat 0) rfl err
      rw [printed] at kept
      exact ih (kept.2 rfl) kept.1

/-- After an error only matches at the end of the text are without effect. -/
theorem replaced_muted {pat rep : Bytes} {o o' : Output} (loop : Replaced host n pat rep o o')
    (err : o.hadErr = true)
    (behind : ∀ b so eo, o.buf = some b → host.regexec pat false (cstring b) = .found so eo →
      (cstring b).length ≤ so.toNat)
    (before : o.Has Counted) : o'.Has Counted := by
  have muted : ∀ {args : List Arg} {o : Output} {b : Bytes} {so : Int}, o.hadErr = true →
      filePrintf host n (asc "%s%s") args (o.cut b so) = (true, o.cut b so) := by
    intro args o b so err
    exact if_pos err
  induction loop with
  | done _ _ => exact before
  | failed buf _ printed =>
      rw [muted err] at printed
      cases printed
  | @round o o' o'' b so eo buf found printed _ ih =>
      rw [muted err] at printed
      cases printed
      have at' := behind b so eo buf found
      have same : cstring (b.set so.toNat 0) = cstring b := by
        rw [cstring_set, List.take_of_length_le at']
      apply ih err
      · intro b' so' eo' buf' found'
        obtain rfl := Option.some.inj buf'
        rw [same] at found' ⊢
        exact behind b so' eo' buf found'
      · rw [Output.Has, Counted, buf] at before
        rw [Output.Has, Counted, Output.cut, strlen, Option.getD_some, same, before, strlen, Option.getD_some]

theorem sees_counted (lawful : NulOnlyByChar host) (h : Handle) (op : Op) (before : h.Has Counted)
    (accounted : Accounted host h op) : Sees Counted host n h op := by
  cases op with
  | printf fmt args =>
      intro buf err accepted
      exact starts_counted_of_clean (accounted buf err accepted)
  | replace pat rep =>
      intro regex compiled o loop
      cases err : h.out.hadErr with
      | false => exact replaced_counted lawful loop err before.out
      | true => exact replaced_muted loop err (accounted err regex compiled) before.out
  | trimSeparator =>
      rw [Sees, trimSeparator]
      split
      · exact before.out
      · rename_i b buf
        rw [accounted b buf]
        exact before.out
  | separator | clearbuf | pushBuffer | popBuffer _ | reset _ => trivial

/-- The length of the output in every state of a run: it never passes the limit, and it is right
as long as every call is accounted for. -/
theorem output_accounting (lawful : NulOnlyByChar host) {h : Handle} (buf : h.out.buf = none)
    (blen : h.out.blen = 0) (pushed : h.pushed = []) :
    (∀ h', Run host n (fun _ _ => True) h h' → h'.out.blen ≤ 1024 * 1024) ∧
      ∀ h', Run host n (Accounted host) h h' →
        h'.out.blen = strlen h'.out.buf ∧ h'.out.blen ≤ 1024 * 1024 := by
  have limited : h.Has Limited := by
    refine ⟨?_, ?_⟩
    · rw [Output.Has, buf, blen]
      exact closed_limited.empty
    · simp [pushed]
  have counted : h.Has Counted := by
    refine ⟨?_, ?_⟩
    · rw [Output.Has, buf, blen]
      exact closed_counted.empty
    · simp [pushed]
  have limit : ∀ {good : Handle → Op → Prop} {h'}, Run host n good h h' → h'.out.blen ≤ 1024 * 1024 := by
    intro good h' run
    exact (run_keeps closed_limited (fun fmt _ => starts_limited host fmt)
      (fun h op before _ => sees_limited h op before) run limited).out.2
  refine ⟨fun h' run => limit run, fun h' run => ⟨?_, limit run⟩⟩
  exact (run_keeps closed_counted (fun fmt plain => starts_counted lawful plain)
    (fun h op before here => sees_counted lawful h op before here) run counted).out

end

/-! ## The output of matching

Where no text has a 0, what is left of the output without its length is what `Softmagic` has. -/

def Output.io (o : Output) : Io :=
  { buf := o.buf, hadErr := o.hadErr, error := o.error.toNat, line := o.line, tick := o.tick }

/-- The text has no 0 and its length is right. -/
def Plain (buf : Option Bytes) (blen : Nat) : Prop :=
  blen = (buf.getD []).length ∧ 0 ∉ buf.getD []

/-- The output `o'` stands for `io'`. -/
def Simulates (o : Output) (io : Io) : Prop := o.io = io ∧ o.Has Plain

section
variable {host : Host} (lawful : ∀ fmt args text, host.vasprintf fmt args = some text → 0 ∉ text)
include lawful

theorem fileVprintf_simulates {error : Int → Bytes → List Arg → Output → Output}
    {error' : Nat → Bytes → List Arg → Io → Io}
    (reported : ∀ (e : Nat) fmt args o, o.Has Plain → Simulates (error e fmt args o) (error' e fmt args o.io))
    (fmt : Bytes) (args : List Arg) {o : Output} (plain : o.Has Plain) :
    (fileVprintf error host fmt args o).1 = (vprintf error' host fmt args o.io).1 ∧
      Simulates (fileVprintf error host fmt args o).2 (vprintf error' host fmt args o.io).2 := by
  have empty : ∀ o, (fileClearbuf o).Has Plain := fun o => ⟨rfl, List.not_mem_nil⟩
  obtain ⟨buf, length, hadErr, err, line, tick⟩ := o
  obtain ⟨right, clean⟩ := plain
  dsimp only at right clean
  subst right
  cases hadErr with
  | true => exact ⟨rfl, rfl, rfl, clean⟩
  | false =>
      dsimp only [Output.io]
      unfold fileVprintf vprintf
      simp only [Bool.false_eq_true, if_false]
      cases checked : fileCheckfmt fmt with
      | some msg => exact ⟨rfl, reported 0 _ _ _ (empty _)⟩
      | none =>
          cases printed : host.vasprintf fmt args with
          | none => exact ⟨rfl, reported 0 _ _ _ (empty _)⟩
          | some text =>
              have clean' := lawful fmt args text printed
              dsimp only
              by_cases long : text.length > 1024 ∨ text.length + (buf.getD []).length > 1024 * 1024
              · have long' : text.length > 1024 ∨ text.length +
                    Softmagic.blen { buf, hadErr := false, error := err.toNat, line, tick := tick + 1 } >
                      1024 * 1024 := long
                rw [if_pos long, if_pos long']
                exact ⟨rfl, reported 0 _ _ _ (empty _)⟩
              have long' : ¬ (text.length > 1024 ∨ text.length +
                  Softmagic.blen { buf, hadErr := false, error := err.toNat, line, tick := tick + 1 } >
                    1024 * 1024) := long
              rw [if_neg long, if_neg long']
              cases buf with
              | none => exact ⟨rfl, rfl, rfl, clean'⟩
              | some old =>
                  have same : cstring old = old := cstring_self clean
                  simp only [cstring_self clean', same]
                  split_ifs
                  · refine ⟨rfl, rfl, rfl, ?_⟩
                    simpa [clean'] using clean
                  · exact ⟨rfl, reported ENOMEM _ _ _ (empty _)⟩

theorem fileErrorCore_simulates (n lineno error : Nat) (fmt : Bytes) (args : List Arg) {o : Output}
    (plain : o.Has Plain) :
    Simulates (fileErrorCore host lineno n error fmt args o)
      (Softmagic.fileErrorCore host lineno n error fmt args o.io) := by
  induction n generalizing lineno error fmt args o with
  | zero => exact ⟨rfl, plain⟩
  | succ n ih =>
      have print : ∀ fmt args o io, Simulates o io →
          Simulates (fileVprintf (fileErrorCore host 0 n) host fmt args o).2
            (vprintf (Softmagic.fileErrorCore host 0 n) host fmt args io).2 := by
        rintro fmt args o io ⟨rfl, plain⟩
        exact (fileVprintf_simulates lawful (fun e fmt args o plain => ih 0 e fmt args plain) fmt args plain).2
      have optional : ∀ {c c' : Prop} [Decidable c] [Decidable c'] {o o' : Output} {io io' : Io}, (c ↔ c') →
          Simulates o io → Simulates o' io' → Simulates (if c then o' else o) (if c' then io' else io) := by
        intro c c' _ _ o o' io io' same left right
        by_cases h : c
        · rw [if_pos h, if_pos (same.mp h)]
          exact right
        · rw [if_neg h, if_neg fun h' => h (same.mpr h')]
          exact left
      have line : Simulates
          (if lineno ≠ 0 then
            (fileVprintf (fileErrorCore host 0 n) host (asc "line %zu:") [.uint lineno] (fileClearbuf o)).2 else o)
          (if lineno ≠ 0 then (vprintf (Softmagic.fileErrorCore host 0 n) host (asc "line %zu:") [.uint lineno]
            (Softmagic.fileClearbuf o.io)).2 else o.io) :=
        optional Iff.rfl ⟨rfl, plain⟩ (print _ _ _ _ ⟨rfl, rfl, List.not_mem_nil⟩)
      have space : ∀ {o io}, Simulates o io →
          Simulates (if strlen o.buf ≠ 0 then (fileVprintf (fileErrorCore host 0 n) host (asc " ") [] o).2 else o)
            (if Softmagic.blen io ≠ 0 then
              (vprintf (Softmagic.fileErrorCore host 0 n) host (asc " ") [] io).2 else io) := by
        rintro o io ⟨rfl, plain⟩
        refine optional ?_ ⟨rfl, plain⟩ (print _ _ _ _ ⟨rfl, plain⟩)
        rw [strlen, cstring_self plain.2]
        rfl
      have reason : ∀ {o io}, Simulates o io →
          Simulates
            (if (error : Int) > 0 then (fileVprintf (fileErrorCore host 0 n) host (asc " (%s)")
              [.str (host.strerror (error : Int).toNat)] o).2 else o)
            (if error > 0 then (vprintf (Softmagic.fileErrorCore host 0 n) host (asc " (%s)")
              [.str (host.strerror error)] io).2 else io) := by
        intro o io same
        exact optional (by omega) same (print _ _ _ _ same)
      rw [fileErrorCore, Softmagic.fileErrorCore]
      have sameErr : o.io.hadErr = o.hadErr := rfl
      rw [sameErr]
      cases err : o.hadErr with
      | true => exact ⟨rfl, plain⟩
      | false =>
          have text := reason (print fmt args _ _ (space line))
          obtain ⟨same, plain'⟩ := text
          simp only [Bool.false_eq_true, if_false]
          refine ⟨?_, plain'⟩
          rw [← same]
          rfl

/-- `file_printf` in matching is `file_printf` without its length. -/
theorem filePrintf_simulates (fmt : Bytes) (args : List Arg) {o : Output} (plain : o.Has Plain) :
    (filePrintf host 3 fmt args o).1 = (Softmagic.filePrintf host fmt args o.io).1 ∧
      Simulates (filePrintf host 3 fmt args o).2 (Softmagic.filePrintf host fmt args o.io).2 :=
  fileVprintf_simulates lawful (fun e fmt args _ plain => fileErrorCore_simulates lawful 3 0 e fmt args plain)
    fmt args plain

end

/-- A handle after `file_ms_alloc`. -/
def freshHandle : Handle where
  out := { buf := none, blen := 0, hadErr := false, error := -1, line := 0, tick := 0 }
  offset := 0
  pushed := []
  loaded := true
  flags := 0

/-- A machine whose formats have no directives. -/
def textHost : Host := { plainHost with vasprintf := fun fmt _ => some (cstring fmt) }

theorem textHost_nulOnlyByChar : NulOnlyByChar textHost := by
  intro fmt args text printed mem
  cases printed
  exact absurd mem (zero_notMem_cstring fmt)

/-- The handle after a text was printed. -/
def printedHandle : Handle :=
  { freshHandle with out := (filePrintf textHost 1 (asc "data") [] freshHandle.out).2 }

/-- With a separator behind it. -/
def separatedHandle : Handle :=
  { printedHandle with out := (fileSeparator textHost 1 printedHandle.out).2 }

theorem printedHandle_step : Step textHost 1 freshHandle (.printf (asc "data") []) printedHandle :=
  .printf freshHandle (asc "data") []

theorem output_accounting_separated :
    Run textHost 1 (Accounted textHost) freshHandle separatedHandle ∧
      separatedHandle.out.buf = some (asc "data\n- ") ∧
      separatedHandle.out.blen = strlen separatedHandle.out.buf ∧
      separatedHandle.out.blen ≤ 1024 * 1024 := by
  have printed : Accounted textHost freshHandle (.printf (asc "data") []) := by
    intro _ _ _ text printed _
    cases printed
    exact zero_notMem_cstring _
  have separated : Accounted textHost printedHandle .separator := trivial
  have run : Run textHost 1 (Accounted textHost) freshHandle separatedHandle :=
    .step (.step .start printed printedHandle_step) separated (.separator printedHandle)
  refine ⟨run, by decide +kernel, ?_⟩
  exact (output_accounting textHost_nulOnlyByChar rfl rfl rfl).2 _ run

/-- The separator is cut off again, and its length stays. -/
theorem output_miscounted :
    ∃ h, Run textHost 1 (fun _ _ => True) freshHandle h ∧ h.out.blen ≠ strlen h.out.buf := by
  have run : Run textHost 1 (fun _ _ => True) freshHandle separatedHandle :=
    .step (.step .start trivial printedHandle_step) trivial (.separator printedHandle)
  refine ⟨_, .step run trivial (.trimSeparator separatedHandle), ?_⟩
  decide +kernel

end Libmagic.Funcs
