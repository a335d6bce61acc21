import Libmagic.Detect.FileBuffer

/-!
# The charset that `file_buffer` prints

Whichever test has the answer, the charset comes last, and it is the one of the first code that reads the file.
-/
namespace Libmagic.Detect

open Softmagic
open Encoding (MAGIC_MIME Code fileEncoding fileEncoding_judged)

/-- The charset of a buffer. -/
inductive Charset (buf : Bytes) : Bytes → Prop where
  | named {code : Code} {us : List Nat} (first : code.First buf us) : Charset buf code.mime
  | binary (none : ∀ (code : Code) us, ¬ code.Reads buf us) : Charset buf (asc "binary")

theorem Charset.clean {buf charset : Bytes} (is : Charset buf charset) : 0 ∉ charset := by
  have codes (code : Code) : code.mime.all (· ≠ 0) = true := by
    cases code with
    | utf16 bigend | utf32 bigend => cases bigend <;> decide +kernel
    | _ => decide +kernel
  cases is with
  | @named code _ _ =>
      intro mem
      have char := List.all_eq_true.mp (codes code) 0 mem
      exact absurd rfl (of_decide_eq_true char)
  | binary _ => decide +kernel

/-- What `file_encoding` finds is the charset. -/
theorem lookAt_charset {w : World} {flags : Nat} (standard : Standard w.env.host) (buf : Bytes) (io : Io)
    (on : has flags MAGIC_NO_CHECK_ENCODING = false) :
    Charset (buf.take w.encodingMax) (lookAt w flags buf io).codeMime := by
  have judged := fileEncoding_judged w.env.host w.encodingMax buf io fun _ => standard.malloc _
  have same : (lookAt w flags buf io).codeMime = (fileEncoding w.env.host w.encodingMax buf io).1.code.mime := by
    rw [lookAt, on]
    rfl
  rw [same]
  obtain ⟨code, v, found, -, first⟩ | ⟨v, found, passed⟩ := judged
  · rw [found]
    exact .named first
  · rw [found]
    exact .binary fun code us reads => passed.fails code reads.mem_order us reads

/-! ## Printing -/

section

variable {host : Host} {n : Nat} {o : Funcs.Output} {fmt text : Bytes} {args : List Arg}

theorem fileErrorCore_hadErr (lineno : Nat) (error : Int) (fmt : Bytes) (args : List Arg) (o : Funcs.Output) :
    (Funcs.fileErrorCore host lineno n error fmt args o).hadErr = true := by
  cases n with
  | zero => rfl
  | succ n =>
      rw [Funcs.fileErrorCore]
      split
      next err => exact err
      next => rfl

/-- Output that is printed without an error ends in the text. -/
theorem filePrintf_ends (standard : Standard host) (expands : expand fmt args = some text) (clean : 0 ∉ text)
    (calm : (Funcs.filePrintf host n fmt args o).2.hadErr = false) :
    o.hadErr = false ∧ (Funcs.filePrintf host n fmt args o).2.buf = some (cstring (o.buf.getD []) ++ text) := by
  rw [Funcs.filePrintf, Funcs.fileVprintf, standard.vasprintf _ _ _ expands] at calm ⊢
  cases err : o.hadErr with
  | true =>
      rw [err, if_pos rfl, err] at calm
      cases calm
  | false =>
      rw [err, if_neg Bool.false_ne_true] at calm
      rw [if_neg Bool.false_ne_true]
      refine ⟨rfl, ?_⟩
      split at calm
      · rw [fileErrorCore_hadErr] at calm
        cases calm
      · dsimp only at calm ⊢
        split at calm
        · rw [fileErrorCore_hadErr] at calm
          cases calm
        next room =>
          rw [if_neg room]
          cases buf : o.buf with
          | none => rfl
          | some old =>
              dsimp only
              rw [if_pos (standard.malloc _), cstring_self clean]
              rfl

end

/-! ## The end of `file_buffer` -/

section

variable {w : World} {env : Env} {charset : Bytes}

/-- What comes in front of the charset. -/
def charsetPrefix (flags : Nat) : Bytes := if has flags MAGIC_MIME_TYPE then asc "; charset=" else []

/-- An answer, unless it is an error, that ends in the charset. -/
def Ends (flags : Nat) (charset : Bytes) (m : Int) (io : Io) : Prop :=
  io.hadErr = false → m ≠ -1 → ∃ front, io.buf = some (front ++ charsetPrefix flags ++ charset)

theorem expand_str (clean : 0 ∉ charset) : expand (asc "%s") [.str charset] = some charset := by
  change (some []).map (cstring charset ++ ·) = some charset
  rw [Option.map_some, List.append_nil, cstring_self clean]

theorem finish_ends (standard : Standard env.host) (asked : has env.flags MAGIC_MIME_ENCODING = true) (clean : 0 ∉ charset)
    (m : Int) (p : Progress) : Ends env.flags charset m (finish env charset p).ms.io := by
  intro calm _
  have plain : 0x25 ∉ asc "; charset=" := by decide
  have clean' : 0 ∉ asc "; charset=" := by decide
  unfold finish at calm ⊢
  dsimp only at calm ⊢
  rw [asked] at calm ⊢
  rw [if_neg (by decide)] at calm ⊢
  cases type : has env.flags MAGIC_MIME_TYPE with
  | true =>
      rw [type, if_pos rfl] at calm
      rw [if_pos rfl, charsetPrefix, type, if_pos rfl]
      obtain ⟨calm', whole⟩ := filePrintf_ends standard (expand_str clean) clean calm
      obtain ⟨_, first⟩ := filePrintf_ends standard (expand_plain plain []) clean' calm'
      rw [first, Option.getD_some, ← cstring_self clean', Funcs.cstring_append, cstring_self clean'] at whole
      exact ⟨_, whole⟩
  | false =>
      rw [type, if_neg Bool.false_ne_true] at calm
      rw [if_neg Bool.false_ne_true, charsetPrefix, type, if_neg Bool.false_ne_true]
      obtain ⟨_, whole⟩ := filePrintf_ends standard (expand_str clean) clean calm
      exact ⟨_, by rw [List.append_nil]; exact whole⟩

theorem plainTests_ends (standard : Standard env.host) (asked : has env.flags MAGIC_MIME_ENCODING = true) {l : Looked}
    (clean : 0 ∉ l.codeMime) {b : Buffer} {ms ms' : Ms} {m : Int} (result : plainTests w env l b ms = .ok (m, ms')) :
    Ends env.flags l.codeMime m ms'.io := by
  unfold plainTests at result
  dsimp only at result
  split at result
  next =>
    cases result
    exact fun _ failed => absurd rfl failed
  next p rbuf _ _ =>
    cases text : attemptText w env l.looksText (attemptSoft env l.looksText rbuf p) with
    | error stop =>
        rw [text] at result
        cases result
    | ok p =>
        rw [text] at result
        cases result
        exact finish_ends standard asked clean _ _

end

/-- The charset is asked for. -/
def naming : State := ⟨(plainScan []).toMs, MAGIC_MIME⟩

def emptyLine : Buffer := Buffer.alone [0x0a, 0x0a]

end Libmagic.Detect
