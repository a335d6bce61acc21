import Libmagic.Softmagic.Types

/-!
# `funcs.c`: the output buffer, errors and text conversion

`Bool` results are success flags: `false` is the `-1` of the source.
-/
namespace Libmagic.Softmagic

/-! ## `<ctype.h>` in the C locale -/

def isdigit (c : UInt8) : Bool := decide (0x30 ≤ c) && decide (c ≤ 0x39)
def isupper (c : UInt8) : Bool := decide (0x41 ≤ c) && decide (c ≤ 0x5a)
def islower (c : UInt8) : Bool := decide (0x61 ≤ c) && decide (c ≤ 0x7a)
def isalpha (c : UInt8) : Bool := isupper c || islower c
def isspace (c : UInt8) : Bool := c == 0x20 || (decide (0x09 ≤ c) && decide (c ≤ 0x0d))
def isprint (c : UInt8) : Bool := decide (0x20 ≤ c) && decide (c ≤ 0x7e)
def tolower (c : UInt8) : UInt8 := if isupper c then c + 0x20 else c
def toupper (c : UInt8) : UInt8 := if islower c then c - 0x20 else c

/-- `%u` and `%d`. -/
def decimal (n : Int) : Bytes := asc (toString n)

def hexDigit (upper : Bool) (n : Nat) : UInt8 :=
  UInt8.ofNat (if n < 10 then 0x30 + n else (if upper then 0x41 else 0x61) + (n - 10))

theorem hexDigit_ne_zero (upper : Bool) {n : Nat} (digit : n < 16) : hexDigit upper n ≠ 0 := by
  intro zero
  have value := congrArg UInt8.toNat zero
  rw [hexDigit, UInt8.toNat_ofNat'] at value
  cases upper <;> split_ifs at value <;> simp at value <;> omega

/-- `%.<width>X` and `%.<width>x` of a value that fits. -/
def hexPadded (upper : Bool) : Nat → Nat → Bytes
  | 0, _ => []
  | width + 1, n => hexPadded upper width (n / 16) ++ [hexDigit upper (n % 16)]

theorem hexPadded_length (upper : Bool) (width n : Nat) : (hexPadded upper width n).length = width := by
  induction width generalizing n with
  | zero => rfl
  | succ width ih => rw [hexPadded, List.length_append, ih, List.length_singleton]

/-! ## Formats -/

/-- `file_checkfield` from the field width `fw` read so far. -/
def fileCheckfield : Nat → Bytes → Bool × Nat × Bytes
  | fw, c :: p =>
      if isdigit c then
        let fw := fw * 10 + (c.toNat - 0x30)
        if fw > 1024 then (false, fw, p) else fileCheckfield fw p
      else (decide (fw < 1024), fw, c :: p)
  | fw, [] => (decide (fw < 1024), fw, [])

def fieldTooLarge (what : String) (fw : Nat) : Bytes :=
  asc "field " ++ asc what ++ asc " too large: " ++ decimal fw

/-- A directive behind its `%`: the rest behind it, or the message of a refusal. -/
def checkDirective (p : Bytes) : Except Bytes Bytes :=
  let p := p.dropWhile (fun c => (asc "#0.'+- ").contains c)
  if p.head? = some 0x2a then .error (asc "* not allowed in format")
  else
    let width := fileCheckfield 0 p
    if !width.1 then .error (fieldTooLarge "width" width.2.1)
    else
      let precision :=
        if width.2.2.head? = some 0x2e then fileCheckfield 0 width.2.2.tail else (true, 0, width.2.2)
      if !precision.1 then .error (fieldTooLarge "precision" precision.2.1)
      else match precision.2.2 with
        | c :: p => if isalpha c then .ok p else .error (asc "bad format char: " ++ [c])
        | [] => .error (asc "bad format char: " ++ [0])

/-- `file_checkfmt`: the message, or `none` for a format that passes. Every round
uses up a byte, so the length of the format bounds the rounds. -/
def checkfmtFrom : Nat → Bytes → Option Bytes
  | 0, _ => none
  | _, [] => none
  | k + 1, c :: p =>
      if c ≠ 0x25 then checkfmtFrom k p
      else match p with
        | [] => some (asc "incomplete % format")
        | d :: q =>
            if d = 0x25 then checkfmtFrom k q
            else match checkDirective (d :: q) with
              | .error msg => some msg
              | .ok rest => checkfmtFrom k rest

def fileCheckfmt (fmt : Bytes) : Option Bytes := checkfmtFrom fmt.length fmt

/-! ## The output buffer -/

/-- `file_clearbuf`. -/
def fileClearbuf (io : Io) : Io := { io with buf := none }

/-- `ms->o.blen`. -/
def blen (io : Io) : Nat := (io.buf.getD []).length

/-- `file_vprintf`, with what reports an error. -/
def vprintf (error : Nat → Bytes → List Arg → Io → Io) (host : Host) (fmt : Bytes) (args : List Arg)
    (io : Io) : Bool × Io :=
  if io.hadErr then (true, io)
  else match fileCheckfmt fmt with
    | some msg =>
        (false, error 0 (asc "Bad magic format `%s' (%s)") [.str fmt, .str msg] (fileClearbuf io))
    | none =>
        let io := { io with tick := io.tick + 1 }
        let exceeded (len : Int) :=
          error 0 (asc "Output buffer space exceeded %d+%zu") [.int len, .uint (blen io)]
            (fileClearbuf io)
        match host.vasprintf fmt args with
        | none => (false, exceeded (-1))
        | some text =>
            if text.length > 1024 ∨ text.length + blen io > 1024 * 1024 then
              (false, exceeded text.length)
            else match io.buf with
              | none => (true, { io with buf := some text })
              | some old =>
                  if host.malloc io.tick then
                    (true, { io with buf := some (old ++ text), tick := io.tick + 1 })
                  else
                    (false, error ENOMEM (asc "vasprintf failed") []
                      (fileClearbuf { io with tick := io.tick + 1 }))

/-- `file_error_core`. A failure to print the report is reported in turn; the
source does so without end when nothing can be allocated any more, here the
reports stop after `n` of them. -/
def fileErrorCore (host : Host) (line : Nat) : Nat → Nat → Bytes → List Arg → Io → Io
  | 0, error, _, _, io => { io with hadErr := true, error }
  | n + 1, error, fmt, args, io =>
      if io.hadErr then io
      else
        let print := vprintf (fileErrorCore host 0 n) host
        let io :=
          if line ≠ 0 then (print (asc "line %zu:") [.uint line] (fileClearbuf io)).2 else io
        let io := if blen io ≠ 0 then (print (asc " ") [] io).2 else io
        let io := (print fmt args io).2
        let io :=
          if error > 0 then (print (asc " (%s)") [.str (host.strerror error)] io).2 else io
        { io with hadErr := true, error }

/-- `file_error(ms, error, f, ...)`. -/
def fileError (host : Host) (error : Nat) (fmt : Bytes) (args : List Arg) (io : Io) : Io :=
  fileErrorCore host 0 3 error fmt args io

/-- `file_magerror(ms, f, ...)`. -/
def fileMagerror (host : Host) (fmt : Bytes) (args : List Arg) (io : Io) : Io :=
  fileErrorCore host io.line 3 0 fmt args io

/-- `file_oomem`. -/
def fileOomem (host : Host) (len : Nat) (io : Io) : Io :=
  fileError host ENOMEM (asc "cannot allocate %zu bytes") [.uint len] io

/-- `file_printf(ms, fmt, ...)`. -/
def filePrintf (host : Host) (fmt : Bytes) (args : List Arg) (io : Io) : Bool × Io :=
  vprintf (fileErrorCore host 0 3) host fmt args io

/-- `file_separator`. -/
def fileSeparator (host : Host) (io : Io) : Bool × Io := filePrintf host (asc "\n- ") [] io

/-- `print_sep`. -/
def printSep (host : Host) (firstline : Bool) (io : Io) : Bool × Io :=
  if firstline then (true, io) else fileSeparator host io

/-- `F(ms, desc, def)`: the format that is used. -/
def fileFmtcheck (host : Host) (desc fallback : Bytes) (io : Io) : Bytes × Io :=
  if !desc.contains 0x25 then (desc, io)
  else if host.fmtcheck desc fallback then (desc, io)
  else (fallback, fileMagerror host
    (asc "%s, %zu: format `%s' does not match with `%s'")
    [.str (asc "softmagic.c"), .uint 0, .str desc, .str fallback] io)

/-! ## Text -/

/-- `file_printable(ms, buf, bufsiz, str, slen)`: `room` is `eptr - ptr`. -/
def filePrintable (raw : Bool) : (room : Nat) → Bytes → Bytes
  | 0, _ => []
  | _, [] => []
  | room + 1, c :: s =>
      if c = 0 then []
      else if raw || isprint c then c :: filePrintable raw room s
      -- `ptr >= eptr - 3`
      else if room + 1 ≤ 3 then []
      else
        [0x5c, UInt8.ofNat (c.toNat / 64 % 8 + 0x30), UInt8.ofNat (c.toNat / 8 % 8 + 0x30),
          UInt8.ofNat (c.toNat % 8 + 0x30)] ++ filePrintable raw (room + 1 - 4) s

/-- `file_strtrim`, as the text it leaves. -/
def fileStrtrim (s : Bytes) : Bytes :=
  ((s.dropWhile isspace).reverse.dropWhile isspace).reverse

/-- The position behind the first `c`, with what stands before it. -/
def splitAt (c : UInt8) (s : Bytes) : Option (Bytes × Bytes) :=
  match s.dropWhile (· != c) with
  | [] => none
  | _ :: rest => some (s.takeWhile (· != c), rest)

/-- `strstr(s, "${")`: what stands before it and behind it. -/
def findGroup : Bytes → Option (Bytes × Bytes)
  | 0x24 :: 0x7b :: rest => some ([], rest)
  | c :: s => (findGroup s).map (fun r => (c :: r.1, r.2))
  | [] => none

/-- `varexpand(ms, buf, len, str)`: the text in `buf`, or `none` for `-1`. -/
def varexpandFrom (mode : Nat) : Nat → (len : Nat) → Bytes → Option Bytes
  | 0, _, _ => none
  | k + 1, len, str =>
      match findGroup str with
      | none => if str.length ≥ len then none else some str
      | some (before, group) =>
          if before.length ≥ len then none
          else match group with
            | x :: 0x3f :: t =>
                match splitAt 0x3a t with
                | none => none
                | some (yes, e) =>
                    match splitAt 0x7d e with
                    | none => none
                    | some (no, rest) =>
                        if x ≠ 0x78 then none
                        else
                          let text := if mode &&& 0o111 ≠ 0 then yes else no
                          let len := len - before.length
                          if text.length ≥ len then none
                          else (varexpandFrom mode k (len - text.length) rest).map
                            (fun tail => before ++ text ++ tail)
            | _ => none

def varexpand (mode len : Nat) (str : Bytes) : Option Bytes :=
  varexpandFrom mode (str.length + 1) len str

/-- The pattern `%[-0-9\.]*s` of `check_fmt`. -/
def hasStringFormat : Bytes → Bool
  | 0x25 :: p =>
      (p.dropWhile (fun c => isdigit c || c == 0x2d || c == 0x2e)).head? == some 0x73 ||
        hasStringFormat p
  | _ :: p => hasStringFormat p
  | [] => false

/-- `check_fmt`: `none` is `-1`. -/
def checkFmt (host : Host) (fmt : Bytes) (io : Io) : Option Bool × Io :=
  if !fmt.contains 0x25 then (some false, io)
  else if host.malloc io.tick then (some (hasStringFormat fmt), { io with tick := io.tick + 1 })
  else (none, { io with tick := io.tick + 1 })

/-- `file_print_guid` of the 16 bytes of a `struct guid`, whose integers are in
the byte order `big`. -/
def filePrintGuid (big : Bool) (g : Bytes) : Bytes :=
  let word (i n : Nat) :=
    hexPadded true (2 * n) (if big then beNat ((g.drop i).take n) else leNat ((g.drop i).take n))
  let bytes (i n : Nat) := ((g.drop i).take n).flatMap (fun b => hexPadded true 2 b.toNat)
  word 0 4 ++ asc "-" ++ word 4 2 ++ asc "-" ++ word 6 2 ++ asc "-" ++ bytes 8 2 ++ asc "-" ++
    bytes 10 6

/-- `strtoull(s, &end, base)`, with `true` for `ERANGE`. -/
def strtoull (base : Nat) (s : Bytes) : Nat × Bytes × Bool :=
  let body := s.dropWhile isspace
  let negative := body.head? == some 0x2d
  let digits := if negative || body.head? == some 0x2b then body.tail else body
  let isDigit (c : UInt8) := isdigit c && decide (c.toNat - 0x30 < base)
  let run := digits.takeWhile isDigit
  let n := run.foldl (fun n c => n * base + (c.toNat - 0x30)) 0
  let rest := if run = [] then s else digits.drop run.length
  if n ≥ 2 ^ 64 then (2 ^ 64 - 1, rest, true)
  else (if negative then (2 ^ 64 - n) % 2 ^ 64 else n, rest, false)

/-- `file_fmtnum(buf, blen, us, base)`. -/
def fileFmtnum (us : Bytes) (base : Nat) : Bytes :=
  let r := strtoull base us
  if r.2.1 ≠ [] ∨ r.2.2 then asc "*Invalid number*" else decimal r.1

end Libmagic.Softmagic
