import Libmagic.Softmagic.Value

/-!
# `softmagic.c`: printing a match

`mprint` and `handle_annotation`. A `Bool` result is a success flag, as in `Output`.
-/
namespace Libmagic.Softmagic

def FILE_T_LOCAL : Nat := 1
def FILE_T_WINDOWS : Nat := 2

/-- `snprintf` into a buffer of 128 bytes. -/
def snprintf (host : Host) (fmt : Bytes) (args : List Arg) : Bytes :=
  ((host.vasprintf fmt args).getD []).take 127

/-- `file_printf(ms, F(ms, desc, fallback), arg)`. -/
def printDesc (host : Host) (desc fallback : Bytes) (arg : Arg) (io : Io) : Bool × Io :=
  let r := fileFmtcheck host desc fallback io
  filePrintf host r.1 [arg] r.2

/-- A value whose format may ask for a string: `PRINTER` and the floating-point cases. -/
def printNumber (host : Host) (desc fmt : Bytes) (arg : Arg) (io : Io) : Bool × Io :=
  match checkFmt host desc io with
  | (none, io) => (false, io)
  | (some true, io) => printDesc host desc (asc "%s") (.str (snprintf host fmt [arg])) io
  | (some false, io) => printDesc host desc fmt arg io

/-- `PRINTER` on a field of `n` bytes; `size` is the length modifier of the format. -/
def printer (host : Host) (m : Magic) (desc : Bytes) (size : String) (n : Nat) (v : Value) (io : Io) :
    Bool × Io :=
  let x := fileSignextend m (v.load host n)
  if has m.flag UNSIGNED then
    printNumber host desc (asc "%" ++ asc size ++ asc "u") (.uint (uN (8 * n) x)) io
  else printNumber host desc (asc "%" ++ asc size ++ asc "d") (.int (sN (8 * n) x)) io

/-- `str[strcspn(str, "\r\n")] = '\0'`. -/
def Value.cutLine (v : Value) : Value :=
  v.write (v.str.takeWhile (fun c => c != 0x0d && c != 0x0a)).length [0]

/-- `file_strtrim` in place: where the text starts, and the union. -/
def Value.strtrim (v : Value) : Nat × Value :=
  let lead := (v.str.takeWhile isspace).length
  let text := fileStrtrim v.str
  (lead, if v.str.length = lead then v else v.write (lead + text.length) [0])

/-- The string types under a relation that is not `=` or `!`. -/
def mprintString (host : Host) (flags : Nat) (m : Magic) (desc : Bytes) (v : Value) (io : Io) :
    Bool × Value × Io :=
  let v := if m.value.get 0 = 0 then v.cutLine else v
  let trimmed := if has m.strFlags STRING_TRIM then v.strtrim else (0, v)
  let v := trimmed.2
  let text := filePrintable (has flags MAGIC_RAW) 511 (v.bytes.drop trimmed.1)
  match printDesc host desc (asc "%s") (.str text) io with
  | (false, io) => (false, v, io)
  | (true, io) =>
      if m.type = .pstring then
        match filePstringLengthSize host m io with
        | (none, io) => (false, v, io)
        | (some _, io) => (true, v, io)
      else (true, v, io)

/-- The `FILE_SEARCH` and `FILE_REGEX` cases. -/
def mprintSearch (host : Host) (flags : Nat) (m : Magic) (desc : Bytes) (search : Search) (io : Io) :
    Bool × Io :=
  match search.s with
  | none => (true, io)
  | some s =>
      let ok := host.malloc io.tick
      let io := { io with tick := io.tick + 1 }
      if !ok then (false, fileOomem host search.rmLen io)
      else
        let cp := (s.take search.rmLen).takeWhile (· != 0)
        let scp := if has m.strFlags STRING_TRIM then fileStrtrim cp else cp
        printDesc host desc (asc "%s") (.str (filePrintable (has flags MAGIC_RAW) 511 scp)) io

/-- `mprint`: the result, `ms_value` and the output. -/
def mprint (env : Env) (m : Magic) (v : Value) (search : Search) (io : Io) : Bool × Value × Io :=
  let host := env.host
  let desc := (varexpand env.mode 512 m.desc).getD m.desc
  let kept (r : Bool × Io) : Bool × Value × Io := (r.1, v, r.2)
  let printable (s : Bytes) : Bytes := filePrintable (has env.flags MAGIC_RAW) 511 s
  let text (s : Bytes) : Bool × Value × Io := kept (printDesc host desc (asc "%s") (.str s) io)
  let integer (n : Nat) : Bool × Value × Io := kept (printer host m desc "" n v io)
  match m.type with
  | .byte => integer 1
  | .short | .beshort | .leshort => integer 2
  | .long | .belong | .lelong | .melong => integer 4
  | .quad | .bequad | .lequad | .offset => kept (printer host m desc "ll" 8 v io)
  | .string | .pstring | .bestring16 | .lestring16 =>
      if m.reln = .eq ∨ m.reln = .ne then text (printable m.value.bytes)
      else mprintString host env.flags m desc v io
  | .date | .bedate | .ledate | .medate => text (host.fmtdatetime (v.load host 4) 0)
  | .ldate | .beldate | .leldate | .meldate => text (host.fmtdatetime (v.load host 4) FILE_T_LOCAL)
  | .qdate | .beqdate | .leqdate => text (host.fmtdatetime (v.load host 8) 0)
  | .qldate | .beqldate | .leqldate => text (host.fmtdatetime (v.load host 8) FILE_T_LOCAL)
  | .qwdate | .beqwdate | .leqwdate => text (host.fmtdatetime (v.load host 8) FILE_T_WINDOWS)
  | .float | .befloat | .lefloat =>
      kept (printNumber host desc (asc "%g") (.float (v.load host 4)) io)
  | .double | .bedouble | .ledouble =>
      kept (printNumber host desc (asc "%g") (.double (v.load host 8)) io)
  | .search | .regex => kept (mprintSearch host env.flags m desc search io)
  | .default | .clear => kept (filePrintf host (asc "%s") [.str m.desc] io)
  | .indirect | .use | .name => (true, v, io)
  | .der => text (printable v.bytes)
  | .guid | .leguid => text (filePrintGuid host.bigendian v.bytes)
  | .beguid => text (filePrintGuid (!host.bigendian) v.bytes)
  | .msdosdate | .bemsdosdate | .lemsdosdate => text (host.fmtdate (v.load host 2))
  | .msdostime | .bemsdostime | .lemsdostime => text (host.fmttime (v.load host 2))
  | .octal => text (fileFmtnum m.value.str 8)
  | .invalid | .beid3 | .leid3 | .bevarint | .levarint | .other _ =>
      (false, v, fileMagerror host (asc "invalid m->type (%d) in mprint()") [.int m.type.code] io)

/-- One annotation of `handle_annotation`. -/
def annotate (env : Env) (firstline : Bool) (fmt text : Bytes) (io : Io) : Option Bool × Io :=
  if !firstline && !has env.flags MAGIC_CONTINUE then (some true, io)
  else match printSep env.host firstline io with
    | (false, io) => (none, io)
    | (true, io) =>
        match filePrintf env.host fmt [.str text] io with
        | (false, io) => (none, io)
        | (true, io) => (some true, io)

/-- `handle_annotation`: `none` is `-1`. -/
def handleAnnotation (env : Env) (m : Magic) (firstline : Bool) (io : Io) : Option Bool × Io :=
  if has env.flags MAGIC_APPLE && m.apple ≠ [] then annotate env firstline (asc "%.8s") m.apple io
  else if has env.flags MAGIC_EXTENSION && m.ext ≠ [] then annotate env firstline (asc "%s") m.ext io
  else if has env.flags MAGIC_MIME_TYPE && m.mimetype ≠ [] then
    annotate env firstline (asc "%s") ((varexpand env.mode 1024 m.mimetype).getD m.mimetype) io
  else (some false, io)

end Libmagic.Softmagic
