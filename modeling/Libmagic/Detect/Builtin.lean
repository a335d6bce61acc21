import Libmagic.Builtin.Csv
import Libmagic.Builtin.Simh
import Libmagic.Builtin.Tar
import Libmagic.Json.Parse
import Libmagic.Encoding.Ascmagic

/-!
# What the tests without magic entries print

`is_tar.c`, `is_json.c`, `is_csv.c` and `is_simh.c` tell of a file in the same way, and `file_default` has the last
word. The answers are 1 for a file that was found, 0 for one that was not, and -1 for an error.
-/
namespace Libmagic.Detect

open Softmagic
open Encoding (MAGIC_MIME)

def MAGIC_MIME_ENCODING : Nat := 0x400

/-- The answer behind a `file_printf`. -/
def printed (r : Bool × Io) : Int × Io := (if r.1 then 1 else -1, r.2)

/-- What is said of a file that was found. -/
def tell (host : Host) (flags : Nat) (found : Bool) (mime text : Bytes × List Arg) (io : Io) : Int × Io :=
  if has flags (MAGIC_APPLE ||| MAGIC_EXTENSION) then (0, io)
  else if !found then (0, io)
  else if flags &&& MAGIC_MIME = MAGIC_MIME_ENCODING then (1, io)
  else if has flags MAGIC_MIME then printed (filePrintf host mime.1 mime.2 io)
  else printed (filePrintf host text.1 text.2 io)

def tartype : List Bytes := [asc "tar archive", asc "POSIX tar archive", asc "POSIX tar archive (GNU)"]

/-- `file_is_tar`. -/
def fileIsTar (host : Host) (signed : Bool) (flags : Nat) (buf : Bytes) (io : Io) : Int × Io :=
  let tar := Builtin.Tar.isTar signed buf
  tell host flags (decide (1 ≤ tar ∧ tar ≤ 3)) (asc "%s", [.str (asc "application/x-tar")])
    (asc "%s", [.str (tartype.getD (tar - 1) [])]) io

/-- `file_is_json`. -/
def fileIsJson (host : Host) (flags : Nat) (buf : Bytes) (io : Io) : Int × Io :=
  let jt := (Json.jsonParse 0 buf {}).rv
  tell host flags (jt != 0) (asc "application/%s", [.str (if jt = 1 then asc "json" else asc "x-ndjson")])
    (asc "%sJSON text data", [.str (if jt = 1 then [] else asc "New Line Delimited ")]) io

/-- `file_is_csv`. -/
def fileIsCsv (host : Host) (flags : Nat) (looksText : Bool) (code : Option Bytes) (buf : Bytes) (io : Io) : Int × Io :=
  tell host flags (looksText && Builtin.Csv.csvParse buf) (asc "text/csv", [])
    (asc "CSV %s%stext", [.str (code.getD []), .str (if code.isSome then asc " " else [])]) io

/-- `file_is_simh`. -/
def fileIsSimh (host : Host) (flags : Nat) (buf : Bytes) (io : Io) : Int × Io :=
  tell host flags (((Builtin.Simh.simhParse (if host.bigendian then .big else .little) buf).getD 0) != 0)
    (asc "application/SIMH-tape-data", []) (asc "SIMH tape data", []) io

/-- `file_default`. -/
def fileDefault (host : Host) (flags nb : Nat) (io : Io) : Int × Io :=
  if has flags MAGIC_MIME then
    if has flags MAGIC_MIME_TYPE then
      printed (filePrintf host (asc "application/%s") [.str (if nb ≠ 0 then asc "octet-stream" else asc "x-empty")] io)
    else (1, io)
  else if has flags MAGIC_APPLE then printed (filePrintf host (asc "UNKNUNKN") [] io)
  else if has flags MAGIC_EXTENSION then printed (filePrintf host (asc "???") [] io)
  else (0, io)

end Libmagic.Detect
