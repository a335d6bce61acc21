import Libmagic.Encoding.EncodeUtf8
import Libmagic.Encoding.UcsExact
import Libmagic.Json.Flaws
import Libmagic.Json.Safety
import Libmagic.Apprentice.Foreign
import Libmagic.Softmagic.FirstMatch
import Libmagic.Softmagic.Default
import Libmagic.Softmagic.Chain
import Libmagic.Softmagic.Nesting
import Libmagic.Softmagic.Framing
import Libmagic.Apprentice.Lines
import Libmagic.Apprentice.Getvalue
import Libmagic.Softmagic.Found
import Libmagic.Softmagic.Enough
import Libmagic.Softmagic.Flip
import Libmagic.Funcs.Buffer
import Libmagic.Apprentice.Sort
import Libmagic.Readelf.Safety
import Libmagic.Cdf.Safety
import Libmagic.Cdf.Truncated
import Libmagic.Cdf.Decode
import Libmagic.Cdf.Assertions
import Libmagic.Cdf.Time
import Libmagic.Format.Agree
import Libmagic.Format.Varexpand
import Libmagic.Softmagic.Indirect
import Libmagic.Softmagic.Mask
import Libmagic.Softmagic.Ops
import Libmagic.Softmagic.PstringTest
import Libmagic.Softmagic.RegexWindow
import Libmagic.Softmagic.Der
import Libmagic.Softmagic.DerWalk
import Libmagic.Softmagic.DerSafety
import Libmagic.Calendar
import Libmagic.Param
import Libmagic.Compress.Gzip
import Libmagic.Scan
import Libmagic.Builtin.Tar
import Libmagic.Builtin.Csv
import Libmagic.Builtin.Simh
import Libmagic.Encoding.Lines
import Libmagic.Encoding.FileEncoding
import Libmagic.Softmagic.Printf
import Libmagic.Funcs.Replace
import Libmagic.Funcs.Getbuffer
import Libmagic.Encoding.Ascmagic
import Libmagic.Encoding.Report
import Libmagic.Detect.Builtin
import Libmagic.Detect.FileBuffer
import Libmagic.Detect.Charset
import Libmagic.Detect.Magic
import Libmagic.Apprentice.Load
import Libmagic.Compress.Errors
import Libmagic.Compress.Pipe
import Libmagic.Compress.Child
import Libmagic.Compress.Descriptors
import Libmagic.Readelf.Virtaddr
import Libmagic.Readelf.Doshn
import Libmagic.Cdf.Catalog
import Libmagic.Softmagic.Guid
import Libmagic.Apprentice.Unescape
import Libmagic.Apprentice.Varint
import Libmagic.Format.Guard
import Libmagic.Softmagic.LevelTable
import Libmagic.Softmagic.Copy
import Libmagic.Apprentice.Extra
import Libmagic.Softmagic.SearchUse
import Libmagic.Apprentice.Modifiers
