import Mathlib.Data.List.Basic
import Mathlib.Data.Nat.Bitwise

/-!
# `file.h`: magic entries, buffers and the matching state

Fixed-width integers are `Nat` and `Int` with the wrap written out. A pointer
into a buffer is the list of bytes from it to the end of that buffer. The
fields of `struct magic_set` that matching changes are in `Ms`; those it only
reads are in `Env`, with the C library and the machine in `Host`.
-/
namespace Libmagic.Softmagic

abbrev Bytes := List UInt8

/-- A string constant of the source. -/
def asc (s : String) : Bytes := s.toList.map (fun c => UInt8.ofNat c.toNat)

/-- The text up to its terminator. -/
def cstring (s : Bytes) : Bytes := s.takeWhile (· != 0)

/-- Conversion to an unsigned integer of `w` bits. -/
def uN (w : Nat) (x : Int) : Nat := (x % 2 ^ w).toNat

/-- Conversion to a signed integer of `w` bits. -/
def sN (w : Nat) (x : Int) : Int := (x + 2 ^ (w - 1)) % 2 ^ w - 2 ^ (w - 1)

def leNat : Bytes → Nat
  | [] => 0
  | b :: bs => b.toNat + 256 * leNat bs

def beNat (bs : Bytes) : Nat := leNat bs.reverse

/-- `FILE_*`; `other` is a value of the byte that has no name. -/
inductive MType where
  | invalid | byte | short | default | long | string | date | beshort | belong | bedate
  | leshort | lelong | ledate | pstring | ldate | beldate | leldate | regex | bestring16
  | lestring16 | search | medate | meldate | melong | quad | lequad | bequad | qdate
  | leqdate | beqdate | qldate | leqldate | beqldate | float | befloat | lefloat | double
  | bedouble | ledouble | beid3 | leid3 | indirect | qwdate | leqwdate | beqwdate | name | use
  | clear | der | guid | leguid | beguid | offset | bevarint | levarint | msdosdate
  | lemsdosdate | bemsdosdate | msdostime | lemsdostime | bemsdostime | octal
  | other (code : Nat)
  deriving DecidableEq, Repr

/-- The number of a type; the constructors are in the order of `FILE_*`. -/
def MType.code : MType → Nat
  | .other code => code
  | type => type.ctorIdx

/-- `m->reln`. -/
inductive Reln where
  | any | ne | eq | gt | lt | and | xor | other (c : UInt8)
  deriving DecidableEq, Repr

/-- The character of a relation. -/
def Reln.char : Reln → UInt8
  | .any => 0x78
  | .ne => 0x21
  | .eq => 0x3d
  | .gt => 0x3e
  | .lt => 0x3c
  | .and => 0x26
  | .xor => 0x5e
  | .other c => c

/-- `COND_*`. -/
inductive Cond where
  | none | if' | elif | else'
  deriving DecidableEq, Repr

def INDIR : Nat := 0x01
def OFFADD : Nat := 0x02
def INDIROFFADD : Nat := 0x04
def UNSIGNED : Nat := 0x08
def NOSPACE : Nat := 0x10
def BINTEST : Nat := 0x20
def TEXTTEST : Nat := 0x40
def OFFNEGATIVE : Nat := 0x80
def OFFPOSITIVE : Nat := 0x100

def FILE_OPSIGNED : Nat := 0x20
def FILE_OPINVERSE : Nat := 0x40
def FILE_OPINDIRECT : Nat := 0x80

def STRING_COMPACT_WHITESPACE : Nat := 0x1
def STRING_COMPACT_OPTIONAL_WHITESPACE : Nat := 0x2
def STRING_IGNORE_LOWERCASE : Nat := 0x4
def STRING_IGNORE_UPPERCASE : Nat := 0x8
def REGEX_OFFSET_START : Nat := 0x10
def STRING_TEXTTEST : Nat := 0x20
def STRING_BINTEST : Nat := 0x40
def PSTRING_1_LE : Nat := 0x80
def PSTRING_2_BE : Nat := 0x100
def PSTRING_2_LE : Nat := 0x200
def PSTRING_4_BE : Nat := 0x400
def PSTRING_4_LE : Nat := 0x800
def REGEX_LINE_COUNT : Nat := 0x800
def PSTRING_LEN : Nat := 0xf80
def PSTRING_LENGTH_INCLUDES_ITSELF : Nat := 0x1000
def STRING_TRIM : Nat := 0x2000
def STRING_FULL_WORD : Nat := 0x4000
def INDIRECT_RELATIVE : Nat := 0x1

def MAGIC_MIME_TYPE : Nat := 0x10
def MAGIC_CONTINUE : Nat := 0x20
def MAGIC_CHECK : Nat := 0x40
def MAGIC_RAW : Nat := 0x100
def MAGIC_APPLE : Nat := 0x800
def MAGIC_EXTENSION : Nat := 0x1000000
/-- `MAGIC_EXTENSION|MAGIC_MIME|MAGIC_APPLE`. -/
def MAGIC_NODESC : Nat := 0x1000c10

/-- `flags & bit`, as a truth value. -/
def has (flags bit : Nat) : Bool := flags &&& bit != 0

/-- `errno` after an allocation failed. -/
def ENOMEM : Nat := 12

/-- `FILE_BADSIZE`, a `size_t`. -/
def FILE_BADSIZE : Nat := 2 ^ 64 - 1

/-- `union VALUETYPE`: 128 bytes. -/
structure Value where
  bytes : Bytes
  size : bytes.length = 128
  deriving DecidableEq

namespace Value

def zero : Value := ⟨List.replicate 128 0, List.length_replicate⟩

/-- `memcpy` of `bs` into the union at `i`, inside its 128 bytes. -/
def write (v : Value) (i : Nat) (bs : Bytes) : Value :=
  ⟨(v.bytes.take i ++ bs ++ v.bytes.drop (i + bs.length)).take 128, by
    have := v.size
    simp only [List.length_take, List.length_append, List.length_drop]
    omega⟩

def get (v : Value) (i : Nat) : UInt8 := v.bytes.getD i 0

/-- The text `s` up to its terminator. -/
def str (v : Value) : Bytes := v.bytes.takeWhile (· != 0)

end Value

/-- `struct magic`. The union of `num_mask` with `str_range` and `str_flags` is
kept as the two words. -/
structure Magic where
  flag : Nat
  contLevel : Nat
  reln : Reln
  vallen : Nat
  type : MType
  inType : MType
  inOp : Nat
  maskOp : Nat
  cond : Cond
  offset : Int
  inOffset : Int
  lineno : Nat
  strRange : Nat
  strFlags : Nat
  value : Value
  desc : Bytes
  mimetype : Bytes
  apple : Bytes
  ext : Bytes
  deriving DecidableEq

/-- `IS_STRING`. -/
def MType.isString : MType → Bool
  | .string | .pstring | .bestring16 | .lestring16 | .regex | .search | .indirect | .name | .use
  | .octal => true
  | _ => false

/-- Arguments of a format. -/
inductive Arg where
  | str (s : Bytes)
  | int (n : Int)
  | uint (n : Nat)
  | float (bits : Nat)
  | double (bits : Nat)

/-- What `regexec` returns. -/
inductive RegResult where
  | found (so eo : Int)
  | noMatch
  | error

/-- The machine and the C library. -/
structure Host where
  bigendian : Bool
  haveMemmem : Bool
  /-- Whether the `n`th allocation succeeds. -/
  malloc : Nat → Bool
  /-- The text of a format with its arguments, or `none` for a negative return. -/
  vasprintf : Bytes → List Arg → Option Bytes
  strerror : Nat → Bytes
  /-- Whether `fmtcheck` accepts the first format in place of the second. -/
  fmtcheck : Bytes → Bytes → Bool
  /-- The code and text of the error of `regcomp`, if any; the flag is `REG_ICASE`. -/
  regcomp : Bytes → Bool → Option (Nat × Bytes)
  regexec : Bytes → Bool → Bytes → RegResult
  /-- `file_fmtdatetime`, `file_fmtdate` and `file_fmttime`, which call the library. -/
  fmtdatetime : Nat → Nat → Bytes
  fmtdate : Nat → Bytes
  fmttime : Nat → Bytes

/-- `num_mask`, read off the two words it overlays. -/
def Magic.numMask (m : Magic) (host : Host) : Nat :=
  if host.bigendian then m.strRange * 2 ^ 32 + m.strFlags else m.strFlags * 2 ^ 32 + m.strRange

/-- The part of `struct magic_set` that matching reads, and the machine. -/
structure Env where
  host : Host
  flags : Nat
  mode : Nat
  /-- `mlist[0]` and `mlist[1]`. -/
  mlist : List (List Magic)
  mlistNamed : List (List Magic)
  indirMax : Nat
  nameMax : Nat
  regexMax : Nat

/-- `ms->o.buf`, the error state and `ms->line`. `blen` is the length of `buf`.
`tick` counts allocations. -/
structure Io where
  buf : Option Bytes
  hadErr : Bool
  error : Nat
  line : Nat
  tick : Nat
  deriving DecidableEq

/-- `ms->search`. -/
structure Search where
  s : Option Bytes
  sLen : Nat
  offset : Nat
  rmLen : Nat
  deriving DecidableEq

/-- `struct level_info`. -/
structure LevelInfo where
  off : Int
  gotMatch : Bool
  lastMatch : Bool
  lastCond : Cond
  deriving DecidableEq

/-- `struct cont`. What `li` holds at `len` and beyond is arbitrary, as in memory
that was just allocated; `live` says that `li` is not `NULL`. -/
structure Cont where
  len : Nat
  live : Bool
  li : Nat → LevelInfo

/-- The part of `struct magic_set` that matching changes. -/
structure Ms where
  c : Cont
  io : Io
  offset : Nat
  eoffset : Nat
  search : Search
  value : Value

/-- `fbuf` and `flen` of a `struct buffer`; `none` is `NULL`. -/
abbrev Window := Option Bytes

/-- `flen`. -/
def flen (w : Window) : Nat := (w.getD []).length

/-- What a file descriptor gives. -/
structure File where
  /-- `S_ISREG(st.st_mode)` -/
  regular : Bool
  /-- `st.st_size` -/
  size : Nat
  /-- The `n` bytes `pread` returns at an offset, or `none` if it returns another number. -/
  pread : Nat → Nat → Option Bytes

/-- `struct buffer`; no `file` is `fd == -1`. -/
structure Buffer where
  file : Option File
  fbuf : Window
  ebuf : Window
  elen : Nat

/-- `buffer_fill`, with its return value as a success flag. -/
def bufferFill (host : Host) (b : Buffer) (io : Io) : Bool × Buffer × Io :=
  if b.elen ≠ 0 then (b.elen != FILE_BADSIZE, b, io)
  else match b.file with
    | none => (true, b, io)
    | some f =>
        if !f.regular then (false, { b with elen := FILE_BADSIZE }, io)
        else
          let elen := if f.size < flen b.fbuf then f.size else flen b.fbuf
          if elen = 0 then (true, { b with ebuf := none, elen := 0 }, io)
          else if !host.malloc io.tick then
            (false, { b with ebuf := none, elen := FILE_BADSIZE }, { io with tick := io.tick + 1 })
          else match f.pread elen (f.size - elen) with
            | none =>
                (false, { b with ebuf := none, elen := FILE_BADSIZE }, { io with tick := io.tick + 1 })
            | some data => (true, { b with ebuf := some data, elen }, { io with tick := io.tick + 1 })

end Libmagic.Softmagic
