import Libmagic.Memory
import Libmagic.Run
import Libmagic.Softmagic.Output

/-!
# `readelf.c`: the handlers of a note

The note buffer is memory that goes on behind its end with whatever is there, `size_t` is a
number below `2 ^ 64` and every byte of the buffer that is looked at is an event of the run.
The model has `ELFCORE`.
-/
namespace Libmagic.Readelf

open Softmagic

inductive Clazz where
  | elf32 | elf64
  deriving DecidableEq, Repr

/-- What the system answers. `malloc` has no block of `PTRDIFF_MAX` bytes or more. -/
structure Os where
  /-- `pread` at an offset, up to a number of bytes; `none` is `-1`. -/
  pread : Int → Nat → Option Bytes
  pread_length : ∀ off len bs, pread off len = some bs → bs.length ≤ len
  malloc : Nat → Bool
  malloc_lt : ∀ len, malloc len = true → len < 2 ^ 63
  errno : Nat

/-- A file without bytes. -/
instance : Inhabited Os where
  default :=
    { pread := fun _ _ => some []
      pread_length := by
        rintro _ len bs ⟨⟩
        exact Nat.zero_le len
      malloc := fun len => decide (len < 2 ^ 63)
      malloc_lt := fun _ h => of_decide_eq_true h
      errno := 0 }

/-- What all the routines are called with: the machine, `ms->flags`, `fd`, `clazz` and `swap`. -/
structure Elf where
  host : Host
  magicFlags : Nat
  os : Os
  clazz : Clazz
  swap : Bool

inductive Event where
  /-- `len` bytes from the index `p` of a note buffer of `size` bytes. -/
  | read (size p len : Nat)
  /-- A handler is called. -/
  | handler (size noff namesz doff descsz : Nat)
  /-- `--*notecount`, with the value before. -/
  | decrement (notecount : UInt16)
  deriving DecidableEq, Repr

/-- The part of `struct magic_set` that changes, and `*flags`. -/
structure Ms where
  io : Io
  mode : Nat
  flags : Nat

abbrev Prog := StateT Ms (Run Event)

/-- `size_t`. -/
def sz (n : Nat) : Nat := n % 2 ^ 64

def MAGIC_MIME : Nat := 0x410

def FLAGS_CORE_STYLE : Nat := 0x0003
def FLAGS_DID_CORE : Nat := 0x0004
def FLAGS_DID_OS_NOTE : Nat := 0x0008
def FLAGS_DID_BUILD_ID : Nat := 0x0010
def FLAGS_DID_CORE_STYLE : Nat := 0x0020
def FLAGS_DID_NETBSD_PAX : Nat := 0x0040
def FLAGS_DID_NETBSD_MARCH : Nat := 0x0080
def FLAGS_DID_NETBSD_CMODEL : Nat := 0x0100
def FLAGS_DID_NETBSD_EMULATION : Nat := 0x0200
def FLAGS_DID_NETBSD_UNKNOWN : Nat := 0x0400
def FLAGS_DID_ANDROID_MEMTAG : Nat := 0x0800
def FLAGS_IS_CORE : Nat := 0x1000
def FLAGS_DID_AUXV : Nat := 0x2000

/-- `*flags`. -/
def getFlags : Prog Nat := fun ms => pure (ms.flags, ms)

/-- `*flags |= bits`. -/
def setFlags (bits : Nat) : Prog Unit := fun ms => pure ((), { ms with flags := ms.flags ||| bits })

section Words

variable (e : Elf)

/-- `getu16`, `getu32` and `getu64` of a number of `n` bytes that was copied from memory. -/
def getu (n : Nat) (bs : Bytes) : Nat :=
  let value := (if e.host.bigendian then Order.big else Order.little).load bs
  if e.swap then Order.swap n value else value

/-- A member of a structure that was copied from a file, as the two classes have it. -/
def member (elf32 elf64 : Field) (bs : Bytes) : Nat :=
  match e.clazz with
  | .elf32 => getu e elf32.size (elf32.get bs)
  | .elf64 => getu e elf64.size (elf64.get bs)

/-- `elf_printf`; the result is `false` for `-1`. -/
def elfPrintf (fmt : String) (args : List Arg) : Prog Bool := fun ms =>
  if has e.magicFlags MAGIC_MIME then pure (true, ms)
  else
    let r := filePrintf e.host (asc fmt) args ms.io
    pure (r.1, { ms with io := r.2 })

/-- `file_error`. -/
def elfError (error : Nat) (fmt : String) (args : List Arg) : Prog Unit := fun ms =>
  pure ((), { ms with io := fileError e.host error (asc fmt) args ms.io })

/-- `if (elf_printf(ms, fmt, ...) == -1) return -1;` and what follows. -/
def printThen (fmt : String) (args : List Arg) (rest : Prog Int) : Prog Int := do
  let ok ← elfPrintf e fmt args
  if ok then rest else pure (-1)

end Words

/-- A note with what its handlers are called with. -/
structure Note where
  nbuf : Nat → UInt8
  size : Nat
  type : Nat
  namesz : Nat
  descsz : Nat
  noff : Nat
  doff : Nat

namespace Note

/-- `len` bytes of the buffer from an index on. A format with a precision may look at all of
them. -/
def bytes (n : Note) (p len : Nat) : Prog Bytes :=
  Run.once (.read n.size p len) ((List.range len).map (fun i => n.nbuf (p + i)))

def byte (n : Note) (p : Nat) : Prog UInt8 := Run.once (.read n.size p 1) (n.nbuf p)

/-- `memcmp(&nbuf[noff], v, len) == 0`. -/
def nameStarts (n : Note) (v : Bytes) (len : Nat) : Prog Bool := do
  let name ← n.bytes n.noff len
  pure (name == v.take len)

/-- `NAMEEQUALS`; the terminator of the name counts. -/
def nameEquals (n : Note) (v : String) : Prog Bool :=
  if n.namesz = v.length + 1 then n.nameStarts (asc v ++ [0]) n.namesz else pure false

/-- `file_copystr(buf, 256, width, &nbuf[p])`. -/
def copystr (n : Note) (width p : Nat) : Prog Arg := do
  let text ← n.bytes p (if width ≥ 256 then 255 else width)
  pure (.str (cstring text))

/-- `if (NAMEEQUALS(name, v) && type == t && fits) body`, and what follows. -/
def when (n : Note) (v : String) (type : Nat) (fits : Bool) (body rest : Prog Int) : Prog Int := do
  let same ← n.nameEquals v
  if same && n.type == type && fits then body else rest

/-- `memcpy(&desc, &nbuf[doff], sizeof(desc)); desc = elf_getu32(swap, desc);`. -/
def desc32 (n : Note) (e : Elf) : Prog Nat := do
  let bs ← n.bytes n.doff 4
  pure (getu e 4 bs)

end Note

section Handlers

variable (e : Elf) (n : Note)

/-- `while (ver_rel > 26) ...` of `do_note_netbsd_version`, and the letter behind it. -/
def netbsdRelease (verRel : Nat) : Prog Int :=
  if verRel > 26 then printThen e "Z" [] (netbsdRelease (verRel - 26))
  else printThen e "%c" [.int (0x41 + verRel - 1)] (pure 0)

/-- `do_note_netbsd_version`. -/
def doNoteNetbsdVersion : Prog Int := do
  let desc ← n.desc32 e
  printThen e ", for NetBSD" [] <|
    if desc > 100000000 then
      let verPatch := desc / 100 % 100
      let verRel := desc / 10000 % 100
      let verMin := desc / 1000000 % 100
      let verMaj := desc / 100000000
      printThen e " %u.%u" [.uint verMaj, .uint verMin] <|
        let patch := if verMaj ≥ 9 then verPatch + 100 * verRel else verPatch
        let rel := if verMaj ≥ 9 then 0 else verRel
        if rel = 0 ∧ patch ≠ 0 then printThen e ".%u" [.uint patch] (pure 0)
        else if rel ≠ 0 then netbsdRelease e rel
        else pure 0
    else pure 0

/-- `%d` of a `uint32_t`. -/
def dec (x : Nat) : Arg := .int (sN 32 x)

/-- `do_note_freebsd_version`. -/
def doNoteFreebsdVersion : Prog Int := do
  let desc ← n.desc32 e
  printThen e ", for FreeBSD" [] <|
    if desc = 460002 then printThen e " 4.6.2" [] (pure 0)
    else if desc < 460100 then
      printThen e " %d.%d" [dec (desc / 100000), dec (desc / 10000 % 10)] <|
        let tail : Prog Int :=
          if desc % 1000 > 0 ∨ desc % 100000 = 0 then printThen e " (%d)" [dec desc] (pure 0)
          else pure 0
        if desc / 1000 % 10 > 0 then printThen e ".%d" [dec (desc / 1000 % 10)] tail else tail
    else if desc < 500000 then
      printThen e " %d.%d" [dec (desc / 100000), dec (desc / 10000 % 10 + desc / 1000 % 10)] <|
        if desc / 100 % 10 > 0 then printThen e " (%d)" [dec desc] (pure 0)
        else if desc / 10 % 10 > 0 then printThen e ".%d" [dec (desc / 10 % 10)] (pure 0)
        else pure 0
    else
      printThen e " %d.%d" [dec (desc / 100000), dec (desc / 1000 % 100)] <|
        if desc / 100 % 10 > 0 ∨ desc % 100000 / 100 = 0 then printThen e " (%d)" [dec desc] (pure 0)
        else if desc / 10 % 10 > 0 then printThen e ".%d" [dec (desc / 10 % 10)] (pure 0)
        else pure 0

/-- `for (i = 0; i < descsz; i++) ... "%02x"` of `do_bid_note`. -/
def printHex : Bytes → Prog Int
  | [] => pure 1
  | b :: desc => printThen e "%02x" [.int b.toNat] (printHex desc)

def NT_GNU_BUILD_ID : Nat := 3
def NT_GO_BUILD_ID : Nat := 4

/-- The second half of `do_bid_note`. -/
def doGoNote : Prog Int :=
  if n.namesz = 4 then do
    let go ← n.nameStarts (asc "Go" ++ [0]) 3
    if go && n.type == NT_GO_BUILD_ID && decide (n.descsz < 128) then do
      let id ← n.copystr n.descsz n.doff
      printThen e ", Go BuildID=%s" [id] (pure 1)
    else pure 0
  else pure 0

/-- `do_bid_note`. -/
def doBidNote : Prog Int :=
  n.when "GNU" NT_GNU_BUILD_ID (decide (4 ≤ n.descsz) && decide (n.descsz ≤ 20))
    (do
      setFlags FLAGS_DID_BUILD_ID
      let btype :=
        if n.descsz = 8 then "xxHash" else if n.descsz = 16 then "md5/uuid"
        else if n.descsz = 20 then "sha1" else "unknown"
      printThen e ", BuildID[%s]=" [.str (asc btype)] do
        let desc ← n.bytes n.doff n.descsz
        printHex e desc)
    (doGoNote e n)

def NT_GNU_VERSION : Nat := 1
def NT_NETBSD_VERSION : Nat := 1
def NT_FREEBSD_VERSION : Nat := 1
def NT_OPENBSD_VERSION : Nat := 1
def NT_DRAGONFLY_VERSION : Nat := 1
def NT_ANDROID_VERSION : Nat := 1

/-- The `GNU_OS_*` names. -/
def gnuOs : Nat → String
  | 0 => "Linux"
  | 1 => "Hurd"
  | 2 => "Solaris"
  | 3 => "kFreeBSD"
  | 4 => "kNetBSD"
  | _ => "<unknown>"

def suseNote : Prog Int := do
  setFlags FLAGS_DID_OS_NOTE
  let major ← n.byte n.doff
  let minor ← n.byte (sz (n.doff + 1))
  printThen e ", for SuSE %d.%d" [.int major.toNat, .int minor.toNat] (pure 1)

def gnuNote : Prog Int := do
  let desc ← n.bytes n.doff 16
  setFlags FLAGS_DID_OS_NOTE
  let word (i : Nat) : Nat := getu e 4 ((⟨4 * i, 4⟩ : Field).get desc)
  printThen e ", for GNU/" [] <|
    printThen e (gnuOs (word 0)) [] <|
      printThen e " %d.%d.%d" [dec (word 1), dec (word 2), dec (word 3)] (pure 1)

/-- `if (version(ms, swap, &nbuf[doff]) == -1) return -1; return 1;`. -/
def versionNote (version : Prog Int) : Prog Int := do
  setFlags FLAGS_DID_OS_NOTE
  let rv ← version
  if rv = -1 then pure (-1) else pure 1

def openbsdNote : Prog Int := do
  setFlags FLAGS_DID_OS_NOTE
  printThen e ", for OpenBSD" [] (pure 1)

def dragonflyNote : Prog Int := do
  setFlags FLAGS_DID_OS_NOTE
  printThen e ", for DragonFly" [] do
    let desc ← n.desc32 e
    printThen e " %d.%d.%d" [dec (desc / 100000), dec (desc / 10000 % 10), dec (desc % 10000)] (pure 1)

/-- The one version note behind which `do_os_note` returns 0. -/
def androidNote : Prog Int := do
  setFlags FLAGS_DID_OS_NOTE
  let apiLevel ← n.desc32 e
  printThen e ", for Android %d" [dec apiLevel] <|
    if n.descsz ≥ 4 + 64 + 64 then do
      let release ← n.bytes (sz (n.doff + 4)) 64
      let build ← n.bytes (sz (n.doff + 4 + 64)) 64
      printThen e ", built by NDK %.64s (%.64s)" [.str (cstring release), .str (cstring build)] (pure 0)
    else pure 0

/-- `do_os_note`. -/
def doOsNote : Prog Int :=
  n.when "SuSE" NT_GNU_VERSION (n.descsz == 2) (suseNote e n) <|
  n.when "GNU" NT_GNU_VERSION (n.descsz == 16) (gnuNote e n) <|
  n.when "NetBSD" NT_NETBSD_VERSION (n.descsz == 4) (versionNote (doNoteNetbsdVersion e n)) <|
  n.when "FreeBSD" NT_FREEBSD_VERSION (n.descsz == 4) (versionNote (doNoteFreebsdVersion e n)) <|
  n.when "OpenBSD" NT_OPENBSD_VERSION (n.descsz == 4) (openbsdNote e) <|
  n.when "DragonFly" NT_DRAGONFLY_VERSION (n.descsz == 4) (dragonflyNote e n) <|
  n.when "Android" NT_ANDROID_VERSION (decide (n.descsz ≥ 4)) (androidNote e n) (pure 0)

/-- The loop over the names of the bits from `i` on; `did` is whether one was printed. -/
def printBits (desc : Nat) : Nat → Bool → List String → Prog Int
  | _, _, [] => pure 1
  | i, did, name :: names =>
      if desc.testBit i then
        printThen e "%s%s" [.str (asc (if did then "," else "")), .str (asc name)]
          (printBits desc (i + 1) true names)
      else printBits desc (i + 1) did names

/-- A description of four bytes whose bits have names. -/
def bitsNote (flag : Nat) (title : String) (names : List String) : Prog Int := do
  setFlags flag
  let desc ← n.desc32 e
  if desc ≠ 0 then printThen e title [] (printBits e desc 0 false names)
  else printBits e desc 0 false names

def NT_NETBSD_PAX : Nat := 3
def NT_ANDROID_MEMTAG : Nat := 4

/-- `do_pax_note`. -/
def doPaxNote : Prog Int :=
  n.when "PaX" NT_NETBSD_PAX (n.descsz == 4)
    (bitsNote e n FLAGS_DID_NETBSD_PAX ", PaX: "
      ["+mprotect", "-mprotect", "+segvguard", "-segvguard", "+ASLR", "-ASLR"])
    (pure 0)

/-- `do_memtag_note`. -/
def doMemtagNote : Prog Int :=
  n.when "Android" NT_ANDROID_MEMTAG (n.descsz == 4)
    (bitsNote e n FLAGS_DID_ANDROID_MEMTAG ", Android Memtag: " ["none", "async", "sync", "heap", "stack"])
    (pure 0)

end Handlers

/-! ## Core files -/

/-- `OS_STYLE_*`. -/
inductive OsStyle where
  | svr4 | freebsd | netbsd
  deriving DecidableEq, Repr

def OsStyle.code : OsStyle → Nat
  | svr4 => 0
  | freebsd => 1
  | netbsd => 2

/-- `os_style_names`. -/
def OsStyle.name : OsStyle → String
  | svr4 => "SVR4"
  | freebsd => "FreeBSD"
  | netbsd => "NetBSD"

def NT_NETBSD_CORE_PROCINFO : Nat := 1
def NT_PRPSINFO : Nat := 3
def NT_AUXV : Nat := 6

/-- `prpsoffsets32` and `prpsoffsets64`. -/
def prpsoffsets : Clazz → List Nat
  | .elf32 => [100, 84, 44, 28, 48, 32, 8]
  | .elf64 => [136, 120, 56, 40, 16]

def isquote (c : UInt8) : Bool := c == 0x27 || c == 0x22 || c == 0x60

section Core

variable (e : Elf) (n : Note)

/-- `CORE`, with or without its terminator. -/
def coreName : Prog Bool :=
  if n.namesz = 4 then do
    let core ← n.nameStarts (asc "CORE") 4
    if core then pure true else n.nameEquals "CORE"
  else n.nameEquals "CORE"

/-- `namesz >= 11 && memcmp(name, "NetBSD-CORE", 11) == 0`. -/
def netbsdCoreName : Prog Bool :=
  if n.namesz ≥ 11 then n.nameStarts (asc "NetBSD-CORE") 11 else pure false

/-- `os_style`, which the last name that fits decides; `none` is `-1`. -/
def osStyle : Prog (Option OsStyle) := do
  let svr4 ← coreName n
  let freebsd ← n.nameEquals "FreeBSD"
  let netbsd ← netbsdCoreName n
  pure (if netbsd then some .netbsd else if freebsd then some .freebsd
    else if svr4 then some .svr4 else none)

/-- `*flags |= FLAGS_DID_CORE; return rv;`. -/
def didCore (rv : Int) : Prog Int := do
  setFlags FLAGS_DID_CORE
  pure rv

/-- `sizeof(struct NetBSD_elfcore_procinfo)`. -/
def procinfoSize : Nat := 160

/-- The `NT_NETBSD_CORE_PROCINFO` case; what the note does not have is 0. -/
def procinfoNote : Prog Int := do
  let copied ← n.bytes n.doff (min n.descsz procinfoSize)
  let pi := copied ++ List.replicate (procinfoSize - copied.length) 0
  let word (off : Nat) : Arg := .uint (getu e 4 ((⟨off, 4⟩ : Field).get pi))
  let name := filePrintable (has e.magicFlags MAGIC_RAW) 511 ((⟨124, 32⟩ : Field).get pi)
  printThen e ", from '%.31s', pid=%u, uid=%u, gid=%u, nlwps=%u, lwp=%u (signal %u/code %u)"
    [.str name, word 80, word 100, word 112, word 120, word 156, word 8, word 12] (didCore 1)

/-- `argoff`. -/
def argoff : Nat := match e.clazz with
  | .elf32 => 4 + 4 + 17
  | .elf64 => 4 + 4 + 8 + 17

/-- The process id of the FreeBSD case. -/
def freebsdPid (pidoff : Nat) : Prog Int :=
  if sz (n.doff + pidoff + 4) ≤ n.size then do
    let bs ← n.bytes (n.doff + pidoff) 4
    printThen e ", pid=%u" [.uint (getu e 4 bs)] (didCore 0)
  else didCore 0

/-- The FreeBSD case, whose bounds are those of the buffer. -/
def freebsdCore : Prog Int :=
  if sz (n.doff + argoff e + 81) ≤ n.size then do
    let args ← n.bytes (n.doff + argoff e) 80
    printThen e ", from '%.80s'" [.str (cstring args)] (freebsdPid e n (argoff e + 81 + 2))
  else freebsdPid e n (argoff e + 81 + 2)

/-- The rounds of `for (j = 0; j < 16; ...)` that are left: the final `j`, or `none` for
`goto tryanother`. -/
def nameAt : (left j noffset reloffset : Nat) → Prog (Option Nat)
  | 0, j, _, _ => pure (some j)
  | left + 1, j, noffset, reloffset =>
      if noffset ≥ n.size then pure none
      else if reloffset ≥ n.descsz then pure none
      else do
        let c ← n.byte noffset
        if c = 0 then pure (if j = 0 then none else some j)
        else if !isprint c || isquote c then pure none
        else nameAt left (j + 1) (sz (noffset + 1)) (sz (reloffset + 1))

/-- Whether `count` bytes from `no` on are printable; the first that is not ends the search. -/
def allPrintable : (count no : Nat) → Prog Bool
  | 0, _ => pure true
  | count + 1, no => do
      let c ← n.byte no
      if isprint c then allPrintable count (no + 1) else pure false

/-- `for (k = i + 1; k < NOFFSETS; k++) ...`, over the offsets behind the one that was found. -/
def adjust (j : Nat) : (later : List Nat) → (found : Nat) → Prog Nat
  | [], found => pure found
  | off :: later, found =>
      if off ≥ found then adjust j later found
      else if off + 16 = found ∧ j = 16 then adjust j later found
      else do
        let printable ← allPrintable n (sz (n.doff + found) - sz (n.doff + off)) (sz (n.doff + off))
        if printable then adjust j later off else adjust j later found

/-- How far `cp` goes from an index, with `left` bytes up to the end of the buffer. -/
def printableEnd : (left cp : Nat) → Prog Nat
  | 0, cp => pure cp
  | left + 1, cp => do
      let c ← n.byte cp
      if c ≠ 0 ∧ isprint c then printableEnd left (cp + 1) else pure cp

/-- `while (cp > cname && isspace(cp[-1])) cp--`, as the length that is left. -/
def trimSpace (cname : Nat) : (len : Nat) → Prog Nat
  | 0 => pure 0
  | len + 1 => do
      let c ← n.byte (cname + len)
      if isspace c then trimSpace cname len else pure (len + 1)

/-- The loop over the offsets at which the program name may be. -/
def svr4Core : List Nat → Prog Int
  | [] => pure 0
  | off :: later => do
      let found ← nameAt n 16 0 (sz (n.doff + off)) off
      match found with
      | none => svr4Core later
      | some j => do
          let off ← adjust n j later off
          let cname := sz (n.doff + off)
          let cp ← printableEnd n (n.size - cname) cname
          let len ← trimSpace n cname (cp - cname)
          let name ← n.copystr len cname
          printThen e ", from '%s'" [name] (didCore 1)

/-- The `switch` of `do_core_note`; a name without a style is searched like SVR4. -/
def coreOf (style : Option OsStyle) : Prog Int := do
  let flags ← getFlags
  match style with
  | some .netbsd => if n.type = NT_NETBSD_CORE_PROCINFO then procinfoNote e n else pure 0
  | some .freebsd =>
      if n.type = NT_PRPSINFO ∧ has flags FLAGS_IS_CORE then freebsdCore e n else pure 0
  | _ =>
      if n.type = NT_PRPSINFO ∧ has flags FLAGS_IS_CORE then svr4Core e n (prpsoffsets e.clazz)
      else pure 0

/-- `do_core_note`. -/
def doCoreNote : Prog Int := do
  let style ← osStyle n
  let flags ← getFlags
  match style with
  | some s =>
      if has flags FLAGS_DID_CORE_STYLE then coreOf e n style
      else
        printThen e ", %s-style" [.str (asc s.name)] do
          setFlags FLAGS_DID_CORE_STYLE
          setFlags s.code
          coreOf e n style
  | none => coreOf e n style

/-! ### The auxiliary vector -/

/-- `sizeof` a program header. -/
def phSizeof : Nat := match e.clazz with
  | .elf32 => 32
  | .elf64 => 56

def phType (ph : Bytes) : Nat := member e ⟨0, 4⟩ ⟨0, 4⟩ ph
def phOffset (ph : Bytes) : Int := sN 64 (member e ⟨4, 4⟩ ⟨8, 8⟩ ph)
def phFilesz (ph : Bytes) : Nat := member e ⟨16, 4⟩ ⟨32, 8⟩ ph

/-- `xph_vaddr` and `xph_align`: 0 in the file is 4. -/
def orFour (x : Nat) : Nat := if x = 0 then 4 else x

def phVaddr (ph : Bytes) : Nat := orFour (member e ⟨8, 4⟩ ⟨16, 8⟩ ph)
def phAlign (ph : Bytes) : Nat := orFour (member e ⟨28, 4⟩ ⟨48, 8⟩ ph)

/-- `pread` of a whole structure; `none` where it is short. -/
def readAll (len : Nat) (off : Int) : Option Bytes :=
  (e.os.pread off len).filter (fun bs => bs.length == len)

def SIZE_UNKNOWN : Int := -1

/-- `get_offset_from_virtaddr`. -/
def getOffsetFromVirtaddr (fsize : Int) (virtaddr : Nat) : (num : Nat) → (off : Int) → Prog Int
  | 0, _ => pure 0
  | num + 1, off =>
      match readAll e (phSizeof e) off with
      | none => printThen e ", can't read elf program header at %jd" [.int off] (pure 0)
      | some ph =>
          if fsize ≠ SIZE_UNKNOWN ∧ phOffset e ph > fsize then
            getOffsetFromVirtaddr fsize virtaddr num (off + phSizeof e)
          else if phVaddr e ph ≤ virtaddr ∧ virtaddr < sz (phVaddr e ph + phFilesz e ph) then
            pure (sN 64 (phOffset e ph + (virtaddr - phVaddr e ph)))
          else getOffsetFromVirtaddr fsize virtaddr num (off + phSizeof e)

/-- `get_string_on_virtaddr` into a buffer of 256 bytes: the string, which is empty where the
source returns 0. -/
def getStringOnVirtaddr (phOff : Int) (phNum : Nat) (fsize : Int) (virtaddr : Nat) : Prog Bytes := do
  let offset ← getOffsetFromVirtaddr e fsize virtaddr phNum phOff
  let cannot : Prog Bytes := do
    let _ ← elfPrintf e ", can't read elf string at %jd" [.int offset]
    pure []
  if offset < 0 then cannot
  else match e.os.pread offset 256 with
    | none => cannot
    | some [] => cannot
    | some buf =>
        -- `buf[buflen - 1] = '\0'`
        let text := cstring buf.dropLast
        pure (if text.all isprint then text else [])

/-- The tags of `do_auxv_note`, and whether the value is the address of a string. -/
def auxvTag : Nat → Option (Bool × String)
  | 31 => some (true, "execfn")
  | 15 => some (true, "platform")
  | 11 => some (false, "real uid")
  | 13 => some (false, "real gid")
  | 12 => some (false, "effective uid")
  | 14 => some (false, "effective gid")
  | _ => none

/-- One element of the vector and what follows. -/
def auxvElement (phOff : Int) (phNum : Nat) (fsize : Int) (auxv : Bytes) (rest : Prog Int) : Prog Int :=
  let val := member e ⟨4, 4⟩ ⟨8, 8⟩ auxv
  match auxvTag (member e ⟨0, 4⟩ ⟨0, 8⟩ auxv) with
  | none => rest
  | some (true, tag) => do
      let buf ← getStringOnVirtaddr e phOff phNum fsize val
      if buf = [] then rest else printThen e ", %s: '%s'" [.str (asc tag), .str buf] rest
  | some (false, tag) => printThen e ", %s: %d" [.str (asc tag), .int (sN 32 val)] rest

/-- `sizeof` an element of the vector. -/
def auxvSizeof : Nat := match e.clazz with
  | .elf32 => 8
  | .elf64 => 16

/-- The loop of `do_auxv_note` with the elements it still takes. -/
def auxvFrom (phOff : Int) (phNum : Nat) (fsize : Int) : (left off : Nat) → Prog Int
  | left, off =>
      if off + auxvSizeof e ≤ n.descsz then do
        let auxv ← n.bytes (sz (n.doff + off)) (auxvSizeof e)
        match left with
        | 0 => do
            elfError e 0 "Too many ELF Auxv elements" []
            pure 1
        | left + 1 =>
            auxvElement e phOff phNum fsize auxv (auxvFrom phOff phNum fsize left (off + auxvSizeof e))
      else pure 1

/-- `do_auxv_note`. -/
def doAuxvNote (phOff : Int) (phNum : Nat) (fsize : Int) : Prog Int := do
  let flags ← getFlags
  if flags &&& (FLAGS_IS_CORE ||| FLAGS_DID_CORE_STYLE) ≠ FLAGS_IS_CORE ||| FLAGS_DID_CORE_STYLE then
    pure 0
  else if flags &&& FLAGS_CORE_STYLE ≠ OsStyle.svr4.code then pure 0
  else if n.type ≠ NT_AUXV then pure 0
  else do
    setFlags FLAGS_DID_AUXV
    auxvFrom e n phOff phNum fsize 50 0

end Core

end Libmagic.Readelf
