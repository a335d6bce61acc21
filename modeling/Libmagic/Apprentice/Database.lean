import Libmagic.Memory
import Libmagic.Softmagic.Types

/-!
# `apprentice.c`: the compiled database

What `apprentice_compile` writes and what `check_buffer` makes of a map. Memory is a
list of bytes, a `struct magic` is the 432 bytes it occupies, and a `struct magic *`
into the map is counted in entries from its start. The order is the byte order of the
machine that runs the code; `size_t` has 64 bits.
-/
namespace Libmagic.Apprentice

open Softmagic (Bytes MType)

/-! ## `struct magic` -/

def FILE_MAGICSIZE : Nat := 432
def MAGIC_SETS : Nat := 2
def MAGICNO : Nat := 0xF11E041C
def VERSIONNO : Nat := 21

namespace Member

def flag : Field := ⟨0, 2⟩
def contLevel : Field := ⟨2, 1⟩
def factor : Field := ⟨3, 1⟩
def reln : Field := ⟨4, 1⟩
def vallen : Field := ⟨5, 1⟩
def type : Field := ⟨6, 1⟩
def inType : Field := ⟨7, 1⟩
def inOp : Field := ⟨8, 1⟩
def maskOp : Field := ⟨9, 1⟩
def cond : Field := ⟨10, 1⟩
def factorOp : Field := ⟨11, 1⟩
def offset : Field := ⟨12, 4⟩
def inOffset : Field := ⟨16, 4⟩
def lineno : Field := ⟨20, 4⟩
/-- `_u._mask`, over the two words of `_u._s`. -/
def numMask : Field := ⟨24, 8⟩
def strRange : Field := ⟨24, 4⟩
def strFlags : Field := ⟨28, 4⟩
/-- `value.s`, and the other members of the union at the same place. -/
def value : Field := ⟨32, 128⟩
def valueQ : Field := ⟨32, 8⟩
def valueF : Field := ⟨32, 4⟩
def valueGuid : Field := ⟨32, 16⟩
def desc : Field := ⟨160, 64⟩
def mimetype : Field := ⟨224, 80⟩
def apple : Field := ⟨304, 8⟩
def ext : Field := ⟨312, 120⟩

end Member

/-- The bytes of one `struct magic`. -/
structure Entry where
  bytes : Bytes
  size : bytes.length = FILE_MAGICSIZE
  deriving DecidableEq

/-- `m->type`. -/
def typeCode (m : Bytes) : Nat := Order.little.load (Member.type.get m)

/-- The type of an entry is one of these. -/
def typeIn (types : List MType) (m : Bytes) : Bool := (types.map MType.code).contains (typeCode m)

/-- `IS_STRING(m->type)`. -/
def isString : Bytes → Bool :=
  typeIn [.string, .pstring, .bestring16, .lestring16, .regex, .search, .indirect, .name, .use,
    .octal]

/-! ## `bs1` and `byteswap` -/

/-- `m->f = file_swapN(m->f)`. -/
def swapMember (o : Order) (f : Field) (m : Bytes) : Bytes :=
  f.set m (o.store f.size (Order.swap f.size (o.load (f.get m))))

def bs1 (o : Order) (m : Bytes) : Bytes :=
  let m := swapMember o Member.flag m
  let m := swapMember o Member.offset m
  let m := swapMember o Member.inOffset m
  let m := swapMember o Member.lineno m
  if isString m then swapMember o Member.strFlags (swapMember o Member.strRange m)
  else swapMember o Member.numMask (swapMember o Member.valueQ m)

/-- The place of `magic[i]` in the map. -/
def slot (i : Nat) : Field := ⟨FILE_MAGICSIZE * i, FILE_MAGICSIZE⟩

/-- `byteswap(magic, nmagic)`, with `magic` as the number of its entry. -/
def byteswap (o : Order) (p : Bytes) (magic : Nat) : Nat → Bytes
  | 0 => p
  | nmagic + 1 =>
      byteswap o ((slot magic).set p (bs1 o ((slot magic).get p))) (magic + 1) nmagic

/-! ## `check_buffer` -/

/-- The `struct magic_map` of an accepted map. -/
structure Map where
  p : Bytes
  magic0 : Nat
  nmagic0 : Nat
  magic1 : Nat
  nmagic1 : Nat

/-- What `check_buffer` reports. -/
inductive LoadError where
  | tooFew (entries : Nat)
  | notMultiple (len : Nat)
  | badMagic
  | version (version : Nat)
  | nmagicTooLarge (set : Nat)
  | inconsistent (entries nentries : Nat)
  deriving DecidableEq, Repr

/-- The text that `file_error` is given, with its arguments in place. -/
def LoadError.text (dbname fileVersion : String) : LoadError → String
  | tooFew entries => "Too few magic entries " ++ toString entries ++ " in `" ++ dbname ++ "'"
  | notMultiple len =>
      "Size of `" ++ dbname ++ "' " ++ toString len ++ " is not a multiple of " ++
        toString FILE_MAGICSIZE
  | badMagic => "bad magic in `" ++ dbname ++ "'"
  | version v =>
      "File " ++ fileVersion ++ " supports only version " ++ toString VERSIONNO ++
        " magic files. `" ++ dbname ++ "' is version " ++ toString v
  | nmagicTooLarge set => "nmagic[" ++ toString set ++ "] too large in `" ++ dbname ++ "'"
  | inconsistent entries nentries =>
      "Inconsistent entries in `" ++ dbname ++ "' " ++ toString entries ++ " != " ++
        toString nentries

/-- `ptr[i]`. -/
def word (o : Order) (p : Bytes) (i : Nat) : Nat := o.load ((⟨4 * i, 4⟩ : Field).get p)

/-- The sets while the loop of `check_buffer` is at them: the place of the next one,
and the `uint32_t` sum of the counters so far. -/
structure Sets where
  next : Nat
  nentries : Nat

/-- A round of that loop, with the counter of set `i`. -/
def takeSet (entries : Nat) (sets : Sets) (i nmagic : Nat) : Except LoadError Sets :=
  if nmagic > entries then .error (.nmagicTooLarge i)
  else .ok ⟨sets.next + nmagic, (sets.nentries + nmagic) % 2 ^ 32⟩

/-- `check_buffer` behind the checks of the size and of `*ptr`. `get` is `ptr[i]`, swapped
if need be. -/
def checkSets (entries : Nat) (get : Nat → Nat) (p : Bytes) : Except LoadError Map :=
  if get 1 ≠ VERSIONNO then .error (.version (get 1))
  else do
    let first ← takeSet entries ⟨1, 0⟩ 0 (get 2)
    let second ← takeSet entries first 1 (get 3)
    let nentries := (second.nentries + 1) % 2 ^ 32
    if entries ≠ nentries then .error (.inconsistent entries nentries)
    else .ok ⟨p, 1, get 2, first.next, get 3⟩

/-- `byteswap` of both sets. -/
def swapSets (o : Order) (map : Map) : Map :=
  { map with p := byteswap o (byteswap o map.p map.magic0 map.nmagic0) map.magic1 map.nmagic1 }

/-- `check_buffer`, with the map as it is left. -/
def checkBuffer (o : Order) (p : Bytes) : Except LoadError Map :=
  let entries := p.length / FILE_MAGICSIZE % 2 ^ 32
  if entries < MAGIC_SETS then .error (.tooFew entries)
  else if entries * FILE_MAGICSIZE % 2 ^ 64 ≠ p.length then .error (.notMultiple p.length)
  else if word o p 0 = MAGICNO then checkSets entries (word o p) p
  else if Order.swap 4 (word o p 0) = MAGICNO then
    (checkSets entries (fun i => Order.swap 4 (word o p i)) p).map (swapSets o)
  else .error .badMagic

/-- `magic[set][j]`, for the two sets of a map. -/
def Map.entry0 (map : Map) (j : Nat) : Bytes := (slot (map.magic0 + j)).get map.p

def Map.entry1 (map : Map) (j : Nat) : Bytes := (slot (map.magic1 + j)).get map.p

/-! ## `apprentice_compile` -/

/-- `coalesce_entries`, for entries with their continuations. -/
def coalesceEntries (me : List (List Entry)) : Option (List Entry) :=
  if (me.map List.length).sum > (2 ^ 32 - 1) / FILE_MAGICSIZE then none else some me.flatten

/-- `hdr`: four words in the place of one entry. -/
def header (o : Order) (nmagic0 nmagic1 : Nat) : Bytes :=
  o.store 4 MAGICNO ++ o.store 4 VERSIONNO ++ o.store 4 nmagic0 ++ o.store 4 nmagic1 ++
    List.replicate (FILE_MAGICSIZE - 16) 0

/-- The bytes of an array of entries. -/
def image (set : List Entry) : Bytes := set.flatMap Entry.bytes

/-- What `apprentice_compile` writes, where every `write` succeeds. -/
def apprenticeCompile (o : Order) (set0 set1 : List Entry) : Bytes :=
  header o set0.length set1.length ++ image set0 ++ image set1

end Libmagic.Apprentice
