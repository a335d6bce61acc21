import Libmagic.Cdf.Chain

/-!
# `cdf.c`: property sets

Pointers are addresses here, because `cdf_read_property_info` compares addresses of the stream
with the address of its own variable `sh`. What is read of the stream and what is stored of it
are events.
-/
namespace Libmagic.Cdf

open Softmagic

/-- Where the stream and the variable `sh` are in memory. They are two objects. -/
structure Place where
  tab : Nat
  sh : Nat

/-- `len` bytes from an address on, which are read or kept as a string. -/
structure Span where
  addr : Nat
  len : Nat
  deriving DecidableEq, Repr

/-- `pi_val`, as far as it was written. -/
inductive PiVal where
  | untouched
  /-- A scalar, or memory that was set to 0. -/
  | num (n : Nat)
  /-- `s_buf` and `s_len`. -/
  | str (buf len : Nat)
  deriving DecidableEq, Repr

/-- `cdf_property_info_t`. -/
structure Property where
  id : Nat
  type : Nat
  val : PiVal
  deriving DecidableEq, Repr

/-- What `realloc` does: whether it succeeds, and what is in the new members. -/
structure Heap where
  realloc : Nat → Bool
  fresh : Nat → Property

def CDF_ELEMENT_LIMIT : Nat := 100000

/-- `sizeof(cdf_property_info_t)`. -/
def propertySizeof : Nat := 24

def CDF_SHLEN_LIMIT : Nat := (2 ^ 32 - 1) / 64
def CDF_PROP_LIMIT : Nat := (2 ^ 32 - 1) / (64 * propertySizeof)

def CDF_VECTOR : Nat := 0x1000
def CDF_ARRAY : Nat := 0x2000
def CDF_BYREF : Nat := 0x4000
def CDF_RESERVED : Nat := 0x8000
def CDF_TYPEMASK : Nat := 0xfff

/-- What the `switch` over the type of a property does. -/
inductive Kind where
  /-- `CDF_NULL` and `CDF_EMPTY`. -/
  | nothing
  /-- The types that are copied, with their size. -/
  | scalar (len : Nat)
  /-- `CDF_LENGTH32_STRING` and `CDF_LENGTH32_WSTRING`. -/
  | string
  | clipboard
  | other
  deriving DecidableEq, Repr

/-- `switch (pi_type & CDF_TYPEMASK)`. -/
def kind (type : Nat) : Kind :=
  match type &&& CDF_TYPEMASK with
  | 0x00 | 0x01 => .nothing
  | 0x02 => .scalar 2
  | 0x03 | 0x0b | 0x13 | 0x04 => .scalar 4
  | 0x14 | 0x15 | 0x05 | 0x40 => .scalar 8
  | 0x1e | 0x1f => .string
  | 0x47 => .clipboard
  | _ => .other

/-- `cdf_grow_info`. -/
def cdfGrowInfo (heap : Heap) (info : List Property) (incr : Nat) : Option (List Property) :=
  if info.length + incr > CDF_PROP_LIMIT then none
  else if heap.realloc ((info.length + incr) * propertySizeof) then
    some (info ++ (List.range incr).map (fun k => heap.fresh (info.length + k)))
  else none

section Read

variable (sst : Stream) (place : Place)

/-- The bytes of the stream, as `cdf_check_stream_offset` counts them. -/
def streamSize : Nat := sz (sst.ss * sst.len)

/-- `cdf_check_stream_offset(sst, h, p, tail)`, which is true for 0. The sector size is the one
that `cdf_check_stream` returns. -/
def cdfCheckStreamOffset (p tail : Nat) : Bool :=
  decide (p + tail ≥ place.tab) && decide (p + tail - place.tab ≤ streamSize sst)

/-- A little-endian number of the stream. -/
def numberAt (p len : Nat) : Run Span Nat :=
  .event ⟨p, len⟩ (word ⟨p - place.tab, len⟩ sst.tab)

/-- `CDF_GETUINT32(p, offs)`. -/
def cdfGetuint32 (p offs : Nat) : Run Span Nat := numberAt sst place (p + offs * 4) 4

/-- `cdf_get_property_info_pos`; `none` is `NULL`. -/
def cdfGetPropertyInfoPos (p e i : Nat) : Run Span (Option Nat) :=
  let tail := 2 * i + 1
  if p ≥ e then pure none
  else if !cdfCheckStreamOffset sst place p ((tail + 1) * 4) then pure none
  else do
    let ofs ← cdfGetuint32 sst place p tail
    if ofs < 8 then pure none
    else if ofs - 8 > e - p then pure none
    else pure (some (p + (ofs - 8)))

/-- `cdf_copy_info`: the number, or `none` for 0. -/
def cdfCopyInfo (type p e len : Nat) : Run Span (Option Nat) :=
  if has type CDF_VECTOR then pure none
  else if uN 64 ((e : Int) - p) < len then pure none
  else do
    let n ← numberAt sst place p len
    pure (some n)

/-- A member with other contents. -/
def setVal (info : List Property) (i : Nat) (val : PiVal) : List Property :=
  info.modify i (fun property => { property with val := val })

/-- The loop over the elements that are left of a vector of strings. The members that it fills
are those from `inp + i` on, and `i` is the index of the properties. -/
def readStrings (properties inp q left : Nat) : (elements i o4 slen : Nat) → List Property →
    Run Span (Option (Nat × List Property))
  | 0, i, _, _, info => pure (some (i, info))
  | elements + 1, i, o4, slen, info =>
      if i < properties then
        if o4 + 4 > left then pure none
        else do
          let l ← cdfGetuint32 sst place q slen
          if o4 + 4 + l > left then pure none
          else do
            Run.event ⟨q + (o4 + 4), l⟩ ()
            let info := setVal info (inp + i) (.str (q + (o4 + 4)) l)
            let slen := slen + (if l % 2 = 1 then (l + 1) % 2 ^ 32 else l) / 2
            readStrings properties inp q left elements (i + 1) (slen * 4) slen info
      else pure (some (i, info))

/-- The state of the loop over the properties: `i` and `*info`. -/
structure PropertyState where
  i : Nat
  info : List Property

/-- How a round ends: it goes on, or `goto out`. -/
abbrev Round := PropertyState ⊕ Option (List Property)

/-- The next property, with a value for this one. -/
def nextWith (s : PropertyState) (inp : Nat) (info : List Property) (val : PiVal) : Run Span Round :=
  pure (.inl ⟨s.i + 1, setVal info (inp + s.i) val⟩)

/-- The `switch`, for a property at `q` with `left` bytes up to `e`. -/
def readValue (heap : Heap) (properties inp q e left : Nat) (type nelements slen : Nat)
    (s : PropertyState) (info : List Property) : Run Span Round :=
  if has type (CDF_ARRAY ||| CDF_BYREF ||| CDF_RESERVED) then nextWith s inp info (.num 0)
  else match kind type with
    | .nothing => pure (.inl ⟨s.i + 1, info⟩)
    | .scalar len => do
        let n ← cdfCopyInfo sst place type (q + slen * 4) e len
        nextWith s inp info (.num (n.getD 0))
    | .string =>
        match if nelements > 1 then cdfGrowInfo heap info nelements else some info with
        | none => pure (.inr none)
        | some info => do
            let r ← readStrings sst place properties inp q left nelements s.i (slen * 4) slen info
            match r with
            | none => pure (.inr none)
            | some (i, info) => pure (.inl ⟨i, info⟩)
    | .clipboard =>
        if has type CDF_VECTOR then nextWith s inp info (.num 0) else pure (.inl ⟨s.i + 1, info⟩)
    | .other => nextWith s inp info (.num 0)

/-- A property at `q`, whose table entry has the number `id`. -/
def readProperty (heap : Heap) (properties inp q e id : Nat) (s : PropertyState) : Run Span Round :=
  let left := e - q
  if left < 4 then pure (.inr none)
  else do
    let type ← cdfGetuint32 sst place q 0
    let info := s.info.modify (inp + s.i) (fun property => { property with id, type })
    if has type CDF_VECTOR then
      if left < 8 then pure (.inr none)
      else do
        let nelements ← cdfGetuint32 sst place q 1
        if nelements > CDF_ELEMENT_LIMIT ∨ nelements = 0 then pure (.inr none)
        else readValue sst place heap properties inp q e left type nelements 2 s info
    else readValue sst place heap properties inp q e left type 1 1 s info

/-- A round of `for (i = 0; i < sh.sh_properties; i++)`. -/
def propertyRound (heap : Heap) (properties inp p e : Nat) (s : PropertyState) : Run Span Round :=
  if s.i < properties then do
    let pos ← cdfGetPropertyInfoPos sst place p e s.i
    match pos with
    | none => pure (.inr none)
    | some q => do
        let id ← cdfGetuint32 sst place p (2 * s.i)
        readProperty sst place heap properties inp q e id s
  else pure (.inr (some s.info))

/-- `cdf_read_property_info` behind the header of the section. -/
def readProperties (heap : Heap) (offs shLen properties : Nat) (info : List Property) (count : Nat) :
    Run Span (Option (List Property × Nat)) :=
  -- both ends are those of `sh`, not those of the header in the stream
  if !cdfCheckStreamOffset sst place place.sh shLen then pure none
  else if properties > CDF_PROP_LIMIT then pure none
  else match cdfGrowInfo heap info properties with
    | none => pure none
    | some info =>
        let p := place.tab + (offs + 8)
        let e := place.sh + shLen
        if p ≥ e ∨ !cdfCheckStreamOffset sst place e 0 then pure none
        else do
          let r ← Run.loop (propertyRound sst place heap properties count p e) (properties + 1) ⟨0, info⟩
          pure (r.map (fun info => (info, count + properties)))

/-- `cdf_read_property_info`: `*info` and `*count`, or `none` for `-1`. -/
def cdfReadPropertyInfo (heap : Heap) (offs : Nat) (info : List Property) (count : Nat) :
    Run Span (Option (List Property × Nat)) :=
  if offs > (2 ^ 32 - 1) / 4 then pure none
  else if !cdfCheckStreamOffset sst place (place.tab + offs) 8 then pure none
  else do
    let shLen ← numberAt sst place (place.tab + offs) 4
    let properties ← numberAt sst place (place.tab + offs + 4) 4
    if shLen > CDF_SHLEN_LIMIT then pure none
    else readProperties sst place heap offs shLen properties info count

end Read

end Libmagic.Cdf
