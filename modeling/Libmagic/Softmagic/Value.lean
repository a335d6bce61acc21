import Libmagic.Softmagic.Output

/-!
# `softmagic.c`: loading and converting the tested value

`mcopy`, `mconvert` and the arithmetic of indirect offsets. Signed and unsigned
views of the union are the same bytes, so values are kept unsigned and the sign
is applied where the source casts.
-/
namespace Libmagic.Softmagic

/-! ## Fields of the union -/

/-- The integer in the first `n` bytes, in the machine's order. -/
def Value.load (v : Value) (host : Host) (n : Nat) : Nat :=
  if host.bigendian then beNat (v.bytes.take n) else leNat (v.bytes.take n)

/-- The `n` bytes of an integer, in little-endian order. -/
def leBytes : Nat → Nat → Bytes
  | 0, _ => []
  | n + 1, x => UInt8.ofNat (x % 256) :: leBytes n (x / 256)

def Value.store (v : Value) (host : Host) (n x : Nat) : Value :=
  v.write 0 (if host.bigendian then (leBytes n x).reverse else leBytes n x)

/-- `ME32(p)`. -/
def meNat (bs : Bytes) : Nat :=
  let b (i : Nat) := (bs.getD i 0).toNat
  b 1 * 2 ^ 24 + b 0 * 2 ^ 16 + b 3 * 2 ^ 8 + b 2

/-- `file_signextend`, on a `uint64_t`. -/
def fileSignextend (m : Magic) (v : Nat) : Nat :=
  if has m.flag UNSIGNED then v
  else match m.type with
    | .byte => uN 64 (sN 8 v)
    | .short | .beshort | .leshort => uN 64 (sN 16 v)
    | .date | .bedate | .ledate | .medate | .ldate | .beldate | .leldate | .meldate
    | .long | .belong | .lelong | .melong | .float | .befloat | .lefloat
    | .msdosdate | .bemsdosdate | .lemsdosdate | .msdostime | .bemsdostime | .lemsdostime =>
        uN 64 (sN 32 v)
    | .quad | .bequad | .lequad | .qdate | .qldate | .qwdate | .beqdate | .beqldate | .beqwdate
    | .leqdate | .leqldate | .leqwdate | .double | .bedouble | .ledouble | .offset | .bevarint
    | .levarint => v
    | .string | .pstring | .bestring16 | .lestring16 | .regex | .search | .default | .indirect
    | .name | .use | .clear | .der | .guid | .leguid | .beguid | .octal => v
    | .invalid | .beid3 | .leid3 | .other _ => FILE_BADSIZE

/-- `cvt_flip`. -/
def cvtFlip (type : MType) (flip : Bool) : MType :=
  if !flip then type
  else match type with
    | .beshort => .leshort
    | .belong => .lelong
    | .bedate => .ledate
    | .beldate => .leldate
    | .bequad => .lequad
    | .beqdate => .leqdate
    | .beqldate => .leqldate
    | .beqwdate => .leqwdate
    | .leshort => .beshort
    | .lelong => .belong
    | .ledate => .bedate
    | .leldate => .beldate
    | .lequad => .bequad
    | .leqdate => .beqdate
    | .leqldate => .beqldate
    | .leqwdate => .beqwdate
    | .befloat => .lefloat
    | .lefloat => .befloat
    | .bedouble => .ledouble
    | .ledouble => .bedouble
    | .bemsdosdate => .lemsdosdate
    | .lemsdosdate => .bemsdosdate
    | .bemsdostime => .lemsdostime
    | .lemsdostime => .bemsdostime
    | type => type

/-! ## Mask operations -/

/-- `DO_CVT1` on a field of `w` bits that holds `x`: `none` is `return -1`. -/
def doCvt (w : Nat) (unsigned : Bool) (maskOp mask x : Nat) : Option Nat :=
  let k := mask % 2 ^ w
  -- `CHECKOVFL`
  let overflows := !unsigned && (w == 32 || w == 64) && x == 2 ^ (w - 1) && k == 2 ^ w - 1
  let masked :=
    if mask = 0 then some x
    else match maskOp % 8 with
      | 0 => some (x &&& k)
      | 1 => some (x ||| k)
      | 2 => some (x ^^^ k)
      | 3 => some (uN w (x + k))
      | 4 => some (uN w (x - k))
      | 5 => some (uN w (x * k))
      | 6 =>
          if overflows || k == 0 then none
          else some (if unsigned then x / k else uN w ((sN w x).tdiv (sN w k)))
      | _ =>
          if overflows || k == 0 then none
          else some (if unsigned then x % k else uN w ((sN w x).tmod (sN w k)))
  masked.map (fun x => if has maskOp FILE_OPINVERSE then 2 ^ w - 1 - x else x)

/-- `cvt_8`, `cvt_16`, `cvt_32` and `cvt_64`, for a field of `n` bytes. -/
def cvtInt (host : Host) (m : Magic) (n : Nat) (v : Value) : Option Value :=
  (doCvt (8 * n) (has m.flag UNSIGNED) m.maskOp (m.numMask host) (v.load host n)).map
    (v.store host n)

/-- `DO_CVT2` on a floating-point type. -/
def doCvt2 {F : Type} [Add F] [Sub F] [Mul F] [Div F] (isZero : F → Bool) (ofMask : UInt64 → F)
    (maskOp mask : Nat) (x : F) : Option F :=
  if mask = 0 then some x
  else
    let k := ofMask (UInt64.ofNat mask)
    match maskOp % 8 with
    | 3 => some (x + k)
    | 4 => some (x - k)
    | 5 => some (x * k)
    | 6 => if isZero k then none else some (x / k)
    | _ => some x

/-- `cvt_float`. -/
def cvtFloat (host : Host) (m : Magic) (v : Value) : Option Value :=
  (doCvt2 (· == (0 : Float32)) UInt64.toFloat32 m.maskOp (m.numMask host)
    (Float32.ofBits (UInt32.ofNat (v.load host 4)))).map
    (fun f => v.store host 4 f.toBits.toNat)

/-- `cvt_double`. -/
def cvtDouble (host : Host) (m : Magic) (v : Value) : Option Value :=
  (doCvt2 (· == (0 : Float)) UInt64.toFloat m.maskOp (m.numMask host)
    (Float.ofBits (UInt64.ofNat (v.load host 8)))).map
    (fun f => v.store host 8 f.toBits.toNat)

/-! ## Pascal strings -/

/-- `file_pstring_length_size`; `none` is `FILE_BADSIZE`. -/
def filePstringLengthSize (host : Host) (m : Magic) (io : Io) : Option Nat × Io :=
  let len := m.strFlags &&& PSTRING_LEN
  if len = PSTRING_1_LE then (some 1, io)
  else if len = PSTRING_2_LE ∨ len = PSTRING_2_BE then (some 2, io)
  else if len = PSTRING_4_LE ∨ len = PSTRING_4_BE then (some 4, io)
  else (none, fileError host 0 (asc "corrupt magic file (bad pascal string length %d)")
    [.int len] io)

/-- `file_pstring_get_length`, a `size_t`; `none` is `FILE_BADSIZE`, which the subtraction can
reach too. -/
def filePstringGetLength (host : Host) (m : Magic) (s : Bytes) (io : Io) : Option Nat × Io :=
  let bits := m.strFlags &&& PSTRING_LEN
  let len : Option Nat :=
    if bits = PSTRING_1_LE then some (leNat (s.take 1))
    else if bits = PSTRING_2_LE then some (leNat (s.take 2))
    else if bits = PSTRING_2_BE then some (beNat (s.take 2))
    else if bits = PSTRING_4_LE then some (leNat (s.take 4))
    else if bits = PSTRING_4_BE then some (beNat (s.take 4))
    else none
  match len with
  | none => (none, fileError host 0 (asc "corrupt magic file (bad pascal string length %d)")
      [.int bits] io)
  | some len =>
      if has m.strFlags PSTRING_LENGTH_INCLUDES_ITSELF then
        match filePstringLengthSize host m io with
        | (none, io) => (none, io)
        | (some l, io) =>
            let len := uN 64 (len - l)
            (if len = FILE_BADSIZE then none else some len, io)
      else (some len, io)

/-! ## `mconvert` -/

/-- The `FILE_PSTRING` case: the text is moved over its length. -/
def mconvertPstring (host : Host) (m : Magic) (v : Value) (io : Io) : Bool × Value × Io :=
  match filePstringLengthSize host m io with
  | (none, io) => (false, v, io)
  | (some sz, io) =>
      match filePstringGetLength host m v.bytes io with
      | (none, io) => (false, v, io)
      | (some len, io) =>
          let len := if len ≥ 128 - sz then 128 - sz else len
          (true, v.write 0 ((v.bytes.drop sz).take len ++ [0]), io)

/-- `mconvert`: the return value, with `ms_value` and the error state. -/
def mconvert (host : Host) (m : Magic) (flip : Bool) (v : Value) (io : Io) : Bool × Value × Io :=
  -- a failed mask operation leaves the union as it was before the mask
  let masked (v : Value) (r : Option Value) : Bool × Value × Io :=
    match r with
    | some w => (true, w, io)
    | none => (false, v, fileMagerror host (asc "zerodivide/overflow/underflow in mconvert()") [] io)
  -- `p->h = BE16(p->hs)` and the like, followed by the mask
  let readAs (n : Nat) (order : Bytes → Nat) (cvt : Value → Option Value) : Bool × Value × Io :=
    let v := v.store host n (order (v.bytes.take n))
    masked v (cvt v)
  let read (n : Nat) (order : Bytes → Nat) := readAs n order (cvtInt host m n)
  match cvtFlip m.type flip with
  | .byte => masked v (cvtInt host m 1 v)
  | .short | .msdosdate | .msdostime => masked v (cvtInt host m 2 v)
  | .long | .date | .ldate => masked v (cvtInt host m 4 v)
  | .quad | .qdate | .qldate | .qwdate | .offset => masked v (cvtInt host m 8 v)
  | .string | .bestring16 | .lestring16 | .octal => (true, v.write 127 [0], io)
  | .pstring => mconvertPstring host m v io
  | .beshort | .bemsdosdate | .bemsdostime => read 2 beNat
  | .belong | .bedate | .beldate => read 4 beNat
  | .bequad | .beqdate | .beqldate | .beqwdate => read 8 beNat
  | .leshort | .lemsdosdate | .lemsdostime => read 2 leNat
  | .lelong | .ledate | .leldate => read 4 leNat
  | .lequad | .leqdate | .leqldate | .leqwdate => read 8 leNat
  | .melong | .medate | .meldate => read 4 meNat
  | .float => masked v (cvtFloat host m v)
  | .befloat => readAs 4 beNat (cvtFloat host m)
  | .lefloat => readAs 4 leNat (cvtFloat host m)
  | .double => masked v (cvtDouble host m v)
  | .bedouble => readAs 8 beNat (cvtDouble host m)
  | .ledouble => readAs 8 leNat (cvtDouble host m)
  | .regex | .search | .default | .clear | .name | .use | .der | .guid | .leguid | .beguid =>
      (true, v, io)
  | _ => (false, v, fileMagerror host (asc "invalid type %d in mconvert()")
      [.int m.type.code] io)

/-! ## `mcopy` -/

/-- The loop over lines of the `FILE_REGEX` case, on the region `[buf, end)`:
`b` and `last` are positions in it. The result is `lines` and `last`. -/
def regexLines (region : Bytes) : (lines b last : Nat) → Nat × Nat
  | 0, _, last => (0, last)
  | lines + 1, b, last =>
      let fin := region.length
      if fin ≤ b then (lines + 1, last)
      else
        let find (c : UInt8) := ((region.drop b).findIdx? (· == c)).map (b + ·)
        match (find 0x0a).orElse (fun _ => find 0x0d) with
        | none => (lines + 1, last)
        | some b =>
            let at' (i : Nat) := region.getD i 0
            let b := if b + 1 < fin ∧ at' b = 0x0d ∧ at' (b + 1) = 0x0a then b + 1 else b
            let b := if b + 1 < fin ∧ at' b = 0x0a then b + 1 else b
            regexLines region lines (b + 1) b

/-- The `FILE_REGEX` case of `mcopy`. -/
def mcopyRegex (regexMax : Nat) (m : Magic) (s : Window) (offset nbytes : Nat) (search : Search) : Search :=
  match s with
  | none => { search with sLen := 0, s := none }
  | some s =>
      if nbytes < offset then { search with sLen := 0, s := none }
      else
        let lineCount := has m.strFlags REGEX_LINE_COUNT
        let linecnt := if lineCount then m.strRange else 0
        let bytecnt := if lineCount then linecnt * 80 else m.strRange
        let bytecnt := if bytecnt = 0 ∨ bytecnt > nbytes - offset then nbytes - offset else bytecnt
        let bytecnt := if bytecnt > regexMax then regexMax else bytecnt
        let region := (s.drop offset).take bytecnt
        let r := regexLines region linecnt 0 bytecnt
        { s := some (s.drop offset), sLen := if r.1 ≠ 0 then bytecnt else r.2, offset, rmLen := 0 }

/-- The loop of the `FILE_BESTRING16` and `FILE_LESTRING16` cases, from the unit at
`src`, storing at most `room` characters. `big` is `FILE_BESTRING16`. -/
def mcopyString16 (big : Bool) : (room : Nat) → Bytes → Bytes
  | 0, _ => []
  | room + 1, a :: b :: src =>
      let c := if big then b else a
      let other := if big then a else b
      (if c = 0 ∧ other ≠ 0 then 0x20 else c) :: mcopyString16 big room src
  -- an odd byte at the end is a unit of `lestring16` only
  | _ + 1, [a] => if big then [] else [a]
  | _ + 1, [] => []

/-- `mcopy(ms, p, type, indir, s, offset, nbytes, m)`: the union and `ms->search`. -/
def mcopy (regexMax : Nat) (v : Value) (search : Search) (host : Host) (type : MType) (indir : Bool)
    (s : Window) (offset nbytes : Nat) (m : Magic) : Value × Search :=
  let copy (size : Nat) : Value × Search :=
    if offset ≥ nbytes then (.zero, search)
    else
      let n := if nbytes - offset < size then nbytes - offset else size
      (Value.zero.write 0 (((s.getD []).drop offset).take n), search)
  let direct : Option (Value × Search) :=
    if indir then none
    else match type with
      | .der | .search =>
          let offset := if offset > nbytes then nbytes else offset
          some (v, { search with s := s.map (·.drop offset), sLen := nbytes - offset, offset })
      | .regex => some (v, mcopyRegex regexMax m s offset nbytes search)
      | .bestring16 | .lestring16 =>
          if offset ≥ nbytes then none
          else
            let text := mcopyString16 (type == .bestring16) 127 ((s.getD []).drop offset)
            some ((v.write 0 text).write 127 [0] |>.write text.length [0], search)
      | _ => none
  match direct with
  | some r => r
  | none =>
      if type = .offset then (Value.zero.store host 8 offset, search)
      else
        let ranged := !indir && (type == .string || type == .pstring)
        copy (if ranged && m.strRange != 0 && decide (m.strRange < 128) then m.strRange else 128)

/-! ## Indirect offsets -/

/-- `offset_oob(n, o, i)`. -/
def offsetOob (n : Nat) (o : Int) (i : Nat) : Bool :=
  if o < 0 then true
  else if o > n then true
  else decide ((i : Int) > n - o)

/-- `SEXT(s, v, p)`, an `intmax_t`. -/
def sext (signed : Bool) (w : Nat) (p : Nat) : Int :=
  if signed then sN w p else sN 64 (uN w p)

/-- `cvt_id3`. -/
def cvtId3 (v : Nat) : Nat :=
  v % 128 + v / 2 ^ 8 % 128 * 2 ^ 7 + v / 2 ^ 16 % 128 * 2 ^ 14 + v / 2 ^ 24 % 128 * 2 ^ 21

/-- A bitwise operation on two `intmax_t`. -/
def bitwise64 (f : Nat → Nat → Nat) (a b : Int) : Int := sN 64 (f (uN 64 a) (uN 64 b))

/-- `do_ops(ms, m, rv, lhs, off)`: the offset, or `none` for a return value of 1. Only the product
can leave an `intmax_t`; it wraps. -/
def doOps (inOp : Nat) (lhs off : Int) : Option Nat :=
  if lhs ≥ 2 ^ 32 - 1 ∨ lhs ≤ -2 ^ 31 ∨ off ≥ 2 ^ 32 - 1 ∨ off ≤ -2 ^ 31 then none
  else
    let offset : Int :=
      if off = 0 then lhs
      else match inOp % 8 with
        | 0 => bitwise64 (· &&& ·) lhs off
        | 1 => bitwise64 (· ||| ·) lhs off
        | 2 => bitwise64 (· ^^^ ·) lhs off
        | 3 => lhs + off
        | 4 => lhs - off
        | 5 => sN 64 (lhs * off)
        | 6 => lhs.tdiv off
        | _ => lhs.tmod off
    let offset := if has inOp FILE_OPINVERSE then -offset - 1 else offset
    if offset ≥ 2 ^ 32 - 1 then none else some (uN 32 offset)

/-- The size in the file and the value of an indirect operand of type `type` at
`bs`; the machine's order is `host`'s. `FILE_OCTAL` is read elsewhere. -/
def indirectOperand (host : Host) (type : MType) (bs : Bytes) : Option (Nat × Nat) :=
  let native (n : Nat) := if host.bigendian then beNat (bs.take n) else leNat (bs.take n)
  match type with
  | .byte => some (1, native 1)
  | .short => some (2, native 2)
  | .beshort => some (2, beNat (bs.take 2))
  | .leshort => some (2, leNat (bs.take 2))
  | .long => some (4, native 4)
  | .belong | .beid3 => some (4, beNat (bs.take 4))
  | .lelong | .leid3 => some (4, leNat (bs.take 4))
  | .melong => some (4, meNat bs)
  | .bequad => some (8, beNat (bs.take 8))
  | .lequad => some (8, leNat (bs.take 8))
  | _ => none

/-- `off` under `FILE_OPINDIRECT`: `none` is `return 0`. -/
def indirectOff (host : Host) (m : Magic) (flip : Bool) (v : Value) (s : Bytes) (nbytes offset : Nat) :
    Option Int :=
  let signed := has m.inOp FILE_OPSIGNED
  let at' : Int := offset + m.inOffset
  if offsetOob nbytes at' 0 then none
  else match cvtFlip m.inType flip with
    | .octal =>
        if offsetOob nbytes offset m.vallen then none
        else some (sext signed 64 (strtoull 8 v.str).1)
    | type =>
        match indirectOperand host type (s.drop at'.toNat) with
        | none => none
        | some (n, p) => if offsetOob nbytes at' n then none else some (sext signed (8 * n) p)

/-- The left operand and `do_ops`: `none` is `return 0`. -/
def indirectLhs (host : Host) (m : Magic) (flip : Bool) (v : Value) (nbytes offset : Nat) (off : Int) :
    Option Nat :=
  let signed := has m.inOp FILE_OPSIGNED
  match cvtFlip m.inType flip with
  | .octal =>
      if offsetOob nbytes offset m.vallen then none
      else doOps m.inOp (sext signed 64 (strtoull 8 v.str).1) off
  | type =>
      match indirectOperand host type v.bytes with
      | none => none
      | some (n, p) =>
          if offsetOob nbytes offset n then none
          else
            let p := if type = .beid3 ∨ type = .leid3 then cvtId3 p else p
            doOps m.inOp (sext signed (8 * n) p) off

end Libmagic.Softmagic
