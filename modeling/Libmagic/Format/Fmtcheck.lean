import Libmagic.Softmagic.Output

/-!
# `missing/fmtcheck.c` and `apprentice.c`: recognising formats

`fmtcheck` compares a format with the default it stands in for, when a description is printed.
`check_format` looks at the description when the magic file is parsed. A pointer into a format is
the rest of the format.
-/
namespace Libmagic.Format

open Softmagic

/-! ## `fmtcheck` -/

/-- `enum __e_fmtcheck_types`. -/
inductive Eft where
  | start | short | int | long | quad | shortpointer | intpointer | longpointer | quadpointer
  | double | longdouble | string | width | precision | done | unknown
  deriving DecidableEq, Repr

/-- Which of `sh`, `lg`, `quad` and `longdouble` is set. -/
inductive Length where
  | none | sh | lg | quad | longdouble
  deriving DecidableEq, Repr

/-- The first `switch` of `get_next_format_from_precision`; `none` is a format that ends behind
an `l`. -/
def lengthModifier : Bytes → Option (Length × Bytes)
  | 0x68 :: f => some (.sh, f)
  | [0x6c] => none
  | 0x6c :: 0x6c :: f => some (.quad, f)
  | 0x6c :: f => some (.lg, f)
  | 0x71 :: f => some (.quad, f)
  | 0x4c :: f => some (.longdouble, f)
  | f => some (.none, f)

/-- The type of a conversion. -/
def conversion (length : Length) (c : UInt8) : Eft :=
  if (asc "diouxX").contains c then
    match length with
    | .longdouble => .unknown
    | .lg => .long
    | .quad => .quad
    | .sh | .none => .int
  else if c = 0x6e then
    match length with
    | .longdouble => .unknown
    | .sh => .shortpointer
    | .lg => .longpointer
    | .quad => .quadpointer
    | .none => .intpointer
  else if (asc "DOU").contains c then if length = .none then .long else .unknown
  else if (asc "eEfg").contains c then
    match length with
    | .longdouble => .longdouble
    | .none => .double
    | _ => .unknown
  else if c = 0x63 then if length = .none then .int else .unknown
  else if c = 0x73 then if length = .none then .string else .unknown
  else if c = 0x70 then if length = .none then .long else .unknown
  else .unknown

/-- `get_next_format_from_precision`: the type, and where `*pf` is. -/
def getNextFormatFromPrecision (f : Bytes) : Eft × Bytes :=
  match lengthModifier f with
  | none => (.unknown, [])
  | some (_, []) => (.unknown, [])
  | some (length, c :: f) => (conversion length c, c :: f)

/-- `get_next_format_from_width`. -/
def getNextFormatFromWidth : Bytes → Eft × Bytes
  | 0x2e :: 0x2a :: f => (.precision, 0x2a :: f)
  | 0x2e :: f =>
      let f := f.dropWhile isdigit
      if f = [] then (.unknown, []) else getNextFormatFromPrecision f
  | f => getNextFormatFromPrecision f

/-- The loop of `get_next_format` over `%%`: what is behind the next `%`, or the type that is
returned. -/
def nextDirective : Bytes → Eft ⊕ Bytes
  | [] => .inl .done
  | [c] => .inl (if c = 0x25 then .unknown else .done)
  | c :: d :: f =>
      if c ≠ 0x25 then nextDirective (d :: f)
      else if d = 0x25 then nextDirective f
      else .inr (d :: f)

/-- `get_next_format` behind a `%`. -/
def directiveType (f : Bytes) : Eft × Bytes :=
  let f := f.dropWhile (fun c => (asc "#0- +").contains c)
  if f.head? = some 0x2a then (.width, f)
  else
    let f := f.dropWhile isdigit
    if f = [] then (.unknown, []) else getNextFormatFromWidth f

/-- `get_next_format(pf, eft)`. -/
def getNextFormat (eft : Eft) (f : Bytes) : Eft × Bytes :=
  if eft = .width then getNextFormatFromWidth f.tail
  else if eft = .precision then getNextFormatFromPrecision f.tail
  else (nextDirective f).elim (fun eft => (eft, [])) directiveType

/-- The loop of `fmtcheck`. Every round uses up a byte of the first format, so its length bounds
the rounds. -/
def fmtcheckFrom : Nat → Eft × Bytes → Eft × Bytes → Bool
  | 0, _, _ => false
  | n + 1, f1, f2 =>
      let f1 := getNextFormat f1.1 f1.2
      if f1.1 = .done then true
      else if f1.1 = .unknown then false
      else
        let f2 := getNextFormat f2.1 f2.2
        if f1.1 ≠ f2.1 then false else fmtcheckFrom n f1 f2

/-- `fmtcheck(f1, f2)`: whether it returns `f1`. -/
def fmtcheck (f1 f2 : Bytes) : Bool := fmtcheckFrom (f1.length + 1) (.start, f1) (.start, f2)

/-! ## `check_format` -/

/-- `FILE_FMT_*`. -/
inductive Fmt where
  | none | num | str | quad | float | double
  deriving DecidableEq, Repr

/-- `file_formats`; a type that is not in the table is `none`. -/
def fileFormats : MType → Option Fmt
  | .invalid | .default | .name | .use | .clear => some .none
  | .byte | .short | .long | .beshort | .belong | .leshort | .lelong | .melong | .leid3 | .beid3
  | .indirect => some .num
  | .quad | .lequad | .bequad | .offset => some .quad
  | .float | .befloat | .lefloat => some .float
  | .double | .bedouble | .ledouble => some .double
  | .string | .date | .bedate | .ledate | .pstring | .ldate | .beldate | .leldate | .regex
  | .bestring16 | .lestring16 | .search | .medate | .meldate | .qdate | .leqdate | .beqdate
  | .qldate | .leqldate | .beqldate | .qwdate | .leqwdate | .beqwdate | .der | .guid | .leguid
  | .beguid | .bevarint | .levarint | .msdosdate | .lemsdosdate | .bemsdosdate | .msdostime
  | .lemsdostime | .bemsdostime | .octal => some .str
  | .other _ => Option.none

/-- The number of digits in front. -/
def number (ds : Bytes) : Nat := ds.foldl (fun n c => n * 10 + (c.toNat - 0x30)) 0

/-- `CHECKLEN()`: the rest behind the digits, or `none` for `goto toolong`. With at most five
digits `len` does not overflow. -/
def checklen (ptr : Bytes) : Option Bytes :=
  let digits := ptr.takeWhile isdigit
  if digits.length > 5 ∨ number digits > 1024 then none else some (ptr.dropWhile isdigit)

/-- A `.` that may be left out. -/
def skipDot (ptr : Bytes) : Bytes := if ptr.head? = some 0x2e then ptr.tail else ptr

/-- A `-` that may be left out. -/
def skipMinus (ptr : Bytes) : Bytes := if ptr.head? = some 0x2d then ptr.tail else ptr

/-- Both `CHECKLEN()` with the `.` between them. -/
def checklens (ptr : Bytes) : Option Bytes := (checklen ptr).bind (fun ptr => checklen (skipDot ptr))

/-- The texts of `*estr`. -/
def notValid : String := "not valid"
def tooLong : String := "too long"

/-- The last `switch` of a case. -/
def converts (ok : Bool) : Except String Unit := if ok then .ok () else .error notValid

/-- The `FILE_FMT_NUM` case; `c` is a conversion for a byte only. -/
def checkNum (type : MType) (ptr : Bytes) : Except String Unit :=
  match checklens (ptr.dropWhile (fun c => (asc "+-.#").contains c)) with
  | none => .error tooLong
  | some ptr => converts (ptr.head?.any (fun c =>
      (asc "iduoxX").contains c || (c == 0x63 && type == .byte)))

/-- The `FILE_FMT_QUAD` case. -/
def checkQuad (ptr : Bytes) : Except String Unit :=
  match checklens (ptr.dropWhile (fun c => (asc "+-.#").contains c)) with
  | none => .error tooLong
  | some ptr => converts ((asc "ll").isPrefixOf ptr &&
      (ptr.drop 2).head?.any (fun c => (asc "iduoxX").contains c))

/-- The `FILE_FMT_FLOAT` and `FILE_FMT_DOUBLE` cases. -/
def checkFloat (ptr : Bytes) : Except String Unit :=
  match checklens (skipDot (skipMinus ptr)) with
  | none => .error tooLong
  | some ptr => converts (ptr.head?.any (fun c => (asc "eEfFgG").contains c))

/-- The `FILE_FMT_STR` case, which has no limit for the digits. -/
def checkStr (ptr : Bytes) : Except String Unit :=
  let ptr := (skipMinus ptr).dropWhile isdigit
  let ptr := if ptr.head? = some 0x2e then ptr.tail.dropWhile isdigit else ptr
  converts (ptr.head? == some 0x73)

/-- `check_format_type`, for a type that has a format. -/
def checkFormatType (fmt : Fmt) (type : MType) (ptr : Bytes) : Except String Unit :=
  if ptr = [] then .error "missing format spec"
  else match fmt with
    | .none => .error "Bad file format"
    | .num => checkNum type ptr
    | .quad => checkQuad ptr
    | .float | .double => checkFloat ptr
    | .str => checkStr ptr

/-- `check_format`: whether it does not return `-1`. -/
def checkFormat (type : MType) (desc : Bytes) : Bool :=
  match splitAt 0x25 desc with
  | none => true
  | some (_, ptr) =>
      match fileFormats type with
      | none => false
      | some .none => false
      | some fmt => (checkFormatType fmt type ptr).isOk && !ptr.contains 0x25

end Libmagic.Format
