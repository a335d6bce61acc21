import Libmagic.Softmagic.Value

/-!
# `softmagic.c` and `der.c`: comparing the tested value

`magiccheck` and what it calls. The cache of compiled expressions is left out:
an expression is compiled at every test.
-/
namespace Libmagic.Softmagic

/-! ## `file_strncmp` -/

/-- The loop for a normal string. A byte past the end of its object reads as 0. -/
def strncmpFast : (len : Nat) → (a b : Bytes) → Int
  | 0, _, _ => 0
  | len + 1, a, b =>
      let v : Int := (b.headD 0).toNat - (a.headD 0).toNat
      if v ≠ 0 then v else strncmpFast len a.tail b.tail

/-- The loop with flags; `room` is `eb - b`. -/
def strncmpFlags (flags : Nat) : (len : Nat) → (a b : Bytes) → (room : Nat) → Int
  | 0, _, b, _ =>
      if has flags STRING_FULL_WORD && b.headD 0 != 0 && !isspace (b.headD 0) then 1 else 0
  | len + 1, a, b, room =>
      if room = 0 then 1
      else
        let differ (x : UInt8) : Int := x.toNat - (a.headD 0).toNat
        let compare (v : Int) : Int :=
          if v ≠ 0 then v else strncmpFlags flags len a.tail b.tail (room - 1)
        if has flags STRING_IGNORE_LOWERCASE && islower (a.headD 0) then
          compare (differ (tolower (b.headD 0)))
        else if has flags STRING_IGNORE_UPPERCASE && isupper (a.headD 0) then
          compare (differ (toupper (b.headD 0)))
        else if has flags STRING_COMPACT_WHITESPACE && isspace (a.headD 0) then
          if !isspace (b.headD 0) then 1
          else
            let skip :=
              if isspace (a.tail.headD 0) then 0
              else ((b.tail.take (room - 1)).takeWhile isspace).length
            strncmpFlags flags len a.tail (b.tail.drop skip) (room - 1 - skip)
        else if has flags STRING_COMPACT_OPTIONAL_WHITESPACE && isspace (a.headD 0) then
          let skip := ((b.take room).takeWhile isspace).length
          strncmpFlags flags len a.tail (b.drop skip) (room - skip)
        else compare (differ (b.headD 0))

/-- `file_strncmp(s1, s2, len, maxlen, flags)`. -/
def fileStrncmp (s1 s2 : Bytes) (len maxlen flags : Nat) : Int :=
  let ws := has flags (STRING_COMPACT_WHITESPACE ||| STRING_COMPACT_OPTIONAL_WHITESPACE)
  if flags = 0 then strncmpFast len s1 s2
  else strncmpFlags flags len s1 s2 (if ws then maxlen else len)

/-- `file_strncmp16`, which ignores its flags. -/
def fileStrncmp16 (s1 s2 : Bytes) (len maxlen : Nat) : Int := fileStrncmp s1 s2 len maxlen 0

/-! ## `FILE_SEARCH` -/

/-- `memmem`, as the position of the first occurrence. -/
def memmem (needle : Bytes) : Bytes → Option Nat
  | [] => if needle = [] then some 0 else none
  | c :: s => if needle.isPrefixOf (c :: s) then some 0 else (memmem needle s).map (· + 1)

/-- The loop over `idx`, with the text from `idx` on and the last `v`. It ends when
the region is used up, so the length of the region bounds the rounds. -/
def searchFrom (m : Magic) (slen sLen : Nat) : (n idx : Nat) → Bytes → (v : Int) → Int × Option Nat
  | 0, _, _, v => (v, none)
  | n + 1, idx, s, v =>
      if m.strRange ≠ 0 ∧ m.strRange ≤ idx then (v, none)
      else if slen + idx > sLen then (1, none)
      else
        let v := fileStrncmp m.value.bytes s slen (sLen - idx) m.strFlags
        if v = 0 then (0, some idx) else searchFrom m slen sLen n (idx + 1) s.tail v

/-- The `FILE_SEARCH` case, on the text at `search.s`: `v` and `ms->search`. -/
def checkSearch (host : Host) (m : Magic) (s : Bytes) (search : Search) : Int × Search :=
  let slen := min m.vallen 128
  let result : Int × Option Nat :=
    if host.haveMemmem && decide (slen > 0) && m.strFlags == 0 then
      let idx := m.strRange + slen
      let idx := if m.strRange = 0 ∨ search.sLen < idx then search.sLen else idx
      match memmem (m.value.bytes.take slen) (s.take idx) with
      | none => (1, none)
      | some idx => (0, some idx)
    else searchFrom m slen search.sLen (search.sLen + 2) 0 s 0
  match result with
  | (v, none) => (v, search)
  | (v, some idx) => (v, { search with offset := search.offset + idx, rmLen := search.sLen - idx })

/-! ## `FILE_REGEX` -/

/-- `strchr(wild, c) != NULL`, which holds of the terminator too. -/
def isWild (c : UInt8) : Bool := c == 0 || (asc "?*+\x7b").contains c

/-- The bounds behind a `{` of `check_regex`. -/
def checkBounds (p : Bytes) : Bool :=
  let low := strtoull 10 p
  if low.2.1 ≠ p ∧ low.1 > 1000 then false
  else if low.2.1.head? ≠ some 0x2c then true
  else
    let high := strtoull 10 low.2.1.tail
    !(high.2.1 != low.2.1.tail && decide (high.1 > 1000))

/-- The loop of `check_regex`, from the character `oc` before. -/
def checkRegexFrom : (oc : UInt8) → Bytes → Bool
  | _, [] => true
  | oc, c :: p =>
      if isWild oc && isWild c then false
      else if c == 0x7b && (oc == 0x7d || !checkBounds p) then false
      else if isprint c || isspace c || c == 0x08 || c == 0x8a then checkRegexFrom c p
      else false

/-- `check_regex`, whose warnings do not go to the output buffer. -/
def checkRegex (pat : Bytes) : Bool := checkRegexFrom 0 pat

/-- `REGEX_ICASE(m)`. -/
def regexIcase (m : Magic) : Bool :=
  has m.strFlags (STRING_IGNORE_LOWERCASE ||| STRING_IGNORE_UPPERCASE)

/-- `file_regcomp`. -/
def fileRegcomp (host : Host) (flags : Nat) (raw : Bool) (pat : Bytes) (icase : Bool) (io : Io) :
    Bool × Io :=
  if !checkRegex pat then (false, io)
  else match host.regcomp pat icase with
    | none => (true, io)
    | some (rc, errmsg) =>
        (false, if has flags MAGIC_CHECK then
          fileMagerror host (asc "regex error %d for `%s', (%s)")
            [.int rc, .str (filePrintable raw 511 pat), .str errmsg] io
        else io)

/-- `alloc_regex`. -/
def allocRegex (host : Host) (flags : Nat) (m : Magic) (io : Io) : Bool × Io :=
  let ok := host.malloc io.tick
  let io := { io with tick := io.tick + 1 }
  if !ok then (false, fileError host ENOMEM (asc "can't allocate %zu bytes") [.uint 64] io)
  else fileRegcomp host flags (has flags MAGIC_RAW) m.value.str (regexIcase m) io

/-- The text that is searched: a copy whose last byte is cut off. `none` is a failed
allocation. -/
def regexText (host : Host) (s : Bytes) (slen : Nat) (io : Io) : Option Bytes × Io :=
  if slen = 0 then (some [], io)
  else if host.malloc io.tick then
    (some ((s.take (slen - 1)).takeWhile (· != 0)), { io with tick := io.tick + 1 })
  else (none, fileError host ENOMEM (asc "can't allocate %zu bytes") [.uint slen]
    { io with tick := io.tick + 1 })

/-- The `FILE_REGEX` case, on the text at `search.s`: `v`, or `none` for `-1`. -/
def checkRegexp (host : Host) (flags : Nat) (m : Magic) (s : Bytes) (search : Search) (io : Io) :
    Option Int × Search × Io :=
  match allocRegex host flags m io with
  | (false, io) => (none, search, io)
  | (true, io) =>
      match regexText host s search.sLen io with
      | (none, io) => (none, search, io)
      | (some text, io) =>
          match host.regexec m.value.str (regexIcase m) text with
          | .found so eo =>
              if so < 0 ∨ eo < 0 ∨ eo < so ∨ eo.toNat > search.sLen - 1 then (some 1, search, io)
              else
                (some 0, { search with
                  s := some (s.drop so.toNat)
                  offset := search.offset + so.toNat
                  rmLen := (eo - so).toNat }, io)
          | .noMatch => (some 1, search, io)
          | .error => (none, search, io)

/-! ## `der.c` -/

def DER_BAD : Nat := 2 ^ 32 - 1

/-- The loop of `gettag` over the bytes of a long tag. Every round uses up a byte, so
`l` bounds the rounds. -/
def gettagLong (c : Bytes) (l : Nat) : (n tag p : Nat) → Nat × Nat
  | 0, _, p => (DER_BAD, p)
  | n + 1, tag, p =>
      let b := (c.getD p 0).toNat
      if b < 0x80 then (tag, p)
      else if p + 1 ≥ l then (DER_BAD, p + 1)
      else gettagLong c l n ((tag * 128 + b - 0x80) % 2 ^ 32) (p + 1)

/-- `gettag(c, &p, l)`: the tag and `p`. -/
def gettag (c : Window) (p l : Nat) : Nat × Nat :=
  match c with
  | none => (DER_BAD, p)
  | some c =>
      if p ≥ l then (DER_BAD, p)
      else
        let tag := (c.getD p 0).toNat % 32
        if tag ≠ 0x1f then (tag, p + 1)
        else if p + 1 ≥ l then (DER_BAD, p + 1)
        else gettagLong c l l tag (p + 1)

/-- `getlength(c, &p, l)`: the length and `p`. -/
def getlength (c : Bytes) (p l : Nat) : Nat × Nat :=
  if p ≥ l then (DER_BAD, p)
  else
    let first := (c.getD p 0).toNat
    let digits := first % 128
    if p + 1 + digits ≥ l then (DER_BAD, p + 1)
    else if first < 0x80 then (digits, p + 1)
    else
      let len := beNat ((c.drop (p + 1)).take digits) % 2 ^ 64
      let p := p + 1 + digits
      if len > uN 64 (2 ^ 32 - 1 - p) ∨ (p + len) % 2 ^ 64 > l then (DER_BAD, p) else (len % 2 ^ 32, p)

/-- `der__tag`. -/
def derTags : List String :=
  ["eoc", "bool", "int", "bit_str", "octet_str", "null", "obj_id", "obj_desc", "ext", "real",
    "enum", "embed", "utf8_str", "rel_oid", "time", "res2", "seq", "set", "num_str", "prt_str",
    "t61_str", "vid_str", "ia5_str", "utc_time", "gen_time", "gr_str", "vis_str", "gen_str",
    "univ_str", "char_str", "bmp_str", "date", "tod", "datetime", "duration", "oid-iri",
    "rel-oid-iri"]

/-- `der_tag`, whose names are the entries of `derTags`. -/
def derTag (tag : Nat) : Bytes :=
  match derTags[tag]? with
  | some name => asc name
  | none => asc "0x" ++ asc (String.ofList (Nat.toDigits 16 tag))

/-- `der_data(buf, 128, tag, q, len)`: the text in `buf`, which holds `old` before. -/
def derData (old : Bytes) (tag : Nat) (q : Bytes) (len : Nat) : Bytes :=
  if tag = 0x13 ∨ tag = 0x0c ∨ tag = 0x16 then ((q.take len).takeWhile (· != 0)).take 127
  else if tag = 0x17 ∧ len ≥ 12 then
    let d (i : Nat) := (q.drop i).take 2
    (asc "20" ++ d 0 ++ asc "-" ++ d 2 ++ asc "-" ++ d 4 ++ asc " " ++ d 6 ++ asc ":" ++ d 8 ++
      asc ":" ++ d 10 ++ asc " GMT").takeWhile (· != 0)
  -- without data nothing is written
  else if len = 0 then old
  else ((q.take len).take 63).flatMap (fun b => hexPadded false 2 b.toNat)

/-- `der_cmp`: `none` is `-1`. -/
def derCmp (m : Magic) (search : Search) (v : Value) : Option Bool × Value :=
  let tag := gettag search.s 0 search.sLen
  if tag.1 = DER_BAD then (none, v)
  else
    let b := search.s.getD []
    let tlen := getlength b tag.2 search.sLen
    if tlen.1 = DER_BAD then (none, v)
    else
      let buf := derTag tag.1
      if !buf.isPrefixOf m.value.str then (some false, v)
      else
        let s := m.value.str.drop buf.length
        let digits := s.takeWhile isdigit
        let slen := digits.foldl (fun n c => n * 10 + (c.toNat - 0x30)) 0 % 2 ^ 64
        if digits ≠ [] ∧ tlen.1 ≠ slen then (some false, v)
        else match s.drop digits.length with
          | [] => (some true, v)
          | 0x3d :: s =>
              let data := derData buf tag.1 (b.drop tlen.2) tlen.1
              if data ≠ s ∧ s ≠ asc "x" then (some false, v)
              else (some true, v.write 0 (data ++ [0]))
          | _ => (some false, v)

/-- `der_offs`: the offset, and what it stores in `li[m->cont_level - 1].off`. -/
def derOffs (m : Magic) (search : Search) (offset nbytes : Nat) : Int × Option Int :=
  let len := if search.sLen ≠ 0 then search.sLen else nbytes
  let tag := gettag search.s 0 len
  if tag.1 = DER_BAD then (-1, none)
  else
    let tlen := getlength (search.s.getD []) tag.2 len
    if tlen.1 = DER_BAD then (-1, none)
    else
      let offs := tlen.2 + uN 32 (offset + m.offset)
      if m.contLevel = 0 then (sN 32 offs, none)
      else if offs + tlen.1 > nbytes then (-1, none)
      else (sN 32 offs, some (sN 32 (offs + tlen.1)))

/-! ## `magiccheck` -/

/-- The comparison of two `uint64_t`; `none` is an invalid relation. -/
def compareInt (unsigned : Bool) (reln : Reln) (v l : Nat) : Option Bool :=
  match reln with
  | .any => some true
  | .ne => some (v != l)
  | .eq => some (v == l)
  | .gt => some (if unsigned then decide (v > l) else decide (sN 64 v > sN 64 l))
  | .lt => some (if unsigned then decide (v < l) else decide (sN 64 v < sN 64 l))
  | .and => some (v &&& l == l)
  | .xor => some (v &&& l != l)
  | .other _ => none

/-- The comparison of two floating-point values. On unordered values `!=` holds and
the other comparisons do not. -/
def compareFloat {F : Type} [BEq F] [LT F] [∀ a b : F, Decidable (a < b)] (reln : Reln) (v l : F) :
    Option Bool :=
  match reln with
  | .any => some true
  | .ne => some (v != l)
  | .eq => some (v == l)
  | .gt => some (decide (v > l))
  | .lt => some (decide (v < l))
  | _ => none

/-- `memcmp` of two objects of the same size, as the difference at the first place. -/
def memcmp : Bytes → Bytes → Int
  | a :: s, b :: t => if a = b then memcmp s t else (a.toNat : Int) - b.toNat
  | _, _ => 0

/-- The result of `magiccheck` with what it changes. -/
structure Checked where
  /-- `none` is `-1`. -/
  matched : Option Bool
  value : Value
  search : Search
  io : Io

/-- `magiccheck`. -/
def magiccheck (host : Host) (flags : Nat) (m : Magic) (v : Value) (search : Search) (io : Io) :
    Checked :=
  let done (matched : Bool) : Checked := ⟨some matched, v, search, io⟩
  let failed (search : Search) (io : Io) (fmt : Bytes) (arg : Nat) : Checked :=
    ⟨none, v, search, fileMagerror host fmt [.int arg] io⟩
  -- the comparison at the end, with `l` and `v`
  let compare (l x : Nat) (search : Search) (io : Io) : Checked :=
    match compareInt (has m.flag UNSIGNED) m.reln (fileSignextend m x) l with
    | some matched => ⟨some matched, v, search, io⟩
    | none => failed search io (asc "cannot happen: invalid relation `%c'") m.reln.char.toNat
  let number (n : Nat) : Checked := compare (m.value.load host 8) (v.load host n) search io
  let floating (name : String) (matched : Option Bool) : Checked :=
    match matched with
    | some matched => done matched
    | none => failed search io (asc "cannot happen with " ++ asc name ++
        asc ": invalid relation `%c'") m.reln.char.toNat
  let float (u : Value) := Float32.ofBits (UInt32.ofNat (u.load host 4))
  let double (u : Value) := Float.ofBits (UInt64.ofNat (u.load host 8))
  match m.type with
  | .byte => number 1
  | .short | .beshort | .leshort | .msdosdate | .lemsdosdate | .bemsdosdate | .msdostime
  | .lemsdostime | .bemsdostime => number 2
  | .long | .belong | .lelong | .melong | .date | .bedate | .ledate | .medate | .ldate | .beldate
  | .leldate | .meldate => number 4
  | .quad | .lequad | .bequad | .qdate | .beqdate | .leqdate | .qldate | .beqldate | .leqldate
  | .qwdate | .beqwdate | .leqwdate | .offset => number 8
  | .float | .befloat | .lefloat => floating "float" (compareFloat m.reln (float v) (float m.value))
  | .double | .bedouble | .ledouble =>
      floating "double" (compareFloat m.reln (double v) (double m.value))
  | .default | .clear => compare 0 0 search io
  | .string | .pstring | .octal =>
      compare 0 (uN 64 (fileStrncmp m.value.bytes v.bytes m.vallen 128 m.strFlags)) search io
  | .bestring16 | .lestring16 =>
      compare 0 (uN 64 (fileStrncmp16 m.value.bytes v.bytes m.vallen 128)) search io
  | .search =>
      match search.s with
      | none => done false
      | some s =>
          let r := checkSearch host m s search
          compare 0 (uN 64 r.1) r.2 io
  | .regex =>
      match search.s with
      | none => done false
      | some s =>
          match checkRegexp host flags m s search io with
          | (none, search, io) => ⟨none, v, search, io⟩
          | (some x, search, io) => compare 0 (uN 64 x) search io
  | .use => done (v.load host 8 != 0)
  | .name | .indirect => done true
  | .der =>
      let r := derCmp m search v
      ⟨some (r.1.getD false), r.2, search, io⟩
  | .guid | .leguid | .beguid =>
      compare 0 (uN 64 (memcmp (m.value.bytes.take 16) (v.bytes.take 16))) search io
  | .invalid | .beid3 | .leid3 | .bevarint | .levarint | .other _ =>
      failed search io (asc "invalid type %d in magiccheck()") m.type.code

end Libmagic.Softmagic
