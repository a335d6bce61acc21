import Libmagic.Encoding.EncodeUtf8
import Libmagic.Encoding.UcsExact
import Libmagic.Softmagic.Match

/-!
# `encoding.c`: `file_encoding`

The decoders are tried in turn on one array, which each of them fills from its start.
-/
namespace Libmagic.Encoding

open Unicode
open Softmagic (Host Io Bytes asc fileOomem plainHost plainScan)

/-! ## The decoders -/

/-- The loop of `LOOKS(NAME, COND)`. -/
def looksLoop (cond : TextClass → Bool) : Unichars → Bytes → Bool × Unichars
  | u, [] => (true, u)
  | u, b :: buf => if cond (textChars b.toNat) then (false, u) else looksLoop cond (u.push b.toNat) buf

def looks (cond : TextClass → Bool) (buf : Bytes) (u : Unichars) : Bool × Unichars := looksLoop cond u.reset buf

def looksAscii := looks fun t => t != .T

def looksLatin1 := looks fun t => t != .T && t != .I

def looksExtended := looks fun t => t != .T && t != .I && t != .X

/-- `file_looks_utf8` with an array. -/
def decodeUtf8 (buf : Bytes) (u : Unichars) : Int × Unichars :=
  let r := fileLooksUtf8 buf (some u)
  (r.1, r.2.getD u)

def looksUtf8WithBom (buf : Bytes) (u : Unichars) : Int × Unichars :=
  match buf with
  | 0xef :: 0xbb :: 0xbf :: b :: buf => decodeUtf8 (b :: buf) u
  | _ => (-1, u)

def looksUtf7 (buf : Bytes) (u : Unichars) : Int × Unichars :=
  match buf with
  | 0x2b :: 0x2f :: 0x76 :: b :: _ :: _ =>
      if b = 0x38 ∨ b = 0x39 ∨ b = 0x2b ∨ b = 0x2f then (1, u.reset) else (-1, u)
  | _ => (-1, u)

def ebcdicToAscii : Bytes := [
  0, 1, 2, 3, 156, 9, 134, 127, 151, 141, 142, 11, 12, 13, 14, 15,
  16, 17, 18, 19, 157, 133, 8, 135, 24, 25, 146, 143, 28, 29, 30, 31,
  128, 129, 130, 131, 132, 10, 23, 27, 136, 137, 138, 139, 140, 5, 6, 7,
  144, 145, 22, 147, 148, 149, 150, 4, 152, 153, 154, 155, 20, 21, 158, 26,
  32, 160, 161, 162, 163, 164, 165, 166, 167, 168, 213, 46, 60, 40, 43, 124,
  38, 169, 170, 171, 172, 173, 174, 175, 176, 177, 33, 36, 42, 41, 59, 126,
  45, 47, 178, 179, 180, 181, 182, 183, 184, 185, 203, 44, 37, 95, 62, 63,
  186, 187, 188, 189, 190, 191, 192, 193, 194, 96, 58, 35, 64, 39, 61, 34,
  195, 97, 98, 99, 100, 101, 102, 103, 104, 105, 196, 197, 198, 199, 200, 201,
  202, 106, 107, 108, 109, 110, 111, 112, 113, 114, 94, 204, 205, 206, 207, 208,
  209, 229, 115, 116, 117, 118, 119, 120, 121, 122, 210, 211, 212, 91, 214, 215,
  216, 217, 218, 219, 220, 221, 222, 223, 224, 225, 226, 227, 228, 93, 230, 231,
  123, 65, 66, 67, 68, 69, 70, 71, 72, 73, 232, 233, 234, 235, 236, 237,
  125, 74, 75, 76, 77, 78, 79, 80, 81, 82, 238, 239, 240, 241, 242, 243,
  92, 159, 83, 84, 85, 86, 87, 88, 89, 90, 244, 245, 246, 247, 248, 249,
  48, 49, 50, 51, 52, 53, 54, 55, 56, 57, 250, 251, 252, 253, 254, 255]

def fromEbcdic (buf : Bytes) : Bytes := buf.map fun b => ebcdicToAscii.getD b.toNat 0

/-! ## `file_encoding` -/

/-- The codes that are told apart; the flag is `bigend`. -/
inductive Code where
  | unknown | utf7 | ascii | utf8Bom | utf8
  | utf32 (bigend : Bool)
  | utf16 (bigend : Bool)
  | latin1 | extended | ebcdic | ebcdicInternational
  deriving DecidableEq, Repr

/-- `*code`. -/
def Code.text : Code → Bytes
  | .unknown => asc "unknown"
  | .utf7 => asc "Unicode text, UTF-7"
  | .ascii => asc "ASCII"
  | .utf8Bom => asc "Unicode text, UTF-8 (with BOM)"
  | .utf8 => asc "Unicode text, UTF-8"
  | .utf32 false => asc "Unicode text, UTF-32, little-endian"
  | .utf32 true => asc "Unicode text, UTF-32, big-endian"
  | .utf16 false => asc "Unicode text, UTF-16, little-endian"
  | .utf16 true => asc "Unicode text, UTF-16, big-endian"
  | .latin1 => asc "ISO-8859"
  | .extended => asc "Non-ISO extended-ASCII"
  | .ebcdic => asc "EBCDIC"
  | .ebcdicInternational => asc "International EBCDIC"

/-- `*code_mime`. -/
def Code.mime : Code → Bytes
  | .unknown => asc "binary"
  | .utf7 => asc "utf-7"
  | .ascii => asc "us-ascii"
  | .utf8Bom | .utf8 => asc "utf-8"
  | .utf32 false => asc "utf-32le"
  | .utf32 true => asc "utf-32be"
  | .utf16 false => asc "utf-16le"
  | .utf16 true => asc "utf-16be"
  | .latin1 => asc "iso-8859-1"
  | .extended => asc "unknown-8bit"
  | .ebcdic | .ebcdicInternational => asc "ebcdic"

/-- What `file_encoding` returns and stores. `ubuf` is `none` when it could not be allocated. -/
structure Encoded where
  rv : Bool
  type : Bytes
  code : Code
  ubuf : Option Unichars

/-- `*ulen`. -/
def Encoded.ulen (e : Encoded) : Nat := (e.ubuf.map Unichars.ulen).getD 0

/-- `(*ubuf)[0..*ulen)`. -/
def Encoded.text (e : Encoded) : List Nat := (e.ubuf.map Unichars.text).getD []

def Encoded.of (code : Code) (u : Unichars) : Encoded := ⟨true, asc "text", code, some u⟩

/-- The branch for EBCDIC, with a buffer for the translation. -/
def tryEbcdic (buf : Bytes) (u : Unichars) : Encoded :=
  let nbuf := fromEbcdic buf
  let r := looksAscii nbuf u
  if r.1 then .of .ebcdic r.2
  else
    let r := looksLatin1 nbuf r.2
    if r.1 then .of .ebcdicInternational r.2 else ⟨false, asc "binary", .unknown, some r.2⟩

/-- The decoders in turn, on a buffer that is not NULL: `none` where the translation needs memory. -/
def tryCodes (buf : Bytes) (u : Unichars) : Encoded ⊕ Unichars :=
  let r := looksAscii buf u
  if r.1 then
    let r := looksUtf7 buf r.2
    .inl (if r.1 > 0 then .of .utf7 r.2 else .of .ascii r.2)
  else
  let r := looksUtf8WithBom buf r.2
  if r.1 > 0 then .inl (.of .utf8Bom r.2)
  else
  let r := decodeUtf8 buf r.2
  if r.1 > 1 then .inl (.of .utf8 r.2)
  else
  let r := looksUcs32 buf r.2
  if r.1 ≠ 0 then .inl (.of (.utf32 (r.1 != 1)) r.2)
  else
  let r := looksUcs16 buf r.2
  if r.1 ≠ 0 then .inl (.of (.utf16 (r.1 != 1)) r.2)
  else
  let r := looksLatin1 buf r.2
  if r.1 then .inl (.of .latin1 r.2)
  else
  let r := looksExtended buf r.2
  if r.1 then .inl (.of .extended r.2) else .inr r.2

/-- `file_encoding(ms, b, &ubuf, &ulen, ..)` of a buffer that is not NULL. -/
def fileEncoding (host : Host) (encodingMax : Nat) (buf : Bytes) (io : Io) : Encoded × Io :=
  let buf := buf.take encodingMax
  let allocated := host.malloc io.tick
  let io := { io with tick := io.tick + 1 }
  if !allocated then (⟨true, asc "text", .unknown, none⟩, fileOomem host ((buf.length + 1) * 8) io)
  else match tryCodes buf ⟨List.replicate (buf.length + 1) 0, 0⟩ with
    | .inl e => (e, io)
    | .inr u =>
        let allocated := host.malloc io.tick
        let io := { io with tick := io.tick + 1 }
        if !allocated then (⟨true, asc "text", .unknown, some u⟩, fileOomem host (buf.length + 1) io)
        else (tryEbcdic buf u, io)

/-! ## What the codes are -/

/-- The bytes with a class of `text_chars` that `ok` lets through. -/
def AllIn (ok : TextClass → Prop) (buf : Bytes) : Prop := ∀ b ∈ buf, ok (textChars b.toNat)

/-- The byte-order mark of UTF-7, with a byte behind it. -/
def Utf7Mark (buf : Bytes) : Prop :=
  ∃ b c rest, buf = 0x2b :: 0x2f :: 0x76 :: b :: c :: rest ∧ (b = 0x38 ∨ b = 0x39 ∨ b = 0x2b ∨ b = 0x2f)

/-- A text without odd controls, which may be cut inside its last character. -/
def CutUtf8 (buf : Bytes) (cs : List Char) : Prop :=
  ∃ cut, buf = utf8 cs ++ cut ∧ Truncated cut ∧ ∀ c ∈ cs, plainText c.toNat = true

/-- The buffers that are text in a code, and their characters. -/
def Code.Reads : Code → Bytes → List Nat → Prop
  | .unknown, _, _ => False
  | .utf7, buf, us => AllIn (· = .T) buf ∧ Utf7Mark buf ∧ us = []
  | .ascii, buf, us => AllIn (· = .T) buf ∧ us = buf.map UInt8.toNat
  | .utf8Bom, buf, us =>
      ∃ rest cs, buf = 0xef :: 0xbb :: 0xbf :: rest ∧ rest ≠ [] ∧ CutUtf8 rest cs ∧ us = cs.map Char.toNat
  | .utf8, buf, us =>
      ∃ cs, CutUtf8 buf cs ∧ (∃ c ∈ cs, 0x7f < c.toNat) ∧ us = cs.map Char.toNat
  | .utf32 bigend, buf, us =>
      ∃ rest, ucs32Bom buf = some (bigend, rest) ∧ (∀ x ∈ units32 bigend rest, Clean32 x) ∧ us = units32 bigend rest
  | .utf16 bigend, buf, us =>
      ∃ rest cs tail, ucs16Bom buf = some (bigend, rest) ∧ units16 bigend rest = Unicode.utf16 cs ++ tail ∧ LoneHigh tail ∧
        (∀ x ∈ units16 bigend rest, Clean16 x) ∧ us = cs.flatMap storedChar ++ tail
  | .latin1, buf, us => AllIn (fun t => t = .T ∨ t = .I) buf ∧ us = buf.map UInt8.toNat
  | .extended, buf, us => AllIn (· ≠ .F) buf ∧ us = buf.map UInt8.toNat
  | .ebcdic, buf, us => AllIn (· = .T) (fromEbcdic buf) ∧ us = (fromEbcdic buf).map UInt8.toNat
  | .ebcdicInternational, buf, us =>
      AllIn (fun t => t = .T ∨ t = .I) (fromEbcdic buf) ∧ us = (fromEbcdic buf).map UInt8.toNat

/-- The codes, those that go first in front. -/
def Code.order : List Code :=
  [.utf7, .ascii, .utf8Bom, .utf8, .utf32 false, .utf32 true, .utf16 false, .utf16 true, .latin1, .extended,
    .ebcdic, .ebcdicInternational]

/-- The code reads the buffer, and none in front of it does. -/
def Code.First (code : Code) (buf : Bytes) (us : List Nat) : Prop :=
  code.Reads buf us ∧ ∀ c ∈ Code.order.takeWhile (· ≠ code), ∀ us', ¬ c.Reads buf us'

/-! ## Each decoder -/

section

variable {buf : Bytes} {u : Unichars} {us : List Nat}

/-- What is stored from the start of an array with enough room. -/
theorem pushAll_reset (room : us.length ≤ u.cells.length) :
    (u.reset.pushAll us).text = us ∧ (u.reset.pushAll us).ulen = us.length := by
  constructor
  · obtain ⟨text, -⟩ := Unichars.pushAll_text (u := u.reset) us (by simpa [Unichars.reset] using room)
    rw [text, Unichars.reset_text, List.nil_append]
  · rw [Unichars.pushAll_ulen]
    exact Nat.zero_add _

/-- How a decoder leaves the array: as long as it was, with at most `n` characters. -/
structure Stored (u : Unichars) (n : Nat) (v : Unichars) : Prop where
  cells : v.cells.length = u.cells.length
  ulen : v.ulen ≤ n

theorem looksLoop_stored (cond : TextClass → Bool) (buf : Bytes) (u : Unichars) :
    Stored u (u.ulen + buf.length) (looksLoop cond u buf).2 := by
  induction buf generalizing u with
  | nil => exact ⟨rfl, Nat.le_refl _⟩
  | cons b buf ih =>
      rw [looksLoop]
      split
      · exact ⟨rfl, Nat.le_add_right _ _⟩
      · obtain ⟨cells, ulen⟩ := ih (u.push b.toNat)
        refine ⟨cells.trans (Unichars.push_cells_length u _), ulen.trans ?_⟩
        rw [Unichars.push_ulen, List.length_cons]
        omega

theorem looks_stored (cond : TextClass → Bool) (buf : Bytes) (u : Unichars) :
    Stored u buf.length (looks cond buf u).2 := by
  obtain ⟨cells, ulen⟩ := looksLoop_stored cond buf u.reset
  exact ⟨cells, ulen.trans (Nat.zero_add _).le⟩

theorem looksLoop_iff (cond : TextClass → Bool) (u : Unichars) (buf : Bytes) :
    (looksLoop cond u buf).1 = true ↔ AllIn (cond · = false) buf := by
  induction buf generalizing u with
  | nil => exact iff_of_true rfl (List.forall_mem_nil _)
  | cons b buf ih =>
      rw [looksLoop, AllIn, List.forall_mem_cons]
      split
      next refused => simp [refused]
      next passes =>
        rw [ih, AllIn]
        simp [passes]

theorem looksLoop_run {cond : TextClass → Bool} (all : AllIn (cond · = false) buf) (u : Unichars) :
    looksLoop cond u buf = (true, u.pushAll (buf.map UInt8.toNat)) := by
  induction buf generalizing u with
  | nil => rfl
  | cons b buf ih =>
      obtain ⟨here, rest⟩ := List.forall_mem_cons.mp all
      rw [looksLoop, here, if_neg Bool.false_ne_true, ih rest]
      rfl

/-- The decoders of one byte for a character. -/
theorem looks_reads {cond : TextClass → Bool} {ok : TextClass → Prop} (same : ∀ t, cond t = false ↔ ok t)
    (room : buf.length ≤ u.cells.length) :
    ((looks cond buf u).1 = true ∧ (looks cond buf u).2.text = us) ↔ AllIn ok buf ∧ us = buf.map UInt8.toNat := by
  have classes : AllIn (cond · = false) buf ↔ AllIn ok buf := forall₂_congr fun b _ => same (textChars b.toNat)
  rw [looks, looksLoop_iff, classes]
  refine and_congr_right fun all => ?_
  rw [looksLoop_run (classes.mpr all)]
  dsimp only
  rw [(pushAll_reset (by simpa using room)).1]
  exact eq_comm

theorem notT_iff (t : TextClass) : (t != .T) = false ↔ t = .T := by
  cases t <;> decide

theorem notTI_iff (t : TextClass) : (t != .T && t != .I) = false ↔ t = .T ∨ t = .I := by
  cases t <;> decide

theorem notTIX_iff (t : TextClass) : (t != .T && t != .I && t != .X) = false ↔ t ≠ .F := by
  cases t <;> decide

theorem looksUtf8_stored (u : Unichars) (ctrl gotone : Bool) (buf : Bytes) :
    ∃ v, (looksUtf8 (some u) ctrl gotone buf).2 = some v ∧ Stored u (u.ulen + buf.length) v := by
  induction len : buf.length using Nat.strong_induction_on generalizing u ctrl gotone buf with
  | _ k ih =>
      subst len
      cases buf with
      | nil =>
          rw [looksUtf8_nil]
          exact ⟨u, rfl, rfl, Nat.le_refl _⟩
      | cons b buf =>
          have same : Stored u (u.ulen + (b :: buf).length) u := ⟨rfl, Nat.le_add_right _ _⟩
          have next (c : Nat) (ctrl gotone : Bool) {rest : Bytes} (shorter : rest.length ≤ buf.length) :
              ∃ v, (looksUtf8 (store (some u) c) ctrl gotone rest).2 = some v ∧
                Stored u (u.ulen + (b :: buf).length) v := by
            obtain ⟨v, stored, cells, ulen⟩ := ih rest.length (Nat.lt_succ_of_le shorter) (u.push c) ctrl gotone rest rfl
            refine ⟨v, stored, cells.trans (Unichars.push_cells_length u c), ulen.trans ?_⟩
            rw [Unichars.push_ulen, List.length_cons]
            omega
          by_cases low : b.toNat < 0x80
          · rw [looksUtf8_ascii low]
            exact next b.toNat _ gotone (Nat.le_refl _)
          · by_cases high : b.toNat < 0xC0
            · rw [looksUtf8_lone low high]
              exact ⟨u, rfl, same⟩
            · rw [looksUtf8_lead high]
              cases tail : multibyte b buf with
              | bad => exact ⟨u, rfl, same⟩
              | cut => exact ⟨u, rfl, same⟩
              | ok c rest => exact next c ctrl true (multibyte_length tail)

theorem decodeUtf8_stored (buf : Bytes) (u : Unichars) : Stored u buf.length (decodeUtf8 buf u).2 := by
  obtain ⟨v, stored, cells, ulen⟩ := looksUtf8_stored u.reset false false buf
  have eq : (decodeUtf8 buf u).2 = v := by
    simp only [decodeUtf8, fileLooksUtf8, Option.map_some, stored, Option.getD_some]
  rw [eq]
  exact ⟨cells, ulen.trans (Nat.zero_add _).le⟩

theorem decodeUtf8_cut (cs : List Char) {cut : Bytes} (truncated : Truncated cut) (u : Unichars) :
    decodeUtf8 (utf8 cs ++ cut) u =
      (verdict (cs.any oddControl) (cs.any isMultibyte), u.reset.pushAll (cs.map Char.toNat)) := by
  have run := looksUtf8_text cs truncated (some u.reset) false false
  rw [Bool.false_or, Bool.false_or] at run
  rw [decodeUtf8, fileLooksUtf8, Option.map_some, run]
  rfl

theorem decodeUtf8_accepts (pos : (decodeUtf8 buf u).1 > 0) :
    ∃ cs cut, buf = utf8 cs ++ cut ∧ Truncated cut := by
  have accepted : (looksUtf8 (some u.reset) false false buf).1 ≠ -1 := by
    intro rejected
    change (looksUtf8 (some u.reset) false false buf).1 > 0 at pos
    rw [rejected] at pos
    cases pos
  exact looksUtf8_accepts accepted

theorem any_oddControl {cs : List Char} : cs.any oddControl = false ↔ ∀ c ∈ cs, plainText c.toNat = true := by
  simp only [List.any_eq_false, oddControl_eq, Bool.not_eq_true', Bool.not_eq_false]

theorem cut_length {cs : List Char} {cut : Bytes} (same : buf = utf8 cs ++ cut) : (cs.map Char.toNat).length ≤ buf.length := by
  have short := length_le_length_utf8 cs
  rw [same, List.length_map, List.length_append]
  omega

/-- What `file_looks_utf8` finds to be text, with a limit on its verdict. -/
theorem decodeUtf8_reads (room : buf.length ≤ u.cells.length) (multi : Bool) :
    ((decodeUtf8 buf u).1 > (if multi then 1 else 0) ∧ (decodeUtf8 buf u).2.text = us) ↔
      ∃ cs, CutUtf8 buf cs ∧ (multi = true → ∃ c ∈ cs, 0x7f < c.toNat) ∧ us = cs.map Char.toNat := by
  have judged (cs : List Char) : verdict (cs.any oddControl) (cs.any isMultibyte) > (if multi then 1 else 0) ↔
      (∀ c ∈ cs, plainText c.toNat = true) ∧ (multi = true → ∃ c ∈ cs, 0x7f < c.toNat) := by
    have high : cs.any isMultibyte = true ↔ ∃ c ∈ cs, 0x7f < c.toNat := by
      simp [isMultibyte]
    rw [← any_oddControl, ← high]
    cases cs.any oddControl <;> cases cs.any isMultibyte <;> cases multi <;> decide
  constructor
  · rintro ⟨verdict, text⟩
    have pos : (decodeUtf8 buf u).1 > 0 := by
      cases multi
      · exact verdict
      · exact Int.lt_trans Int.zero_lt_one verdict
    obtain ⟨cs, cut, same, truncated⟩ := decodeUtf8_accepts pos
    have run := decodeUtf8_cut cs truncated u
    rw [← same] at run
    rw [run] at verdict text
    obtain ⟨plain, high⟩ := (judged cs).mp verdict
    exact ⟨cs, ⟨cut, same, truncated, plain⟩, high, text.symm.trans (pushAll_reset ((cut_length same).trans room)).1⟩
  · rintro ⟨cs, ⟨cut, same, truncated, plain⟩, high, rfl⟩
    have run := decodeUtf8_cut cs truncated u
    rw [← same] at run
    rw [run]
    exact ⟨(judged cs).mpr ⟨plain, high⟩, (pushAll_reset ((cut_length same).trans room)).1⟩

theorem looksUtf8WithBom_stored (before : u.ulen ≤ buf.length) : Stored u buf.length (looksUtf8WithBom buf u).2 := by
  unfold looksUtf8WithBom
  split
  · obtain ⟨cells, ulen⟩ := decodeUtf8_stored _ u
    refine ⟨cells, ulen.trans ?_⟩
    simp only [List.length_cons]
    omega
  · exact ⟨rfl, before⟩

theorem looksUtf8WithBom_reads (room : buf.length ≤ u.cells.length) :
    ((looksUtf8WithBom buf u).1 > 0 ∧ (looksUtf8WithBom buf u).2.text = us) ↔ Code.utf8Bom.Reads buf us := by
  unfold looksUtf8WithBom Code.Reads
  split
  next b rest =>
    have room' : (b :: rest).length ≤ u.cells.length := by
      simp only [List.length_cons] at room ⊢
      omega
    have reads := @decodeUtf8_reads (b :: rest) u us room' false
    rw [if_neg Bool.false_ne_true] at reads
    rw [reads]
    constructor
    · rintro ⟨cs, cut, -, text⟩
      exact ⟨b :: rest, cs, rfl, List.cons_ne_nil _ _, cut, text⟩
    · rintro ⟨rest', cs, same, -, cut, text⟩
      simp only [List.cons.injEq, true_and] at same
      exact ⟨cs, same ▸ cut, nofun, text⟩
  next short =>
    constructor
    · rintro ⟨verdict, -⟩
      cases verdict
    · rintro ⟨rest, cs, same, some, -⟩
      obtain ⟨b, rest, rfl⟩ := List.exists_cons_of_ne_nil some
      exact absurd same (short b rest)

theorem looksUtf7_iff (buf : Bytes) (u : Unichars) : (looksUtf7 buf u).1 > 0 ↔ Utf7Mark buf := by
  unfold looksUtf7 Utf7Mark
  split
  next b c rest =>
    split
    next mark => exact iff_of_true Int.zero_lt_one ⟨b, c, rest, rfl, mark⟩
    next other =>
      refine iff_of_false nofun ?_
      rintro ⟨b', c', rest', same, mark⟩
      simp only [List.cons.injEq, true_and] at same
      exact other (same.1 ▸ mark)
  next short =>
    refine iff_of_false nofun ?_
    rintro ⟨b, c, rest, same, -⟩
    exact short b c rest same

/-- UTF-7 text is not decoded. -/
theorem looksUtf7_array (buf : Bytes) (u : Unichars) :
    (looksUtf7 buf u).2 = if (looksUtf7 buf u).1 > 0 then u.reset else u := by
  unfold looksUtf7
  split
  · split <;> rfl
  · rfl

/-- A decoder that goes on behind the character it has stored. -/
theorem Stored.push {c n k : Nat} {v : Unichars} (stored : Stored (u.push c) ((u.push c).ulen + n) v) (less : n < k) :
    Stored u (u.ulen + k) v := by
  refine ⟨stored.cells.trans (Unichars.push_cells_length u c), stored.ulen.trans ?_⟩
  rw [Unichars.push_ulen]
  omega

theorem ucs32Units_stored (u : Unichars) (us : List Nat) : Stored u (u.ulen + us.length) (ucs32Units u us).2 := by
  induction us generalizing u with
  | nil => exact ⟨rfl, Nat.le_refl _⟩
  | cons x us ih =>
      rw [ucs32Units]
      split
      · exact Stored.push ⟨rfl, Nat.le_add_right _ 0⟩ (Nat.succ_pos _)
      · exact Stored.push (ih _) (Nat.lt_succ_self _)

theorem ucs16Units_stored (hi : Nat) (u : Unichars) (us : List Nat) :
    Stored u (u.ulen + us.length) (ucs16Units hi u us).2 := by
  induction us generalizing hi u with
  | nil => exact ⟨rfl, Nat.le_refl _⟩
  | cons x us ih =>
      have kept : Stored u (u.ulen + (x :: us).length) u := ⟨rfl, Nat.le_add_right _ _⟩
      rw [ucs16Units]
      dsimp only
      split
      · exact kept
      split
      · exact kept
      split
      · exact kept
      split
      · exact kept
      split
      · exact Stored.push ⟨rfl, Nat.le_add_right _ 0⟩ (Nat.succ_pos _)
      · exact Stored.push (ih _ _) (Nat.lt_succ_self _)

theorem looksUcs32_stored (before : u.ulen ≤ buf.length) : Stored u buf.length (looksUcs32 buf u).2 := by
  rw [looksUcs32]
  cases bom : ucs32Bom buf with
  | none => exact ⟨rfl, before⟩
  | some mark =>
      have short := length_units32_le mark.1 mark.2
      have shorter := ucs32Bom_length bom
      dsimp only
      rw [ucs32Loop_units]
      obtain ⟨cells, ulen⟩ := ucs32Units_stored u.reset (units32 mark.1 mark.2)
      refine ⟨cells, ulen.trans ?_⟩
      change 0 + _ ≤ _
      omega

theorem looksUcs32_value {bigend : Bool} {rest : Bytes} (bom : ucs32Bom buf = some (bigend, rest))
    (clean : ∀ x ∈ units32 bigend rest, Clean32 x) : (looksUcs32 buf u).1 = 1 + bigend.toNat := by
  have all := (ucs32Units_iff u.reset (units32 bigend rest)).mpr clean
  simp only [looksUcs32, bom, ucs32Loop_units, all, if_true]

theorem looksUcs32_reads (room : buf.length ≤ u.cells.length) (bigend : Bool) :
    ((looksUcs32 buf u).1 ≠ 0 ∧ ((looksUcs32 buf u).1 != 1) = bigend ∧ (looksUcs32 buf u).2.text = us) ↔
      (Code.utf32 bigend).Reads buf us := by
  constructor
  · rintro ⟨accepted, order, text⟩
    obtain ⟨bigend', rest, bom, clean⟩ := (looksUcs32_accepts buf u).mp accepted
    rw [looksUcs32_value bom clean] at order
    obtain rfl : bigend' = bigend := by
      rw [← order]
      cases bigend' <;> rfl
    exact ⟨rest, bom, clean, text.symm.trans (looksUcs32_text bom clean room)⟩
  · rintro ⟨rest, bom, clean, rfl⟩
    rw [looksUcs32_value bom clean]
    refine ⟨by omega, ?_, looksUcs32_text bom clean room⟩
    cases bigend <;> rfl

theorem looksUcs16_reads (room : buf.length ≤ u.cells.length) (bigend : Bool) :
    ((looksUcs16 buf u).1 ≠ 0 ∧ ((looksUcs16 buf u).1 != 1) = bigend ∧ (looksUcs16 buf u).2.text = us) ↔
      (Code.utf16 bigend).Reads buf us := by
  constructor
  · rintro ⟨accepted, order, text⟩
    obtain ⟨bigend', rest, cs, tail, bom, units, lone, clean⟩ := looksUcs16_accepts accepted
    rw [looksUcs16_run bom units lone clean] at order
    obtain rfl : bigend' = bigend := by
      rw [← order]
      cases bigend' <;> rfl
    exact ⟨rest, cs, tail, bom, units, lone, clean, text.symm.trans (looksUcs16_text bom units lone clean room)⟩
  · rintro ⟨rest, cs, tail, bom, units, lone, clean, rfl⟩
    refine ⟨?_, ?_, looksUcs16_text bom units lone clean room⟩
    · rw [looksUcs16_run bom units lone clean]
      omega
    · rw [looksUcs16_run bom units lone clean]
      cases bigend <;> rfl

theorem looksUcs16_stored (before : u.ulen ≤ buf.length) : Stored u buf.length (looksUcs16 buf u).2 := by
  rw [looksUcs16]
  cases bom : ucs16Bom buf with
  | none => exact ⟨rfl, before⟩
  | some mark =>
      have short := length_units16_le mark.1 mark.2
      have shorter := ucs16Bom_length bom
      dsimp only
      rw [ucs16Loop_units]
      obtain ⟨cells, ulen⟩ := ucs16Units_stored 0 u.reset (units16 mark.1 mark.2)
      refine ⟨cells, ulen.trans ?_⟩
      change 0 + _ ≤ _
      omega

end

/-! ## The decoders in turn -/

/-- No text in the code. -/
def Code.Fails (code : Code) (buf : Bytes) : Prop := ∀ us, ¬ code.Reads buf us

section

variable {buf : Bytes} {u : Unichars}

/-- A decoder with its verdict and what it leaves in the array, and the code it stands for. -/
def Judges (accepts : Prop) (v : Unichars) (code : Code) (buf : Bytes) : Prop :=
  ∀ us, accepts ∧ v.text = us ↔ code.Reads buf us

theorem Judges.reads {accepts : Prop} {v : Unichars} {code : Code} (judges : Judges accepts v code buf) (yes : accepts) :
    code.Reads buf v.text :=
  (judges v.text).mp ⟨yes, rfl⟩

theorem Judges.fails {accepts : Prop} {v : Unichars} {code : Code} (judges : Judges accepts v code buf) (no : ¬ accepts) :
    code.Fails buf :=
  fun us reads => no ((judges us).mpr reads).1

/-- What a code reads is one text. -/
theorem Judges.unique {accepts : Prop} {v : Unichars} {code : Code} (judges : Judges accepts v code buf)
    {us us' : List Nat} (reads : code.Reads buf us) (reads' : code.Reads buf us') : us = us' :=
  ((judges us).mpr reads).2.symm.trans ((judges us').mpr reads').2

theorem judges_ascii (room : buf.length ≤ u.cells.length) :
    Judges ((looksAscii buf u).1 = true) (looksAscii buf u).2 .ascii buf :=
  fun _ => looks_reads notT_iff room

theorem judges_utf7 (v : Unichars) (ascii : AllIn (· = .T) buf) :
    Judges ((looksUtf7 buf v).1 > 0) (looksUtf7 buf v).2 .utf7 buf := by
  intro us
  have reset (mark : (looksUtf7 buf v).1 > 0) : (looksUtf7 buf v).2.text = [] := by
    rw [looksUtf7_array, if_pos mark, Unichars.reset_text]
  constructor
  · rintro ⟨mark, rfl⟩
    exact ⟨ascii, (looksUtf7_iff buf v).mp mark, reset mark⟩
  · rintro ⟨-, mark, rfl⟩
    have mark := (looksUtf7_iff buf v).mpr mark
    exact ⟨mark, reset mark⟩

theorem judges_utf8Bom (room : buf.length ≤ u.cells.length) :
    Judges ((looksUtf8WithBom buf u).1 > 0) (looksUtf8WithBom buf u).2 .utf8Bom buf :=
  fun _ => looksUtf8WithBom_reads room

theorem judges_utf8 (room : buf.length ≤ u.cells.length) :
    Judges ((decodeUtf8 buf u).1 > 1) (decodeUtf8 buf u).2 .utf8 buf := by
  intro us
  have reads := @decodeUtf8_reads buf u us room true
  rw [if_pos rfl] at reads
  rw [reads]
  exact exists_congr fun cs => and_congr_right fun _ => and_congr_left fun _ => ⟨fun h => h rfl, fun h _ => h⟩

theorem judges_utf32 (room : buf.length ≤ u.cells.length) (bigend : Bool) :
    Judges ((looksUcs32 buf u).1 ≠ 0 ∧ ((looksUcs32 buf u).1 != 1) = bigend) (looksUcs32 buf u).2 (.utf32 bigend) buf :=
  fun _ => and_assoc.trans (looksUcs32_reads room bigend)

theorem judges_utf16 (room : buf.length ≤ u.cells.length) (bigend : Bool) :
    Judges ((looksUcs16 buf u).1 ≠ 0 ∧ ((looksUcs16 buf u).1 != 1) = bigend) (looksUcs16 buf u).2 (.utf16 bigend) buf :=
  fun _ => and_assoc.trans (looksUcs16_reads room bigend)

theorem judges_latin1 (room : buf.length ≤ u.cells.length) :
    Judges ((looksLatin1 buf u).1 = true) (looksLatin1 buf u).2 .latin1 buf :=
  fun _ => looks_reads notTI_iff room

theorem judges_extended (room : buf.length ≤ u.cells.length) :
    Judges ((looksExtended buf u).1 = true) (looksExtended buf u).2 .extended buf :=
  fun _ => looks_reads notTIX_iff room

theorem fromEbcdic_length (buf : Bytes) : (fromEbcdic buf).length = buf.length := List.length_map _

theorem judges_ebcdic (room : buf.length ≤ u.cells.length) :
    Judges ((looksAscii (fromEbcdic buf) u).1 = true) (looksAscii (fromEbcdic buf) u).2 .ebcdic buf :=
  fun _ => looks_reads notT_iff ((fromEbcdic_length buf).le.trans room)

theorem judges_ebcdicInternational (room : buf.length ≤ u.cells.length) :
    Judges ((looksLatin1 (fromEbcdic buf) u).1 = true) (looksLatin1 (fromEbcdic buf) u).2 .ebcdicInternational buf :=
  fun _ => looks_reads notTI_iff ((fromEbcdic_length buf).le.trans room)

theorem Code.Reads.unique {code : Code} {us us' : List Nat} (reads : code.Reads buf us) (reads' : code.Reads buf us') :
    us = us' := by
  have room : buf.length ≤ (⟨List.replicate buf.length 0, 0⟩ : Unichars).cells.length := List.length_replicate.ge
  cases code with
  | unknown => exact reads.elim
  | utf7 => exact reads.2.2.trans reads'.2.2.symm
  | ascii => exact (judges_ascii room).unique reads reads'
  | utf8Bom => exact (judges_utf8Bom room).unique reads reads'
  | utf8 => exact (judges_utf8 room).unique reads reads'
  | utf32 bigend => exact (judges_utf32 room bigend).unique reads reads'
  | utf16 bigend => exact (judges_utf16 room bigend).unique reads reads'
  | latin1 => exact (judges_latin1 room).unique reads reads'
  | extended => exact (judges_extended room).unique reads reads'
  | ebcdic => exact (judges_ebcdic room).unique reads reads'
  | ebcdicInternational => exact (judges_ebcdicInternational room).unique reads reads'

/-- Of two members of a list, one stands in front of the other. -/
theorem mem_takeWhile_or {α : Type} [DecidableEq α] {l : List α} {a b : α} (ha : a ∈ l) (hb : b ∈ l) :
    a = b ∨ a ∈ l.takeWhile (· ≠ b) ∨ b ∈ l.takeWhile (· ≠ a) := by
  induction l with
  | nil => cases ha
  | cons x l ih =>
      simp only [List.takeWhile_cons, decide_eq_true_eq]
      by_cases first : x = a
      · by_cases both : x = b
        · exact .inl (first.symm.trans both)
        · right; left
          rw [if_pos both, first]
          exact List.mem_cons_self
      · by_cases second : x = b
        · right; right
          rw [if_pos first, second]
          exact List.mem_cons_self
        · have ha := (List.mem_cons.mp ha).resolve_left (Ne.symm first)
          have hb := (List.mem_cons.mp hb).resolve_left (Ne.symm second)
          rw [if_pos first, if_pos second]
          exact (ih ha hb).imp id (Or.imp (List.mem_cons_of_mem x) (List.mem_cons_of_mem x))

theorem Code.Reads.mem_order {code : Code} {us : List Nat} (reads : code.Reads buf us) : code ∈ Code.order := by
  rcases code with _ | _ | _ | _ | _ | (_ | _) | (_ | _) | _ | _ | _ | _
  case unknown => exact reads.elim
  all_goals decide

theorem Code.First.unique {code code' : Code} {us us' : List Nat} (first : code.First buf us) (first' : code'.First buf us') :
    code = code' ∧ us = us' := by
  obtain same | before | behind := mem_takeWhile_or first.1.mem_order first'.1.mem_order
  · subst same
    exact ⟨rfl, first.1.unique first'.1⟩
  · exact absurd first.1 (first'.2 code before us)
  · exact absurd first'.1 (first.2 code' behind us')

/-! ## `tryCodes` -/

theorem Stored.trans {n : Nat} {v w : Unichars} (stored : Stored u n v) (stored' : Stored v n w) : Stored u n w :=
  ⟨stored'.cells.trans stored.cells, stored'.ulen⟩

theorem Stored.room {n : Nat} {v : Unichars} (stored : Stored u n v) (room : buf.length ≤ u.cells.length) :
    buf.length ≤ v.cells.length :=
  room.trans stored.cells.ge

/-- The first code that reads the buffer is found, with its text in the array. -/
def Settled (buf : Bytes) (u : Unichars) (e : Encoded) : Prop :=
  ∃ code v, e = .of code v ∧ Stored u buf.length v ∧ code.First buf v.text

theorem looksUtf7_stored (before : u.ulen ≤ buf.length) : Stored u buf.length (looksUtf7 buf u).2 := by
  rw [looksUtf7_array]
  split
  · exact ⟨rfl, Nat.zero_le _⟩
  · exact ⟨rfl, before⟩

theorem fails_utf7 (fails : Code.ascii.Fails buf) : Code.utf7.Fails buf :=
  fun _ reads => fails _ ⟨reads.1, rfl⟩

/-- ASCII, unless it is UTF-7. -/
theorem settled_ascii (room : buf.length ≤ u.cells.length) (yes : (looksAscii buf u).1 = true) :
    Settled buf u
      (if (looksUtf7 buf (looksAscii buf u).2).1 > 0 then .of .utf7 (looksUtf7 buf (looksAscii buf u).2).2
       else .of .ascii (looksUtf7 buf (looksAscii buf u).2).2) := by
  have stored := looks_stored (fun t => t != .T) buf u
  have reads := (judges_ascii room).reads yes
  have utf7 := judges_utf7 (looksAscii buf u).2 reads.1
  have stored' := stored.trans (looksUtf7_stored stored.ulen)
  split
  next mark => exact ⟨.utf7, _, rfl, stored', utf7.reads mark, List.forall_mem_nil _⟩
  next plain =>
    refine ⟨.ascii, _, rfl, stored', ?_, List.forall_mem_singleton.mpr (utf7.fails plain)⟩
    rw [looksUtf7_array, if_neg plain]
    exact reads

/-- The codes have been tried on the array, and none of them reads the buffer. -/
structure Passed (buf : Bytes) (u v : Unichars) (codes : List Code) : Prop where
  stored : Stored u buf.length v
  fails : ∀ c ∈ codes, c.Fails buf

theorem Passed.next {v w : Unichars} {codes more : List Code} (passed : Passed buf u v codes)
    (stored : Stored v buf.length w) (fails : ∀ c ∈ more, c.Fails buf) : Passed buf u w (codes ++ more) :=
  ⟨passed.stored.trans stored, List.forall_mem_append.mpr ⟨passed.fails, fails⟩⟩

theorem Passed.settles {v w : Unichars} {code : Code} (passed : Passed buf u v (Code.order.takeWhile (· ≠ code)))
    (stored : Stored v buf.length w) (reads : code.Reads buf w.text) : Settled buf u (.of code w) :=
  ⟨code, w, rfl, passed.stored.trans stored, reads, passed.fails⟩

/-- What a decoder for both byte orders finds, in the order of `Code.order`. -/
theorem Passed.bigend {v w : Unichars} {accepts : Prop} [Decidable accepts] {bigend : Bool} {code : Bool → Code}
    {codes : List Code} (passed : Passed buf u v codes) (stored : Stored v buf.length w)
    (judges : ∀ b, Judges (accepts ∧ bigend = b) w (code b) buf)
    (little : Code.order.takeWhile (· ≠ code false) = codes)
    (big : Code.order.takeWhile (· ≠ code true) = codes ++ [code false]) :
    if accepts then Settled buf u (.of (code bigend) w) else Passed buf u w (codes ++ [code false, code true]) := by
  split
  next yes =>
    have reads := (judges bigend).reads ⟨yes, rfl⟩
    cases bigend with
    | false => exact Passed.settles (little ▸ passed) stored reads
    | true =>
        have fails := (judges false).fails (fun both => Bool.noConfusion both.2)
        have both := passed.next ⟨rfl, passed.stored.ulen⟩ (List.forall_mem_singleton.mpr fails)
        exact Passed.settles (big ▸ both) stored reads
  next no =>
    have fails (b : Bool) := (judges b).fails fun both => no both.1
    refine passed.next stored ?_
    rw [List.forall_mem_cons, List.forall_mem_singleton]
    exact ⟨fails false, fails true⟩

/-- The decoders but for EBCDIC find the first code in the order, or none of these codes reads the buffer. -/
theorem tryCodes_judged (room : buf.length ≤ u.cells.length) :
    (tryCodes buf u).elim (Settled buf u) fun v => Passed buf u v (Code.order.takeWhile (· ≠ .ebcdic)) := by
  rw [tryCodes]
  dsimp only
  split
  next yes => exact settled_ascii room yes
  next no =>
  have ascii := (judges_ascii room).fails no
  have passed : Passed buf u (looksAscii buf u).2 [.utf7, .ascii] := by
    refine ⟨looks_stored (fun t => t != .T) buf u, ?_⟩
    rw [List.forall_mem_cons, List.forall_mem_singleton]
    exact ⟨fails_utf7 ascii, ascii⟩
  have judges := judges_utf8Bom (passed.stored.room room)
  have stored := looksUtf8WithBom_stored passed.stored.ulen
  split
  next yes => exact Passed.settles passed stored (judges.reads yes)
  next no =>
  replace passed := passed.next stored (List.forall_mem_singleton.mpr (judges.fails no))
  have judges := judges_utf8 (passed.stored.room room)
  have stored := decodeUtf8_stored buf (looksUtf8WithBom buf (looksAscii buf u).2).2
  split
  next yes => exact Passed.settles passed stored (judges.reads yes)
  next no =>
  replace passed := passed.next stored (List.forall_mem_singleton.mpr (judges.fails no))
  have both := passed.bigend (looksUcs32_stored passed.stored.ulen) (judges_utf32 (passed.stored.room room)) rfl rfl
  split
  next yes => exact (if_pos yes).mp both
  next no =>
  replace passed := (if_neg no).mp both
  have both := passed.bigend (looksUcs16_stored passed.stored.ulen) (judges_utf16 (passed.stored.room room)) rfl rfl
  split
  next yes => exact (if_pos yes).mp both
  next no =>
  replace passed := (if_neg no).mp both
  have judges := judges_latin1 (passed.stored.room room)
  split
  next yes => exact Passed.settles passed (looks_stored _ buf _) (judges.reads yes)
  next no =>
  replace passed := passed.next (looks_stored (fun t => t != .T && t != .I) buf _) (List.forall_mem_singleton.mpr (judges.fails no))
  have judges := judges_extended (passed.stored.room room)
  split
  next yes => exact Passed.settles passed (looks_stored _ buf _) (judges.reads yes)
  next no => exact passed.next (looks_stored _ buf _) (List.forall_mem_singleton.mpr (judges.fails no))

theorem fromEbcdic_stored (cond : TextClass → Bool) (buf : Bytes) (u : Unichars) :
    Stored u buf.length (looks cond (fromEbcdic buf) u).2 :=
  fromEbcdic_length buf ▸ looks_stored cond (fromEbcdic buf) u

/-- The branch for EBCDIC, behind the other codes. -/
theorem tryEbcdic_judged {v : Unichars} (room : buf.length ≤ u.cells.length)
    (passed : Passed buf u v (Code.order.takeWhile (· ≠ .ebcdic))) :
    Settled buf u (tryEbcdic buf v) ∨
      ∃ w, tryEbcdic buf v = ⟨false, asc "binary", .unknown, some w⟩ ∧ Passed buf u w Code.order := by
  rw [tryEbcdic]
  dsimp only
  have judges := judges_ebcdic (passed.stored.room room)
  split
  next yes => exact .inl (Passed.settles passed (fromEbcdic_stored _ buf _) (judges.reads yes))
  next no =>
  replace passed := passed.next (fromEbcdic_stored (fun t => t != .T) buf _) (List.forall_mem_singleton.mpr (judges.fails no))
  have judges := judges_ebcdicInternational (passed.stored.room room)
  split
  next yes => exact .inl (Passed.settles passed (fromEbcdic_stored _ buf _) (judges.reads yes))
  next no => exact .inr ⟨_, rfl, passed.next (fromEbcdic_stored _ buf _) (List.forall_mem_singleton.mpr (judges.fails no))⟩

end

/-! ## `file_encoding` exactly -/

theorem fileEncoding_judged (host : Host) (encodingMax : Nat) (buf : Bytes) (io : Io)
    (memory : ∀ k, host.malloc (io.tick + k) = true) :
    let u : Unichars := ⟨List.replicate ((buf.take encodingMax).length + 1) 0, 0⟩
    let e := (fileEncoding host encodingMax buf io).1
    Settled (buf.take encodingMax) u e ∨
      ∃ w, e = ⟨false, asc "binary", .unknown, some w⟩ ∧ Passed (buf.take encodingMax) u w Code.order := by
  intro u e
  have room : (buf.take encodingMax).length ≤ u.cells.length := by
    rw [List.length_replicate]
    exact Nat.le_succ _
  have judged := tryCodes_judged room
  have first : host.malloc io.tick = true := memory 0
  have second : host.malloc (io.tick + 1) = true := memory 1
  simp only [e, fileEncoding, first, Bool.not_true, Bool.false_eq_true, if_false]
  cases tried : tryCodes (buf.take encodingMax) u with
  | inl found =>
      rw [tried] at judged
      exact .inl judged
  | inr v =>
      rw [tried] at judged
      simp only [second, Bool.not_true, Bool.false_eq_true, if_false]
      exact tryEbcdic_judged room judged

/-- `file_encoding` finds the first code in its order that reads the buffer, with the text in that code, and finds
none exactly where no code does. The text always fits into the array. -/
theorem fileEncoding_exact (host : Host) (encodingMax : Nat) (buf : Bytes) (io : Io)
    (memory : ∀ k, host.malloc (io.tick + k) = true) (code : Code) (us : List Nat) :
    let e := (fileEncoding host encodingMax buf io).1
    (e.rv = true ∧ e.code = code ∧ e.text = us ↔ code.First (buf.take encodingMax) us) ∧
      (e.rv = false ↔ ∀ c us', ¬ Code.Reads c (buf.take encodingMax) us') ∧
      e.ulen ≤ (buf.take encodingMax).length ∧
      e.ubuf.map (·.cells.length) = some ((buf.take encodingMax).length + 1) := by
  intro e
  have judged := fileEncoding_judged host encodingMax buf io memory
  dsimp only at judged
  change Settled _ _ e ∨ ∃ w, e = _ ∧ _ at judged
  clear_value e
  have array {v : Unichars} (stored : Stored ⟨List.replicate ((buf.take encodingMax).length + 1) 0, 0⟩
      (buf.take encodingMax).length v) : v.cells.length = (buf.take encodingMax).length + 1 :=
    stored.cells.trans List.length_replicate
  obtain ⟨found, v, rfl, stored, first⟩ | ⟨v, rfl, passed⟩ := judged
  · refine ⟨⟨?_, ?_⟩, ?_, stored.ulen, congrArg some (array stored)⟩
    · rintro ⟨-, rfl, rfl⟩
      exact first
    · intro first'
      obtain ⟨rfl, rfl⟩ := first.unique first'
      exact ⟨rfl, rfl, rfl⟩
    · exact iff_of_false Bool.noConfusion fun none => none found _ first.1
  · have none (c : Code) (us' : List Nat) : ¬ Code.Reads c (buf.take encodingMax) us' :=
      fun reads => passed.fails c reads.mem_order us' reads
    refine ⟨?_, iff_of_true rfl none, passed.stored.ulen, congrArg some (array passed.stored)⟩
    exact iff_of_false (fun found => Bool.noConfusion found.1) fun first => none code us first.1

/-- An `A` with an umlaut in UTF-8, in front of a cut character. -/
theorem fileEncoding_exact_cut :
    let buf : Bytes := [0xc3, 0x84, 0x0a, 0xe2, 0x82]
    let e := (fileEncoding plainHost 1048576 buf (plainScan buf).io).1
    (e.rv = true ∧ e.code = .utf8 ∧ e.text = [0xc4, 0x0a] ↔ Code.First .utf8 (buf.take 1048576) [0xc4, 0x0a]) ∧
      (e.rv = false ↔ ∀ c us', ¬ Code.Reads c (buf.take 1048576) us') ∧
      e.ulen ≤ (buf.take 1048576).length ∧
      e.ubuf.map (·.cells.length) = some ((buf.take 1048576).length + 1) :=
  fileEncoding_exact plainHost 1048576 [0xc3, 0x84, 0x0a, 0xe2, 0x82] _ (fun _ => rfl) .utf8 [0xc4, 0x0a]

end Libmagic.Encoding
