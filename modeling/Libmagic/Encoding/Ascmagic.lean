import Libmagic.Encoding.FileEncoding
import Libmagic.Encoding.Lines
import Libmagic.Funcs.Replace

/-!
# `ascmagic.c`: text files

A text is written anew in UTF-8 for the magic of text files, and its characters are looked at for the description.
`rounds` bounds `file_replace`.
-/
namespace Libmagic.Encoding

open Softmagic
open Unicode hiding utf16
open Lines (Ubuf Stats stats)

def MAGIC_MIME : Nat := 0x410
def MAGIC_NO_CHECK_SOFT : Nat := 0x4000

/-- `trim_nuls(buf, nbytes)`. -/
def trimNuls (buf : Bytes) : (nbytes : Nat) → Nat
  | n + 2 => if buf.getD (n + 1) 0 = 0 then trimNuls buf (n + 1) else n + 2
  | n => n

/-- The state in which `file_softmagic(ms, b, NULL, NULL, ..)` starts. -/
def scanOf (ms : Ms) (b : Buffer) : Scan where
  toMs := ms
  b := b
  indirCount := 0
  nameCount := 0
  printedSomething := false
  needSeparator := false
  firstline := true
  returnval := false
  foundMatch := false
  overrun := false

/-- The buffer of the text in UTF-8. -/
def Buffer.reencoded (b : Buffer) (utf8 : Bytes) : Buffer := { file := b.file, fbuf := some utf8, ebuf := none, elen := 0 }

/-- What is known behind the magic for text files: `rv`, and whether that is all. -/
structure Tested where
  rv : Int
  done : Bool
  needSeparator : Bool
  ms : Ms

/-- What the result of `file_softmagic` comes to. -/
def Tested.of (flags : Nat) (r : Option Bool × Scan) : Tested :=
  let rv := if r.1 = some true then 1 else -1
  if has flags (MAGIC_APPLE ||| MAGIC_EXTENSION) then ⟨if rv = -1 then 0 else 1, true, r.1 != some false, r.2.toMs⟩
  else ⟨rv, false, r.1 != some false, r.2.toMs⟩

/-- The first part of `file_ascmagic_with_encoding`. -/
def testText (env : Env) (text : Bool) (b : Buffer) (us : List Nat) (ms : Ms) : Tested :=
  if us.length > 0 ∧ ¬ has env.flags MAGIC_NO_CHECK_SOFT then
    if us.length > (2 ^ 64 - 1) / 6 then ⟨-1, true, false, ms⟩
    else
      let mlen := us.length * 6
      let allocated := env.host.malloc ms.io.tick
      let ms := { ms with io := { ms.io with tick := ms.io.tick + 1 } }
      if !allocated then ⟨-1, true, false, { ms with io := fileOomem env.host mlen ms.io }⟩
      else match encodeUtf8 mlen us with
        | (_, false) => ⟨0, true, false, ms⟩
        | (utf8, true) =>
            .of env.flags (fileSoftmagic env TEXTTEST text (scanOf ms (Buffer.reencoded b utf8)))
  else ⟨-1, false, false, ms⟩

/-- The MIME type. -/
def describeMime (env : Env) (needSeparator : Bool) (rv : Int) (io : Io) : Int × Io :=
  if has env.flags MAGIC_MIME_TYPE then
    if blen io ≠ 0 ∧ ¬ has env.flags MAGIC_CONTINUE then (1, io)
    else
      let r := if blen io ≠ 0 ∧ needSeparator then fileSeparator env.host io else (true, io)
      if !r.1 then (rv, r.2)
      else
        let r := filePrintf env.host (asc "text/plain") [] r.2
        (if r.1 then 1 else rv, r.2)
  else (1, io)

/-- What is printed behind a description that is there: whether the text is executable, or `none` for `goto done`. -/
def joinText (env : Env) (rounds : Nat) (io : Io) : Option (Option Bool × Io) :=
  if blen io = 0 then some (some false, io)
  else do
    let (nm, o) ← Funcs.fileReplace env.host 3 env.flags rounds (asc " text$") (asc ", ") (.ofIo io)
    if nm = -1 then some (none, o.io)
    else if nm ≠ 0 then some (some false, o.io)
    else
      let (nm, o) ← Funcs.fileReplace env.host 3 env.flags rounds (asc " text executable$") (asc ", ") o
      if nm = -1 then some (none, o.io)
      else if nm ≠ 0 then some (some true, o.io)
      else
        let r := filePrintf env.host (asc ", ") [] o.io
        some (if r.1 then some false else none, r.2)

/-- What is printed of the line terminators, call by call. -/
def terminators (s : Stats) : List Bytes :=
  if s.nCrlf = 0 ∧ s.nCr = 0 ∧ s.nNel = 0 ∧ s.nLf = 0 then [asc ", with", asc " no", asc " line terminators"]
  else if s.nCrlf ≠ 0 ∨ s.nCr ≠ 0 ∨ s.nNel ≠ 0 then
    [asc ", with"] ++
      (if s.nCrlf ≠ 0 then asc " CRLF" :: if s.nCr ≠ 0 ∨ s.nLf ≠ 0 ∨ s.nNel ≠ 0 then [asc ","] else [] else []) ++
      (if s.nCr ≠ 0 then asc " CR" :: if s.nLf ≠ 0 ∨ s.nNel ≠ 0 then [asc ","] else [] else []) ++
      (if s.nLf ≠ 0 then asc " LF" :: if s.nNel ≠ 0 then [asc ","] else [] else []) ++
      (if s.nNel ≠ 0 then [asc " NEL"] else []) ++ [asc " line terminators"]
  else []

/-- The calls that print the description. -/
def describe (code type : Bytes) (executable : Bool) (s : Stats) : List (Bytes × List Arg) :=
  [(asc "%s", [.str code]), (asc " %s", [.str type])] ++
    (if executable then [(asc " executable", [])] else []) ++
    (if s.hasLongLines ≠ 0 then [(asc ", with very long lines (%zu)", [.uint s.hasLongLines])] else []) ++
    (terminators s).map (·, []) ++
    (if s.hasEscapes then [(asc ", with escape sequences", [])] else []) ++
    (if s.hasBackspace then [(asc ", with overstriking", [])] else [])

/-- `file_ascmagic_with_encoding`. -/
def fileAscmagicWithEncoding (env : Env) (rounds : Nat) (text : Bool) (b : Buffer) (ubuf : Ubuf) (code type : Bytes)
    (ms : Ms) : Option (Int × Ms) :=
  let buf := b.fbuf.getD []
  if trimNuls buf buf.length ≤ 1 then some (0, ms)
  else
    let t := testText env text b ubuf.units ms
    if t.done then some (t.rv, t.ms)
    else if has env.flags (MAGIC_APPLE ||| MAGIC_EXTENSION) then some (0, t.ms)
    else if type = asc "binary" then some (0, t.ms)
    else if has env.flags MAGIC_MIME then
      let r := describeMime env t.needSeparator t.rv t.ms.io
      some (r.1, { t.ms with io := r.2 })
    else do
      let (executable, io) ← joinText env rounds t.ms.io
      match executable with
      | none => some (t.rv, { t.ms with io })
      | some executable =>
          let r := prints env.host (describe code type executable (stats ubuf)) io
          some (if r.1 then 1 else t.rv, { t.ms with io := r.2 })

/-- The part of the buffer that `file_ascmagic` looks at. -/
def trimmed (buf : Bytes) : Bytes :=
  let flen := trimNuls buf buf.length
  buf.take (if flen % 2 = 1 ∧ buf.length % 2 = 0 then flen + 1 else flen)

/-- `file_ascmagic` of a buffer that is not NULL. There is no array larger than the memory. -/
def fileAscmagic (env : Env) (encodingMax rounds : Nat) (text : Bool) (b : Buffer) (ms : Ms) : Option (Int × Ms) :=
  let bb := { b with fbuf := some (trimmed (b.fbuf.getD [])) }
  let (e, io) := fileEncoding env.host encodingMax (trimmed (b.fbuf.getD [])) ms.io
  let ms := { ms with io }
  if !e.rv then some (0, ms)
  else if fits : e.text.length * 8 < 2 ^ 64 then
    fileAscmagicWithEncoding env rounds text bb ⟨e.text, fits⟩ e.code.text e.type ms
  else none

/-! ## The text in UTF-8 -/

/-- The bytes of a code point, in UTF-8 or, for a surrogate, in the form of UTF-8. -/
def wtf8 (u : Nat) : Bytes := (encode u).map UInt8.ofNat

/-- Each byte is a character. -/
def latin1Utf8 (buf : Bytes) : Bytes := buf.flatMap fun b => wtf8 b.toNat

/-- What the text of a buffer is in UTF-8. -/
def Code.Utf8 : Code → Bytes → Bytes → Prop
  | .unknown, _, _ => False
  | .utf7, _, out => out = []
  | .ascii, buf, out => out = latin1Utf8 buf ∧ (out = buf ↔ 0x85 ∉ buf)
  | .utf8Bom, buf, out => ∃ cut, buf = 0xef :: 0xbb :: 0xbf :: (out ++ cut) ∧ Truncated cut
  | .utf8, buf, out => ∃ cut, buf = out ++ cut ∧ Truncated cut
  | .utf32 bigend, buf, out =>
      ∃ rest, ucs32Bom buf = some (bigend, rest) ∧ ∀ cs, units32 bigend rest = cs.map Char.toNat → out = Unicode.utf8 cs
  | .utf16 bigend, buf, out =>
      ∃ rest cs tail, ucs16Bom buf = some (bigend, rest) ∧ Unicode.units16 bigend rest = Unicode.utf16 cs ++ tail ∧ LoneHigh tail ∧
        out = (cs.flatMap storedChar ++ tail).flatMap wtf8 ∧
        (tail = [] → (∀ c ∈ cs, c.toNat < 0x10000) → out = Unicode.utf8 cs)
  | .latin1, buf, out | .extended, buf, out => out = latin1Utf8 buf
  | .ebcdic, buf, out | .ebcdicInternational, buf, out => out = latin1Utf8 (fromEbcdic buf)

theorem wtf8_toNat (c : Char) : wtf8 c.toNat = String.utf8EncodeChar c := (utf8EncodeChar_eq c).symm

theorem flatMap_wtf8 (cs : List Char) : (cs.map Char.toNat).flatMap wtf8 = utf8 cs := by
  induction cs with
  | nil => rfl
  | cons c cs ih => rw [List.map_cons, List.flatMap_cons, wtf8_toNat, ih, utf8_cons]

theorem wtf8_length (u : Nat) : (wtf8 u).length ≤ 4 := by
  rw [wtf8, List.length_map, encode]
  split_ifs <;> simp

theorem encodeStep_surrogate {room h : Nat} (high : HighSurrogate h) (fits : 3 ≤ room) : encodeStep room h = some (wtf8 h) := by
  obtain ⟨low, up⟩ := high
  have one : ¬ h ≤ 0x7f := by omega
  have two : ¬ h ≤ 0x7ff := by omega
  have three : h ≤ 0xffff := by omega
  rw [encodeStep, if_neg one, if_neg two, if_pos three, if_neg (by omega), outBytes_two, Nat.shiftRight_eq_div_pow, wtf8,
    encode, if_neg one, if_neg two, if_pos three]
  rfl

/-- A code point that a decoder stores, UTF-32 aside. -/
def Storable (u : Nat) : Prop := Scalar u ∨ HighSurrogate u

theorem encodeStep_storable {room u : Nat} (storable : Storable u) (fits : 4 ≤ room) : encodeStep room u = some (wtf8 u) := by
  obtain scalar | high := storable
  · have char := @encodeStep_char room scalar.char
    rw [Scalar.toNat_char, ← wtf8_toNat, Scalar.toNat_char] at char
    exact char ((wtf8_length u).trans fits)
  · exact encodeStep_surrogate high (by omega)

/-- The room that `file_ascmagic` makes is enough. -/
theorem encodeUtf8_storable {us : List Nat} (storable : ∀ u ∈ us, Storable u) {len : Nat} (fits : us.length * 6 ≤ len) :
    encodeUtf8 len us = (us.flatMap wtf8, true) := by
  induction us generalizing len with
  | nil => rfl
  | cons u us ih =>
      obtain ⟨here, rest⟩ := List.forall_mem_cons.mp storable
      have short := wtf8_length u
      rw [List.length_cons] at fits
      rw [encodeUtf8, encodeStep_storable here (by omega)]
      dsimp only
      rw [ih rest (by omega), List.flatMap_cons]

/-- NEL is the one byte of ASCII text beyond 7 bits. -/
theorem textTable_T : textTable.zipIdx.all (fun t => t.1 != .T || decide (t.2 < 0x80) || t.2 == 0x85) = true := by decide +kernel

theorem textChars_T {n : Nat} (text : textChars n = .T) : n < 0x80 ∨ n = 0x85 := by
  have inTable : textTable[n]? = some .T := by
    rw [textChars, List.getD_eq_getElem?_getD] at text
    cases entry : textTable[n]? with
    | none =>
        rw [entry] at text
        cases text
    | some t =>
        rw [entry] at text
        exact congrArg some text
  have ok := List.all_eq_true.mp textTable_T (.T, n) (List.mem_zipIdx_iff_getElem?.mpr inTable)
  simpa using ok

theorem wtf8_low {n : Nat} (low : n < 0x80) : wtf8 n = [UInt8.ofNat n] := by
  rw [wtf8, encode, if_pos (Nat.le_of_lt_succ low)]
  rfl

theorem wtf8_pos (u : Nat) : 1 ≤ (wtf8 u).length := by
  rw [wtf8, List.length_map, encode]
  split_ifs <;> simp

theorem length_le_latin1Utf8 (buf : Bytes) : buf.length ≤ (latin1Utf8 buf).length := by
  induction buf with
  | nil => exact Nat.le_refl 0
  | cons b buf ih =>
      have pos := wtf8_pos b.toNat
      rw [latin1Utf8] at ih ⊢
      rw [List.flatMap_cons, List.length_append, List.length_cons]
      omega

/-- ASCII text is its own UTF-8, unless there is a NEL. -/
theorem latin1Utf8_ascii {buf : Bytes} (ascii : AllIn (· = .T) buf) : latin1Utf8 buf = buf ↔ 0x85 ∉ buf := by
  induction buf with
  | nil => exact iff_of_true rfl List.not_mem_nil
  | cons b buf ih =>
      obtain ⟨here, rest⟩ := List.forall_mem_cons.mp ascii
      rw [latin1Utf8, List.flatMap_cons, List.mem_cons, not_or]
      obtain low | nel := textChars_T here
      · have other : ¬ (0x85 : UInt8) = b := by
          rintro rfl
          exact absurd low (by decide)
        rw [wtf8_low low, List.singleton_append, UInt8.ofNat_toNat, List.cons.injEq, and_iff_right rfl, and_iff_right other]
        exact ih rest
      · obtain rfl : b = 0x85 := UInt8.toNat_inj.mp nel
        refine iff_of_false (fun same => ?_) (fun none => none.1 rfl)
        have long := length_le_latin1Utf8 buf
        have lengths := congrArg List.length same
        rw [latin1Utf8] at long
        rw [List.length_append, List.length_cons, show (wtf8 (0x85 : UInt8).toNat).length = 2 from rfl] at lengths
        omega

theorem storable_byte (b : UInt8) : Storable b.toNat := by
  have lt := b.toNat_lt
  exact .inl (.inl (by omega))

theorem storable_chars {us : List Nat} {cs : List Char} (chars : us = cs.map Char.toNat) : ∀ u ∈ us, Storable u := by
  intro u mem
  exact .inl ((exists_map_toNat us).mp ⟨cs, chars⟩ u mem)

theorem storable_bytes (buf : Bytes) : ∀ u ∈ buf.map UInt8.toNat, Storable u := by
  rw [List.forall_mem_map]
  exact fun b _ => storable_byte b

/-- The characters of a buffer in UTF-16, as they are stored. -/
theorem storable_utf16 (cs : List Char) {tail : List Nat} (lone : LoneHigh tail) : ∀ u ∈ cs.flatMap storedChar ++ tail, Storable u := by
  rw [List.forall_mem_append]
  constructor
  · intro u mem
    obtain ⟨c, -, mem⟩ := List.mem_flatMap.mp mem
    rw [storedChar] at mem
    split at mem
    · rw [List.mem_singleton.mp mem]
      exact .inl (scalar_toNat c)
    · obtain rfl | mem := List.mem_cons.mp mem
      · have lt := (scalar_toNat c).lt
        exact .inr ⟨by omega, by omega⟩
      · rw [List.mem_singleton.mp mem]
        exact .inl (scalar_toNat c)
  · obtain rfl | ⟨h, high, rfl⟩ := lone
    · exact List.forall_mem_nil _
    · exact List.forall_mem_singleton.mpr (.inr high)

theorem flatMap_storedChar {cs : List Char} (bmp : ∀ c ∈ cs, c.toNat < 0x10000) :
    cs.flatMap storedChar = cs.map Char.toNat := by
  induction cs with
  | nil => rfl
  | cons c cs ih =>
      obtain ⟨here, rest⟩ := List.forall_mem_cons.mp bmp
      rw [List.flatMap_cons, ih rest, storedChar, if_pos here]
      rfl

/-- Room is never what `encode_utf8` fails for. -/
theorem encodeUtf8_null {us : List Nat} (null : (encodeUtf8 (us.length * 6) us).2 = false) : ∃ u ∈ us, 0x7fffffff < u := by
  refine ((encodeUtf8_bound (us.length * 6) us).2.mp null).resolve_right (Nat.not_lt.mpr ?_)
  have most : ∀ k ∈ us.map encodedLength, k ≤ 6 := by
    rw [List.forall_mem_map]
    intro u _
    rw [encodedLength]
    split_ifs <;> decide
  have sum := List.sum_le_card_nsmul _ 6 most
  rwa [List.length_map, smul_eq_mul] at sum

/-- The text of every code comes out in UTF-8, but for UTF-32 with a unit beyond 31 bits. -/
theorem Code.Reads.reencoded {code : Code} {buf : Bytes} {us : List Nat} (reads : code.Reads buf us) :
    match encodeUtf8 (us.length * 6) us with
    | (out, true) => code.Utf8 buf out
    | (_, false) => (∃ bigend, code = .utf32 bigend) ∧ ∃ u ∈ us, 0x7fffffff < u := by
  have run (storable : ∀ u ∈ us, Storable u) : encodeUtf8 (us.length * 6) us = (us.flatMap wtf8, true) :=
    encodeUtf8_storable storable (Nat.le_refl _)
  cases code with
  | unknown => exact reads.elim
  | utf7 =>
      obtain ⟨-, -, rfl⟩ := reads
      exact rfl
  | ascii =>
      obtain ⟨ascii, rfl⟩ := reads
      rw [run (storable_bytes buf), List.flatMap_map]
      exact ⟨rfl, latin1Utf8_ascii ascii⟩
  | utf8Bom =>
      obtain ⟨rest, cs, rfl, -, ⟨cut, rfl, truncated, -⟩, chars⟩ := reads
      rw [run (storable_chars chars), chars, flatMap_wtf8]
      exact ⟨cut, rfl, truncated⟩
  | utf8 =>
      obtain ⟨cs, ⟨cut, rfl, truncated, -⟩, -, chars⟩ := reads
      rw [run (storable_chars chars), chars, flatMap_wtf8]
      exact ⟨cut, rfl, truncated⟩
  | utf32 bigend =>
      obtain ⟨rest, bom, -, rfl⟩ := reads
      cases result : encodeUtf8 ((units32 bigend rest).length * 6) (units32 bigend rest) with
      | mk out ok =>
          cases ok with
          | false => exact ⟨⟨bigend, rfl⟩, encodeUtf8_null (congrArg Prod.snd result)⟩
          | true =>
              refine ⟨rest, bom, fun cs chars => ?_⟩
              rw [run (storable_chars chars), chars, flatMap_wtf8] at result
              exact (Prod.mk.inj result).1.symm
  | utf16 bigend =>
      obtain ⟨rest, cs, tail, bom, units, lone, -, rfl⟩ := reads
      rw [run (storable_utf16 cs lone)]
      refine ⟨rest, cs, tail, bom, units, lone, rfl, ?_⟩
      rintro rfl bmp
      rw [List.append_nil, flatMap_storedChar bmp, flatMap_wtf8]
  | latin1 =>
      obtain ⟨-, rfl⟩ := reads
      rw [run (storable_bytes buf), List.flatMap_map]
      exact rfl
  | extended =>
      obtain ⟨-, rfl⟩ := reads
      rw [run (storable_bytes buf), List.flatMap_map]
      exact rfl
  | ebcdic =>
      obtain ⟨-, rfl⟩ := reads
      rw [run (storable_bytes (fromEbcdic buf)), List.flatMap_map]
      exact rfl
  | ebcdicInternational =>
      obtain ⟨-, rfl⟩ := reads
      rw [run (storable_bytes (fromEbcdic buf)), List.flatMap_map]
      exact rfl

/-! ## `file_ascmagic` -/

theorem trimNuls_spec (buf : Bytes) (n : Nat) (inside : n ≤ buf.length) :
    ∃ k, trimNuls buf n + k = n ∧ buf.take n = buf.take (trimNuls buf n) ++ List.replicate k 0 := by
  induction n using trimNuls.induct buf with
  | case1 n zero ih =>
      obtain ⟨k, count, same⟩ := ih (Nat.le_of_succ_le inside)
      have last : buf.take (n + 2) = buf.take (n + 1) ++ [0] := by
        rw [List.getD_eq_getElem _ _ inside] at zero
        rw [List.take_add_one, List.getElem?_eq_getElem inside, zero]
        rfl
      rw [trimNuls, if_pos zero]
      refine ⟨k + 1, congrArg Nat.succ count, ?_⟩
      rw [last, same, List.replicate_succ', List.append_assoc]
  | case2 n other =>
      rw [trimNuls, if_neg other]
      exact ⟨0, rfl, (List.append_nil _).symm⟩
  | case3 n small =>
      have same : trimNuls buf n = n := by rw [trimNuls.eq_def]; split; exact absurd rfl (small _); rfl
      rw [same]
      exact ⟨0, rfl, (List.append_nil _).symm⟩

/-- Only zeros at the end are left out. -/
theorem trimmed_spec (buf : Bytes) : ∃ k, buf = trimmed buf ++ List.replicate k 0 := by
  obtain ⟨k, count, same⟩ := trimNuls_spec buf buf.length (Nat.le_refl _)
  rw [List.take_length] at same
  have zeros : buf.drop (trimNuls buf buf.length) = List.replicate k 0 :=
    List.append_cancel_left ((List.take_append_drop _ _).trans same)
  rw [trimmed]
  split
  next odd =>
    refine ⟨k - 1, ?_⟩
    conv_lhs => rw [← List.take_append_drop (trimNuls buf buf.length + 1) buf]
    rw [← List.drop_drop, zeros, List.drop_replicate]
  next => exact ⟨k, same⟩

/-- A line that ends in a NEL, in a buffer with a zero behind it. -/
def nelScan : Scan := plainScan [0x61, 0x85, 0]

end Libmagic.Encoding
