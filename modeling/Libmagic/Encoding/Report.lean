import Libmagic.Encoding.Ascmagic

/-!
# `ascmagic.c`: the description of a text

The description is printed piece by piece. Here is what it says as a whole, and that it can be read back.
-/
namespace Libmagic.Encoding

open Softmagic
open Lines (Ubuf Stats stats)

/-- What a description says. A length of 0 stands for lines that are not long. -/
structure Report where
  code : Code
  executable : Bool
  longLines : Nat
  crlf : Bool
  cr : Bool
  lf : Bool
  nel : Bool
  escapes : Bool
  overstriking : Bool
  deriving DecidableEq

def Report.of (code : Code) (executable : Bool) (s : Stats) : Report where
  code := code
  executable := executable
  longLines := s.hasLongLines
  crlf := s.nCrlf != 0
  cr := s.nCr != 0
  lf := s.nLf != 0
  nel := s.nNel != 0
  escapes := s.hasEscapes
  overstriking := s.hasBackspace

/-- The names of the line terminators. -/
def kinds (crlf cr lf nel : Bool) : List Bytes :=
  [(crlf, asc "CRLF"), (cr, asc "CR"), (lf, asc "LF"), (nel, asc "NEL")].filterMap fun k => if k.1 then some k.2 else none

/-- Line terminators are told, unless they are as usual. -/
def terminatorsText (crlf cr lf nel : Bool) : Bytes :=
  if kinds crlf cr lf nel = [] then asc ", with no line terminators"
  else if kinds crlf cr lf nel = [asc "LF"] then []
  else asc ", with " ++ (asc ", ").intercalate (kinds crlf cr lf nel) ++ asc " line terminators"

def longText (n : Nat) : Bytes :=
  if n ≠ 0 then asc ", with very long lines (" ++ (decimal n ++ asc ")") else []

def Report.text (r : Report) : Bytes :=
  r.code.text ++ (asc " text" ++ ((if r.executable then asc " executable" else []) ++ (longText r.longLines ++
    (terminatorsText r.crlf r.cr r.lf r.nel ++ ((if r.escapes then asc ", with escape sequences" else []) ++
      if r.overstriking then asc ", with overstriking" else [])))))

/-! ## What the calls print -/

theorem terminators_text (s : Stats) :
    (terminators s).flatten = terminatorsText (s.nCrlf != 0) (s.nCr != 0) (s.nLf != 0) (s.nNel != 0) := by
  unfold terminators terminatorsText kinds
  by_cases crlf : s.nCrlf = 0 <;> by_cases cr : s.nCr = 0 <;> by_cases lf : s.nLf = 0 <;> by_cases nel : s.nNel = 0 <;>
    simp [crlf, cr, lf, nel, asc, List.intercalate]

theorem terminators_plain (s : Stats) : ∀ t ∈ terminators s, 0x25 ∉ t ∧ t.length ≤ 1024 := by
  unfold terminators
  split_ifs <;> simp [asc]

theorem Code.text_clean (code : Code) : 0 ∉ code.text ∧ code.text.length ≤ 1024 := by
  rcases code with _ | _ | _ | _ | _ | (_ | _) | (_ | _) | _ | _ | _ | _ <;> simp [Code.text, asc]

theorem round_long_lt (s : Stats) (i u : Nat) (before : s.hasLongLines < 2 ^ 64) : (Lines.round s i u).hasLongLines < 2 ^ 64 := by
  have word (x : Int) : uN 64 x < 2 ^ 64 := by
    rw [uN]
    omega
  simp only [Lines.round, apply_ite Stats.hasLongLines, ite_self]
  split_ifs <;> first | exact before | exact word _

theorem loop_long_lt (us : List Nat) (s : Stats) (i : Nat) (before : s.hasLongLines < 2 ^ 64) :
    (Lines.loop s i us).hasLongLines < 2 ^ 64 := by
  induction us generalizing s i with
  | nil => exact before
  | cons u us ih => exact ih _ _ (round_long_lt s i u before)

theorem stats_long_lt (ubuf : Ubuf) : (stats ubuf).hasLongLines < 2 ^ 64 := by
  have lt := loop_long_lt ubuf.units .start 0 (by decide)
  rw [stats]
  split
  · exact lt
  · exact lt

/-- The texts of the calls of `describe`. -/
def describeTexts (code : Code) (executable : Bool) (s : Stats) : List Bytes :=
  [code.text, asc " text"] ++ (if executable then [asc " executable"] else []) ++
    (if s.hasLongLines ≠ 0 then [longText s.hasLongLines] else []) ++ terminators s ++
    (if s.hasEscapes then [asc ", with escape sequences"] else []) ++
    (if s.hasBackspace then [asc ", with overstriking"] else [])

theorem describeTexts_text (code : Code) (executable : Bool) (s : Stats) :
    (describeTexts code executable s).flatten = (Report.of code executable s).text := by
  have none (text : Bytes) (c : Prop) [Decidable c] :
      (if c then [text] else ([] : List Bytes)).flatten = if c then text else [] := by
    split <;> simp
  have long : (if s.hasLongLines ≠ 0 then longText s.hasLongLines else []) = longText s.hasLongLines := by
    unfold longText
    split <;> rfl
  simp only [describeTexts, Report.text, Report.of, List.flatten_append, none, long, terminators_text,
    List.flatten_cons, List.flatten_nil, List.append_nil, List.append_assoc]
  rfl

theorem forall₂_ite {α β : Type} {R : α → β → Prop} {a : α} {b : β} (c : Prop) [Decidable c] (holds : c → R a b) :
    List.Forall₂ R (if c then [a] else []) (if c then [b] else []) := by
  split
  next yes => exact .cons (holds yes) .nil
  next => exact .nil

theorem longText_shows {n : Nat} (long : n ≠ 0) (lt : n < 2 ^ 64) :
    Shows (asc ", with very long lines (%zu)", [.uint n]) (longText n) := by
  have short := decimal_length lt
  have checked : fileCheckfmt (asc ", with very long lines (%zu)") = none := by decide
  rw [longText, if_pos long]
  refine ⟨checked, ?_, ?_⟩
  · simp [asc, expand]
  · simp only [List.length_append]
    simp [asc]
    omega

theorem describe_shows (code : Code) (executable : Bool) {s : Stats} (lt : s.hasLongLines < 2 ^ 64) :
    List.Forall₂ Shows (describe code.text (asc "text") executable s) (describeTexts code executable s) := by
  have plain {text : Bytes} (ok : 0x25 ∉ text ∧ text.length ≤ 1024) : Shows (text, []) text := .plain ok.1 ok.2
  have lines : List.Forall₂ Shows ((terminators s).map (·, [])) (terminators s) := by
    rw [List.forall₂_map_left_iff, List.forall₂_same]
    exact fun t mem => plain (terminators_plain s t mem)
  have space : Shows (asc " %s", [.str (asc "text")]) (asc " text") := ⟨by decide, by simp [asc, expand, cstring], by simp [asc]⟩
  unfold describe describeTexts
  refine List.rel_append (List.rel_append (List.rel_append (List.rel_append (List.rel_append ?_ ?_) ?_) lines) ?_) ?_
  · exact .cons (.str code.text_clean.1 code.text_clean.2) (.cons space .nil)
  · exact forall₂_ite _ fun _ => plain (by simp [asc])
  · exact forall₂_ite _ fun long => longText_shows long lt
  · exact forall₂_ite _ fun _ => plain (by simp [asc])
  · exact forall₂_ite _ fun _ => plain (by simp [asc])

/-! ## Behind a description that is there -/

/-- How a description goes on behind another, and whether the text is executable. -/
def joined (old : Bytes) : Bytes × Bool :=
  if old = [] then ([], false)
  else if asc " text" <:+ old then (old.take (old.length - (asc " text").length) ++ asc ", ", false)
  else if asc " text executable" <:+ old then
    (old.take (old.length - (asc " text executable").length) ++ asc ", ", true)
  else (old ++ asc ", ", false)

theorem not_suffix_comma {text : Bytes} (last : text.getLast? = some 0x74 ∨ text.getLast? = some 0x65) (front : Bytes) :
    ¬ text <:+ front ++ asc ", " := by
  rintro ⟨pre, same⟩
  have lasts := congrArg List.getLast? same
  have comma : (front ++ asc ", ").getLast? = some 0x20 := by
    simp [asc]
  rw [comma, List.getLast?_append] at lasts
  obtain t | e := last
  · rw [t] at lasts
    cases lasts
  · rw [e] at lasts
    cases lasts

/-- The patterns of `file_ascmagic_with_encoding`. -/
structure TextPatterns (host : Host) : Prop extends Standard host where
  text : Funcs.EndPattern host (asc " text")
  executable : Funcs.EndPattern host (asc " text executable")

section

variable {env : Env} {rounds : Nat} {io : Io}

/-- One of the two replacements, where the text is at the end. -/
theorem replaced_text (standard : Standard env.host) {text b : Bytes} (pattern : Funcs.EndPattern env.host text)
    (checked : checkRegex (text ++ asc "$") = true) (last : text.getLast? = some 0x74 ∨ text.getLast? = some 0x65)
    (buf : io.buf = some b) (atEnd : text <:+ b) (clean : 0 ∉ b) (err : io.hadErr = false) (room : 2 + blen io ≤ 1024 * 1024) :
    Funcs.fileReplace env.host 3 env.flags (rounds + 2) (text ++ asc "$") (asc ", ") (.ofIo io) =
      some (1, .ofIo { io with buf := some (b.take (b.length - text.length) ++ asc ", "), tick := io.tick + 2 }) := by
  obtain ⟨front, rfl⟩ := atEnd
  have cut : (front ++ text).take ((front ++ text).length - text.length) = front := by
    rw [List.length_append, Nat.add_sub_cancel, List.take_left]
  have some' : text ≠ [] := by
    rintro rfl
    simp at last
  rw [cut]
  exact Funcs.fileReplace_found pattern checked standard buf some' clean (by simp [asc]) err (by simp [asc])
    (by simpa [asc] using room) (not_suffix_comma last front)

theorem joinText_joined (patterns : TextPatterns env.host) (err : io.hadErr = false) (clean : 0 ∉ io.buf.getD [])
    (room : 2 + blen io ≤ 1024 * 1024) :
    ∃ io', joinText env (rounds + 2) io = some (some (joined (io.buf.getD [])).2, io') ∧
      io'.buf.getD [] = (joined (io.buf.getD [])).1 ∧ io'.hadErr = false := by
  have checkedText : checkRegex (asc " text" ++ asc "$") = true := by decide
  have checkedExecutable : checkRegex (asc " text executable" ++ asc "$") = true := by decide
  rw [joinText, joined]
  by_cases empty : io.buf.getD [] = []
  · have none : blen io = 0 := congrArg List.length empty
    rw [if_pos none, if_pos empty]
    exact ⟨io, rfl, empty, err⟩
  · have pos : ¬ blen io = 0 := fun zero => empty (List.eq_nil_of_length_eq_zero zero)
    obtain ⟨b, buf⟩ : ∃ b, io.buf = some b := by
      cases buf : io.buf with
      | none => exact absurd (by rw [buf]; rfl) empty
      | some b => exact ⟨b, rfl⟩
    rw [if_neg pos, if_neg empty]
    have pattern : asc " text$" = asc " text" ++ asc "$" := by simp [asc]
    have pattern' : asc " text executable$" = asc " text executable" ++ asc "$" := by simp [asc]
    rw [buf, Option.getD_some] at clean ⊢
    rw [pattern, pattern']
    by_cases text : asc " text" <:+ b
    · rw [replaced_text patterns.toStandard patterns.text checkedText (by simp [asc]) buf text clean err room, if_pos text]
      exact ⟨_, rfl, rfl, err⟩
    · rw [Funcs.fileReplace_missing patterns.text checkedText buf clean text, if_neg text]
      by_cases executable : asc " text executable" <:+ b
      · rw [if_pos executable]
        refine ⟨{ io with buf := some (b.take (b.length - (asc " text executable").length) ++ asc ", "), tick := io.tick + 2 },
          ?_, rfl, err⟩
        have found := @replaced_text env rounds io patterns.toStandard _ _ patterns.executable checkedExecutable (by simp [asc])
          buf executable clean err room
        simp only [Option.bind_eq_bind, Option.bind_some, found]
        rfl
      · rw [if_neg executable]
        have missing := @Funcs.fileReplace_missing env.host _ (asc ", ") 3 env.flags (rounds + 1) io patterns.executable
          checkedExecutable b buf clean executable
        obtain ⟨ok, appends⟩ := filePrintf_appends patterns.toStandard
          (.plain (by simp [asc]) (by simp [asc]) : Shows (asc ", ", []) (asc ", ")) err (by simpa [asc, Nat.add_comm] using room)
        refine ⟨(filePrintf env.host (asc ", ") [] io).2, ?_, ?_, appends.hadErr⟩
        · have same : (Funcs.Output.ofIo io).io = io := rfl
          simp only [Option.bind_eq_bind, Option.bind_some, missing, same]
          simp [ok]
        · rw [appends.buf, buf]
          rfl

end

/-! ## Reading a description back -/

/-- What stands behind the line terminators. -/
def markText (escapes overstriking : Bool) : Bytes :=
  (if escapes then asc ", with escape sequences" else []) ++ if overstriking then asc ", with overstriking" else []

def Report.tail (r : Report) : Bytes := terminatorsText r.crlf r.cr r.lf r.nel ++ markText r.escapes r.overstriking

theorem Report.text_eq (r : Report) :
    r.text = (r.code.text ++ asc " text") ++ ((if r.executable then asc " executable" else []) ++ (longText r.longLines ++ r.tail)) := by
  rw [Report.text, Report.tail, markText, List.append_assoc r.code.text]

/-- No code is the front of another. -/
theorem codes_apart : ((Code.unknown :: Code.order).all fun c => (Code.unknown :: Code.order).all fun c' =>
    c == c' || !(c.text ++ asc " text").isPrefixOf (c'.text ++ asc " text")) = true := by
  decide +kernel

theorem terminators_apart : ∀ crlf cr lf nel crlf' cr' lf' nel' : Bool,
    (terminatorsText crlf cr lf nel).isPrefixOf (terminatorsText crlf' cr' lf' nel') = true →
      (crlf, cr, lf, nel) = (crlf', cr', lf', nel') ∨ terminatorsText crlf cr lf nel = [] := by
  decide +kernel

theorem terminators_not_marks : ∀ crlf cr lf nel escapes overstriking : Bool,
    (terminatorsText crlf cr lf nel).isPrefixOf (markText escapes overstriking) = true → terminatorsText crlf cr lf nel = [] := by
  decide +kernel

theorem terminatorsText_nil : ∀ crlf cr lf nel : Bool,
    terminatorsText crlf cr lf nel = [] → (crlf, cr, lf, nel) = (false, false, true, false) := by
  decide +kernel

theorem markText_injective : ∀ escapes overstriking escapes' overstriking' : Bool,
    markText escapes overstriking = markText escapes' overstriking' → (escapes, overstriking) = (escapes', overstriking') := by
  decide +kernel

theorem tail_not_long : ∀ crlf cr lf nel escapes overstriking : Bool,
    (asc ", with v").isPrefixOf (terminatorsText crlf cr lf nel ++ markText escapes overstriking) = false ∧
      (terminatorsText crlf cr lf nel ++ markText escapes overstriking).head?.all (· == 0x2c) = true := by
  decide +kernel

/-- Of two fronts of one text, one is the front of the other. -/
theorem prefix_total {a b x y : Bytes} (same : a ++ x = b ++ y) : a.isPrefixOf b = true ∨ b.isPrefixOf a = true := by
  rw [List.isPrefixOf_iff_prefix, List.isPrefixOf_iff_prefix]
  exact List.prefix_or_prefix_of_prefix (List.prefix_append a x) (same ▸ List.prefix_append b y)

theorem mem_codes (code : Code) : code ∈ Code.unknown :: Code.order := by
  rcases code with _ | _ | _ | _ | _ | (_ | _) | (_ | _) | _ | _ | _ | _ <;> decide

theorem code_read {c c' : Code} {x y : Bytes} (same : (c.text ++ asc " text") ++ x = (c'.text ++ asc " text") ++ y) :
    c = c' ∧ x = y := by
  have apart (c c' : Code) (front : (c.text ++ asc " text").isPrefixOf (c'.text ++ asc " text") = true) : c = c' := by
    have pair := List.all_eq_true.mp (List.all_eq_true.mp codes_apart c (mem_codes c)) c' (mem_codes c')
    rw [front, Bool.not_true, Bool.or_false, beq_iff_eq] at pair
    exact pair
  obtain rfl : c = c' := (prefix_total same).elim (apart c c') fun front => (apart c' c front).symm
  exact ⟨rfl, List.append_cancel_left same⟩

/-- A text that is empty or begins with a comma. -/
def Behind (x : Bytes) : Prop := x.head?.all (· == 0x2c) = true

theorem executable_read {e e' : Bool} {x y : Bytes} (hx : Behind x) (hy : Behind y)
    (same : (if e then asc " executable" else []) ++ x = (if e' then asc " executable" else []) ++ y) : e = e' ∧ x = y := by
  have space : asc " executable" = 0x20 :: asc "executable" := by simp [asc]
  have not {z t : Bytes} (hz : Behind z) : ¬ z = 0x20 :: t := by
    rintro rfl
    cases hz
  rw [space] at same
  cases e <;> cases e'
  · exact ⟨rfl, same⟩
  · exact absurd same (not hx)
  · exact absurd same.symm (not hy)
  · exact ⟨rfl, List.append_cancel_left same⟩

theorem long_read {n m : Nat} {x y : Bytes} (hx : (asc ", with v").isPrefixOf x = false)
    (hy : (asc ", with v").isPrefixOf y = false) (same : longText n ++ x = longText m ++ y) : n = m ∧ x = y := by
  have long {k : Nat} (some' : k ≠ 0) (z : Bytes) :
      longText k ++ z = (asc ", with v" ++ asc "ery long lines (") ++ (decimal k ++ 0x29 :: z) := by
    have split : asc ", with very long lines (" = asc ", with v" ++ asc "ery long lines (" := by simp [asc]
    have close : asc ")" = [0x29] := by simp [asc]
    rw [longText, if_pos some', split, close]
    simp only [List.append_assoc, List.singleton_append]
  have not {k : Nat} (some' : k ≠ 0) {z t : Bytes} (hz : (asc ", with v").isPrefixOf z = false) : ¬ z = longText k ++ t := by
    rintro rfl
    rw [long some', List.append_assoc, ← Bool.not_eq_true, List.isPrefixOf_iff_prefix] at hz
    exact hz (List.prefix_append _ _)
  have digits (k : Nat) (z : Bytes) : (decimal k ++ 0x29 :: z).takeWhile isdigit = decimal k := by
    rw [List.takeWhile_append_of_pos fun _ => decimal_digit, List.takeWhile_cons_of_neg (by decide), List.append_nil]
  by_cases none : n = 0 <;> by_cases none' : m = 0
  · subst none none'
    exact ⟨rfl, same⟩
  · subst none
    exact absurd same (not none' hx)
  · subst none'
    exact absurd same.symm (not none hy)
  · rw [long none, long none'] at same
    have behind : decimal n ++ 0x29 :: x = decimal m ++ 0x29 :: y := List.append_cancel_left same
    obtain rfl : n = m := decimal_injective (by rw [← digits n x, behind, digits])
    exact ⟨rfl, List.tail_eq_of_cons_eq (List.append_cancel_left behind)⟩

theorem tail_read {r r' : Report} (same : r.tail = r'.tail) :
    (r.crlf, r.cr, r.lf, r.nel) = (r'.crlf, r'.cr, r'.lf, r'.nel) ∧ (r.escapes, r.overstriking) = (r'.escapes, r'.overstriking) := by
  have apart (r r' : Report) (same : r.tail = r'.tail)
      (front : (terminatorsText r.crlf r.cr r.lf r.nel).isPrefixOf (terminatorsText r'.crlf r'.cr r'.lf r'.nel) = true) :
      (r.crlf, r.cr, r.lf, r.nel) = (r'.crlf, r'.cr, r'.lf, r'.nel) := by
    obtain equal | nil := terminators_apart _ _ _ _ _ _ _ _ front
    · exact equal
    · rw [Report.tail, nil, List.nil_append, Report.tail] at same
      have nil' := terminators_not_marks r'.crlf r'.cr r'.lf r'.nel r.escapes r.overstriking
        (List.isPrefixOf_iff_prefix.mpr (same ▸ List.prefix_append _ _))
      exact (terminatorsText_nil _ _ _ _ nil).trans (terminatorsText_nil _ _ _ _ nil').symm
  have lines : (r.crlf, r.cr, r.lf, r.nel) = (r'.crlf, r'.cr, r'.lf, r'.nel) :=
    (prefix_total same).elim (apart r r' same) fun front => (apart r' r same.symm front).symm
  refine ⟨lines, markText_injective _ _ _ _ ?_⟩
  simp only [Prod.mk.injEq] at lines
  rw [Report.tail, Report.tail, lines.1, lines.2.1, lines.2.2.1, lines.2.2.2] at same
  exact List.append_cancel_left same

/-- A description says one thing. -/
theorem Report.text_injective {r r' : Report} (same : r.text = r'.text) : r = r' := by
  have notLong (r : Report) := (tail_not_long r.crlf r.cr r.lf r.nel r.escapes r.overstriking).1
  have behind (r : Report) : Behind (longText r.longLines ++ r.tail) := by
    rw [longText]
    split
    · have comma : asc ", with very long lines (" = 0x2c :: asc " with very long lines (" := by simp [asc]
      rw [comma]
      rfl
    · exact (tail_not_long r.crlf r.cr r.lf r.nel r.escapes r.overstriking).2
  rw [Report.text_eq, Report.text_eq] at same
  obtain ⟨code, same⟩ := code_read same
  obtain ⟨executable, same⟩ := executable_read (behind r) (behind r') same
  obtain ⟨long, same⟩ := long_read (notLong r) (notLong r') same
  obtain ⟨lines, marks⟩ := tail_read same
  simp only [Prod.mk.injEq] at lines marks
  cases r
  cases r'
  simp_all

/-! ## The description -/

theorem joined_length (old : Bytes) : (joined old).1.length ≤ old.length + 2 := by
  have comma : (asc ", ").length = 2 := by simp [asc]
  rw [joined]
  split_ifs with empty
  · exact Nat.zero_le _
  · rw [List.length_append, List.length_take, comma]
    omega
  · rw [List.length_append, List.length_take, comma]
    omega
  · rw [List.length_append, comma]

/-- A machine with the formats and the patterns of the descriptions. -/
def reportHost : Host :=
  { plainHost with
    vasprintf := expand
    regexec := fun pat _ s =>
      if pat.dropLast <:+ s then .found (s.length - pat.dropLast.length) s.length else .noMatch }

theorem reportHost_endPattern (text : Bytes) : Funcs.EndPattern reportHost text := by
  have front : (text ++ asc "$").dropLast = text := by simp [asc]
  refine ⟨rfl, fun pre => ?_, fun s other so eo => ?_⟩
  · simp only [reportHost, front]
    rw [if_pos (List.suffix_append pre text), List.length_append, Int.natCast_add, Int.add_sub_cancel]
  · simp only [reportHost, front]
    rw [if_neg other]
    intro found
    cases found

theorem reportHost_patterns : TextPatterns reportHost where
  malloc := fun _ => rfl
  vasprintf := fun _ _ _ same => same
  text := reportHost_endPattern _
  executable := reportHost_endPattern _

def reportEnv : Env := { plainEnv [] [] with host := reportHost }

/-- A line that ends in CR and LF. -/
def crlfLine : Ubuf := ⟨[0x61, 0x0d, 0x0a], by decide⟩

end Libmagic.Encoding
