import Libmagic.Format.Expand
import Libmagic.Softmagic.Match

/-!
# Formats at parse time and at run time

`check_format` accepts directives that `fmtcheck` or `file_checkfmt` refuse when the description is
printed. The exact condition under which the three agree is on the text of the directive.
-/
namespace Libmagic.Format

open Softmagic

/-! ## What a directive is read as -/

/-- The type that the default format of a kind has. -/
def Fmt.type : Fmt → Eft
  | .none => .unknown
  | .num => .int
  | .quad => .quad
  | .float | .double => .double
  | .str => .string

/-- A directive that `check_format_type` accepts for a kind: the letters behind the first one of
its conversion, and what is behind them. -/
structure Reading (fmt : Fmt) (ptr : Bytes) where
  d : Directive
  tail : Bytes
  post : Bytes
  text : d.text = ptr
  rest : d.rest = tail ++ post
  letters : ∀ c ∈ tail, isConversion c = true
  string : fmt ≠ .str → d.conv ≠ 0x73
  type : ∀ post, ∃ g, getNextFormatFromPrecision (d.conv :: (tail ++ post)) =
    (if d.conv = 0x46 ∨ d.conv = 0x47 then .unknown else fmt.type, g ++ post) ∧ ∀ c ∈ g, isConversion c = true

theorem fromPrecision_num {c : UInt8} (num : isNum c = true) (f : Bytes) :
    getNextFormatFromPrecision (c :: f) = (.int, c :: f) := by
  have mem := List.contains_iff_mem.mp num
  have chars : asc "ciduoxX" = [0x63, 0x69, 0x64, 0x75, 0x6f, 0x78, 0x58] := by decide
  rw [chars] at mem
  simp only [List.mem_cons, List.not_mem_nil, or_false] at mem
  rcases mem with rfl | rfl | rfl | rfl | rfl | rfl | rfl
  · exact congrArg (·, _) (by decide : conversion .none 0x63 = .int)
  · exact congrArg (·, _) (by decide : conversion .none 0x69 = .int)
  · exact congrArg (·, _) (by decide : conversion .none 0x64 = .int)
  · exact congrArg (·, _) (by decide : conversion .none 0x75 = .int)
  · exact congrArg (·, _) (by decide : conversion .none 0x6f = .int)
  · exact congrArg (·, _) (by decide : conversion .none 0x78 = .int)
  · exact congrArg (·, _) (by decide : conversion .none 0x58 = .int)

theorem fromPrecision_quad {c : UInt8} (num : (asc "iduoxX").contains c = true) (f : Bytes) :
    getNextFormatFromPrecision (0x6c :: 0x6c :: c :: f) = (.quad, c :: f) := by
  have all : ∀ c ∈ asc "iduoxX", conversion .quad c = .quad := by decide +kernel
  exact congrArg (·, _) (all c (List.contains_iff_mem.mp num))

theorem fromPrecision_float {c : UInt8} (num : (asc "eEfFgG").contains c = true) (f : Bytes) :
    getNextFormatFromPrecision (c :: f) = (if c = 0x46 ∨ c = 0x47 then .unknown else .double, c :: f) := by
  have mem := List.contains_iff_mem.mp num
  have chars : asc "eEfFgG" = [0x65, 0x45, 0x66, 0x46, 0x67, 0x47] := by decide
  rw [chars] at mem
  simp only [List.mem_cons, List.not_mem_nil, or_false] at mem
  rcases mem with rfl | rfl | rfl | rfl | rfl | rfl
  · exact congrArg (·, _) (by decide : conversion .none 0x65 = .double)
  · exact congrArg (·, _) (by decide : conversion .none 0x45 = .double)
  · exact congrArg (·, _) (by decide : conversion .none 0x66 = .double)
  · exact congrArg (·, _) (by decide : conversion .none 0x46 = .unknown)
  · exact congrArg (·, _) (by decide : conversion .none 0x67 = .double)
  · exact congrArg (·, _) (by decide : conversion .none 0x47 = .unknown)

theorem fromPrecision_str (f : Bytes) : getNextFormatFromPrecision (0x73 :: f) = (.string, 0x73 :: f) :=
  congrArg (·, _) (by decide : conversion .none 0x73 = .string)

theorem ne_of_contains {cs : Bytes} {c b : UInt8} (mem : cs.contains c = true) (absent : cs.contains b = false) :
    c ≠ b := by
  rintro rfl
  rw [mem] at absent
  cases absent

theorem reading_of_num {type : MType} {ptr : Bytes} (h : (checkNum type ptr).isOk = true) :
    Nonempty (Reading .num ptr) := by
  obtain ⟨d, text, num⟩ := directive_of_checkNum h
  have letters : ¬ (d.conv = 0x46 ∨ d.conv = 0x47) := by
    rintro (eq | eq)
    · exact ne_of_contains num (by decide) eq
    · exact ne_of_contains num (by decide) eq
  refine ⟨⟨d, [], d.rest, text, rfl, nofun, fun _ => ne_of_contains num (by decide), fun post => ?_⟩⟩
  rw [if_neg letters]
  exact ⟨[d.conv], fromPrecision_num num post, fun c mem => List.mem_singleton.mp mem ▸ d.conv_ok⟩

theorem reading_of_quad {ptr : Bytes} (h : (checkQuad ptr).isOk = true) : Nonempty (Reading .quad ptr) := by
  obtain ⟨d, c, rest, text, conv, hrest, num⟩ := directive_of_checkQuad h
  have ok : isConversion c = true := isConversion_of_mem (by decide) num
  have all : ∀ b ∈ [(0x6c : UInt8), c], isConversion b = true := by
    intro b mem
    rcases List.mem_cons.mp mem with rfl | mem
    · decide
    · rw [List.mem_singleton.mp mem]
      exact ok
  refine ⟨⟨d, [0x6c, c], rest, text, hrest, all, fun _ => by rw [conv]; decide, fun post => ?_⟩⟩
  rw [conv, if_neg (by decide)]
  exact ⟨[c], fromPrecision_quad num post, fun b mem => List.mem_singleton.mp mem ▸ ok⟩

theorem reading_of_float {fmt : Fmt} (kind : fmt.type = .double) {ptr : Bytes}
    (h : (checkFloat ptr).isOk = true) : Nonempty (Reading fmt ptr) := by
  obtain ⟨d, text, num⟩ := directive_of_checkFloat h
  refine ⟨⟨d, [], d.rest, text, rfl, nofun, fun _ => ne_of_contains num (by decide), fun post => ?_⟩⟩
  rw [kind]
  exact ⟨[d.conv], fromPrecision_float num post, fun c mem => List.mem_singleton.mp mem ▸ d.conv_ok⟩

theorem reading_of_str {ptr : Bytes} (h : (checkStr ptr).isOk = true) : Nonempty (Reading .str ptr) := by
  obtain ⟨d, text, conv⟩ := directive_of_checkStr h
  refine ⟨⟨d, [], d.rest, text, rfl, nofun, fun ne => absurd rfl ne, fun post => ?_⟩⟩
  rw [conv, if_neg (by decide)]
  exact ⟨[0x73], fromPrecision_str post, List.forall_mem_singleton.mpr rfl⟩

theorem reading_of_checkFormatType {fmt : Fmt} {type : MType} {ptr : Bytes}
    (h : (checkFormatType fmt type ptr).isOk = true) : Nonempty (Reading fmt ptr) := by
  unfold checkFormatType at h
  split at h
  · cases h
  · cases fmt with
    | none => cases h
    | num => exact reading_of_num h
    | quad => exact reading_of_quad h
    | float => exact reading_of_float rfl h
    | double => exact reading_of_float rfl h
    | str => exact reading_of_str h

/-! ## A directive in its place -/

namespace Reading

variable {fmt : Fmt} {ptr : Bytes} (r : Reading fmt ptr)

/-- The directive with its `%`. -/
def block : Bytes := 0x25 :: (r.d.fields ++ r.d.conv :: r.tail)

theorem not_mem_block {c : UInt8} (percent : c ≠ 0x25) (field : isField c = false)
    (letter : isConversion c = false) : c ∉ r.block := by
  intro mem
  rcases List.mem_cons.mp mem with eq | mem
  · exact percent eq
  rcases List.mem_append.mp mem with mem | mem
  · rw [r.d.fields_all c mem] at field
    cases field
  rcases List.mem_cons.mp mem with rfl | mem
  · rw [r.d.conv_ok] at letter
    cases letter
  · rw [r.letters c mem] at letter
    cases letter

theorem block_ok : Block r.block where
  start := by
    unfold block
    cases r.d.fields with
    | nil => exact ⟨_, _, rfl⟩
    | cons c fields => exact ⟨_, _, rfl⟩
  dollar := r.not_mem_block (by decide) (by decide) (by decide)
  brace := r.not_mem_block (by decide) (by decide) (by decide)
  mark := r.not_mem_block (by decide) (by decide) (by decide)
  colon := r.not_mem_block (by decide) (by decide) (by decide)
  close := r.not_mem_block (by decide) (by decide) (by decide)

/-- The same directive in front of another text. -/
def before (post : Bytes) : Directive := { r.d with rest := r.tail ++ post }

theorem before_text (post : Bytes) : 0x25 :: (r.before post).text = r.block ++ post := by
  rw [(r.before post).text_eq, block, List.cons_append, List.append_assoc]
  rfl

theorem holds {pre : Bytes} (no : 0x25 ∉ pre) (no' : 0x25 ∉ ptr) : Holds r.block (pre ++ 0x25 :: ptr) := by
  have text : r.d.fields ++ r.d.conv :: (r.tail ++ r.post) = ptr := by
    have same := r.text
    rw [r.d.text_eq, r.rest] at same
    exact same
  have whole : r.block ++ r.post = 0x25 :: ptr := by
    rw [block, List.cons_append, List.append_assoc]
    exact congrArg (0x25 :: ·) text
  refine ⟨pre, r.post, congrArg (pre ++ ·) whole.symm, no, ?_⟩
  intro mem
  have inside : 0x25 ∈ r.d.fields ++ r.d.conv :: (r.tail ++ r.post) := by simp [mem]
  exact no' (text ▸ inside)

section Out

variable {pre post : Bytes} (no : 0x25 ∉ pre) (no' : 0x25 ∉ post)

include no'

theorem before_free : 0x25 ∉ (r.before post).text := by
  rw [(r.before post).text_eq]
  intro mem
  rcases List.mem_append.mp mem with mem | mem
  · exact absurd ((r.before post).fields_all _ mem) (by decide)
  rcases List.mem_cons.mp mem with eq | mem
  · exact (r.before post).conv_ne (by decide) eq.symm
  rcases List.mem_append.mp mem with mem | mem
  · exact absurd (r.letters _ mem) (by decide)
  · exact no' mem

omit no' in
theorem before_ne_nil : (r.before post).text ≠ [] := by
  rw [(r.before post).text_eq]
  simp

include no

theorem fmtcheck_out {default : Bytes} {g : Bytes} (known : fmt.type ≠ .unknown)
    (type : getNextFormat .start default = (fmt.type, g)) :
    fmtcheck (pre ++ (r.block ++ post)) default = true ↔
      r.d.Single ∧ r.d.conv ≠ 0x46 ∧ r.d.conv ≠ 0x47 := by
  rw [← r.before_text]
  by_cases single : r.d.Single
  swap
  · have unknown := (r.before post).directiveType_of_not_single single
    rw [fmtcheck_unknown no r.before_ne_nil (r.before_free no') unknown]
    exact ⟨nofun, fun both => absurd both.1 single⟩
  obtain ⟨rest, read, letters⟩ := r.type post
  have reading := ((r.before post).directiveType_of_single single).trans read
  have free : 0x25 ∉ rest ++ post := by
    rw [List.mem_append, not_or]
    exact ⟨fun mem => absurd (letters _ mem) (by decide), no'⟩
  have plain : (if r.d.conv = 0x46 ∨ r.d.conv = 0x47 then Eft.unknown else fmt.type).plain = true := by
    split
    · rfl
    · cases fmt <;> rfl
  rw [fmtcheck_single no r.before_ne_nil (r.before_free no') reading free plain known type]
  dsimp only
  by_cases fraction : r.d.conv = 0x46 ∨ r.d.conv = 0x47
  · rw [if_pos fraction, decide_eq_false (Ne.symm known)]
    refine ⟨nofun, fun both => ?_⟩
    rcases fraction with eq | eq
    · exact absurd eq both.2.1
    · exact absurd eq both.2.2
  · rw [if_neg fraction, decide_eq_true rfl]
    exact ⟨fun _ => ⟨single, fun eq => fraction (.inl eq), fun eq => fraction (.inr eq)⟩, fun _ => rfl⟩

theorem fileCheckfmt_out : fileCheckfmt (pre ++ (r.block ++ post)) = none ↔ r.d.Small := by
  classical
  obtain ⟨ok, rest⟩ := (r.before post).checkDirective_text
  have free : ∀ g, checkDirective (r.before post).text = .ok g → 0x25 ∉ g := by
    intro g h mem
    rw [rest g h] at mem
    rcases List.mem_append.mp mem with mem | mem
    · exact absurd (r.letters _ mem) (by decide)
    · exact no' mem
  have enough : pre.length < (pre ++ 0x25 :: (r.before post).text).length := by
    rw [List.length_append, List.length_cons]
    omega
  rw [← r.before_text, fileCheckfmt, ← Option.isNone_iff_eq_none,
    checkfmtFrom_single no r.before_ne_nil (r.before_free no') free enough, ok, decide_eq_true_iff]
  exact Iff.rfl

theorem hasStringFormat_out (number : fmt ≠ .str) : hasStringFormat (pre ++ (r.block ++ post)) = false := by
  rw [← r.before_text, hasStringFormat_single no (r.before_free no'), (r.before post).text_eq,
    List.dropWhile_append]
  have letter := (r.before post).letter
  have stop : ((r.before post).conv :: (r.before post).rest).head?.any
      (fun c => isdigit c || c == 0x2d || c == 0x2e) = false := by
    have minus := (r.before post).conv_ne (by decide : isalpha 0x2d = false)
    have dot := (r.before post).conv_ne (by decide : isalpha 0x2e = false)
    simp [letter.digit, minus, dot]
  split
  · rw [dropWhile_stop stop, List.head?_cons]
    exact beq_eq_false_iff_ne.mpr (fun eq => r.string number (Option.some.inj eq))
  · rename_i some
    obtain ⟨c, rest, left⟩ := List.exists_cons_of_ne_nil (fun nil => some (List.isEmpty_iff.mpr nil))
    have field : isField c = true := by
      apply (r.before post).fields_all
      apply (List.dropWhile_sublist _).subset
      rw [left]
      exact List.mem_cons_self
    rw [left, List.cons_append, List.head?_cons]
    rw [beq_eq_false_iff_ne]
    intro eq
    rw [Option.some.inj eq] at field
    exact absurd field (by decide)

end Out

end Reading

/-! ## The two checks at run time -/

/-- Whether `mprint` hands the description of a type to `fmtcheck`. -/
def usesFormat : MType → Bool
  | .default | .clear | .indirect | .use | .name => false
  | .invalid | .beid3 | .leid3 | .bevarint | .levarint | .other _ => false
  | _ => true

/-- The default format of `mprint` for a type, next to the description that is printed. -/
def defaultFormat (m : Magic) (desc : Bytes) : Bytes :=
  let integer (size : String) := asc "%" ++ asc size ++ (if has m.flag UNSIGNED then asc "u" else asc "d")
  match fileFormats m.type with
  | some .num => if hasStringFormat desc then asc "%s" else integer ""
  | some .quad => if hasStringFormat desc then asc "%s" else integer "ll"
  | some .float | some .double => if hasStringFormat desc then asc "%s" else asc "%g"
  | _ => asc "%s"

/-- The description as `mprint` uses it. -/
def printed (m : Magic) (mode : Nat) : Bytes := (varexpand mode 512 m.desc).getD m.desc

/-- Both checks accept the description of an entry in a mode. -/
def Accepted (m : Magic) (mode : Nat) : Prop :=
  usesFormat m.type = true →
    (0x25 ∈ printed m mode → fmtcheck (printed m mode) (defaultFormat m (printed m mode)) = true) ∧
      fileCheckfmt (printed m mode) = none

/-- The type prints without a format of the entry, or the directive of the entry fits. -/
def Fits (m : Magic) : Prop :=
  usesFormat m.type = true → ∀ r, splitAt 0x25 m.desc = some r → directiveFits r.2 = true

theorem accepted_of_free {m : Magic} {mode : Nat} (no : 0x25 ∉ printed m mode) : Accepted m mode :=
  fun _ => ⟨fun mem => absurd mem no, fileCheckfmt_none no⟩

/-- The default of a type has the type of its kind. -/
theorem defaultFormat_type {m : Magic} {fmt : Fmt} {desc : Bytes} (formats : fileFormats m.type = some fmt)
    (known : fmt ≠ .none) (string : fmt ≠ .str → hasStringFormat desc = false) :
    ∃ g, getNextFormat .start (defaultFormat m desc) = (fmt.type, g) := by
  have s : getNextFormat .start (asc "%s") = (.string, asc "s") := by decide
  have u : getNextFormat .start (asc "%" ++ asc "" ++ asc "u") = (.int, asc "u") := by decide
  have d : getNextFormat .start (asc "%" ++ asc "" ++ asc "d") = (.int, asc "d") := by decide
  have llu : getNextFormat .start (asc "%" ++ asc "ll" ++ asc "u") = (.quad, asc "u") := by decide
  have lld : getNextFormat .start (asc "%" ++ asc "ll" ++ asc "d") = (.quad, asc "d") := by decide
  have g : getNextFormat .start (asc "%g") = (.double, asc "g") := by decide
  unfold defaultFormat
  rw [formats]
  cases fmt with
  | none => exact absurd rfl known
  | str => exact ⟨_, s⟩
  | num =>
      dsimp only
      rw [string nofun, if_neg Bool.false_ne_true]
      split
      · exact ⟨_, u⟩
      · exact ⟨_, d⟩
  | quad =>
      dsimp only
      rw [string nofun, if_neg Bool.false_ne_true]
      split
      · exact ⟨_, llu⟩
      · exact ⟨_, lld⟩
  | float =>
      dsimp only
      rw [string nofun, if_neg Bool.false_ne_true]
      exact ⟨_, g⟩
  | double =>
      dsimp only
      rw [string nofun, if_neg Bool.false_ne_true]
      exact ⟨_, g⟩

theorem Fmt.type_known {fmt : Fmt} (known : fmt ≠ .none) : fmt.type ≠ .unknown := by
  cases fmt <;> first | exact absurd rfl known | exact nofun

/-- Where the directive is printed, both checks accept it just when it fits. -/
theorem accepted_iff_of_holds {m : Magic} {mode : Nat} {fmt : Fmt} {ptr : Bytes} (r : Reading fmt ptr)
    (uses : usesFormat m.type = true) (formats : fileFormats m.type = some fmt) (known : fmt ≠ .none)
    (holds : Holds r.block (printed m mode)) : Accepted m mode ↔ directiveFits ptr = true := by
  obtain ⟨pre, post, out, no, no'⟩ := holds
  have string : fmt ≠ .str → hasStringFormat (printed m mode) = false := by
    intro number
    rw [out]
    exact r.hasStringFormat_out no no' number
  obtain ⟨g, type⟩ := defaultFormat_type formats known string
  have mem : 0x25 ∈ printed m mode := by
    rw [out]
    simp [Reading.block]
  have fits : directiveFits ptr = true ↔ r.d.Single ∧ r.d.Small ∧ r.d.conv ≠ 0x46 ∧ r.d.conv ≠ 0x47 := by
    have same := r.d.fits_iff
    rw [r.text] at same
    exact same
  have first := r.fmtcheck_out no no' (Fmt.type_known known) type
  have second := r.fileCheckfmt_out no no'
  rw [← out] at first second
  rw [fits]
  constructor
  · intro accepted
    obtain ⟨checked, fields⟩ := accepted uses
    obtain ⟨single, letters⟩ := first.mp (checked mem)
    exact ⟨single, second.mp fields, letters⟩
  · rintro ⟨single, small, letters⟩ _
    exact ⟨fun _ => first.mpr ⟨single, letters⟩, second.mpr small⟩

/-- The modes with and without an execute bit. -/
theorem exists_mode (exec : Bool) : ∃ mode, isExec mode = exec := by
  cases exec
  · exact ⟨0, by decide⟩
  · exact ⟨0o111, by decide⟩

theorem accepted_iff_fits (m : Magic) (parsed : checkFormat m.type m.desc = true) :
    (∀ mode, Accepted m mode) ↔ Fits m := by
  unfold checkFormat at parsed
  split at parsed
  · rename_i none
    have no := splitAt_none none
    have free : ∀ mode, 0x25 ∉ printed m mode := by
      intro mode
      unfold printed
      cases expanded : varexpand mode 512 m.desc with
      | none => exact no
      | some out => exact varexpandFrom_free no expanded
    exact ⟨fun _ _ r some => absurd (none.symm.trans some) nofun, fun _ mode => accepted_of_free (free mode)⟩
  · rename_i pre ptr found
    split at parsed
    · cases parsed
    · cases parsed
    · rename_i fmt known formats
      rw [Bool.and_eq_true, Bool.not_eq_true', ← Bool.not_eq_true, List.contains_iff_mem] at parsed
      obtain ⟨r⟩ := reading_of_checkFormatType parsed.1
      have kind : fmt ≠ .none := known
      have desc : m.desc = pre ++ 0x25 :: ptr := splitAt_eq found
      have holds : Holds r.block m.desc := by
        rw [desc]
        exact r.holds (splitAt_free found) parsed.2
      obtain ⟨kept, ⟨exec, keeps⟩, expand⟩ := varexpandFrom_block r.block_ok (m.desc.length + 1) holds
      have out : ∀ mode, Holds r.block (printed m mode) ∨ 0x25 ∉ printed m mode := by
        intro mode
        unfold printed
        cases expanded : varexpand mode 512 m.desc with
        | none => exact .inl holds
        | some text =>
            have one := expand expanded
            split at one
            · exact .inl one
            · exact .inr one
      have shown : ∃ mode, Holds r.block (printed m mode) := by
        obtain ⟨mode, hmode⟩ := exists_mode exec
        refine ⟨mode, ?_⟩
        unfold printed
        cases expanded : varexpand mode 512 m.desc with
        | none => exact holds
        | some text =>
            have one := expand expanded
            rw [hmode, keeps, if_pos rfl] at one
            exact one
      constructor
      · intro all uses s found'
        obtain rfl : (pre, ptr) = s := Option.some.inj (found.symm.trans found')
        obtain ⟨mode, holds⟩ := shown
        exact (accepted_iff_of_holds r uses formats kind holds).mp (all mode)
      · intro fits mode
        by_cases uses : usesFormat m.type = true
        · rcases out mode with holds | free
          · exact (accepted_iff_of_holds r uses formats kind holds).mpr (fits uses (pre, ptr) found)
          · exact accepted_of_free free
        · exact fun used => absurd used uses

/-! ## `mprint` -/

/-- A machine on which nothing but a format can go wrong, with the `fmtcheck` of the source, and an
output buffer that has room and no error. -/
structure Calm (host : Host) (io : Io) : Prop where
  fmtcheck : host.fmtcheck = fmtcheck
  malloc : ∀ n, host.malloc n = true
  vasprintf : ∀ fmt args, ∃ text, host.vasprintf fmt args = some text ∧ text.length ≤ 1024
  hadErr : io.hadErr = false
  room : blen io + 1024 ≤ 1024 * 1024

/-- A call that succeeded without an error. -/
def Fine (r : Bool × Io) : Prop := r.1 = true ∧ r.2.hadErr = false

theorem hadErr_fileErrorCore (host : Host) (line n error : Nat) (fmt : Bytes) (args : List Arg) (io : Io) :
    (fileErrorCore host line n error fmt args io).hadErr = true := by
  cases n with
  | zero => rfl
  | succ n =>
      unfold fileErrorCore
      split
      · assumption
      · rfl

theorem Calm.tick {host : Host} {io : Io} (calm : Calm host io) (n : Nat) : Calm host { io with tick := n } :=
  ⟨calm.fmtcheck, calm.malloc, calm.vasprintf, calm.hadErr, calm.room⟩

section Mprint

variable {host : Host} {io : Io} (calm : Calm host io)

include calm

theorem fine_filePrintf (fmt : Bytes) (args : List Arg) :
    Fine (filePrintf host fmt args io) ↔ fileCheckfmt fmt = none := by
  have open' : ¬ io.hadErr = true := by
    rw [calm.hadErr]
    exact Bool.false_ne_true
  unfold filePrintf vprintf
  rw [if_neg open']
  cases check : fileCheckfmt fmt with
  | some msg => exact ⟨fun fine => absurd fine.1 nofun, nofun⟩
  | none =>
      obtain ⟨text, printed, short⟩ := calm.vasprintf fmt args
      have room := calm.room
      have fits : ¬ (text.length > 1024 ∨ text.length + blen { io with tick := io.tick + 1 } > 1024 * 1024) := by
        have same : blen { io with tick := io.tick + 1 } = blen io := rfl
        omega
      refine ⟨fun _ => rfl, fun _ => ?_⟩
      dsimp only
      rw [printed]
      dsimp only
      rw [if_neg fits]
      cases io.buf with
      | none => exact ⟨rfl, calm.hadErr⟩
      | some old =>
          dsimp only
          rw [if_pos (calm.malloc _)]
          exact ⟨rfl, calm.hadErr⟩

theorem fine_printDesc (desc fallback : Bytes) (arg : Arg) :
    Fine (printDesc host desc fallback arg io) ↔
      (0x25 ∈ desc → fmtcheck desc fallback = true) ∧ fileCheckfmt desc = none := by
  unfold printDesc fileFmtcheck
  by_cases mem : 0x25 ∈ desc
  swap
  · have none : (!desc.contains 0x25) = true := by
      rw [Bool.not_eq_true', ← Bool.not_eq_true, List.contains_iff_mem]
      exact mem
    rw [if_pos none]
    dsimp only
    rw [fine_filePrintf calm]
    exact ⟨fun ok => ⟨fun some => absurd some mem, ok⟩, fun both => both.2⟩
  have some : ¬ (!desc.contains 0x25) = true := by
    rw [Bool.not_eq_true', ← Bool.not_eq_true, List.contains_iff_mem]
    exact not_not.mpr mem
  rw [if_neg some, calm.fmtcheck]
  by_cases ok : fmtcheck desc fallback = true
  · rw [if_pos ok]
    dsimp only
    rw [fine_filePrintf calm]
    exact ⟨fun fields => ⟨fun _ => ok, fields⟩, fun both => both.2⟩
  · rw [if_neg ok]
    refine ⟨fun fine => ?_, fun both => absurd (both.1 mem) ok⟩
    have error := hadErr_fileErrorCore host io.line 3 0 (asc "%s, %zu: format `%s' does not match with `%s'")
      [.str (asc "softmagic.c"), .uint 0, .str desc, .str fallback] io
    have still := fine.2
    unfold filePrintf vprintf fileMagerror at still
    dsimp only at still
    rw [if_pos error] at still
    exact absurd (still.symm.trans error) nofun

theorem fine_printNumber (desc fmt : Bytes) (arg : Arg) :
    Fine (printNumber host desc fmt arg io) ↔
      (0x25 ∈ desc → fmtcheck desc (if hasStringFormat desc then asc "%s" else fmt) = true) ∧
        fileCheckfmt desc = none := by
  unfold printNumber checkFmt
  by_cases mem : 0x25 ∈ desc
  swap
  · have none : (!desc.contains 0x25) = true := by
      rw [Bool.not_eq_true', ← Bool.not_eq_true, List.contains_iff_mem]
      exact mem
    rw [if_pos none]
    dsimp only
    rw [fine_printDesc calm]
    exact ⟨fun both => ⟨fun some => absurd some mem, both.2⟩, fun both => ⟨fun some => absurd some mem, both.2⟩⟩
  have some : ¬ (!desc.contains 0x25) = true := by
    rw [Bool.not_eq_true', ← Bool.not_eq_true, List.contains_iff_mem]
    exact not_not.mpr mem
  rw [if_neg some, if_pos (calm.malloc _)]
  cases hasStringFormat desc with
  | true =>
      dsimp only
      rw [fine_printDesc (calm.tick _)]
      exact Iff.rfl
  | false =>
      dsimp only
      rw [fine_printDesc (calm.tick _)]
      exact Iff.rfl

theorem fine_printer (m : Magic) (desc : Bytes) (size : String) (n : Nat) (v : Value) :
    Fine (printer host m desc size n v io) ↔
      (0x25 ∈ desc → fmtcheck desc (if hasStringFormat desc then asc "%s" else
        asc "%" ++ asc size ++ (if has m.flag UNSIGNED then asc "u" else asc "d")) = true) ∧
        fileCheckfmt desc = none := by
  unfold printer
  dsimp only
  by_cases unsigned : has m.flag UNSIGNED = true
  · rw [if_pos unsigned, if_pos unsigned, fine_printNumber calm]
  · rw [if_neg unsigned, if_neg unsigned, fine_printNumber calm]

theorem fine_mprintSearch (flags : Nat) (m : Magic) (desc : Bytes) {search : Search} (text : search.s.isSome) :
    Fine (mprintSearch host flags m desc search io) ↔
      (0x25 ∈ desc → fmtcheck desc (asc "%s") = true) ∧ fileCheckfmt desc = none := by
  unfold mprintSearch
  obtain ⟨s, hs⟩ := Option.isSome_iff_exists.mp text
  rw [hs]
  dsimp only
  rw [calm.malloc, Bool.not_true, if_neg Bool.false_ne_true, fine_printDesc (calm.tick _)]

omit calm in
/-- The length of a Pascal string has a known size. -/
theorem filePstringLengthSize_known {m : Magic} (known : ∃ n, filePstringLengthSize host m io = (some n, io))
    (io' : Io) : ∃ n, filePstringLengthSize host m io' = (some n, io') := by
  obtain ⟨n, h⟩ := known
  unfold filePstringLengthSize at h ⊢
  dsimp only at h ⊢
  split at h
  · rename_i one
    exact ⟨1, if_pos one⟩
  rename_i one
  rw [if_neg one]
  split at h
  · rename_i two
    exact ⟨2, if_pos two⟩
  rename_i two
  rw [if_neg two]
  split at h
  · rename_i four
    exact ⟨4, if_pos four⟩
  · cases h

theorem fine_mprintString (flags : Nat) (m : Magic) (desc : Bytes) (v : Value)
    (length : m.type = .pstring → ∃ n, filePstringLengthSize host m io = (some n, io)) :
    Fine ((mprintString host flags m desc v io).1, (mprintString host flags m desc v io).2.2) ↔
      (0x25 ∈ desc → fmtcheck desc (asc "%s") = true) ∧ fileCheckfmt desc = none := by
  unfold mprintString
  dsimp only
  rw [← fine_printDesc calm desc (asc "%s")]
  split
  · rename_i failed
    rw [failed]
  · rename_i io' printed
    rw [printed]
    by_cases pstring : m.type = .pstring
    · obtain ⟨n, known⟩ := filePstringLengthSize_known (length pstring) io'
      rw [if_pos pstring, known]
    · rw [if_neg pstring]

/-- An entry that `mprint` prints with a format: its type has one, the length of a Pascal string has
a known size, and a search has a text. -/
structure Printable (host : Host) (m : Magic) (search : Search) (io : Io) : Prop where
  uses : usesFormat m.type = true
  length : m.type = .pstring → ∃ n, filePstringLengthSize host m io = (some n, io)
  text : m.type = .search ∨ m.type = .regex → search.s.isSome

/-- `mprint` succeeds and reports no error. -/
def Prints (env : Env) (m : Magic) (v : Value) (search : Search) (io : Io) : Prop :=
  Fine ((mprint env m v search io).1, (mprint env m v search io).2.2)

omit calm in
theorem prints_iff_accepted {env : Env} {m : Magic} {search : Search} (calm : Calm env.host io)
    (printable : Printable env.host m search io) (v : Value) :
    Prints env m v search io ↔ Accepted m env.mode := by
  have uses := printable.uses
  have text := printable.text
  have length := printable.length
  have accepted : Accepted m env.mode ↔
      (0x25 ∈ printed m env.mode → fmtcheck (printed m env.mode) (defaultFormat m (printed m env.mode)) = true) ∧
        fileCheckfmt (printed m env.mode) = none := ⟨fun h => h uses, fun h _ => h⟩
  rw [accepted]
  unfold Prints defaultFormat
  have desc : (varexpand env.mode 512 m.desc).getD m.desc = printed m env.mode := rfl
  cases type : m.type
  all_goals
    rw [type] at uses text
    simp only [mprint, desc, type, fileFormats]
    first
      | exact absurd uses Bool.false_ne_true
      | exact fine_printer calm m _ _ _ v
      | exact fine_printNumber calm _ _ _
      | exact fine_printDesc calm _ _ _
      | exact fine_mprintSearch calm _ m _ (text (.inl rfl))
      | exact fine_mprintSearch calm _ m _ (text (.inr rfl))
      | (split
         · exact fine_printDesc calm _ _ _
         · exact fine_mprintString calm _ m _ v length)

end Mprint

/-- For an entry that `check_format` accepted, both checks accept the description in every mode just
when its directive fits; and where nothing else can go wrong, `mprint` prints without an error just
when both checks accept the description. -/
theorem formats_agree_iff (m : Magic) (parsed : checkFormat m.type m.desc = true) :
    ((∀ mode, Accepted m mode) ↔ Fits m) ∧
      ∀ (env : Env) (v : Value) (search : Search) (io : Io), Calm env.host io →
        Printable env.host m search io → (Prints env m v search io ↔ Accepted m env.mode) :=
  ⟨accepted_iff_fits m parsed, fun _ v _ _ calm printable => prints_iff_accepted calm printable v⟩

/-- A machine that prints a single `%d`. -/
def calmHost : Host :=
  { plainHost with
    fmtcheck := fmtcheck
    vasprintf := fun fmt args => some ((match args with
      | [.int n] => if fmt = asc "%d" then decimal n else fmt
      | _ => fmt).take 1024) }

/-- `0 byte x %d`. -/
def byteLine : Magic := { plainLine with desc := asc "%d" }

theorem formats_agree_byteLine :
    checkFormat byteLine.type byteLine.desc = true ∧ (∀ mode, Accepted byteLine mode) ∧
      ∀ v search, Prints { plainEnv [] [] with host := calmHost } byteLine v search (plainScan []).io := by
  have agree := formats_agree_iff byteLine (by decide)
  have fits : Fits byteLine := by
    intro _ r found
    obtain rfl : (([] : Bytes), asc "d") = r := Option.some.inj ((by decide : _ = _).symm.trans found)
    decide
  have accepted := agree.1.mpr fits
  have calm : Calm calmHost (plainScan []).io :=
    ⟨rfl, fun _ => rfl, fun fmt args => ⟨_, rfl, List.length_take_le _ _⟩, rfl, by decide⟩
  have printable : ∀ search, Printable calmHost byteLine search (plainScan []).io :=
    fun search => ⟨rfl, nofun, fun either => either.elim nofun nofun⟩
  exact ⟨by decide, accepted, fun v search =>
    (agree.2 { plainEnv [] [] with host := calmHost } v search _ calm (printable search)).mpr (accepted _)⟩

/-- `0 float x %G`. -/
def floatLine : Magic := { plainLine with type := .float, desc := asc "%G" }

theorem formats_disagree_floatLine :
    checkFormat floatLine.type floatLine.desc = true ∧ ¬ ∀ mode, Accepted floatLine mode := by
  refine ⟨by decide, fun all => ?_⟩
  have checked := ((all 0) (by decide)).1 (by decide)
  exact absurd checked (by decide)

end Libmagic.Format
