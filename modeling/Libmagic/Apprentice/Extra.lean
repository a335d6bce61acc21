import Libmagic.Apprentice.Database
import Libmagic.Apprentice.Parse
import Libmagic.Cells

/-!
# `apprentice.c`: the annotations of an entry

`parse_extra` copies the text behind `!:mime`, `!:ext` or `!:apple` into an array of the entry,
through the offset of the array in `struct magic`. The entry is the bytes that it occupies.
-/
namespace Libmagic.Apprentice

open Softmagic (Bytes asc cstring decimal isalpha isdigit isspace)

/-! ## The routine -/

/-- `strchr` finds the terminator of `extra` too. -/
def goodchar (x : UInt8) (extra : Bytes) : Bool := isalpha x || isdigit x || x == 0 || extra.contains x

/-- `i`, `l` and the entry. -/
structure Filling where
  i : Nat
  l : Bytes
  m : Bytes

/-- The loop that stores the text at `buf`. -/
def fillExtra (buf llen len : Nat) (extra : Bytes) : (i : Nat) → (l m : Bytes) → Filling
  | i, [], m => ⟨i, [], m⟩
  | i, c :: l, m =>
      if c ≠ 0 ∧ i < llen ∧ i < len ∧ goodchar c extra then
        fillExtra buf llen len extra (i + 1) l (m.set (buf + i) c)
      else ⟨i, c :: l, m⟩

/-- What `parse_extra` returns, with the entry that it leaves and the texts that are reported. -/
structure Extra where
  ok : Bool
  m : Bytes
  warnings : List Bytes
  error : Option Bytes

/-- `parse_extra(ms, me, line, llen, off, len, name, extra, nt)` for the array `f` of the current entry;
`check` is `MAGIC_CHECK`. -/
def parseExtra (check : Bool) (m line : Bytes) (llen : Nat) (f : Field) (name extra : Bytes) (nt : Bool) : Extra :=
  if m.getD f.off 0 ≠ 0 then
    let buf := if nt then cstring (m.drop f.off) else cstring (f.get m)
    ⟨false, m, [asc "Current entry already has a " ++ name ++ asc " type `" ++ buf ++ asc "', new type `" ++
      cstring line ++ asc "'"], none⟩
  else if m.getD Member.desc.off 0 = 0 then
    ⟨false, m, [asc "Current entry does not yet have a description for adding a " ++ name ++ asc " type"], none⟩
  else
    let t := fillExtra f.off llen f.size extra 0 (eatab line) m
    let c := t.l.headD 0
    let whole := decide (t.i = f.size ∧ c ≠ 0)
    let m := if nt then t.m.set (if whole then f.off + f.size - 1 else f.off + t.i) 0 else t.m
    let warnings :=
      if whole then
        if check then [name ++ asc " type `" ++ cstring line ++ asc "' truncated " ++ decimal t.i] else []
      else if !isspace c && !goodchar c extra then
        [name ++ asc " type `" ++ cstring line ++ asc "' has bad char '" ++ [c] ++ asc "'"]
      else []
    if t.i > 0 then ⟨true, m, warnings, none⟩
    else ⟨false, m, warnings, some (asc "Bad magic entry '" ++ cstring line ++ asc "'")⟩

/-- The entries of `bang` that are annotations. -/
inductive Bang where
  | mime | apple | ext
  deriving DecidableEq, Repr

namespace Bang

def field : Bang → Field
  | mime => Member.mimetype
  | apple => Member.apple
  | ext => Member.ext

def extra : Bang → Bytes
  | mime => asc "+-/.$?:\x7b\x7d;="
  | apple => asc "!+-./?"
  | ext => asc ",!+-/@?_$&~."

end Bang

def parseApple (check : Bool) (m line : Bytes) (len : Nat) : Extra :=
  parseExtra check m line len Member.apple (asc "APPLE") (asc "!+-./?") false

def parseExt (check : Bool) (m line : Bytes) (len : Nat) : Extra :=
  parseExtra check m line len Member.ext (asc "EXTENSION") (asc ",!+-/@?_$&~.") false

def parseMime (check : Bool) (m line : Bytes) (len : Nat) : Extra :=
  parseExtra check m line len Member.mimetype (asc "MIME") (asc "+-/.$?:\x7b\x7d;=") true

/-- `bang[i].fun`. -/
def Bang.parse (a : Bang) (check : Bool) (m line : Bytes) (len : Nat) : Extra :=
  match a with
  | .mime => parseMime check m line len
  | .apple => parseApple check m line len
  | .ext => parseExt check m line len

/-! ## What is stored -/

/-- The characters that the loop takes. -/
def taken (llen len : Nat) (extra l : Bytes) : Bytes :=
  (l.take (min llen len)).takeWhile fun c => c != 0 && goodchar c extra

section

variable {buf llen len i j : Nat} {extra l m bs : Bytes}

theorem taken_cons {c : UInt8} (goes : c ≠ 0 ∧ i < llen ∧ i < len ∧ goodchar c extra = true) :
    taken (llen - i) (len - i) extra (c :: l) = c :: taken (llen - (i + 1)) (len - (i + 1)) extra l := by
  obtain ⟨char, more, fits, good⟩ := goes
  have step : min (llen - i) (len - i) = min (llen - (i + 1)) (len - (i + 1)) + 1 := by omega
  rw [taken, step, List.take_succ_cons, List.takeWhile_cons_of_pos]
  · rfl
  · rw [good, Bool.and_true, bne_iff_ne]
    exact char

theorem taken_stop {c : UInt8} (stops : ¬ (c ≠ 0 ∧ i < llen ∧ i < len ∧ goodchar c extra = true)) :
    taken (llen - i) (len - i) extra (c :: l) = [] := by
  rw [taken]
  by_cases full : min (llen - i) (len - i) = 0
  · rw [full]
    rfl
  · obtain ⟨k, some⟩ := Nat.exists_eq_succ_of_ne_zero full
    rw [some, List.take_succ_cons, List.takeWhile_cons_of_neg]
    rw [Bool.and_eq_true, bne_iff_ne]
    exact fun both => stops ⟨both.1, by omega, by omega, both.2⟩

theorem fillExtra_eq (room : buf + len ≤ m.length) (start : i ≤ len) :
    fillExtra buf llen len extra i l m =
      ⟨i + (taken (llen - i) (len - i) extra l).length, l.drop (taken (llen - i) (len - i) extra l).length,
        m.take (buf + i) ++ taken (llen - i) (len - i) extra l ++
          m.drop (buf + i + (taken (llen - i) (len - i) extra l).length)⟩ := by
  induction l generalizing i m with
  | nil =>
      have none : taken (llen - i) (len - i) extra [] = [] := by
        rw [taken, List.take_nil]
        rfl
      rw [fillExtra, none, List.append_nil, List.length_nil, Nat.add_zero, Nat.add_zero, List.take_append_drop]
      rfl
  | cons c l ih =>
      rw [fillExtra]
      split_ifs with goes
      · have inside : buf + i < m.length := by omega
        have room' : buf + len ≤ (m.set (buf + i) c).length := by rwa [List.length_set]
        have behind (k : Nat) : (m.set (buf + i) c).drop (buf + i + 1 + k) = m.drop (buf + i + 1 + k) :=
          List.drop_set_of_lt (by omega)
        have length (bs : Bytes) (k : Nat) : k + (c :: bs).length = k + 1 + bs.length := by
          rw [List.length_cons, Nat.add_assoc, Nat.add_comm 1]
        rw [@ih (i + 1) _ room' goes.2.2.1, taken_cons goes, ← Nat.add_assoc buf, behind, Cells.take_set_succ c inside, length, length,
          List.append_assoc _ [c], List.singleton_append, List.length_cons, List.drop_succ_cons]
      · rw [taken_stop goes, List.append_nil, List.length_nil, Nat.add_zero, Nat.add_zero, List.take_append_drop]
        rfl

/-- What the array has been filled with. -/
theorem fillExtra_zero (room : buf + len ≤ m.length) :
    fillExtra buf llen len extra 0 l m =
      ⟨(taken llen len extra l).length, l.drop (taken llen len extra l).length,
        m.take buf ++ taken llen len extra l ++ m.drop (buf + (taken llen len extra l).length)⟩ := by
  rw [fillExtra_eq room (Nat.zero_le len), Nat.zero_add]
  rfl

theorem taken_length_le : (taken llen len extra l).length ≤ len :=
  Nat.le_trans (List.takeWhile_sublist _).length_le (Nat.le_trans (List.length_take_le _ _) (Nat.min_le_right _ _))

theorem zero_notMem_taken : 0 ∉ taken llen len extra l := by
  intro mem
  have all := List.all_eq_true.mp (List.all_takeWhile (p := fun c => c != 0 && goodchar c extra)) 0 mem
  rw [Bool.and_eq_true, bne_iff_ne] at all
  exact all.1 rfl

/-- Bytes laid over the entry. -/
theorem overlay_getElem? (room : buf + bs.length ≤ m.length) :
    (m.take buf ++ bs ++ m.drop (buf + bs.length))[j]? =
      if buf ≤ j ∧ j < buf + bs.length then bs[j - buf]? else m[j]? := by
  have start : (m.take buf).length = buf := by
    rw [List.length_take]
    omega
  rw [List.append_assoc, List.getElem?_append, start]
  by_cases front : j < buf
  · rw [if_pos front, if_neg (by omega), List.getElem?_take, if_pos front]
  · rw [if_neg front, List.getElem?_append]
    by_cases here : j - buf < bs.length
    · rw [if_pos here, if_pos (by omega)]
    · rw [if_neg here, if_neg (by omega), List.getElem?_drop]
      congr 1
      omega

theorem mem_get {f : Field} {c : UInt8} : c ∈ f.get m ↔ ∃ j, f.off ≤ j ∧ j < f.off + f.size ∧ m[j]? = some c := by
  rw [Field.get, List.mem_iff_getElem?]
  simp only [List.getElem?_take, List.getElem?_drop]
  constructor
  · rintro ⟨k, here⟩
    split_ifs at here with lt
    exact ⟨f.off + k, by omega, by omega, here⟩
  · rintro ⟨j, start, stop, here⟩
    refine ⟨j - f.off, ?_⟩
    rw [if_pos (by omega), Nat.add_sub_cancel' start]
    exact here

end

/-! ## The entry behind a line -/

/-- The copy takes place: there is no such annotation yet, and there is a description. -/
def Enters (f : Field) (m : Bytes) : Prop := m.getD f.off 0 = 0 ∧ m.getD Member.desc.off 0 ≠ 0

/-- The characters that go to the array. -/
def Bang.stored (a : Bang) (line : Bytes) (len : Nat) : Bytes :=
  taken len a.field.size a.extra (eatab line)

/-- The text of a `mime` line fills the array to the last byte and ends there, or that of an `ext` line
fills it. -/
def Overruns (a : Bang) (m line : Bytes) (len : Nat) : Prop :=
  Enters a.field m ∧
    match a with
    | .mime => (a.stored line len).length = 80 ∧ ((eatab line).drop 80).headD 0 = 0
    | .ext => (a.stored line len).length = 120
    | .apple => False

/-- The arrays of an entry as `parse` and its annotations leave them. -/
structure Current (m : Bytes) : Prop where
  size : m.length = FILE_MAGICSIZE
  mimetype : 0 ∈ Member.mimetype.get m
  ext : 0 ∈ Member.ext.get m
  clear : m.getD Member.ext.off 0 = 0 → ∀ c ∈ Member.ext.get m, c = 0

/-- A line changes no byte but those of its array, and what it leaves can be printed. -/
structure Annotated (a : Bang) (m : Bytes) (r : Extra) : Prop where
  frame : ∀ j, j < a.field.off ∨ a.field.off + a.field.size ≤ j → r.m[j]? = m[j]?
  mimetype : r.ok = true → 0 ∈ Member.mimetype.get r.m
  ext : r.ok = true → 0 ∈ Member.ext.get r.m
  apple : (cstring (Member.apple.get r.m)).length ≤ 8

section

variable {a : Bang} {check : Bool} {m line : Bytes} {len : Nat}

theorem parse_eq (a : Bang) (check : Bool) (m line : Bytes) (len : Nat) :
    ∃ name, a.parse check m line len = parseExtra check m line len a.field name a.extra (a == .mime) := by
  cases a <;> exact ⟨_, rfl⟩

theorem parse_refused (refused : ¬ Enters a.field m) :
    (a.parse check m line len).ok = false ∧ (a.parse check m line len).m = m := by
  obtain ⟨name, parse⟩ := parse_eq a check m line len
  rw [parse, parseExtra]
  by_cases filled : m.getD a.field.off 0 ≠ 0
  · rw [if_pos filled]
    exact ⟨rfl, rfl⟩
  · rw [if_neg filled]
    by_cases bare : m.getD Member.desc.off 0 = 0
    · rw [if_pos bare]
      exact ⟨rfl, rfl⟩
    · exact absurd ⟨not_not.mp filled, bare⟩ refused

/-- The text at the front of the array. -/
def overlay (a : Bang) (m line : Bytes) (len : Nat) : Bytes :=
  m.take a.field.off ++ a.stored line len ++ m.drop (a.field.off + (a.stored line len).length)

theorem field_fits (size : m.length = FILE_MAGICSIZE) (a : Bang) : a.field.off + a.field.size ≤ m.length := by
  rw [size]
  cases a <;> decide

/-- Where the terminator of a `mime` is put, as an index of the array. -/
def terminator (line : Bytes) (len : Nat) : Nat :=
  if (Bang.mime.stored line len).length = 80 ∧
    ((eatab line).drop (Bang.mime.stored line len).length).headD 0 ≠ 0 then 79
  else (Bang.mime.stored line len).length

theorem parse_entered (size : m.length = FILE_MAGICSIZE) (enters : Enters a.field m) :
    (a.parse check m line len).ok = decide (0 < (a.stored line len).length) ∧
      (a.parse check m line len).m =
        if a = .mime then (overlay a m line len).set (Member.mimetype.off + terminator line len) 0
        else overlay a m line len := by
  obtain ⟨name, parse⟩ := parse_eq a check m line len
  have stored : taken len a.field.size a.extra (eatab line) = a.stored line len := rfl
  have index (mime : a = .mime) : (if (a.stored line len).length = a.field.size ∧
      ((eatab line).drop (a.stored line len).length).headD 0 ≠ 0 then a.field.off + a.field.size - 1
      else a.field.off + (a.stored line len).length) = Member.mimetype.off + terminator line len := by
    subst mime
    exact (apply_ite (Member.mimetype.off + ·) _ 79 _).symm
  rw [parse, parseExtra, if_neg (not_not.mpr enters.1), if_neg enters.2, fillExtra_zero (field_fits size a), stored]
  simp only [beq_iff_eq, decide_eq_true_eq]
  have same : (if a = .mime then (overlay a m line len).set (if (a.stored line len).length = a.field.size ∧
      ((eatab line).drop (a.stored line len).length).headD 0 ≠ 0 then a.field.off + a.field.size - 1
      else a.field.off + (a.stored line len).length) 0 else overlay a m line len) =
      if a = .mime then (overlay a m line len).set (Member.mimetype.off + terminator line len) 0
        else overlay a m line len := by
    by_cases mime : a = .mime
    · rw [if_pos mime, if_pos mime, index mime]
    · rw [if_neg mime, if_neg mime]
  by_cases some : 0 < (a.stored line len).length
  · rw [if_pos some]
    exact ⟨(decide_eq_true some).symm, same⟩
  · rw [if_neg some]
    exact ⟨(decide_eq_false some).symm, same⟩

theorem stored_length_le : (a.stored line len).length ≤ a.field.size := taken_length_le

theorem overlay_length (size : m.length = FILE_MAGICSIZE) : (overlay a m line len).length = m.length := by
  have fits := field_fits size a
  have short := @stored_length_le a line len
  rw [overlay, List.length_append, List.length_append, List.length_take, List.length_drop]
  omega

theorem overlay_outside (size : m.length = FILE_MAGICSIZE) {j : Nat}
    (outside : ¬ (a.field.off ≤ j ∧ j < a.field.off + (a.stored line len).length)) :
    (overlay a m line len)[j]? = m[j]? := by
  have fits := field_fits size a
  have short := @stored_length_le a line len
  rw [overlay, overlay_getElem? (by omega), if_neg outside]

theorem overlay_inside (size : m.length = FILE_MAGICSIZE) {j : Nat}
    (inside : a.field.off ≤ j ∧ j < a.field.off + (a.stored line len).length) :
    (overlay a m line len)[j]? = (a.stored line len)[j - a.field.off]? := by
  have fits := field_fits size a
  have short := @stored_length_le a line len
  rw [overlay, overlay_getElem? (by omega), if_pos inside]

/-- The terminator is inside the array, or the line overruns it. -/
theorem terminator_lt (fits : ¬ Overruns .mime m line len) (enters : Enters Member.mimetype m) :
    terminator line len < 80 := by
  have short : (Bang.mime.stored line len).length ≤ 80 := stored_length_le
  rw [terminator]
  split_ifs with whole
  · decide
  · by_contra full
    have all : (Bang.mime.stored line len).length = 80 := by omega
    refine fits ⟨enters, all, ?_⟩
    by_contra more
    rw [all] at whole
    exact whole ⟨rfl, more⟩

theorem parse_size (size : m.length = FILE_MAGICSIZE) : (a.parse check m line len).m.length = FILE_MAGICSIZE := by
  by_cases enters : Enters a.field m
  · rw [(parse_entered size enters).2]
    split_ifs
    · rw [List.length_set, overlay_length size, size]
    · rw [overlay_length size, size]
  · rw [(parse_refused enters).2, size]

/-- The bytes outside the array are what they were. -/
theorem parse_frame (size : m.length = FILE_MAGICSIZE) (fits : ¬ Overruns a m line len) {j : Nat}
    (outside : j < a.field.off ∨ a.field.off + a.field.size ≤ j) : (a.parse check m line len).m[j]? = m[j]? := by
  have short := @stored_length_le a line len
  by_cases enters : Enters a.field m
  · rw [(parse_entered size enters).2]
    split_ifs with mime
    · subst mime
      have inside := terminator_lt fits enters
      have other : Member.mimetype.off + terminator line len ≠ j := by
        have off : Bang.mime.field = Member.mimetype := rfl
        have width : Member.mimetype.size = 80 := rfl
        rw [off, width] at outside
        omega
      rw [List.getElem?_set_ne other, overlay_outside size (by omega)]
    · exact overlay_outside size (by omega)
  · rw [(parse_refused enters).2]

theorem get_of_frame {f g : Field} {m m' : Bytes} (frame : ∀ j, j < f.off ∨ f.off + f.size ≤ j → m'[j]? = m[j]?)
    (disjoint : g.Disjoint f) : g.get m' = g.get m := by
  apply List.ext_getElem?
  intro j
  rw [Field.get, Field.get, List.getElem?_take, List.getElem?_take, List.getElem?_drop, List.getElem?_drop]
  split_ifs with inside
  · refine frame _ ?_
    rcases disjoint with before | behind
    · exact .inl (by omega)
    · exact .inr (by omega)
  · rfl

/-- The terminator of a `mime` that fits. -/
theorem mimetype_terminated (size : m.length = FILE_MAGICSIZE) (fits : ¬ Overruns .mime m line len)
    (enters : Enters Member.mimetype m) : 0 ∈ Member.mimetype.get (Bang.mime.parse check m line len).m := by
  have inside := terminator_lt fits enters
  have room : Member.mimetype.off + terminator line len < (overlay .mime m line len).length := by
    have all : Member.mimetype.off + 80 ≤ m.length := field_fits size .mime
    rw [overlay_length size]
    omega
  rw [(@parse_entered .mime check m line len size enters).2, if_pos rfl]
  exact mem_get.mpr ⟨_, Nat.le_add_right _ _, Nat.add_lt_add_left inside _, List.getElem?_set_self room⟩

/-- An `ext` that fits leaves zeros behind it. -/
theorem ext_terminated (current : Current m) (fits : ¬ Overruns .ext m line len) (enters : Enters Member.ext m) :
    0 ∈ Member.ext.get (Bang.ext.parse check m line len).m := by
  have short : (Bang.ext.stored line len).length ≤ 120 := stored_length_le
  have less : (Bang.ext.stored line len).length < 120 := Nat.lt_of_le_of_ne short fun full => fits ⟨enters, full⟩
  have all : Member.ext.off + 120 ≤ m.length := field_fits current.size .ext
  have room : Member.ext.off + (Bang.ext.stored line len).length < m.length := by omega
  have behind : m[Member.ext.off + (Bang.ext.stored line len).length]? = some 0 := by
    have zero := current.clear enters.1 _ (mem_get.mpr ⟨_, Nat.le_add_right _ _, Nat.add_lt_add_left less _,
      List.getElem?_eq_getElem room⟩)
    rw [List.getElem?_eq_getElem room, zero]
  rw [(@parse_entered .ext check m line len current.size enters).2, if_neg (by decide)]
  have last := @overlay_outside .ext m line len current.size _ (fun inside => Nat.lt_irrefl _ inside.2)
  exact mem_get.mpr ⟨_, Nat.le_add_right _ _, Nat.add_lt_add_left less _, last.trans behind⟩

theorem ext_clear (current : Current m) (enters : Enters Member.ext m)
    (zero : (Bang.ext.parse check m line len).m.getD Member.ext.off 0 = 0) :
    ∀ c ∈ Member.ext.get (Bang.ext.parse check m line len).m, c = 0 := by
  rw [(@parse_entered .ext check m line len current.size enters).2, if_neg (by decide)] at zero ⊢
  have none : Bang.ext.stored line len = [] := by
    cases stored : Bang.ext.stored line len with
    | nil => rfl
    | cons c l =>
        have some : 0 < (Bang.ext.stored line len).length := by
          rw [stored]
          exact Nat.succ_pos _
        have first := @overlay_inside .ext m line len current.size _ ⟨Nat.le_refl _, Nat.lt_add_of_pos_right some⟩
        rw [Nat.sub_self, stored] at first
        have char : c = 0 := (congrArg (Option.getD · 0) first).symm.trans (List.getD_eq_getElem?_getD ▸ zero)
        have mem : c ∈ Bang.ext.stored line len := stored ▸ List.mem_cons_self
        rw [char] at mem
        exact absurd mem zero_notMem_taken
  have same : overlay .ext m line len = m := by
    rw [overlay, none, List.append_nil, List.length_nil, Nat.add_zero, List.take_append_drop]
  rw [same]
  exact current.clear enters.1

/-- A line that fits leaves an entry that can be printed. -/
theorem parse_current (current : Current m) (fits : ¬ Overruns a m line len) :
    Current (a.parse check m line len).m := by
  have frame := fun j => @parse_frame a check m line len current.size fits j
  have kept (g : Field) (disjoint : g.Disjoint a.field) : g.get (a.parse check m line len).m = g.get m :=
    get_of_frame frame disjoint
  have byte (j : Nat) (outside : j < a.field.off ∨ a.field.off + a.field.size ≤ j) :
      (a.parse check m line len).m.getD j 0 = m.getD j 0 := by
    rw [List.getD_eq_getElem?_getD, List.getD_eq_getElem?_getD, frame j outside]
  by_cases enters : Enters a.field m
  · have size := @parse_size a check m line len current.size
    cases a with
    | mime =>
        have ext := kept Member.ext (by decide)
        exact ⟨size, mimetype_terminated current.size fits enters, ext ▸ current.ext,
          by rw [ext, byte _ (by decide)]; exact current.clear⟩
    | apple =>
        have ext := kept Member.ext (by decide)
        exact ⟨size, kept Member.mimetype (by decide) ▸ current.mimetype, ext ▸ current.ext,
          by rw [ext, byte _ (by decide)]; exact current.clear⟩
    | ext =>
        exact ⟨size, kept Member.mimetype (by decide) ▸ current.mimetype, ext_terminated current fits enters,
          ext_clear current enters⟩
  · rw [(parse_refused enters).2]
    exact current

theorem apple_length_le (m : Bytes) : (cstring (Member.apple.get m)).length ≤ 8 :=
  Nat.le_trans (List.takeWhile_sublist _).length_le (List.length_take_le _ _)

/-- A text that fills the array leaves no terminator in it. -/
theorem overlay_unterminated (size : m.length = FILE_MAGICSIZE) (full : (a.stored line len).length = a.field.size) :
    0 ∉ a.field.get (overlay a m line len) := by
  intro mem
  obtain ⟨j, start, stop, zero⟩ := mem_get.mp mem
  rw [overlay_inside size ⟨start, full ▸ stop⟩] at zero
  exact zero_notMem_taken (List.mem_of_getElem? zero)

theorem overruns_unterminated (size : m.length = FILE_MAGICSIZE) (overruns : Overruns a m line len) :
    (a.parse check m line len).ok = true ∧ 0 ∉ a.field.get (a.parse check m line len).m := by
  obtain ⟨enters, full⟩ := overruns
  obtain ⟨ok, left⟩ := @parse_entered a check m line len size enters
  rw [ok, left]
  cases a with
  | mime =>
      obtain ⟨all, ends⟩ := full
      have index : terminator line len = 80 := by
        rw [terminator, all, if_neg (fun whole => whole.2 ends)]
      have same : Member.mimetype.get ((overlay .mime m line len).set (Member.mimetype.off + 80) 0) =
          Member.mimetype.get (overlay .mime m line len) := by
        apply get_of_frame (f := ⟨Member.mimetype.off + 80, 1⟩) _ (by decide)
        intro j outside
        dsimp only at outside
        exact List.getElem?_set_ne (by omega)
      rw [if_pos rfl, index, all]
      exact ⟨rfl, same ▸ overlay_unterminated size all⟩
  | apple => exact absurd full not_false
  | ext =>
      have all : (Bang.ext.stored line len).length = 120 := full
      rw [if_neg (by decide), all]
      exact ⟨rfl, overlay_unterminated size all⟩

theorem annotated_iff (current : Current m) :
    Annotated a m (a.parse check m line len) ↔ ¬ Overruns a m line len := by
  constructor
  · intro annotated overruns
    obtain ⟨ok, missing⟩ := @overruns_unterminated a check m line len current.size overruns
    cases a with
    | mime => exact missing (annotated.mimetype ok)
    | apple => exact overruns.2
    | ext => exact missing (annotated.ext ok)
  · intro fits
    have after := @parse_current a check m line len current fits
    exact ⟨fun j => parse_frame current.size fits, fun _ => after.mimetype, fun _ => after.ext, apple_length_le _⟩

end

/-! ## The lines of an entry -/

/-- An annotation with the text and the length that `load_1` passes. -/
structure AnnotationLine where
  kind : Bang
  line : Bytes
  len : Nat

def AnnotationLine.parse (check : Bool) (m : Bytes) (x : AnnotationLine) : Extra := x.kind.parse check m x.line x.len

/-- The entry behind the lines. -/
def annotate (check : Bool) : Bytes → List AnnotationLine → Bytes
  | m, [] => m
  | m, x :: xs => annotate check (x.parse check m).m xs

/-- Each line, where it comes, fits. -/
def AllFit (check : Bool) : Bytes → List AnnotationLine → Prop
  | _, [] => True
  | m, x :: xs => ¬ Overruns x.kind m x.line x.len ∧ AllFit check (x.parse check m).m xs

/-- Each line leaves the entry as it should. -/
def AllAnnotated (check : Bool) : Bytes → List AnnotationLine → Prop
  | _, [] => True
  | m, x :: xs => Annotated x.kind m (x.parse check m) ∧ AllAnnotated check (x.parse check m).m xs

theorem annotate_current {check : Bool} {m : Bytes} {xs : List AnnotationLine} (current : Current m)
    (fit : AllFit check m xs) : AllAnnotated check m xs ∧ Current (annotate check m xs) := by
  induction xs generalizing m with
  | nil => exact ⟨trivial, current⟩
  | cons x xs ih =>
      obtain ⟨first, rest⟩ := fit
      obtain ⟨annotated, last⟩ := ih (parse_current current first) rest
      exact ⟨⟨(annotated_iff current).mpr first, annotated⟩, last⟩

/-- An entry whose arrays are all zeros, as `parse` makes it. -/
theorem current_of_zeros {m : Bytes} (size : m.length = FILE_MAGICSIZE)
    (mimetype : Member.mimetype.get m = List.replicate 80 0) (ext : Member.ext.get m = List.replicate 120 0) :
    Current m where
  size := size
  mimetype := mimetype ▸ List.mem_replicate.mpr ⟨by decide, rfl⟩
  ext := ext ▸ List.mem_replicate.mpr ⟨by decide, rfl⟩
  clear _ _ mem := (List.mem_replicate.mp (ext ▸ mem)).2

theorem annotation_iff {m : Bytes} (current : Current m) :
    (∀ check a line len, Annotated a m (Bang.parse a check m line len) ↔ ¬ Overruns a m line len) ∧
      ∀ check xs, AllFit check m xs → AllAnnotated check m xs ∧ Current (annotate check m xs) :=
  ⟨fun _ _ _ _ => annotated_iff current, fun _ _ fit => annotate_current current fit⟩

/-- An entry with the description `x`. -/
def bareEntry : Bytes := List.replicate 160 0 ++ [0x78] ++ List.replicate 271 0

theorem annotation_iff_bare : Annotated .mime bareEntry (parseMime false bareEntry (asc "text/x-a") 8) :=
  ((annotation_iff (current_of_zeros (by decide +kernel) (by decide +kernel) (by decide +kernel))).1 false .mime
    (asc "text/x-a") 8).mpr (by
      rintro ⟨-, full, -⟩
      exact absurd full (by decide +kernel))

/-- The text of a `mime` line of 80 characters is terminated in `apple`. -/
theorem annotation_exact :
    (parseApple false bareEntry (asc "ABCD") 4).ok = true ∧
      ¬ Annotated .mime (parseApple false bareEntry (asc "ABCD") 4).m
        (parseMime false (parseApple false bareEntry (asc "ABCD") 4).m (List.replicate 80 0x61) 80) ∧
      (parseMime false (parseApple false bareEntry (asc "ABCD") 4).m (List.replicate 80 0x61) 80).m.getD 304 0 = 0 := by
  refine ⟨by decide +kernel, ?_, by decide +kernel⟩
  intro annotated
  exact absurd (annotated.frame 304 (by decide)) (by decide +kernel)

end Libmagic.Apprentice
