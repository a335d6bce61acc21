import Libmagic.Apprentice.Getstr
import Libmagic.Format.Varexpand
import Libmagic.Unicode.Utf8

/-!
# `getstr` in memory, and what it reads

`getstr` with every byte that it reads of the line and writes to the value. `Unescapes` says what the
escapes of a line stand for, and `file_showstr` prints a string that is read again.
-/
namespace Libmagic.Apprentice

open Softmagic (Bytes Magic Value asc cstring isspace pstringLengthSize)
open Format (behind behind_cases)
open Run Cells

/-! ## The routine -/

/-- Up to `more` octal digits behind the value of those before: the character, and the index of what is left. -/
def octalIn (line : Bytes) : (more val s : Nat) → Run CellAccess (UInt8 × Nat)
  | 0, val, s => pure (UInt8.ofNat val, s)
  | more + 1, val, s => do
      let c ← readAt line s
      if isoctal c then octalIn line more (val * 8 + (c.toNat - 0x30)) (s + 1)
      else pure (UInt8.ofNat val, s)

def hexIn (line : Bytes) (s : Nat) : Run CellAccess (UInt8 × Nat) := do
  let c ← readAt line s
  match hextoint c with
  | none => pure (0x78, s)
  | some val => do
      let c ← readAt line (s + 1)
      match hextoint c with
      | none => pure (UInt8.ofNat val, s + 1)
      | some c => pure (UInt8.ofNat (val * 16 + c), s + 2)

/-- The characters that stand for another one behind a backslash. -/
def letters : List (UInt8 × UInt8) :=
  [(0x61, 0x07), (0x62, 0x08), (0x66, 0x0c), (0x6e, 0x0a), (0x72, 0x0d), (0x74, 0x09), (0x76, 0x0b)]

def escapeIn (line : Bytes) (s : Nat) : Run CellAccess (Option (UInt8 × Nat)) := do
  let c ← readAt line s
  if c = 0 then pure none
  else match letters.lookup c with
    | some b => pure (some (b, s + 1))
    | none =>
        if isoctal c then do
          let r ← octalIn line 2 (c.toNat - 0x30) (s + 1)
          pure (some r)
        else if c = 0x78 then do
          let r ← hexIn line (s + 1)
          pure (some r)
        else pure (some (c, s + 1))

/-- `s` and `p` as indices, and the object that `p` is in. -/
structure Copying where
  s : Nat
  p : Nat
  buf : Bytes

def getstrRound (line : Bytes) (t : Copying) : Run CellAccess (Copying ⊕ Option Copying) := do
  let c ← readAt line t.s
  if c = 0 ∨ isspace c then pure (.inr (some t))
  else if t.p ≥ 127 then pure (.inr none)
  else if c ≠ 0x5c then do
    let buf ← writeAt t.buf t.p c
    pure (.inl ⟨t.s + 1, t.p + 1, buf⟩)
  else do
    let r ← escapeIn line (t.s + 1)
    match r with
    | none => pure (.inr (some { t with s := t.s + 1 }))
    | some (b, s) => do
        let buf ← writeAt t.buf t.p b
        pure (.inl ⟨s, t.p + 1, buf⟩)

/-- The end of `getstr`, where `p` is behind the text. -/
def storedString (m : Magic) (value : Value) (p : Nat) : Option Magic :=
  if p > 128 then none
  else
    let m := { m with value, vallen := p % 256 }
    if m.type = .pstring then
      match pstringLengthSize m with
      | none => none
      | some l => if m.vallen + l > 128 then none else some { m with vallen := (m.vallen + l) % 256 }
    else some m

/-- `getstr(ms, m, line, warn)`: the line with its value, and the index of the rest. -/
def getstrIn (m : Magic) (line : Bytes) : Run CellAccess (Option (Magic × Nat)) := do
  let r ← loop (getstrRound line) (line.length + 1) ⟨0, 0, m.value.bytes⟩
  match r with
  | none => pure none
  | some t => do
      let buf ← writeAt t.buf t.p 0
      pure ((storedString m (m.value.write 0 buf) t.p).map (fun m => (m, t.s)))

theorem getstr_eq (m : Magic) (s : Bytes) : getstr m s = (getstrText s).bind (fun r =>
    (storedString m (m.value.write 0 (r.1 ++ [0])) r.1.length).map (fun m => (m, r.2))) := by
  rw [getstr]
  cases getstrText s with
  | none => rfl
  | some r =>
      obtain ⟨text, rest⟩ := r
      have size (value : Value) (vallen : Nat) : pstringLengthSize { m with value, vallen } = pstringLengthSize m := rfl
      rw [Option.bind_some, storedString]
      dsimp only
      split_ifs
      · rfl
      · rw [size]
        cases pstringLengthSize m with
        | none => rfl
        | some l =>
            dsimp only
            split <;> rfl
      · rfl

/-! ## What it touches -/

section Memory

variable {line : Bytes} {s w : Nat}

theorem lookup_letters : ∀ c : UInt8, letters.lookup c =
    if c = 0x61 then some 0x07 else if c = 0x62 then some 0x08 else if c = 0x66 then some 0x0c
    else if c = 0x6e then some 0x0a else if c = 0x72 then some 0x0d else if c = 0x74 then some 0x09
    else if c = 0x76 then some 0x0b else none :=
  Unicode.forall_byte (by decide +kernel)

theorem escape_eq (c : UInt8) (s : Bytes) : escape (c :: s) =
    if c = 0 then none
    else match letters.lookup c with
      | some b => some (b, s)
      | none => some (if isoctal c then octalTail 2 (c.toNat - 0x30) s else if c = 0x78 then hexTail s else (c, s)) := by
  rw [escape, lookup_letters]
  split_ifs <;> rfl

/-- What a run over the digits behind an escape ends with. -/
def Behind (line : Bytes) (s : Nat) (r : UInt8 × Bytes) (r' : UInt8 × Nat) : Prop :=
  r = (r'.1, behind line r'.2) ∧ s ≤ r'.2 ∧ r'.2 ≤ (cstring line).length

theorem octalIn_meets (more val : Nat) (inside : s ≤ (cstring line).length) :
    Meets (within ((cstring line).length + 1) w) 0 (octalIn line more val s)
      (Behind line s (octalTail more val (behind line s))) := by
  induction more generalizing val s with
  | zero => exact Meets.pure ⟨rfl, Nat.le_refl s, inside⟩
  | succ more ih =>
      apply Meets.bind (readAt_meets (Nat.lt_succ_of_le inside))
      rintro c rfl
      rcases behind_cases line inside with ⟨none, nul, -⟩ | ⟨cons, char, lt⟩
      · rw [nul, none]
        exact Meets.pure ⟨by rw [none]; rfl, Nat.le_refl s, inside⟩
      · rw [cons, octalTail]
        apply Meets.ite
        · intro digit
          rw [if_pos digit]
          refine (ih _ lt).mono (Nat.le_refl 0) ?_
          rintro r ⟨value, le, inside⟩
          exact ⟨value, Nat.le_of_succ_le le, inside⟩
        · intro other
          rw [if_neg other]
          exact Meets.pure ⟨by rw [cons], Nat.le_refl s, inside⟩

theorem hexIn_meets (inside : s ≤ (cstring line).length) :
    Meets (within ((cstring line).length + 1) w) 0 (hexIn line s) (Behind line s (hexTail (behind line s))) := by
  have nul : hextoint 0 = none := rfl
  have head {i : Nat} (inside : i ≤ (cstring line).length) : (behind line i).headD 0 = line.getD i 0 := by
    rcases behind_cases line inside with ⟨none, nul, -⟩ | ⟨cons, -, -⟩
    · rw [none, nul]
      rfl
    · rw [cons]
      rfl
  have tail {i val : Nat} (inside : i ≤ (cstring line).length) (digit : hextoint (line.getD i 0) = some val) :
      (behind line i).tail = behind line (i + 1) ∧ i + 1 ≤ (cstring line).length := by
    rcases behind_cases line inside with ⟨-, zero, -⟩ | ⟨cons, -, lt⟩
    · rw [zero, nul] at digit
      cases digit
    · rw [cons]
      exact ⟨rfl, lt⟩
  apply Meets.bind (readAt_meets (Nat.lt_succ_of_le inside))
  rintro c rfl
  cases first : hextoint (line.getD s 0) with
  | none =>
      refine Meets.pure ⟨?_, Nat.le_refl s, inside⟩
      simp only [hexTail, head inside, first]
  | some val =>
      obtain ⟨next, inside'⟩ := tail inside first
      apply Meets.bind (readAt_meets (Nat.lt_succ_of_le inside'))
      rintro c rfl
      cases second : hextoint (line.getD (s + 1) 0) with
      | none =>
          refine Meets.pure ⟨?_, Nat.le_succ s, inside'⟩
          simp only [hexTail, head inside, first, next, head inside', second]
      | some d =>
          obtain ⟨next', inside''⟩ := tail inside' second
          refine Meets.pure ⟨?_, Nat.le_add_right s 2, inside''⟩
          simp only [hexTail, head inside, first, next, head inside', second, next']

/-- What `escapeIn` returns stands for what is left behind the backslash. -/
def Escaped (line : Bytes) (s : Nat) (r : Option (UInt8 × Nat)) : Prop :=
  escape (behind line s) = r.map (fun r => (r.1, behind line r.2)) ∧
    ∀ b s', r = some (b, s') → s < s' ∧ s' ≤ (cstring line).length

theorem escapeIn_meets (inside : s ≤ (cstring line).length) :
    Meets (within ((cstring line).length + 1) w) 0 (escapeIn line s) (Escaped line s) := by
  apply Meets.bind (readAt_meets (Nat.lt_succ_of_le inside))
  rintro c rfl
  rcases behind_cases line inside with ⟨none, nul, -⟩ | ⟨cons, char, lt⟩
  · rw [if_pos nul]
    refine Meets.pure ⟨?_, ?_⟩
    · rw [none]
      rfl
    · rintro b s' ⟨⟩
  · have eq := escape_eq (line.getD s 0) (behind line (s + 1))
    rw [if_neg char, ← cons] at eq
    have of {r : UInt8 × Bytes} {r' : UInt8 × Nat} (read : Behind line (s + 1) r r')
        (eq : escape (behind line s) = some r) : Escaped line s (some r') := by
      obtain ⟨value, le, inside⟩ := read
      refine ⟨eq.trans (congrArg some value), ?_⟩
      rintro b s' ⟨⟩
      exact ⟨le, inside⟩
    rw [if_neg char]
    cases letter : letters.lookup (line.getD s 0) with
    | some b =>
        rw [letter] at eq
        exact Meets.pure (of ⟨rfl, Nat.le_refl _, lt⟩ eq)
    | none =>
        rw [letter] at eq
        dsimp only at eq ⊢
        apply Meets.ite
        · intro digit
          rw [if_pos digit] at eq
          apply Meets.bind (octalIn_meets _ _ lt)
          intro r read
          exact Meets.pure (of read eq)
        · intro other
          rw [if_neg other] at eq
          apply Meets.ite
          · intro hex
            rw [if_pos hex] at eq
            apply Meets.bind (hexIn_meets lt)
            intro r read
            exact Meets.pure (of read eq)
          · intro plain
            rw [if_neg plain] at eq
            exact Meets.pure (of ⟨rfl, Nat.le_refl _, lt⟩ eq)

/-- The text stands in front of what was in the object before. -/
structure Copied (old : Bytes) (t : Copying) (text : Bytes) : Prop where
  p : t.p = text.length
  short : text.length ≤ 127
  buf : t.buf = text ++ old.drop text.length

theorem Copied.set {old text : Bytes} {t : Copying} (size : old.length = 128) (copied : Copied old t text) (b : UInt8) :
    t.buf.set t.p b = (text ++ [b]) ++ old.drop (text ++ [b]).length := by
  have inside : text.length < old.length := by
    rw [size]
    exact Nat.lt_succ_of_le copied.short
  rw [copied.buf, copied.p, List.drop_eq_getElem_cons inside, List.set_append_right _ _ (Nat.le_refl _), Nat.sub_self,
    List.set_cons_zero, List.length_append, List.length_singleton, List.append_assoc, List.singleton_append]

theorem Copied.write {old text : Bytes} {t : Copying} (size : old.length = 128) (copied : Copied old t text)
    (room : ¬ t.p ≥ 127) (b : UInt8) (s : Nat) : Copied old ⟨s, t.p + 1, t.buf.set t.p b⟩ (text ++ [b]) where
  p := by rw [copied.p, List.length_append, List.length_singleton]
  short := by
    rw [copied.p] at room
    rw [List.length_append, List.length_singleton]
    omega
  buf := copied.set size b

/-- What is written behind a text as it was before is not written. -/
theorem write_followed (v : Value) {bs : Bytes} (fits : bs.length ≤ 128) :
    v.write 0 (bs ++ v.bytes.drop bs.length) = v.write 0 bs := by
  have same : (v.write 0 (bs ++ v.bytes.drop bs.length)).bytes = (v.write 0 bs).bytes := by
    have size := v.size
    have none : v.bytes.drop (bs.length + (128 - bs.length)) = [] := List.drop_eq_nil_of_le (by omega)
    simp only [Value.write, List.take_zero, List.nil_append, Nat.zero_add, List.length_append, List.length_drop, size,
      none, List.append_nil]
  cases written : v.write 0 bs
  cases followed : v.write 0 (bs ++ v.bytes.drop bs.length)
  rw [written, followed] at same
  congr 1

/-- What the loop knows before a round: the rounds that are left read the rest of the text. -/
structure CopiesFrom (old line : Bytes) (t : Copying) (text : Bytes) (k : Nat) : Prop extends Copied old t text where
  inside : t.s ≤ (cstring line).length
  enough : (behind line t.s).length < k
  same : getstrText (cstring line) = getstrFrom k text (behind line t.s)

/-- What it leaves. -/
def Copies (old line : Bytes) : Option Copying → Prop
  | none => getstrText (cstring line) = none
  | some t => ∃ text, Copied old t text ∧ t.s ≤ (cstring line).length ∧
      getstrText (cstring line) = some (text, behind line t.s)

theorem behind_length (line : Bytes) (s : Nat) : (behind line s).length = (cstring line).length - s :=
  List.length_drop

theorem getstrRound_meets {old : Bytes} (size : old.length = 128) (t : Copying)
    (inv : ∃ text k, CopiesFrom old line t text k) :
    Meets (within ((cstring line).length + 1) 128) 0 (getstrRound line t)
      (Sum.elim (fun t' => (∃ text k, CopiesFrom old line t' text k) ∧
        (cstring line).length - t'.s < (cstring line).length - t.s) (Copies old line)) := by
  obtain ⟨text, k, known⟩ := inv
  obtain ⟨k, rfl⟩ := Nat.exists_eq_add_one_of_ne_zero (Nat.ne_zero_of_lt known.enough)
  have same := known.same
  have enough := known.enough
  have write (b : UInt8) (room : ¬ t.p ≥ 127) {s : Nat} (lt : t.s < s) (inside : s ≤ (cstring line).length)
      (same : getstrText (cstring line) = getstrFrom k (text ++ [b]) (behind line s)) :
      Meets (within ((cstring line).length + 1) 128) 0
        (writeAt t.buf t.p b >>= fun buf => pure (Sum.inl ⟨s, t.p + 1, buf⟩))
        (Sum.elim (fun t' => (∃ text k, CopiesFrom old line t' text k) ∧
          (cstring line).length - t'.s < (cstring line).length - t.s) (Copies old line)) := by
    apply Meets.bind (writeAt_meets b (by omega))
    rintro buf rfl
    refine Meets.pure ⟨⟨text ++ [b], k, known.toCopied.write size room b s, inside, ?_, same⟩, ?_⟩
    · rw [behind_length] at enough ⊢
      dsimp only
      omega
    · dsimp only
      omega
  apply Meets.bind (readAt_meets (Nat.lt_succ_of_le known.inside))
  rintro c rfl
  rcases behind_cases line known.inside with ⟨none, nul, -⟩ | ⟨cons, char, lt⟩
  · rw [if_pos (.inl nul)]
    refine Meets.pure ⟨text, known.toCopied, known.inside, ?_⟩
    rw [same, none]
    rfl
  · rw [cons, getstrFrom] at same
    apply Meets.ite
    · intro stops
      rw [if_pos stops, ← cons] at same
      exact Meets.pure ⟨text, known.toCopied, known.inside, same⟩
    · intro goes
      rw [if_neg goes, ← known.p] at same
      apply Meets.ite
      · intro full
        rw [if_pos full] at same
        exact Meets.pure same
      · intro room
        rw [if_neg room] at same
        apply Meets.ite
        · intro plain
          rw [if_pos plain] at same
          exact write _ room (Nat.lt_succ_self _) lt same
        · intro backslash
          rw [if_neg backslash] at same
          apply Meets.bind (escapeIn_meets lt)
          rintro (_ | ⟨b, s⟩) ⟨value, further⟩
          · rw [value] at same
            exact Meets.pure ⟨text, ⟨known.p, known.short, known.buf⟩, lt, same⟩
          · rw [value] at same
            obtain ⟨gt, le⟩ := further b s rfl
            exact write b room (Nat.lt_of_succ_lt gt) le same

/-- What `getstrIn` returns is what `getstr` makes of the text of the line. -/
def Reads (m : Magic) (line : Bytes) (r : Option (Magic × Nat)) : Prop :=
  getstr m (cstring line) = r.map (fun r => (r.1, behind line r.2)) ∧
    ∀ m' s, r = some (m', s) → s ≤ (cstring line).length

theorem getstrIn_meets (m : Magic) (line : Bytes) :
    Meets (within ((cstring line).length + 1) 128) 0 (getstrIn m line) (Reads m line) := by
  have le := Softmagic.cstring_length_le line
  have whole : behind line 0 = cstring line := rfl
  have start : CopiesFrom m.value.bytes line ⟨0, 0, m.value.bytes⟩ [] ((cstring line).length + 1) :=
    { p := rfl
      short := Nat.zero_le _
      buf := rfl
      inside := Nat.zero_le _
      enough := by rw [whole]; exact Nat.lt_succ_self _
      same := by rw [whole, getstrText] }
  apply Meets.bind (Meets.loop (getstrRound_meets m.value.size) (line.length + 1) _ ⟨[], _, start⟩ (by dsimp only; omega))
  rintro (_ | t) copies
  · refine Meets.pure ⟨?_, ?_⟩
    · rw [getstr_eq, copies]
      rfl
    · rintro m' s ⟨⟩
  · obtain ⟨text, copied, inside, read⟩ := copies
    have room : t.p < 128 := by
      rw [copied.p]
      exact Nat.lt_succ_of_le copied.short
    apply Meets.bind (writeAt_meets 0 room)
    rintro buf rfl
    have ended : m.value.write 0 (t.buf.set t.p 0) = m.value.write 0 (text ++ [0]) := by
      rw [copied.set m.value.size 0]
      apply write_followed
      rw [List.length_append]
      exact Nat.succ_le_succ copied.short
    refine Meets.pure ⟨?_, ?_⟩
    · rw [getstr_eq, read, Option.bind_some, ended, copied.p]
      cases storedString m (m.value.write 0 (text ++ [0])) text.length <;> rfl
    · intro m' s stored
      obtain ⟨_, -, same⟩ := Option.map_eq_some_iff.mp stored
      obtain ⟨-, rfl⟩ := Prod.mk.inj same
      exact inside

end Memory

/-! ## What the escapes stand for -/

def isxdigit (c : UInt8) : Bool := decide (digitValue c < 16)

/-- The number that the digits are. -/
def numeral (base : Nat) (ds : Bytes) : Nat := ds.foldl (fun n d => n * base + digitValue d) 0

/-- The digits are as many as there are, but no more than `most`. -/
def AsMany (isDigit : UInt8 → Bool) (most : Nat) (ds next : Bytes) : Prop :=
  ds.length ≤ most ∧ (∀ d ∈ ds, isDigit d = true) ∧
    (ds.length = most ∨ ∀ d, next.head? = some d → isDigit d = false)

/-- What stands behind a backslash, the character that it is, and what follows it. -/
inductive Escape : (e : Bytes) → (b : UInt8) → (next : Bytes) → Prop
  | letter {c b : UInt8} {next : Bytes} (known : letters.lookup c = some b) : Escape [c] b next
  | octal {d : UInt8} {ds next : Bytes} (first : isoctal d = true) (more : AsMany isoctal 2 ds next) :
      Escape (d :: ds) (UInt8.ofNat (numeral 8 (d :: ds))) next
  | hex {d : UInt8} {ds next : Bytes} (first : isxdigit d = true) (more : AsMany isxdigit 1 ds next) :
      Escape (0x78 :: d :: ds) (UInt8.ofNat (numeral 16 (d :: ds))) next
  | other {c : UInt8} {next : Bytes} (char : c ≠ 0) (unknown : letters.lookup c = none) (octal : isoctal c = false)
      (hex : c = 0x78 → ∀ d, next.head? = some d → isxdigit d = false) : Escape [c] c next

/-- A text up to its first white space, what it stands for, and what is left. A backslash at the very end stands
for nothing. -/
inductive Unescapes : (s value rest : Bytes) → Prop
  | stop {rest : Bytes} (blank : ∀ c, rest.head? = some c → isspace c = true) : Unescapes rest [] rest
  | dangling : Unescapes [0x5c] [] []
  | char {c : UInt8} {s value rest : Bytes} (plain : c ≠ 0x5c) (printed : isspace c = false)
      (tail : Unescapes s value rest) : Unescapes (c :: s) (c :: value) rest
  | escape {e : Bytes} {b : UInt8} {s value rest : Bytes} (head : Escape e b s) (tail : Unescapes s value rest) :
      Unescapes (0x5c :: (e ++ s)) (b :: value) rest

theorem digitValue_octal : ∀ c : UInt8, isoctal c = true → digitValue c = c.toNat - 0x30 ∧ letters.lookup c = none ∧
    c ≠ 0 :=
  Unicode.forall_byte (by decide +kernel)

theorem octalTail_run {most : Nat} {ds next : Bytes} (many : AsMany isoctal most ds next) (val : Nat) :
    octalTail most val (ds ++ next) = (UInt8.ofNat (ds.foldl (fun n d => n * 8 + digitValue d) val), next) := by
  induction ds generalizing most val with
  | nil =>
      obtain ⟨-, -, stops⟩ := many
      cases most with
      | zero => rfl
      | succ most =>
          cases next with
          | nil => rfl
          | cons c next =>
              obtain none | stops := stops
              · cases none
              · rw [List.nil_append, octalTail, stops c rfl]
                rfl
  | cons d ds ih =>
      obtain ⟨short, digits, stops⟩ := many
      cases most with
      | zero => cases short
      | succ most =>
          have digit := digits d List.mem_cons_self
          have rest : AsMany isoctal most ds next :=
            ⟨Nat.le_of_succ_le_succ short, fun d mem => digits d (List.mem_cons_of_mem _ mem),
              stops.imp_left Nat.succ.inj⟩
          rw [List.cons_append, octalTail, if_pos digit, ih rest, List.foldl_cons, (digitValue_octal d digit).1]

/-- Where the digits end. -/
theorem asMany_exists (isDigit : UInt8 → Bool) (most : Nat) (s : Bytes) :
    ∃ ds next, s = ds ++ next ∧ AsMany isDigit most ds next := by
  induction most generalizing s with
  | zero => exact ⟨[], s, rfl, Nat.le_refl 0, fun d mem => absurd mem List.not_mem_nil, .inl rfl⟩
  | succ most ih =>
      have none {s : Bytes} (stops : ∀ d, s.head? = some d → isDigit d = false) :
          ∃ ds next, s = ds ++ next ∧ AsMany isDigit (most + 1) ds next :=
        ⟨[], s, rfl, Nat.zero_le _, fun d mem => absurd mem List.not_mem_nil, .inr stops⟩
      cases s with
      | nil =>
          apply none
          rintro d ⟨⟩
      | cons c s =>
          cases digit : isDigit c with
          | false =>
              apply none
              rintro d ⟨⟩
              exact digit
          | true =>
              obtain ⟨ds, next, rfl, short, digits, stops⟩ := ih s
              refine ⟨c :: ds, next, rfl, Nat.succ_le_succ short, ?_, stops.imp_left (congrArg (· + 1))⟩
              intro d mem
              rcases List.mem_cons.mp mem with rfl | mem
              · exact digit
              · exact digits d mem

theorem hextoint_eq (c : UInt8) : hextoint c = if isxdigit c = true then some (digitValue c) else none := by
  rw [hextoint, isxdigit]
  simp only [decide_eq_true_eq]

theorem hexTail_none {s : Bytes} (none : ∀ d, s.head? = some d → isxdigit d = false) : hexTail s = (0x78, s) := by
  cases s with
  | nil => rfl
  | cons c s =>
      rw [hexTail, List.headD_cons, hextoint_eq, none c rfl]
      rfl

theorem hexTail_run {d : UInt8} {ds next : Bytes} (first : isxdigit d = true) (many : AsMany isxdigit 1 ds next) :
    hexTail (d :: (ds ++ next)) = (UInt8.ofNat (numeral 16 (d :: ds)), next) := by
  obtain ⟨short, digits, stops⟩ := many
  have one : numeral 16 [d] = digitValue d := by simp [numeral]
  cases ds with
  | nil =>
      obtain none | stops := stops
      · cases none
      · have second : hextoint (next.headD 0) = none := by
          cases next with
          | nil => rfl
          | cons c next =>
              rw [List.headD_cons, hextoint_eq, stops c rfl]
              rfl
        rw [List.nil_append, hexTail, List.headD_cons, hextoint_eq, if_pos first, List.tail_cons, second, one]
  | cons d' ds =>
      obtain rfl := List.length_eq_zero_iff.mp (Nat.le_zero.mp (Nat.le_of_succ_le_succ short))
      have second : isxdigit d' = true := digits d' List.mem_cons_self
      have two : numeral 16 [d, d'] = digitValue d * 16 + digitValue d' := by simp [numeral]
      rw [List.cons_append, List.nil_append, hexTail, List.headD_cons, hextoint_eq, if_pos first, List.tail_cons,
        List.headD_cons, hextoint_eq, if_pos second, two]
      rfl

theorem letters_lookup : ∀ c : UInt8, (letters.lookup c).isSome = true → c ≠ 0 :=
  Unicode.forall_byte (by decide +kernel)

theorem escape_of {e rest : Bytes} {b : UInt8} (h : Escape e b rest) : escape (e ++ rest) = some (b, rest) := by
  cases h with
  | @letter c _ _ known =>
      have char : c ≠ 0 := letters_lookup c (by rw [known]; rfl)
      rw [List.singleton_append, escape_eq, if_neg char, known]
  | @octal d ds _ first more =>
      obtain ⟨value, unknown, char⟩ := digitValue_octal d first
      rw [List.cons_append, escape_eq, if_neg char, unknown]
      dsimp only
      rw [if_pos first, octalTail_run more, ← value, numeral, List.foldl_cons, Nat.zero_mul, Nat.zero_add]
  | @hex d ds _ first more =>
      rw [List.cons_append, List.cons_append, escape_eq, if_neg (by decide)]
      have unknown : letters.lookup 0x78 = none := rfl
      have octal : isoctal 0x78 = false := rfl
      rw [unknown]
      dsimp only
      rw [octal, if_neg Bool.false_ne_true, if_pos rfl, hexTail_run first more]
  | @other c _ char unknown octal hex =>
      rw [List.singleton_append, escape_eq, if_neg char, unknown]
      dsimp only
      rw [octal, if_neg Bool.false_ne_true]
      split
      next is => rw [hexTail_none (hex is), is]
      next => rfl

theorem of_escape {s rest : Bytes} {b : UInt8} (h : escape s = some (b, rest)) :
    ∃ e, s = e ++ rest ∧ Escape e b rest := by
  cases s with
  | nil => cases h
  | cons c s =>
      rw [escape_eq] at h
      split at h
      next => cases h
      next char =>
        cases known : letters.lookup c with
        | some b' =>
            rw [known] at h
            obtain ⟨rfl, rfl⟩ := Prod.mk.inj (Option.some.inj h)
            exact ⟨[c], rfl, .letter known⟩
        | none =>
            rw [known] at h
            have h := Option.some.inj h
            cases octal : isoctal c with
            | true =>
                obtain ⟨ds, next, rfl, many⟩ := asMany_exists isoctal 2 s
                rw [if_pos octal, octalTail_run many] at h
                obtain ⟨rfl, rfl⟩ := Prod.mk.inj h
                refine ⟨c :: ds, rfl, ?_⟩
                have value := (digitValue_octal c octal).1
                have escape := Escape.octal octal many
                rwa [numeral, List.foldl_cons, Nat.zero_mul, Nat.zero_add, value] at escape
            | false =>
                rw [octal, if_neg Bool.false_ne_true] at h
                have plain (hex : c = 0x78 → ∀ d, s.head? = some d → isxdigit d = false)
                    (h : (c, s) = (b, rest)) : ∃ e, c :: s = e ++ rest ∧ Escape e b rest := by
                  obtain ⟨rfl, rfl⟩ := Prod.mk.inj h
                  exact ⟨[c], rfl, .other char known octal hex⟩
                by_cases hex : c = 0x78
                · subst hex
                  rw [if_pos rfl] at h
                  by_cases none : ∀ d, s.head? = some d → isxdigit d = false
                  · exact plain (fun _ => none) ((hexTail_none none).symm.trans h)
                  · cases s with
                    | nil =>
                        refine absurd ?_ none
                        rintro d ⟨⟩
                    | cons d s =>
                        have first : isxdigit d = true := by
                          by_contra other
                          apply none
                          rintro d ⟨⟩
                          exact Bool.eq_false_iff.mpr other
                        obtain ⟨ds, next, rfl, many⟩ := asMany_exists isxdigit 1 s
                        rw [hexTail_run first many] at h
                        obtain ⟨rfl, rfl⟩ := Prod.mk.inj h
                        exact ⟨0x78 :: d :: ds, rfl, .hex first many⟩
                · rw [if_neg hex] at h
                  exact plain (fun is => absurd is hex) h

theorem escape_none {s : Bytes} (h : escape s = none) (clean : 0 ∉ s) : s = [] := by
  cases s with
  | nil => rfl
  | cons c s =>
      have char : c ≠ 0 := fun zero => clean (zero ▸ List.mem_cons_self)
      rw [escape_eq, if_neg char] at h
      split at h <;> cases h

/-- What the loop reads is what the text stands for. -/
theorem getstrFrom_unescapes {k : Nat} {text s v rest : Bytes} (clean : 0 ∉ s)
    (read : getstrFrom k text s = some (v, rest)) : ∃ value, v = text ++ value ∧ Unescapes s value rest := by
  induction k generalizing text s with
  | zero => cases read
  | succ k ih =>
      cases s with
      | nil =>
          rw [getstrFrom] at read
          obtain ⟨rfl, rfl⟩ := Prod.mk.inj (Option.some.inj read)
          refine ⟨[], (List.append_nil _).symm, .stop ?_⟩
          rintro c ⟨⟩
      | cons c s =>
          have char : c ≠ 0 := fun zero => clean (zero ▸ List.mem_cons_self)
          have clean' : 0 ∉ s := fun mem => clean (List.mem_cons_of_mem _ mem)
          rw [getstrFrom] at read
          split_ifs at read with stops full plain
          · obtain ⟨rfl, rfl⟩ := Prod.mk.inj (Option.some.inj read)
            refine ⟨[], (List.append_nil _).symm, .stop ?_⟩
            rintro _ ⟨⟩
            exact stops.resolve_left char
          · obtain ⟨value, rfl, unescapes⟩ := ih clean' read
            refine ⟨c :: value, List.append_assoc _ _ _, .char plain ?_ unescapes⟩
            exact Bool.eq_false_iff.mpr (fun blank => stops (.inr blank))
          · obtain rfl := not_not.mp plain
            cases escaped : escape s with
            | none =>
                rw [escaped] at read
                obtain ⟨rfl, rfl⟩ := Prod.mk.inj (Option.some.inj read)
                obtain rfl := escape_none escaped clean'
                exact ⟨[], (List.append_nil _).symm, .dangling⟩
            | some r =>
                obtain ⟨b, s'⟩ := r
                rw [escaped] at read
                obtain ⟨e, rfl, head⟩ := of_escape escaped
                obtain ⟨value, rfl, unescapes⟩ := ih (fun mem => clean' (List.mem_append_right _ mem)) read
                exact ⟨b :: value, List.append_assoc _ _ _, .escape head unescapes⟩

theorem Escape.ne_nil {e next : Bytes} {b : UInt8} (h : Escape e b next) : e ≠ [] := by
  cases h <;> exact List.cons_ne_nil _ _

/-- A text stands for one string only. -/
theorem Unescapes.unique {s v rest : Bytes} (h : Unescapes s v rest) :
    ∀ {s' v' rest' : Bytes}, Unescapes s' v' rest' → s' = s → v' = v ∧ rest' = rest := by
  have backslash : isspace 0x5c = false := rfl
  induction h with
  | @stop rest blank =>
      intro s' v' rest' h' same
      cases h' with
      | stop _ => exact ⟨rfl, same⟩
      | dangling => exact absurd (blank 0x5c (same ▸ rfl)) (by decide)
      | @char c s' value _ _ printed _ =>
          have blank := blank c (same ▸ rfl)
          rw [printed] at blank
          cases blank
      | escape _ _ => exact absurd (blank 0x5c (same ▸ rfl)) (by decide)
  | dangling =>
      intro s' v' rest' h' same
      cases h' with
      | stop blank => exact absurd (blank 0x5c (same ▸ rfl)) (by decide)
      | dangling => exact ⟨rfl, rfl⟩
      | char plain _ _ => exact absurd (List.head_eq_of_cons_eq same) plain
      | escape head _ => exact absurd (List.append_eq_nil_iff.mp (List.tail_eq_of_cons_eq same)).1 head.ne_nil
  | @char c s value rest plain printed _ ih =>
      intro s' v' rest' h' same
      cases h' with
      | stop blank =>
          have blank := blank c (same ▸ rfl)
          rw [printed] at blank
          cases blank
      | dangling => exact absurd (List.head_eq_of_cons_eq same).symm plain
      | char _ _ tail =>
          obtain ⟨rfl, rfl⟩ := List.cons.inj same
          obtain ⟨rfl, rfl⟩ := ih tail rfl
          exact ⟨rfl, rfl⟩
      | escape _ _ => exact absurd (List.head_eq_of_cons_eq same).symm plain
  | escape head _ ih =>
      intro s' v' rest' h' same
      cases h' with
      | stop blank => exact absurd (blank 0x5c (same ▸ rfl)) (by decide)
      | dangling => exact absurd (List.append_eq_nil_iff.mp (List.tail_eq_of_cons_eq same).symm).1 head.ne_nil
      | char plain _ _ => exact absurd (List.head_eq_of_cons_eq same) plain
      | escape head' tail =>
          have read := escape_of head'
          rw [List.tail_eq_of_cons_eq same, escape_of head] at read
          obtain ⟨rfl, rfl⟩ := Prod.mk.inj (Option.some.inj read)
          obtain ⟨rfl, rfl⟩ := ih tail rfl
          exact ⟨rfl, rfl⟩

/-- Every text stands for a string. -/
theorem unescapes_exists {s : Bytes} (clean : 0 ∉ s) : ∃ value rest, Unescapes s value rest := by
  induction h : s.length using Nat.strong_induction_on generalizing s with
  | _ n ih =>
      subst h
      cases s with
      | nil =>
          refine ⟨[], [], .stop ?_⟩
          rintro c ⟨⟩
      | cons c s =>
          have clean' : 0 ∉ s := fun mem => clean (List.mem_cons_of_mem _ mem)
          cases blank : isspace c with
          | true =>
              refine ⟨[], c :: s, .stop ?_⟩
              rintro _ ⟨⟩
              exact blank
          | false =>
              by_cases backslash : c = 0x5c
              · subst backslash
                cases escaped : escape s with
                | none =>
                    obtain rfl := escape_none escaped clean'
                    exact ⟨[], [], .dangling⟩
                | some r =>
                    obtain ⟨e, rfl, head⟩ := of_escape escaped
                    have shorter : r.2.length < (0x5c :: (e ++ r.2)).length := by
                      rw [List.length_cons, List.length_append]
                      omega
                    obtain ⟨value, rest, tail⟩ := ih r.2.length shorter (fun mem => clean' (List.mem_append_right _ mem)) rfl
                    exact ⟨r.1 :: value, rest, .escape head tail⟩
              · obtain ⟨value, rest, tail⟩ := ih s.length (Nat.lt_succ_self _) clean' rfl
                exact ⟨c :: value, rest, .char backslash blank tail⟩

/-- The loop gives up only where the string is too long. -/
theorem getstrFrom_none {k : Nat} {text s : Bytes} (clean : 0 ∉ s) (enough : s.length < k)
    (none : getstrFrom k text s = none) :
    ∃ value rest, Unescapes s value rest ∧ 127 ≤ text.length + value.length := by
  induction k generalizing text s with
  | zero => exact absurd enough (Nat.not_lt_zero _)
  | succ k ih =>
      cases s with
      | nil =>
          rw [getstrFrom] at none
          cases none
      | cons c s =>
          have clean' : 0 ∉ s := fun mem => clean (List.mem_cons_of_mem _ mem)
          have char : c ≠ 0 := fun zero => clean (zero ▸ List.mem_cons_self)
          have longer (b : UInt8) : (text ++ [b]).length = text.length + 1 := by
            rw [List.length_append, List.length_singleton]
          rw [getstrFrom] at none
          split_ifs at none with stops full plain
          · obtain ⟨value, rest, unescapes⟩ := unescapes_exists clean
            exact ⟨value, rest, unescapes, Nat.le_add_right_of_le full⟩
          · obtain ⟨value, rest, tail, long⟩ := ih clean' (Nat.lt_of_succ_lt_succ enough) none
            rw [longer] at long
            refine ⟨c :: value, rest, .char plain ?_ tail, ?_⟩
            · exact Bool.eq_false_iff.mpr (fun blank => stops (.inr blank))
            · rw [List.length_cons]
              omega
          · obtain rfl := not_not.mp plain
            cases escaped : escape s with
            | none =>
                rw [escaped] at none
                cases none
            | some r =>
                rw [escaped] at none
                obtain ⟨e, rfl, head⟩ := of_escape escaped
                rw [List.length_cons, List.length_append] at enough
                obtain ⟨value, rest, tail, long⟩ := ih (fun mem => clean' (List.mem_append_right _ mem)) (by omega) none
                rw [longer] at long
                refine ⟨r.1 :: value, rest, .escape head tail, ?_⟩
                rw [List.length_cons]
                omega

/-! ## Where the string is stored -/

/-- The size of the prefix that a line counts to its string; `none` is `FILE_BADSIZE`. -/
def prefixSize (m : Magic) : Option Nat := if m.type = .pstring then pstringLengthSize m else some 0

theorem storedString_eq (m : Magic) (value : Value) {p : Nat} (short : p ≤ 127) :
    storedString m value p =
      (prefixSize m).bind (fun l => if p + l > 128 then none else some { m with value, vallen := p + l }) := by
  have size : pstringLengthSize { m with value, vallen := p } = pstringLengthSize m := rfl
  have fits : ¬ p > 128 := by omega
  rw [storedString, if_neg fits, Nat.mod_eq_of_lt (Nat.lt_of_le_of_lt short (by decide)), prefixSize]
  dsimp only
  split
  · rw [size]
    cases pstringLengthSize m with
    | none => rfl
    | some l =>
        dsimp only [Option.bind_some]
        split
        · rfl
        next inside => rw [Nat.mod_eq_of_lt (by omega)]
  · rw [Option.bind_some, Nat.add_zero, if_neg fits]

/-! ## `file_showstr` -/

/-- The letters that `file_showstr` prints behind a backslash. -/
def shown : List (UInt8 × UInt8) :=
  [(0x07, 0x61), (0x08, 0x62), (0x0c, 0x66), (0x0a, 0x6e), (0x0d, 0x72), (0x09, 0x74), (0x0b, 0x76)]

def octalDigit (n : Nat) : UInt8 := UInt8.ofNat (0x30 + n % 8)

/-- `%.3o` of a byte. -/
def threeOctal (c : UInt8) : Bytes := [octalDigit (c.toNat / 64), octalDigit (c.toNat / 8), octalDigit c.toNat]

/-- What `file_showstr` prints for a character. -/
def showByte (c : UInt8) : Bytes :=
  if 0x20 ≤ c ∧ c ≤ 0x7e then [c]
  else match shown.lookup c with
    | some l => [0x5c, l]
    | none => 0x5c :: threeOctal c

/-- `file_showstr(fp, s, len)`, where `none` is `FILE_BADSIZE`. -/
def fileShowstr (s : Bytes) : (len : Option Nat) → Bytes
  | none => (cstring s).flatMap showByte
  | some len => (s.take len).flatMap showByte

/-- A character that is printed as it is, by a letter, or by its three digits. -/
inductive Shows (c : UInt8) : Bytes → Prop
  | plain (char : c ≠ 0) (plain : c ≠ 0x5c) (printed : isspace c = false) : Shows c [c]
  | letter {l : UInt8} (known : letters.lookup l = some c) : Shows c [0x5c, l]
  | octal {d d' d'' : UInt8} (first : isoctal d = true) (second : isoctal d' = true) (third : isoctal d'' = true)
      (value : UInt8.ofNat (numeral 8 [d, d', d'']) = c) : Shows c [0x5c, d, d', d'']

theorem isoctal_octalDigit (n : Nat) : isoctal (octalDigit n) = true := by
  have digit : ∀ d < 8, isoctal (UInt8.ofNat (0x30 + d)) = true := by decide
  exact digit (n % 8) (Nat.mod_lt n (by decide))

theorem numeral_threeOctal : ∀ c : UInt8, UInt8.ofNat (numeral 8 (threeOctal c)) = c :=
  Unicode.forall_byte (by decide +kernel)

theorem shown_letters : ∀ c : UInt8, ∀ l ∈ shown.lookup c, letters.lookup l = some c := by
  intro c l known
  have inverse : shown.map (fun e => letters.lookup e.2) = shown.map (fun e => some e.1) := by decide
  obtain ⟨front, behind, table, -⟩ := List.lookup_eq_some_iff.mp known
  have entry : (c, l) ∈ shown := table ▸ List.mem_append_right front List.mem_cons_self
  exact List.map_inj_left.mp inverse (c, l) entry

theorem printed_of_graph : ∀ c : UInt8, 0x20 ≤ c → c ≠ 0x20 → c ≠ 0 ∧ isspace c = false :=
  Unicode.forall_byte (by decide +kernel)

theorem showByte_shows (c : UInt8) (space : c ≠ 0x20) (plain : c ≠ 0x5c) : Shows c (showByte c) := by
  rw [showByte]
  split
  next graph =>
    obtain ⟨char, printed⟩ := printed_of_graph c graph.1 space
    exact .plain char plain printed
  next =>
    split
    next l known => exact .letter (shown_letters c l known)
    next =>
      exact .octal (isoctal_octalDigit _) (isoctal_octalDigit _) (isoctal_octalDigit _) (numeral_threeOctal c)

/-- What is printed of a character is read as the character. -/
theorem Shows.read {c : UInt8} {e : Bytes} (shows : Shows c e) {k : Nat} {text s : Bytes} (room : text.length < 127) :
    getstrFrom (k + 1) text (e ++ s) = getstrFrom k (text ++ [c]) s := by
  have full : ¬ text.length ≥ 127 := Nat.not_le_of_lt room
  have behind {e : Bytes} (escaped : escape (e ++ s) = some (c, s)) :
      getstrFrom (k + 1) text (0x5c :: (e ++ s)) = getstrFrom k (text ++ [c]) s := by
    have goes : ¬ ((0x5c : UInt8) = 0 ∨ isspace 0x5c = true) := by decide
    rw [getstrFrom, if_neg goes, if_neg full, if_neg (not_not.mpr rfl), escaped]
  cases shows with
  | plain char plain printed =>
      have goes : ¬ (c = 0 ∨ isspace c = true) := by
        rw [printed, not_or]
        exact ⟨char, Bool.false_ne_true⟩
      rw [List.singleton_append, getstrFrom, if_neg goes, if_neg full, if_pos plain]
  | letter known => exact behind (escape_of (.letter known))
  | @octal d d' d'' first second third value =>
      have more : AsMany isoctal 2 [d', d''] s := by
        refine ⟨Nat.le_refl 2, ?_, .inl rfl⟩
        intro d mem
        rcases List.mem_cons.mp mem with rfl | mem
        · exact second
        · rwa [List.mem_singleton.mp mem]
      have escaped := escape_of (.octal first more)
      rw [value] at escaped
      exact behind escaped

theorem Shows.clean {c : UInt8} {e : Bytes} (shows : Shows c e) : e ≠ [] ∧ 0 ∉ e := by
  have digit {d : UInt8} (octal : isoctal d = true) : d ≠ 0 := (digitValue_octal d octal).2.2
  cases shows with
  | plain char _ _ => exact ⟨List.cons_ne_nil _ _, fun mem => char (List.mem_singleton.mp mem).symm⟩
  | @letter l known =>
      have char : l ≠ 0 := letters_lookup l (by rw [known]; rfl)
      exact ⟨List.cons_ne_nil _ _, by simp [char.symm]⟩
  | octal first second third _ =>
      exact ⟨List.cons_ne_nil _ _, by simp [(digit first).symm, (digit second).symm, (digit third).symm]⟩

/-- The text that is printed of a string is read as the string. -/
theorem getstrFrom_shown {k : Nat} {text s : Bytes} (room : text.length + s.length ≤ 127) (space : 0x20 ∉ s)
    (plain : 0x5c ∉ s) (enough : s.length < k) :
    getstrFrom k text (s.flatMap showByte) = some (text ++ s, []) := by
  induction s generalizing k text with
  | nil =>
      obtain ⟨k, rfl⟩ := Nat.exists_eq_add_one_of_ne_zero (Nat.ne_zero_of_lt enough)
      rw [List.flatMap_nil, getstrFrom, List.append_nil]
  | cons c s ih =>
      obtain ⟨k, rfl⟩ := Nat.exists_eq_add_one_of_ne_zero (Nat.ne_zero_of_lt enough)
      have shows := showByte_shows c (fun is => space (is ▸ List.mem_cons_self)) (fun is => plain (is ▸ List.mem_cons_self))
      rw [List.length_cons] at room enough
      have room' : (text ++ [c]).length + s.length ≤ 127 := by
        rw [List.length_append, List.length_singleton]
        omega
      have read := ih room' (fun mem => space (List.mem_cons_of_mem _ mem)) (fun mem => plain (List.mem_cons_of_mem _ mem))
        (Nat.lt_of_succ_lt_succ enough)
      rw [List.flatMap_cons, shows.read (by omega), read, List.append_assoc, List.singleton_append]

theorem shown_clean {s : Bytes} (space : 0x20 ∉ s) (plain : 0x5c ∉ s) :
    0 ∉ s.flatMap showByte ∧ s.length ≤ (s.flatMap showByte).length := by
  induction s with
  | nil => exact ⟨List.not_mem_nil, Nat.le_refl 0⟩
  | cons c s ih =>
      obtain ⟨longer, clean⟩ := (showByte_shows c (fun is => space (is ▸ List.mem_cons_self))
        (fun is => plain (is ▸ List.mem_cons_self))).clean
      obtain ⟨clean', longer'⟩ := ih (fun mem => space (List.mem_cons_of_mem _ mem)) (fun mem => plain (List.mem_cons_of_mem _ mem))
      rw [List.flatMap_cons]
      refine ⟨fun mem => (List.mem_append.mp mem).elim clean clean', ?_⟩
      have one := List.length_pos_iff.mpr longer
      rw [List.length_append, List.length_cons]
      omega

/-- What `getstr` makes of the text that is printed of a string. -/
theorem getstrIn_shown (m : Magic) {s : Bytes} (short : s.length ≤ 127) (space : 0x20 ∉ s) (plain : 0x5c ∉ s) :
    (getstrIn m (fileShowstr s (some s.length))).value = some
      ((storedString m (m.value.write 0 (s ++ [0])) s.length).map (fun m => (m, (fileShowstr s (some s.length)).length))) := by
  obtain ⟨clean, longer⟩ := shown_clean space plain
  have text : fileShowstr s (some s.length) = s.flatMap showByte := by rw [fileShowstr, List.take_length]
  have whole : cstring (s.flatMap showByte) = s.flatMap showByte := Softmagic.cstring_self clean
  obtain ⟨-, -, r, value, same, inside⟩ := getstrIn_meets m (s.flatMap showByte)
  have room : ([] : Bytes).length + s.length ≤ 127 := by rwa [List.length_nil, Nat.zero_add]
  have read : getstrText (s.flatMap showByte) = some (s, []) := by
    rw [getstrText, getstrFrom_shown room space plain (Nat.lt_succ_of_le longer), List.nil_append]
  rw [whole, getstr_eq, read, Option.bind_some] at same
  rw [text, value]
  cases r with
  | none => rw [Option.map_eq_none_iff.mp same, Option.map_none]
  | some r =>
      obtain ⟨m', i⟩ := r
      obtain ⟨_, stored, same⟩ := Option.map_eq_some_iff.mp same
      obtain ⟨rfl, left⟩ := Prod.mk.inj same
      -- Nothing is left of the text, so that the index is its end.
      have nothing := congrArg List.length left
      rw [behind_length, whole, List.length_nil] at nothing
      have le := inside _ i rfl
      rw [whole] at le
      rw [stored, Option.map_some, Nat.le_antisymm le (Nat.le_of_sub_eq_zero nothing.symm)]

/-- What `getstr` returns where the text of the line stands for `value` and `rest` is left. -/
def Literal (m : Magic) (line value rest : Bytes) : Option (Magic × Nat) → Prop
  | none => 127 ≤ value.length ∨ ∀ l, prefixSize m = some l → 128 < value.length + l
  | some (m', s) => value.length ≤ 127 ∧ s ≤ (cstring line).length ∧ behind line s = rest ∧
      ∃ l, prefixSize m = some l ∧ value.length + l ≤ 128 ∧
        m' = { m with value := m.value.write 0 (value ++ [0]), vallen := value.length + l }

theorem literal_of {m : Magic} {line : Bytes} {r : Option (Magic × Nat)} (reads : Reads m line r) {value rest : Bytes}
    (unescapes : Unescapes (cstring line) value rest) : Literal m line value rest r := by
  obtain ⟨same, inside⟩ := reads
  have clean := Softmagic.zero_notMem_cstring line
  rw [getstr_eq] at same
  cases read : getstrText (cstring line) with
  | none =>
      rw [read] at same
      obtain rfl := Option.map_eq_none_iff.mp same.symm
      obtain ⟨value', rest', unescapes', long⟩ := getstrFrom_none clean (Nat.lt_succ_self _) read
      obtain ⟨rfl, -⟩ := unescapes.unique unescapes' rfl
      rw [List.length_nil, Nat.zero_add] at long
      exact .inl long
  | some text =>
      obtain ⟨text, rest'⟩ := text
      have short : text.length ≤ 127 := getstrFrom_length (Nat.zero_le _) read
      obtain ⟨value', rfl, unescapes'⟩ := getstrFrom_unescapes clean read
      obtain ⟨rfl, rfl⟩ := unescapes.unique unescapes' rfl
      rw [read, Option.bind_some, storedString_eq m _ short] at same
      cases r with
      | none =>
          refine .inr ?_
          intro l known
          rw [known, Option.bind_some, Option.map_none, Option.map_eq_none_iff] at same
          by_contra fits
          rw [if_neg fits] at same
          cases same
      | some r =>
          obtain ⟨m', s⟩ := r
          rw [Option.map_some] at same
          obtain ⟨_, stored, same⟩ := Option.map_eq_some_iff.mp same
          obtain ⟨rfl, left⟩ := Prod.mk.inj same
          obtain ⟨l, known, stored⟩ := Option.bind_eq_some_iff.mp stored
          split_ifs at stored with long
          exact ⟨short, inside _ s rfl, left.symm, l, known, Nat.le_of_not_lt long, (Option.some.inj stored).symm⟩

theorem getstr_literal (m : Magic) :
    (∀ line, (∀ e ∈ (getstrIn m line).events, e.within ((cstring line).length + 1) 128) ∧
      (∃ value rest, Unescapes (cstring line) value rest) ∧
      ∃ r, (getstrIn m line).value = some r ∧
        ∀ value rest, Unescapes (cstring line) value rest → Literal m line value rest r) ∧
    ∀ s : Bytes, s.length ≤ 127 → 0x20 ∉ s → 0x5c ∉ s → ∀ l, prefixSize m = some l → s.length + l ≤ 128 →
      (getstrIn m (fileShowstr s (some s.length))).value =
        some (some ({ m with value := m.value.write 0 (s ++ [0]), vallen := s.length + l },
          (fileShowstr s (some s.length)).length)) := by
  refine ⟨?_, ?_⟩
  · intro line
    obtain ⟨allowed, -, r, value, reads⟩ := getstrIn_meets m line
    exact ⟨allowed, unescapes_exists (Softmagic.zero_notMem_cstring line), r, value,
      fun _ _ unescapes => literal_of reads unescapes⟩
  · intro s short space plain l known fits
    rw [getstrIn_shown m short space plain, storedString_eq m _ short, known, Option.bind_some,
      if_neg (Nat.not_lt.mpr fits), Option.map_some]

/-- A `pstring/h`. -/
def wideLine : Magic := { Softmagic.plainLine with type := .pstring, strFlags := Softmagic.PSTRING_2_LE }

/-- A string that fits in the value but not with the two bytes of its length. -/
theorem getstr_wideLine : ∃ s : Bytes, s.length ≤ 127 ∧ 0x20 ∉ s ∧ 0x5c ∉ s ∧
    (getstrIn wideLine (fileShowstr s (some s.length))).value = some none := by
  have char {c : UInt8} (other : c ≠ 0x61) : c ∉ List.replicate 127 (0x61 : UInt8) :=
    fun mem => other (List.eq_of_mem_replicate mem)
  have short : (List.replicate 127 (0x61 : UInt8)).length ≤ 127 := by rw [List.length_replicate]
  have two : prefixSize wideLine = some 2 := by decide
  refine ⟨List.replicate 127 0x61, short, char (by decide), char (by decide), ?_⟩
  rw [getstrIn_shown wideLine short (char (by decide)) (char (by decide)), storedString_eq wideLine _ short, two,
    Option.bind_some, List.length_replicate, if_pos (by decide), Option.map_none]

theorem getstr_literal_line :
    (getstrIn Softmagic.plainLine (fileShowstr [0x01, 0x31, 0x0a] (some 3))).value =
      some (some ({ Softmagic.plainLine with value := Softmagic.plainLine.value.write 0 [0x01, 0x31, 0x0a, 0], vallen := 3 },
        7)) :=
  (getstr_literal Softmagic.plainLine).2 [0x01, 0x31, 0x0a] (by decide) (by decide) (by decide) 0 (by decide) (by decide)

end Libmagic.Apprentice
