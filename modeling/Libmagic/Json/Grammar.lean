import Libmagic.Unicode.Utf8

/-!
# JSON texts as byte strings

The grammar of RFC 7159, with the lexical rules and the treatment of a comma
before a closing bracket left open as a `Dialect`. Containers are indexed by the
nesting their contents may have. Nothing here names a program.
-/
namespace JsonText

/-- Insignificant whitespace: space, line feed, carriage return, tab. -/
def isWs (b : UInt8) : Bool := b == 0x20 || b == 0x0a || b == 0x0d || b == 0x09

def isDigit (b : UInt8) : Bool := decide (0x30 ≤ b) && decide (b ≤ 0x39)

def isHexDigit (b : UInt8) : Bool :=
  isDigit b || (decide (0x61 ≤ b) && decide (b ≤ 0x66)) || (decide (0x41 ≤ b) && decide (b ≤ 0x46))

/-- The letters that may follow a backslash, apart from `u`. -/
def isEscape (b : UInt8) : Bool :=
  b == 0x22 || b == 0x5c || b == 0x2f || b == 0x62 || b == 0x66 || b == 0x6e || b == 0x72 || b == 0x74

def Ws (w : List UInt8) : Prop := ∀ b ∈ w, isWs b

theorem ws_nil : Ws [] := fun _ member => by cases member

theorem Ws.append {w w' : List UInt8} (h : Ws w) (h' : Ws w') : Ws (w ++ w') :=
  List.forall_mem_append.mpr ⟨h, h'⟩

def Digits (d : List UInt8) : Prop := ∀ b ∈ d, isDigit b

def Sign (s : List UInt8) : Prop := s = [] ∨ s = [0x2d]

def Exponent (e : List UInt8) : Prop :=
  e = [] ∨ ∃ c s d, (c = 0x65 ∨ c = 0x45) ∧ (s = [] ∨ s = [0x2b] ∨ s = [0x2d]) ∧
    Digits d ∧ d ≠ [] ∧ e = c :: (s ++ d)

/-- `number = [ minus ] int [ frac ] [ exp ]`. -/
def Number (v : List UInt8) : Prop :=
  ∃ s int frac e, Sign s ∧
    (int = [0x30] ∨ ∃ b d, isDigit b ∧ b ≠ 0x30 ∧ Digits d ∧ int = b :: d) ∧
    (frac = [] ∨ ∃ d, Digits d ∧ d ≠ [] ∧ frac = 0x2e :: d) ∧
    Exponent e ∧ v = s ++ int ++ frac ++ e

/-- `unescaped = %x20-21 / %x23-5B / %x5D-10FFFF`, in UTF-8. -/
def Unescaped (u : List UInt8) : Prop :=
  ∃ c : Char, 0x20 ≤ c.toNat ∧ c.toNat ≠ 0x22 ∧ c.toNat ≠ 0x5c ∧ u = String.utf8EncodeChar c

/-- A string after its opening quotation mark. -/
inductive Text (unescaped : List UInt8 → Prop) : List UInt8 → Prop
  | close : Text unescaped [0x22]
  | char {u t : List UInt8} : unescaped u → Text unescaped t → Text unescaped (u ++ t)
  | escape {e : UInt8} {t : List UInt8} :
      isEscape e → Text unescaped t → Text unescaped (0x5c :: e :: t)
  | unicode {a b c d : UInt8} {t : List UInt8} :
      isHexDigit a → isHexDigit b → isHexDigit c → isHexDigit d → Text unescaped t →
      Text unescaped (0x5c :: 0x75 :: a :: b :: c :: d :: t)

structure Dialect where
  number : List UInt8 → Prop
  unescaped : List UInt8 → Prop
  trailingComma : Prop

/-- RFC 7159. -/
def rfc7159 : Dialect := ⟨Number, Unescaped, False⟩

/-- `true`, `false` and `null`. -/
def Literal (v : List UInt8) : Prop :=
  v = [0x74, 0x72, 0x75, 0x65] ∨ v = [0x66, 0x61, 0x6c, 0x73, 0x65] ∨ v = [0x6e, 0x75, 0x6c, 0x6c]

inductive Scalar (D : Dialect) : List UInt8 → Prop
  | string {t : List UInt8} : Text D.unescaped t → Scalar D (0x22 :: t)
  | number {v : List UInt8} : D.number v → Scalar D v
  | literal {v : List UInt8} : Literal v → Scalar D v

/-- The rest of a container after its opening bracket, or after a comma when
`first` is false. -/
inductive Items (D : Dialect) (close : UInt8) (item : List UInt8 → Prop) : Bool → List UInt8 → Prop
  | close {first : Bool} {w : List UInt8} :
      first = true ∨ D.trailingComma → Ws w → Items D close item first (w ++ [close])
  | last {first : Bool} {w v w' : List UInt8} :
      Ws w → item v → Ws w' → Items D close item first (w ++ (v ++ (w' ++ [close])))
  | more {first : Bool} {w v w' t : List UInt8} :
      Ws w → item v → Ws w' → Items D close item false t →
      Items D close item first (w ++ (v ++ (w' ++ 0x2c :: t)))

/-- `member = string name-separator value`. -/
def Member (D : Dialect) (value : List UInt8 → Prop) (m : List UInt8) : Prop :=
  ∃ t w w' v, Text D.unescaped t ∧ Ws w ∧ Ws w' ∧ value v ∧
    m = 0x22 :: (t ++ (w ++ 0x3a :: (w' ++ v)))

/-- An array or an object whose contents are `value`s. -/
inductive Container (D : Dialect) (value : List UInt8 → Prop) : List UInt8 → Prop
  | array {t : List UInt8} : Items D 0x5d value true t → Container D value (0x5b :: t)
  | object {t : List UInt8} : Items D 0x7d (Member D value) true t → Container D value (0x7b :: t)

/-- The values that nest fewer than `n` containers inside each other. -/
def Value (D : Dialect) : Nat → List UInt8 → Prop
  | 0, _ => False
  | n + 1, v => Scalar D v ∨ Container D (Value D n) v

/-- The values with at most `n` containers inside each other. -/
def Nested (D : Dialect) : Nat → List UInt8 → Prop
  | 0, v => Scalar D v
  | n + 1, v => Scalar D v ∨ Container D (Nested D n) v

/-- A whole text whose value is an object or an array. -/
def ContainerText (D : Dialect) (n : Nat) (b : List UInt8) : Prop :=
  ∃ w v w', Ws w ∧ Container D (Value D n) v ∧ Ws w' ∧ b = w ++ (v ++ w')

/-- Values separated by whitespace, with whitespace allowed around them. -/
inductive Sequence (D : Dialect) : List UInt8 → Prop
  | nil {w : List UInt8} : Ws w → Sequence D w
  | last {w v w' : List UInt8} {n : Nat} :
      Ws w → Value D n v → Ws w' → Sequence D (w ++ (v ++ w'))
  | cons {w v t : List UInt8} {n : Nat} {s : UInt8} :
      Ws w → Value D n v → isWs s → Sequence D t → Sequence D (w ++ (v ++ s :: t))

/-! ## Comparing dialects -/

/-- Everything `D` allows, `D'` allows. -/
structure Dialect.Le (D D' : Dialect) : Prop where
  number : ∀ v, D.number v → D'.number v
  text : ∀ t, Text D.unescaped t → Text D'.unescaped t
  trailingComma : D.trailingComma → D'.trailingComma

theorem Dialect.Le.refl (D : Dialect) : D.Le D := ⟨fun _ h => h, fun _ h => h, fun h => h⟩

section mono
variable {D D' : Dialect} {item item' : List UInt8 → Prop}

theorem Items.mono (le : D.Le D') (items : ∀ v, item v → item' v) {close : UInt8} {first : Bool}
    {t : List UInt8} (h : Items D close item first t) : Items D' close item' first t := by
  induction h with
  | close allowed ws => exact .close (allowed.imp id le.trailingComma) ws
  | last ws hv ws' => exact .last ws (items _ hv) ws'
  | more ws hv ws' _ ih => exact .more ws (items _ hv) ws' ih

theorem Member.mono (le : D.Le D') (items : ∀ v, item v → item' v) {m : List UInt8}
    (h : Member D item m) : Member D' item' m := by
  obtain ⟨t, w, w', v, text, ws, ws', hv, rfl⟩ := h
  exact ⟨t, w, w', v, le.text t text, ws, ws', items v hv, rfl⟩

theorem Scalar.mono (le : D.Le D') {v : List UInt8} (h : Scalar D v) : Scalar D' v := by
  cases h with
  | string text => exact .string (le.text _ text)
  | number number => exact .number (le.number _ number)
  | literal literal => exact .literal literal

theorem Container.mono (le : D.Le D') (items : ∀ v, item v → item' v) {v : List UInt8}
    (h : Container D item v) : Container D' item' v := by
  cases h with
  | array h => exact .array (h.mono le items)
  | object h => exact .object (h.mono le (fun _ member => Member.mono le items member))

theorem Value.mono (le : D.Le D') {n m : Nat} (nest : n ≤ m) {v : List UInt8}
    (h : Value D n v) : Value D' m v := by
  induction n generalizing m v with
  | zero => exact h.elim
  | succ n ih =>
      obtain ⟨m, rfl⟩ : ∃ k, m = k + 1 := ⟨m - 1, by omega⟩
      exact h.imp (Scalar.mono le) (Container.mono le (fun _ => ih (Nat.le_of_succ_le_succ nest)))

theorem Nested.value {n : Nat} {v : List UInt8} (h : Nested D n v) : Value D (n + 1) v := by
  induction n generalizing v with
  | zero => exact .inl h
  | succ n ih =>
      rcases h with scalar | container
      · exact .inl scalar
      · exact .inr (container.mono (.refl D) fun _ => ih)

end mono

/-! ## How a text ends -/

theorem Text.ends {unescaped : List UInt8 → Prop} {t : List UInt8} (h : Text unescaped t) :
    ∃ s, t = s ++ [0x22] := by
  induction h with
  | close => exact ⟨[], rfl⟩
  | @char u t _ _ ih =>
      obtain ⟨s, rfl⟩ := ih
      exact ⟨u ++ s, by rw [List.append_assoc]⟩
  | @escape e t _ _ ih =>
      obtain ⟨s, rfl⟩ := ih
      exact ⟨0x5c :: e :: s, rfl⟩
  | @unicode a b c d t _ _ _ _ _ ih =>
      obtain ⟨s, rfl⟩ := ih
      exact ⟨0x5c :: 0x75 :: a :: b :: c :: d :: s, rfl⟩

theorem Items.ends {D : Dialect} {close : UInt8} {item : List UInt8 → Prop} {first : Bool}
    {t : List UInt8} (h : Items D close item first t) : ∃ s, t = s ++ [close] := by
  induction h with
  | close _ _ => exact ⟨_, rfl⟩
  | @last first w v w' _ _ _ => exact ⟨w ++ (v ++ w'), by simp only [List.append_assoc]⟩
  | @more first w v w' t _ _ _ _ ih =>
      obtain ⟨s, rfl⟩ := ih
      exact ⟨w ++ (v ++ (w' ++ 0x2c :: s)), by simp only [List.append_assoc, List.cons_append]⟩

/-! ## The bytes of a text -/

/-- The text holds no control byte other than whitespace. -/
def NoControl (t : List UInt8) : Prop := ∀ b ∈ t, 0x20 ≤ b ∨ isWs b = true

theorem NoControl.append {s t : List UInt8} (h : NoControl s) (h' : NoControl t) :
    NoControl (s ++ t) := List.forall_mem_append.mpr ⟨h, h'⟩

theorem NoControl.cons {b : UInt8} {t : List UInt8} (h : 0x20 ≤ b) (h' : NoControl t) :
    NoControl (b :: t) := List.forall_mem_cons.mpr ⟨.inl h, h'⟩

theorem Ws.noControl {w : List UInt8} (h : Ws w) : NoControl w := fun b member => .inr (h b member)

theorem noControl_nil : NoControl [] := ws_nil.noControl

theorem le_of_isDigit {b : UInt8} (h : isDigit b = true) : 0x20 ≤ b := by
  simp only [isDigit, Bool.and_eq_true, decide_eq_true_eq] at h
  exact UInt8.le_trans (show (0x20 : UInt8) ≤ 0x30 by decide) h.1

theorem Digits.noControl {d : List UInt8} (h : Digits d) : NoControl d :=
  fun b member => .inl (le_of_isDigit (h b member))

theorem Exponent.noControl {e : List UInt8} (h : Exponent e) : NoControl e := by
  rcases h with rfl | ⟨c, s, d, letter, sign, digits, -, rfl⟩
  · exact noControl_nil
  · refine .cons (by rcases letter with rfl | rfl <;> decide) (.append ?_ digits.noControl)
    rcases sign with rfl | rfl | rfl
    · exact noControl_nil
    · exact .cons (by decide) noControl_nil
    · exact .cons (by decide) noControl_nil

theorem Number.noControl {v : List UInt8} (h : Number v) : NoControl v := by
  obtain ⟨s, int, frac, e, sign, whole, fraction, exponent, rfl⟩ := h
  refine .append (.append (.append ?_ ?_) ?_) exponent.noControl
  · rcases sign with rfl | rfl
    · exact noControl_nil
    · exact .cons (by decide) noControl_nil
  · rcases whole with rfl | ⟨b, d, digit, -, digits, rfl⟩
    · exact .cons (by decide) noControl_nil
    · exact .cons (le_of_isDigit digit) digits.noControl
  · rcases fraction with rfl | ⟨d, digits, -, rfl⟩
    · exact noControl_nil
    · exact .cons (by decide) digits.noControl

theorem Unescaped.noControl {u : List UInt8} (h : Unescaped u) : NoControl u := by
  obtain ⟨c, low, -, -, rfl⟩ := h
  have lt := (Unicode.scalar_toNat c).lt
  intro b member
  rw [Unicode.utf8EncodeChar_eq, List.mem_map] at member
  obtain ⟨n, byte, rfl⟩ := member
  refine .inl ?_
  have bounds : 0x20 ≤ n ∧ n < 256 := by
    simp only [Unicode.encode] at byte
    split_ifs at byte <;> simp only [List.mem_cons, List.not_mem_nil, or_false] at byte <;> omega
  rw [UInt8.le_iff_toNat_le, UInt8.toNat_ofNat_of_lt' bounds.2]
  exact bounds.1

theorem Text.noControl {unescaped : List UInt8 → Prop} (chars : ∀ u, unescaped u → NoControl u)
    {t : List UInt8} (h : Text unescaped t) : NoControl t := by
  have escapes : ∀ b : UInt8, isEscape b = true → 0x20 ≤ b :=
    Unicode.forall_byte (by decide +kernel)
  have hexes : ∀ b : UInt8, isHexDigit b = true → 0x20 ≤ b :=
    Unicode.forall_byte (by decide +kernel)
  induction h with
  | close => exact .cons (by decide) noControl_nil
  | char char _ ih => exact .append (chars _ char) ih
  | escape escape _ ih => exact .cons (by decide) (.cons (escapes _ escape) ih)
  | unicode ha hb hc hd _ ih =>
      exact .cons (by decide) (.cons (by decide) (.cons (hexes _ ha) (.cons (hexes _ hb)
        (.cons (hexes _ hc) (.cons (hexes _ hd) ih)))))

theorem Items.noControl {D : Dialect} {close : UInt8} {item : List UInt8 → Prop} {first : Bool}
    {t : List UInt8} (bracket : 0x20 ≤ close) (items : ∀ v, item v → NoControl v)
    (h : Items D close item first t) : NoControl t := by
  induction h with
  | close _ ws => exact .append ws.noControl (.cons bracket noControl_nil)
  | last ws hv ws' =>
      exact .append ws.noControl (.append (items _ hv)
        (.append ws'.noControl (.cons bracket noControl_nil)))
  | more ws hv ws' _ ih =>
      exact .append ws.noControl (.append (items _ hv)
        (.append ws'.noControl (.cons (by decide) ih)))

/-- RFC 7159 escapes control characters. -/
theorem noControl_rfc7159 {n : Nat} {v : List UInt8} (h : Value rfc7159 n v) : NoControl v := by
  have text : ∀ {t}, Text rfc7159.unescaped t → NoControl t :=
    fun h => h.noControl (fun _ char => Unescaped.noControl char)
  induction n generalizing v with
  | zero => exact h.elim
  | succ n ih =>
      rcases h with scalar | container
      · cases scalar with
        | string string => exact .cons (by decide) (text string)
        | number number => exact Number.noControl number
        | literal literal =>
            rcases literal with rfl | rfl | rfl <;> simp [NoControl]
      · cases container with
        | array items => exact .cons (by decide) (items.noControl (by decide) (fun _ => ih))
        | object items =>
            refine .cons (by decide) (items.noControl (by decide) ?_)
            rintro _ ⟨t, w, w', v, key, ws, ws', hv, rfl⟩
            exact .cons (by decide) (.append (text key) (.append ws.noControl
              (.cons (by decide) (.append ws'.noControl (ih hv)))))

theorem ContainerText.noControl {n : Nat} {b : List UInt8} (h : ContainerText rfc7159 n b) :
    NoControl b := by
  obtain ⟨w, v, w', ws, container, ws', rfl⟩ := h
  have value : Value rfc7159 (n + 1) v := .inr container
  exact .append ws.noControl (.append (noControl_rfc7159 value) ws'.noControl)

end JsonText
