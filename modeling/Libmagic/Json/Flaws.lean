import Libmagic.Json.Exact

/-!
# Where `json_parse` leaves RFC 7159

The dialect `lax` is unambiguous, because its recogniser is deterministic. So a
lax document is an RFC 7159 text unless its only reading has a flaw: a comma
before a closing bracket, a lax number, or a string of arbitrary bytes.
-/
namespace Libmagic.Json
open JsonText Unicode

/-! ## RFC 7159 within the dialect -/

theorem text_of_unescaped {u t : List UInt8} (char : Unescaped u) (text : Text StringByte t) :
    Text StringByte (u ++ t) := by
  obtain ⟨c, low, quote, slash, rfl⟩ := char
  have lt := (scalar_toNat c).lt
  have bytes : ∀ b ∈ String.utf8EncodeChar c, b ≠ 0 ∧ b ≠ 0x22 ∧ b ≠ 0x5c := by
    intro b member
    rw [utf8EncodeChar_eq, List.mem_map] at member
    obtain ⟨n, byte, rfl⟩ := member
    have bounds : n < 256 ∧ n ≠ 0 ∧ n ≠ 0x22 ∧ n ≠ 0x5c := by
      simp only [encode] at byte
      split_ifs at byte <;> simp only [List.mem_cons, List.not_mem_nil, or_false] at byte <;> omega
    have value := UInt8.toNat_ofNat_of_lt' bounds.1
    refine ⟨fun h => bounds.2.1 ?_, fun h => bounds.2.2.1 ?_, fun h => bounds.2.2.2 ?_⟩ <;>
      rw [← value, h] <;> rfl
  generalize String.utf8EncodeChar c = u at bytes
  induction u with
  | nil => exact text
  | cons b u ih =>
      rw [List.forall_mem_cons] at bytes
      exact @Text.char _ [b] _ ⟨b, bytes.1.1, bytes.1.2.1, bytes.1.2.2, rfl⟩ (ih bytes.2)

theorem laxNumber_of_number {v : List UInt8} (number : Number v) : LaxNumber v := by
  obtain ⟨s, int, frac, e, sign, whole, fraction, exponent, rfl⟩ := number
  have digits : Digits int ∧ int ≠ [] := by
    rcases whole with rfl | ⟨b, d, digit, -, digits, rfl⟩
    · exact ⟨fun b member => by cases List.mem_singleton.mp member; decide, by simp⟩
    · exact ⟨List.forall_mem_cons.mpr ⟨digit, digits⟩, by simp⟩
  refine ⟨s, int, frac, e, sign, digits.1, ?_, exponent, by simp only [List.append_assoc]⟩
  rcases fraction with rfl | ⟨d, more, -, rfl⟩
  · exact .inl ⟨rfl, digits.2⟩
  · exact .inr ⟨d, more, .inl digits.2, rfl⟩

theorem rfc7159_le_lax : rfc7159.Le lax := by
  refine ⟨fun v number => laxNumber_of_number number, fun t text => ?_, fun h => h.elim⟩
  induction text with
  | close => exact .close
  | char char _ ih => exact text_of_unescaped char ih
  | escape escape _ ih => exact .escape escape ih
  | unicode ha hb hc hd _ ih => exact .unicode ha hb hc hd ih

/-! ## The dialect is unambiguous -/

/-- `json_parse` without the limit on levels. -/
def unbounded : Nat → List UInt8 → Stats → Parsed
  | 0, b, st => ⟨0, b, st⟩
  | n + 1, b, st =>
      match jsonSkipSpace b with
      | [] => ⟨0, [], st⟩
      | c :: uc =>
          let r := jsonSwitch (unbounded n) c uc st
          ⟨r.1.rv, jsonSkipSpace r.1.uc, r.1.st.bump r.2⟩

theorem recognises_unbounded (n : Nat) : Recognises (unbounded n) (Value lax n) := by
  induction n with
  | zero => exact recognises_none (fun _ _ => rfl)
  | succ n ih =>
      refine Wraps.recognises (fun b st => ?_) ih
      rw [unbounded]
      rcases jsonSkipSpace b with _ | ⟨c, uc⟩
      · exact .inl ⟨rfl, rfl⟩
      · exact .inr ⟨c, uc, rfl, rfl, rfl, fun _ => rfl⟩

theorem ws_cancel {w w' : List UInt8} {c c' : UInt8} {r r' : List UInt8} (ws : Ws w) (ws' : Ws w')
    (tight : isWs c = false) (tight' : isWs c' = false) (same : w ++ c :: r = w' ++ c' :: r') :
    w = w' ∧ c = c' ∧ r = r' := by
  have rest : c :: r = c' :: r' := by
    rw [← jsonSkipSpace_run ws (tight_cons.mpr tight), same,
      jsonSkipSpace_run ws' (tight_cons.mpr tight')]
  rw [rest] at same
  cases rest
  exact ⟨List.append_cancel_right same, rfl, rfl⟩

theorem ws_cancel_right {v v' w w' : List UInt8} (ws : Ws w) (ws' : Ws w') (tight : Tight v.reverse)
    (tight' : Tight v'.reverse) (same : v ++ w = v' ++ w') : v = v' ∧ w = w' := by
  have backwards : ∀ {u : List UInt8}, Ws u → Ws u.reverse :=
    fun h b member => h b (List.mem_reverse.mp member)
  have rest : v.reverse = v'.reverse := by
    rw [← jsonSkipSpace_run (backwards ws) tight, ← List.reverse_append, same, List.reverse_append,
      jsonSkipSpace_run (backwards ws') tight']
  rw [List.reverse_inj] at rest
  subst rest
  exact ⟨rfl, List.append_cancel_left same⟩

theorem laxNumber_tight {v : List UInt8} (number : LaxNumber v) : ∀ c ∈ v, isWs c = false := by
  obtain ⟨s, d, frac, e, sign, digits, fraction, exponent, rfl⟩ := number
  have ofDigits : ∀ {d : List UInt8}, Digits d → ∀ c ∈ d, isWs c = false :=
    fun h c member => isWs_digit c (h c member)
  simp only [List.forall_mem_append]
  refine ⟨?_, ofDigits digits, ?_, ?_⟩
  · rcases sign with rfl | rfl <;> simp [isWs]
  · rcases fraction with ⟨rfl, -⟩ | ⟨f, more, -, rfl⟩
    · simp
    · exact List.forall_mem_cons.mpr ⟨by decide, ofDigits more⟩
  · rcases exponent with rfl | ⟨c, s, d, letter, sign, more, -, rfl⟩
    · simp
    · refine List.forall_mem_cons.mpr ⟨by rcases letter with rfl | rfl <;> decide, ?_⟩
      refine List.forall_mem_append.mpr ⟨?_, ofDigits more⟩
      rcases sign with rfl | rfl | rfl <;> simp [isWs]

theorem value_ends {n : Nat} {v : List UInt8} (hv : Value lax n v) : Tight v.reverse := by
  have ends : ∀ {s : List UInt8} {c : UInt8}, isWs c = false → Tight (s ++ [c]).reverse := by
    intro s c tight
    rw [List.reverse_append]
    exact tight_cons.mpr tight
  cases n with
  | zero => exact hv.elim
  | succ n =>
      rcases hv with scalar | container
      · cases scalar with
        | string text =>
            obtain ⟨s, rfl⟩ := text.ends
            exact ends (s := 0x22 :: s) (by decide)
        | number number =>
            intro c member
            exact laxNumber_tight number c (List.mem_reverse.mp (List.mem_of_mem_head? member))
        | literal literal => rcases literal with rfl | rfl | rfl <;> simp [Tight, isWs]
      · cases container with
        | array items =>
            obtain ⟨s, rfl⟩ := items.ends
            exact ends (s := 0x5b :: s) (by decide)
        | object items =>
            obtain ⟨s, rfl⟩ := items.ends
            exact ends (s := 0x7b :: s) (by decide)

/-- An item with the whitespace and the delimiter around it. -/
structure Slot (P : List UInt8 → Prop) (text v : List UInt8) (d : UInt8) (rest : List UInt8) : Prop where
  split : ∃ w w', Ws w ∧ Ws w' ∧ text = w ++ (v ++ (w' ++ d :: rest))
  item : P v
  delimiter : Delimiter d

/-- No text can be read as an item of `P` and as one of `Q` in two ways. -/
structure Unambiguous (P Q : List UInt8 → Prop) : Prop where
  cancel : ∀ {text v d rest u e more}, Slot P text v d rest → Slot Q text u e more →
    v = u ∧ d = e ∧ rest = more

theorem unambiguous_value (n m : Nat) : Unambiguous (Value lax n) (Value lax m) := by
  refine ⟨fun {text v d rest u e more} left right => ?_⟩
  obtain ⟨⟨w, w', ws, ws', rfl⟩, hv, hd⟩ := left
  obtain ⟨⟨x, x', xs, xs', same⟩, hu, he⟩ := right
  have hv' : Value lax (max n m) v := hv.mono (.refl lax) (Nat.le_max_left n m)
  have hu' : Value lax (max n m) u := hu.mono (.refl lax) (Nat.le_max_right n m)
  have parsed := (recognises_unbounded (max n m)).complete w v w' d rest {} ws hv' ws' hd
  rw [same, ((recognises_unbounded (max n m)).complete x u x' e more {} xs hu' xs' he).2] at parsed
  obtain ⟨rfl, rfl⟩ := List.cons.inj parsed.2
  obtain ⟨c, t, rfl, tight, -⟩ := value_starts hv
  obtain ⟨c', t', rfl, tight', -⟩ := value_starts hu
  obtain ⟨rfl, rfl, -⟩ := ws_cancel ws xs tight tight' same
  have whole : c :: t ++ w' ++ e :: more = c :: t' ++ x' ++ e :: more := by
    rw [List.append_assoc, List.append_assoc]
    exact List.append_cancel_left same
  have inner := List.append_cancel_right whole
  exact ⟨(ws_cancel_right ws' xs' (value_ends hv) (value_ends hu) inner).1, rfl, rfl⟩

theorem text_cancel {t t' r r' : List UInt8} (text : Text StringByte t) (text' : Text StringByte t')
    (same : t ++ r = t' ++ r') : t = t' ∧ r = r' := by
  have parsed := jsonParseString_complete text r
  rw [same, jsonParseString_complete text' r'] at parsed
  cases parsed
  exact ⟨List.append_cancel_right same, rfl⟩

/-- Two readings of a member agree on the key and on the value. -/
theorem member_cancel {n m : Nat} {w t w1 w2 v w' x s x1 x2 u x' : List UInt8} {d e : UInt8}
    {rest more : List UInt8} (ws : Ws w) (text : Text StringByte t) (ws1 : Ws w1) (ws2 : Ws w2)
    (hv : Value lax n v) (ws' : Ws w') (hd : Delimiter d) (xs : Ws x) (text' : Text StringByte s)
    (xs1 : Ws x1) (xs2 : Ws x2) (hu : Value lax m u) (xs' : Ws x') (he : Delimiter e)
    (same : w ++ (0x22 :: (t ++ (w1 ++ 0x3a :: (w2 ++ v))) ++ (w' ++ d :: rest)) =
      x ++ (0x22 :: (s ++ (x1 ++ 0x3a :: (x2 ++ u))) ++ (x' ++ e :: more))) :
    t = s ∧ w1 = x1 ∧ w2 = x2 ∧ v = u ∧ d = e ∧ rest = more := by
  simp only [List.append_assoc, List.cons_append] at same
  obtain ⟨-, -, keys⟩ := ws_cancel ws xs (by decide) (by decide) same
  obtain ⟨rfl, colons⟩ := text_cancel text text' keys
  obtain ⟨rfl, -, tail⟩ := ws_cancel ws1 xs1 (by decide) (by decide) colons
  obtain ⟨rfl, rfl, rfl⟩ := (unambiguous_value n m).cancel
    ⟨⟨w2, w', ws2, ws', rfl⟩, hv, hd⟩ ⟨⟨x2, x', xs2, xs', tail⟩, hu, he⟩
  obtain ⟨c, t', rfl, tight, -⟩ := value_starts hv
  obtain ⟨rfl, -, -⟩ := ws_cancel ws2 xs2 tight tight tail
  exact ⟨rfl, rfl, rfl, rfl, rfl, rfl⟩

theorem unambiguous_member (n m : Nat) :
    Unambiguous (Member lax (Value lax n)) (Member lax (Value lax m)) := by
  refine ⟨fun {text v d rest u e more} left right => ?_⟩
  obtain ⟨⟨w, w', ws, ws', rfl⟩, ⟨t, w1, w2, v, key, ws1, ws2, hv, rfl⟩, hd⟩ := left
  obtain ⟨⟨x, x', xs, xs', same⟩, ⟨s, x1, x2, u, key', xs1, xs2, hu, rfl⟩, he⟩ := right
  obtain ⟨rfl, rfl, rfl, rfl, rfl, rfl⟩ :=
    member_cancel ws key ws1 ws2 hv ws' hd xs key' xs1 xs2 hu xs' he same
  exact ⟨rfl, rfl, rfl⟩

/-! ## Flaws -/

/-- Items of a container with a flaw: a comma before the bracket, or a flawed item. -/
inductive FlawedItems (close : UInt8) (item flawed : List UInt8 → Prop) : Bool → List UInt8 → Prop
  | comma {w : List UInt8} : Ws w → FlawedItems close item flawed false (w ++ [close])
  | last {first : Bool} {w v w' : List UInt8} :
      Ws w → flawed v → Ws w' → FlawedItems close item flawed first (w ++ (v ++ (w' ++ [close])))
  | here {first : Bool} {w v w' t : List UInt8} :
      Ws w → flawed v → Ws w' → Items lax close item false t →
      FlawedItems close item flawed first (w ++ (v ++ (w' ++ 0x2c :: t)))
  | later {first : Bool} {w v w' t : List UInt8} :
      Ws w → item v → Ws w' → FlawedItems close item flawed false t →
      FlawedItems close item flawed first (w ++ (v ++ (w' ++ 0x2c :: t)))

/-- A string whose bytes RFC 7159 does not allow unescaped. -/
def FlawedText (t : List UInt8) : Prop := Text StringByte t ∧ ¬ Text Unescaped t

inductive FlawedScalar : List UInt8 → Prop
  | string {t : List UInt8} : FlawedText t → FlawedScalar (0x22 :: t)
  | number {v : List UInt8} : LaxNumber v → ¬ Number v → FlawedScalar v

def FlawedMember (value flawed : List UInt8 → Prop) (m : List UInt8) : Prop :=
  ∃ t w w' v, Ws w ∧ Ws w' ∧ (FlawedText t ∧ value v ∨ Text StringByte t ∧ flawed v) ∧
    m = 0x22 :: (t ++ (w ++ 0x3a :: (w' ++ v)))

inductive FlawedContainer (value flawed : List UInt8 → Prop) : List UInt8 → Prop
  | array {t : List UInt8} :
      FlawedItems 0x5d value flawed true t → FlawedContainer value flawed (0x5b :: t)
  | object {t : List UInt8} :
      FlawedItems 0x7d (Member lax value) (FlawedMember value flawed) true t →
      FlawedContainer value flawed (0x7b :: t)

/-- A lax value with a flaw somewhere in it. -/
def Flawed : Nat → List UInt8 → Prop
  | 0, _ => False
  | n + 1, v => FlawedScalar v ∨ FlawedContainer (Value lax n) (Flawed n) v

/-- A lax document with a flaw in it. -/
def FlawedDocument (b : List UInt8) : Prop :=
  ∃ w v w', Ws w ∧ FlawedContainer (Value lax 250) (Flawed 250) v ∧ Ws w' ∧ b = w ++ (v ++ w')

section flaws
variable {close : UInt8} {item item' flawed : List UInt8 → Prop} {first : Bool} {t : List UInt8}

theorem items_or_flawed (each : ∀ v, item v → item' v ∨ flawed v) (h : Items lax close item first t) :
    Items rfc7159 close item' first t ∨ FlawedItems close item flawed first t := by
  induction h with
  | @close first w _ ws =>
      cases first with
      | false => exact .inr (.comma ws)
      | true => exact .inl (.close (.inl rfl) ws)
  | last ws hv ws' => exact (each _ hv).imp (.last ws · ws') (.last ws · ws')
  | more ws hv ws' rest ih =>
      rcases each _ hv with ok | bad
      · exact ih.imp (.more ws ok ws') (.later ws hv ws')
      · exact .inr (.here ws bad ws' rest)

/-- A reading with a flaw leaves no room for a reading without. -/
theorem not_items_of_flawed (bracket : Delimiter close) (notComma : close ≠ 0x2c)
    (unambiguous : Unambiguous item item') (isItem : ∀ v, flawed v → item v)
    (excludes : ∀ v, flawed v → ¬ item' v)
    (starts : ∀ v, item v ∨ item' v → ∃ c u, v = c :: u ∧ isWs c = false ∧ c ≠ close)
    (h : FlawedItems close item flawed first t) : ¬ Items rfc7159 close item' first t := by
  have clash : ∀ {w x v r : List UInt8}, Ws w → Ws x → item v ∨ item' v →
      w ++ [close] ≠ x ++ (v ++ r) := by
    intro w x v r ws xs hv same
    obtain ⟨c, u, rfl, tight, other⟩ := starts v hv
    exact other (ws_cancel ws xs (tight_cons.mp (bracket.tight [])) tight same).2.1.symm
  induction h with
  | @comma w ws =>
      intro items
      generalize shape : w ++ [close] = text at items
      cases items with
      | close allowed _ => exact allowed.elim Bool.false_ne_true id
      | last xs hu xs' => exact clash ws xs (.inr hu) shape
      | more xs hu xs' rest => exact clash ws xs (.inr hu) shape
  | @last first w v w' ws bad ws' =>
      intro items
      generalize shape : w ++ (v ++ (w' ++ [close])) = text at items
      have slot : Slot item text v close [] := ⟨⟨w, w', ws, ws', shape.symm⟩, isItem v bad, bracket⟩
      cases items with
      | close _ xs => exact clash xs ws (.inl (isItem v bad)) shape.symm
      | @last _ x u x' xs hu xs' =>
          obtain ⟨rfl, -, -⟩ := unambiguous.cancel slot ⟨⟨x, x', xs, xs', rfl⟩, hu, bracket⟩
          exact excludes v bad hu
      | @more _ x u x' rest xs hu xs' _ =>
          obtain ⟨rfl, -, -⟩ := unambiguous.cancel slot ⟨⟨x, x', xs, xs', rfl⟩, hu, .inl rfl⟩
          exact excludes v bad hu
  | @here first w v w' t ws bad ws' _ =>
      intro items
      generalize shape : w ++ (v ++ (w' ++ 0x2c :: t)) = text at items
      have slot : Slot item text v 0x2c t := ⟨⟨w, w', ws, ws', shape.symm⟩, isItem v bad, .inl rfl⟩
      cases items with
      | close _ xs => exact clash xs ws (.inl (isItem v bad)) shape.symm
      | @last _ x u x' xs hu xs' =>
          obtain ⟨rfl, -, -⟩ := unambiguous.cancel slot ⟨⟨x, x', xs, xs', rfl⟩, hu, bracket⟩
          exact excludes v bad hu
      | @more _ x u x' rest xs hu xs' _ =>
          obtain ⟨rfl, -, -⟩ := unambiguous.cancel slot ⟨⟨x, x', xs, xs', rfl⟩, hu, .inl rfl⟩
          exact excludes v bad hu
  | @later first w v w' t ws hv ws' _ ih =>
      intro items
      generalize shape : w ++ (v ++ (w' ++ 0x2c :: t)) = text at items
      have slot : Slot item text v 0x2c t := ⟨⟨w, w', ws, ws', shape.symm⟩, hv, .inl rfl⟩
      cases items with
      | close _ xs => exact clash xs ws (.inl hv) shape.symm
      | @last _ x u x' xs hu xs' =>
          obtain ⟨-, comma, -⟩ := unambiguous.cancel slot ⟨⟨x, x', xs, xs', rfl⟩, hu, bracket⟩
          exact notComma comma.symm
      | @more _ x u x' rest xs hu xs' items =>
          obtain ⟨-, -, rfl⟩ := unambiguous.cancel slot ⟨⟨x, x', xs, xs', rfl⟩, hu, .inl rfl⟩
          exact ih items

theorem items_of_flawed (isItem : ∀ v, flawed v → item v)
    (h : FlawedItems close item flawed first t) : Items lax close item first t := by
  induction h with
  | comma ws => exact .close (.inr trivial) ws
  | last ws bad ws' => exact .last ws (isItem _ bad) ws'
  | here ws bad ws' rest => exact .more ws (isItem _ bad) ws' rest
  | later ws hv ws' _ ih => exact .more ws hv ws' ih

end flaws

theorem member_of_flawed {n : Nat} (isValue : ∀ v, Flawed n v → Value lax n v) {m : List UInt8}
    (h : FlawedMember (Value lax n) (Flawed n) m) : Member lax (Value lax n) m := by
  obtain ⟨t, w, w', v, ws, ws', flaw, rfl⟩ := h
  rcases flaw with ⟨text, hv⟩ | ⟨text, bad⟩
  · exact ⟨t, w, w', v, text.1, ws, ws', hv, rfl⟩
  · exact ⟨t, w, w', v, text, ws, ws', isValue v bad, rfl⟩

theorem container_of_flawed {n : Nat} (isValue : ∀ v, Flawed n v → Value lax n v) {v : List UInt8}
    (h : FlawedContainer (Value lax n) (Flawed n) v) : Container lax (Value lax n) v := by
  cases h with
  | array items => exact .array (items_of_flawed isValue items)
  | object items => exact .object (items_of_flawed (fun _ => member_of_flawed isValue) items)

theorem value_of_flawed {n : Nat} {v : List UInt8} (h : Flawed n v) : Value lax n v := by
  induction n generalizing v with
  | zero => exact h.elim
  | succ n ih =>
      rcases h with scalar | container
      · cases scalar with
        | string text => exact .inl (.string text.1)
        | number number _ => exact .inl (.number number)
      · exact .inr (container_of_flawed (fun _ => ih) container)

theorem member_or_flawed {n : Nat} (each : ∀ v, Value lax n v → Value rfc7159 n v ∨ Flawed n v)
    {m : List UInt8} (h : Member lax (Value lax n) m) :
    Member rfc7159 (Value rfc7159 n) m ∨ FlawedMember (Value lax n) (Flawed n) m := by
  obtain ⟨t, w, w', v, text, ws, ws', hv, rfl⟩ := h
  by_cases key : Text Unescaped t
  · rcases each v hv with ok | bad
    · exact .inl ⟨t, w, w', v, key, ws, ws', ok, rfl⟩
    · exact .inr ⟨t, w, w', v, ws, ws', .inr ⟨text, bad⟩, rfl⟩
  · exact .inr ⟨t, w, w', v, ws, ws', .inl ⟨⟨text, key⟩, hv⟩, rfl⟩

theorem container_or_flawed {n : Nat} (each : ∀ v, Value lax n v → Value rfc7159 n v ∨ Flawed n v)
    {v : List UInt8} (h : Container lax (Value lax n) v) :
    Container rfc7159 (Value rfc7159 n) v ∨ FlawedContainer (Value lax n) (Flawed n) v := by
  cases h with
  | array items => exact (items_or_flawed each items).imp .array .array
  | object items =>
      exact (items_or_flawed (fun _ => member_or_flawed each) items).imp .object .object

/-- A lax value is an RFC 7159 value or has a flaw. -/
theorem rfc7159_or_flawed {n : Nat} (v : List UInt8) (h : Value lax n v) :
    Value rfc7159 n v ∨ Flawed n v := by
  induction n generalizing v with
  | zero => exact h.elim
  | succ n ih =>
      rcases h with scalar | container
      · cases scalar with
        | @string t text =>
            by_cases strict : Text Unescaped t
            · exact .inl (.inl (.string strict))
            · exact .inr (.inl (.string ⟨text, strict⟩))
        | number number =>
            by_cases strict : Number v
            · exact .inl (.inl (.number strict))
            · exact .inr (.inl (.number number strict))
        | literal literal => exact .inl (.inl (.literal literal))
      · exact (container_or_flawed ih container).imp .inr .inr

theorem Unambiguous.right {P Q Q' : List UInt8 → Prop} (h : Unambiguous P Q)
    (sub : ∀ v, Q' v → Q v) : Unambiguous P Q' :=
  ⟨fun left right => h.cancel left ⟨right.split, sub _ right.item, right.delimiter⟩⟩

theorem lax_of_rfc7159 {n : Nat} (v : List UInt8) (h : Value rfc7159 n v) : Value lax n v :=
  h.mono rfc7159_le_lax (Nat.le_refl n)

section exclusion
variable {n m : Nat} {v : List UInt8}

theorem not_member_of_flawed (excludes : ∀ v, Flawed n v → ¬ Value rfc7159 m v)
    (h : FlawedMember (Value lax n) (Flawed n) v) : ¬ Member rfc7159 (Value rfc7159 m) v := by
  rintro ⟨s, x1, x2, u, key, xs1, xs2, hu, same⟩
  obtain ⟨t, w1, w2, v, ws1, ws2, flaw, rfl⟩ := h
  have text : Text StringByte t := flaw.elim (fun h => h.1.1) (fun h => h.1)
  have hv : Value lax n v := flaw.elim (fun h => h.2) (fun h => value_of_flawed h.2)
  obtain ⟨rfl, -, -, rfl, -, -⟩ := member_cancel ws_nil text ws1 ws2 hv
    ws_nil (.inl rfl) ws_nil (rfc7159_le_lax.text s key) xs1 xs2 (lax_of_rfc7159 u hu) ws_nil
    (.inl rfl) (congrArg (fun m => [] ++ (m ++ ([] ++ [0x2c]))) same)
  rcases flaw with ⟨⟨-, strict⟩, -⟩ | ⟨-, bad⟩
  · exact strict key
  · exact excludes v bad hu

theorem not_container_of_flawed (excludes : ∀ v, Flawed n v → ¬ Value rfc7159 m v)
    (h : FlawedContainer (Value lax n) (Flawed n) v) : ¬ Container rfc7159 (Value rfc7159 m) v := by
  intro container
  cases h with
  | array flawed =>
      cases container with
      | array items =>
          refine not_items_of_flawed (.inr (.inl rfl)) (by decide)
            ((unambiguous_value n m).right lax_of_rfc7159) (fun _ => value_of_flawed) excludes ?_
            flawed items
          exact fun v hv => hv.elim value_starts (fun h => value_starts (lax_of_rfc7159 v h))
  | object flawed =>
      cases container with
      | object items =>
          refine not_items_of_flawed (.inr (.inr rfl)) (by decide)
            ((unambiguous_member n m).right
              (fun _ => Member.mono rfc7159_le_lax lax_of_rfc7159))
            (fun _ => member_of_flawed (fun _ => value_of_flawed))
            (fun _ => not_member_of_flawed excludes) ?_ flawed items
          rintro _ (⟨t, w, w', v, -, -, -, -, rfl⟩ | ⟨t, w, w', v, -, -, -, -, rfl⟩) <;>
            exact ⟨0x22, _, rfl, by decide, by decide⟩

end exclusion

theorem not_value_of_flawed {n m : Nat} (v : List UInt8) (h : Flawed n v) : ¬ Value rfc7159 m v := by
  induction n generalizing m v with
  | zero => exact h.elim
  | succ n ih =>
      intro value
      cases m with
      | zero => exact value
      | succ m =>
          -- the first byte tells strings, numbers, literals and containers apart
          rcases h with scalar | flawed
          · cases scalar with
            | string text =>
                rcases value with scalar | container
                · cases scalar with
                  | string strict => exact text.2 strict
                  | number number =>
                      obtain ⟨c, t, shape, start⟩ := laxNumber_starts (laxNumber_of_number number)
                      cases shape
                      exact (numberStart_other _ start).1 rfl
                  | literal literal => rcases literal with h | h | h <;> cases h
                · cases container
            | number number strict =>
                obtain ⟨c, t, rfl, start⟩ := laxNumber_starts number
                obtain ⟨h1, h2, h3, h4, h5, h6⟩ := numberStart_other c start
                rcases value with scalar | container
                · cases scalar with
                  | string _ => exact h1 rfl
                  | number number => exact strict number
                  | literal literal =>
                      rcases literal with h | h | h <;> cases h
                      · exact h4 rfl
                      · exact h5 rfl
                      · exact h6 rfl
                · cases container with
                  | array _ => exact h2 rfl
                  | object _ => exact h3 rfl
          · rcases value with scalar | container
            · cases scalar with
              | string _ => cases flawed
              | number number =>
                  obtain ⟨c, t, rfl, start⟩ := laxNumber_starts (laxNumber_of_number number)
                  obtain ⟨-, h2, h3, -⟩ := numberStart_other c start
                  cases flawed with
                  | array _ => exact h2 rfl
                  | object _ => exact h3 rfl
              | literal literal => rcases literal with rfl | rfl | rfl <;> cases flawed
            · exact not_container_of_flawed (fun v => ih v) flawed container

/-! ## Soundness against RFC 7159 -/

/-- A lax document that is no RFC 7159 text is one with a flaw. -/
theorem flawedDocument_iff (b : List UInt8) :
    FlawedDocument b ↔ ContainerText lax 250 b ∧ ¬ ∃ n, ContainerText rfc7159 n b := by
  constructor
  · rintro ⟨w, v, w', ws, flawed, ws', rfl⟩
    have container := container_of_flawed (fun _ => value_of_flawed) flawed
    refine ⟨⟨w, v, w', ws, container, ws', rfl⟩, ?_⟩
    rintro ⟨n, x, u, x', xs, strict, xs', same⟩
    have hv : Value lax 251 v := .inr container
    have hu : Value lax (n + 1) u := lax_of_rfc7159 u (.inr strict)
    obtain ⟨c, t, rfl, tight, -⟩ := value_starts hv
    obtain ⟨d, s, rfl, tight', -⟩ := value_starts hu
    obtain ⟨rfl, -, -⟩ := ws_cancel ws xs tight tight' same
    obtain ⟨same, -⟩ := ws_cancel_right ws' xs' (value_ends hv) (value_ends hu)
      (List.append_cancel_left same)
    rw [← same] at strict
    exact not_container_of_flawed not_value_of_flawed flawed strict
  · rintro ⟨⟨w, v, w', ws, container, ws', rfl⟩, strict⟩
    rcases container_or_flawed rfc7159_or_flawed container with ok | flawed
    · exact absurd ⟨250, w, v, w', ws, ok, ws', rfl⟩ strict
    · exact ⟨w, v, w', ws, flawed, ws', rfl⟩

/-- `rv = 1` only for an RFC 7159 text that is an object or an array, `rv = 2`
only for a sequence of RFC 7159 values. -/
def SoundOn (b : List UInt8) : Prop :=
  ((jsonParse 0 b {}).rv = 1 → ∃ n, ContainerText rfc7159 n b) ∧
    ((jsonParse 0 b {}).rv = 2 → Sequence rfc7159 b)

/-- The recogniser is sound on precisely the buffers that are neither a document
with a flaw nor two lax containers followed by something that makes the whole no
sequence of RFC 7159 values. -/
theorem jsonParse_sound_iff (b : List UInt8) :
    SoundOn b ↔ ¬ FlawedDocument b ∧ ¬ (ContainerPair b ∧ ¬ Sequence rfc7159 b) := by
  rw [SoundOn, (jsonParse_accepts b).1, (jsonParse_accepts b).2, flawedDocument_iff,
    not_and_not_right, not_and_not_right]

/-- A string that holds the byte 1 unescaped passes. -/
theorem jsonParse_sound_fails : ¬ SoundOn [0x5b, 0x22, 0x01, 0x22, 0x5d] := by
  rintro ⟨sound, -⟩
  obtain ⟨n, text⟩ := sound (by decide +kernel)
  exact absurd (text.noControl 0x01 (by decide)) (by decide)

/-! ## Completeness -/

/-- A text of RFC 7159 that is an object or an array, with at most 250 containers inside
each other, gets `rv = 1`. -/
theorem jsonParse_complete (w v w' : List UInt8) (ws : Ws w)
    (container : Container rfc7159 (Nested rfc7159 249) v) (ws' : Ws w') :
    (jsonParse 0 (w ++ (v ++ w')) {}).rv = 1 := by
  apply jsonParse_text
  refine ⟨w, v, w', ws, ?_, ws', rfl⟩
  apply container.mono rfc7159_le_lax
  intro v nested
  exact lax_of_rfc7159 v nested.value

/-- A space, `[0]` and a line feed. -/
theorem jsonParse_complete_zero :
    Container rfc7159 (Nested rfc7159 249) [0x5b, 0x30, 0x5d] ∧
      (jsonParse 0 ([0x20] ++ ([0x5b, 0x30, 0x5d] ++ [0x0a])) {}).rv = 1 := by
  have zero : Number [0x30] := ⟨[], [0x30], [], [], .inl rfl, .inl rfl, .inl rfl, .inl rfl, rfl⟩
  have items : Items rfc7159 0x5d (Nested rfc7159 249) true ([] ++ ([0x30] ++ ([] ++ [0x5d]))) :=
    .last ws_nil (.inl (.number zero)) ws_nil
  have ws : Ws [0x20] := by simp [Ws, isWs]
  have ws' : Ws [0x0a] := by simp [Ws, isWs]
  exact ⟨.array items, jsonParse_complete _ _ _ ws (.array items) ws'⟩

end Libmagic.Json
