import Libmagic.Encoding.LooksUtf8

/-!
# `file_looks_utf8` recognises exactly the prefixes of UTF-8 text

The tables are first read as inequalities on the lead byte. One character is
then compared with `Unicode.encode` in both directions, and the loop follows by
induction on the text it reads.
-/
namespace Libmagic.Encoding
open Unicode

/-- What the lead byte decides: the range of the second byte, `following` and
the payload bits. -/
structure Lead where
  lo : UInt8
  hi : UInt8
  following : Nat
  payload : Nat
  deriving DecidableEq

def lead (b : UInt8) : Option Lead :=
  if first b = XX then none
  else (leadByte b).map fun p =>
    ⟨(acceptRange (first b)).lo, (acceptRange (first b)).hi, p.2, p.1⟩

/-- RFC 3629 section 4, as a table of lead bytes. -/
def leadSpec (n : Nat) : Option Lead :=
  if n < 0xC2 then none
  else if n < 0xE0 then some ⟨0x80, 0xBF, 1, n - 0xC0⟩
  else if n = 0xE0 then some ⟨0xA0, 0xBF, 2, 0⟩
  else if n = 0xED then some ⟨0x80, 0x9F, 2, 13⟩
  else if n < 0xF0 then some ⟨0x80, 0xBF, 2, n - 0xE0⟩
  else if n = 0xF0 then some ⟨0x90, 0xBF, 3, 0⟩
  else if n < 0xF4 then some ⟨0x80, 0xBF, 3, n - 0xF0⟩
  else if n = 0xF4 then some ⟨0x80, 0x8F, 3, 4⟩
  else none

theorem lead_eq (b : UInt8) : ¬ b.toNat < 0xC0 → lead b = leadSpec b.toNat := by
  apply forall_byte (P := fun b => ¬ b.toNat < 0xC0 → lead b = leadSpec b.toNat)
  decide +kernel

theorem ascii_iff (b : UInt8) : b &&& 0x80 = 0 ↔ b.toNat < 0x80 := by
  apply forall_byte (P := fun b => b &&& 0x80 = 0 ↔ b.toNat < 0x80)
  decide +kernel

theorem continuation_iff (b : UInt8) :
    (b &&& 0x80 = 0 ∨ b &&& 0x40 ≠ 0) ↔ ¬ (0x80 ≤ b.toNat ∧ b.toNat < 0xC0) := by
  apply forall_byte
    (P := fun b => (b &&& 0x80 = 0 ∨ b &&& 0x40 ≠ 0) ↔ ¬ (0x80 ≤ b.toNat ∧ b.toNat < 0xC0))
  decide +kernel

theorem payload_eq (b : UInt8) :
    0x80 ≤ b.toNat ∧ b.toNat < 0xC0 → (b &&& 0x3f).toNat = b.toNat - 0x80 := by
  apply forall_byte
    (P := fun b => 0x80 ≤ b.toNat ∧ b.toNat < 0xC0 → (b &&& 0x3f).toNat = b.toNat - 0x80)
  decide +kernel

theorem high_iff (b : UInt8) : ¬ b &&& 0x80 = 0 → (b &&& 0x40 = 0 ↔ b.toNat < 0xC0) := by
  apply forall_byte (P := fun b => ¬ b &&& 0x80 = 0 → (b &&& 0x40 = 0 ↔ b.toNat < 0xC0))
  decide +kernel

/-- Continuation bytes `t` from loop index `n` on: the second byte of the
character lies in the accept range, every byte is `10xxxxxx`. -/
def Conts (ar : AcceptRange) : Nat → List UInt8 → Prop
  | _, [] => True
  | n, b :: t => (n = 0 → ar.lo.toNat ≤ b.toNat ∧ b.toNat ≤ ar.hi.toNat) ∧
      (0x80 ≤ b.toNat ∧ b.toNat < 0xC0) ∧ Conts ar (n + 1) t

/-- The code point collected by the loop. -/
def gather (c : Nat) (t : List UInt8) : Nat := t.foldl (fun c b => c * 64 + (b.toNat - 0x80)) c

@[simp] theorem gather_nil (c : Nat) : gather c [] = c := rfl

@[simp] theorem gather_cons (c : Nat) (b : UInt8) (t : List UInt8) :
    gather c (b :: t) = gather (c * 64 + (b.toNat - 0x80)) t := List.foldl_cons ..

theorem tailBytes_cons_of_conts {ar : AcceptRange} {n : Nat} {b : UInt8} {t : List UInt8}
    (h : Conts ar n (b :: t)) (k c : Nat) (buf : List UInt8) :
    tailBytes ar n (k + 1) c (b :: buf) =
      tailBytes ar (n + 1) k (c * 64 + (b.toNat - 0x80)) buf := by
  obtain ⟨range, cont, -⟩ := h
  have inside : ¬ (n = 0 ∧ (b < ar.lo ∨ b > ar.hi)) := by
    simp only [UInt8.lt_iff_toNat_lt, gt_iff_lt]
    intro ⟨hn, hb⟩
    have := range hn
    omega
  have isCont : ¬ (b &&& 0x80 = 0 ∨ b &&& 0x40 ≠ 0) := fun hb => (continuation_iff b).mp hb cont
  rw [tailBytes, if_neg inside, if_neg isCont, payload_eq b cont, Nat.shiftLeft_eq]

theorem tailBytes_ok {ar : AcceptRange} {n c : Nat} {t : List UInt8} (h : Conts ar n t)
    (rest : List UInt8) : tailBytes ar n t.length c (t ++ rest) = .ok (gather c t) rest := by
  induction t generalizing n c with
  | nil => rfl
  | cons b t ih =>
      rw [List.length_cons, List.cons_append, tailBytes_cons_of_conts h, gather_cons,
        ih h.2.2]

theorem tailBytes_cut {ar : AcceptRange} {n k c : Nat} {t : List UInt8} (h : Conts ar n t)
    (short : t.length < k) : tailBytes ar n k c t = .cut := by
  induction t generalizing n k c with
  | nil =>
      obtain ⟨k, rfl⟩ := Nat.exists_eq_add_of_lt short
      rfl
  | cons b t ih =>
      cases k with
      | zero => cases short
      | succ k =>
          rw [tailBytes_cons_of_conts h]
          exact ih h.2.2 (Nat.lt_of_succ_lt_succ short)

/-- The loop never reports `bad` only on well-formed bytes: both other outcomes
say what was read. -/
theorem tailBytes_inv (ar : AcceptRange) (n k c : Nat) (buf : List UInt8) :
    tailBytes ar n k c buf = .bad ∨
    (tailBytes ar n k c buf = .cut ∧ buf.length < k ∧ Conts ar n buf) ∨
    ∃ t rest, buf = t ++ rest ∧ t.length = k ∧ Conts ar n t ∧
      tailBytes ar n k c buf = .ok (gather c t) rest := by
  induction k generalizing n c buf with
  | zero => exact .inr (.inr ⟨[], buf, rfl, rfl, trivial, rfl⟩)
  | succ k ih =>
      cases buf with
      | nil => exact .inr (.inl ⟨rfl, Nat.succ_pos k, trivial⟩)
      | cons b buf =>
          by_cases range : n = 0 ∧ (b < ar.lo ∨ b > ar.hi)
          · exact .inl (by rw [tailBytes, if_pos range])
          by_cases cont : b &&& 0x80 = 0 ∨ b &&& 0x40 ≠ 0
          · exact .inl (by rw [tailBytes, if_neg range, if_pos cont])
          have hb : Conts ar n [b] := by
            refine ⟨?_, not_not.mp (mt (continuation_iff b).mpr cont), trivial⟩
            intro hn
            simp only [hn, true_and, not_or, UInt8.lt_iff_toNat_lt, gt_iff_lt, not_lt] at range
            exact range
          rw [tailBytes_cons_of_conts hb]
          rcases ih (n + 1) (c * 64 + (b.toNat - 0x80)) buf with
            bad | ⟨cut, short, ht⟩ | ⟨t, rest, rfl, len, ht, ok⟩
          · exact .inl bad
          · exact .inr (.inl ⟨cut, Nat.succ_lt_succ short, hb.1, hb.2.1, ht⟩)
          · refine .inr (.inr ⟨b :: t, rest, rfl, by rw [List.length_cons, len], ⟨hb.1, hb.2.1, ht⟩, ?_⟩)
            rw [gather_cons, ok]

def Lead.range (l : Lead) : AcceptRange := ⟨l.lo, l.hi⟩

theorem multibyte_eq (b : UInt8) (buf : List UInt8) :
    multibyte b buf = match lead b with
      | none => .bad
      | some l => tailBytes l.range 0 l.following l.payload buf := by
  unfold multibyte lead
  split
  · rfl
  · cases leadByte b <;> rfl

/-- One character read with the tables is a scalar value and its encoding. -/
theorem gather_encode {b : UInt8} {l : Lead} {t : List UInt8} (hl : leadSpec b.toNat = some l)
    (len : t.length = l.following) (ht : Conts l.range 0 t) :
    Scalar (gather l.payload t) ∧ 0x7f < gather l.payload t ∧
      encode (gather l.payload t) = (b :: t).map UInt8.toNat := by
  obtain ⟨lo, hi, k, p⟩ := l
  unfold leadSpec at hl
  split_ifs at hl with c2 e0 isE0 isED f0 isF0 f4 isF4 <;>
    simp only [Option.some.injEq, Lead.mk.injEq] at hl <;>
    obtain ⟨rfl, rfl, rfl, hp⟩ := hl
  · obtain ⟨t1, rfl⟩ := List.length_eq_one_iff.mp len
    obtain ⟨-, cont, -⟩ := ht
    exact encode_two (by omega) cont (by rw [← hp]; rfl)
  iterate 3
    obtain ⟨t1, t2, rfl⟩ := List.length_eq_two.mp len
    obtain ⟨range, cont1, -, cont2, -⟩ := ht
    have second := range rfl
    simp only [Lead.range, UInt8.toNat_ofNat] at second
    have payload : p = b.toNat - 0xE0 := by omega
    exact encode_three (by omega) cont1 cont2 (by omega) (by omega) (by rw [← payload]; rfl)
  iterate 3
    obtain ⟨t1, t2, t3, rfl⟩ := List.length_eq_three.mp len
    obtain ⟨range, cont1, -, cont2, -, cont3, -⟩ := ht
    have second := range rfl
    simp only [Lead.range, UInt8.toNat_ofNat] at second
    have payload : p = b.toNat - 0xF0 := by omega
    exact encode_four (by omega) cont1 cont2 cont3 (by omega) (by omega) (by rw [← payload]; rfl)

/-- Bytes that the tables accept as one whole character `n`. -/
def Follows (bytes : List Nat) (n : Nat) : Prop :=
  ∃ b l t, bytes.map UInt8.ofNat = b :: t ∧ ¬ b.toNat < 0xC0 ∧ leadSpec b.toNat = some l ∧
    t.length = l.following ∧ Conts l.range 0 t ∧ gather l.payload t = n

theorem toNat_byte {k : Nat} (h : k < 256) : (UInt8.ofNat k).toNat = k :=
  UInt8.toNat_ofNat_of_lt' h

theorem conts_one {lo hi : UInt8} {t : Nat} {more : List UInt8}
    (ht : 0x80 ≤ t ∧ t < 0xC0) (range : lo.toNat ≤ t ∧ t ≤ hi.toNat)
    (rest : Conts ⟨lo, hi⟩ 1 more) : Conts ⟨lo, hi⟩ 0 (UInt8.ofNat t :: more) := by
  have value := toNat_byte (show t < 256 by omega)
  exact ⟨fun _ => by rw [value]; exact range, by rw [value]; exact ht, rest⟩

theorem conts_succ {ar : AcceptRange} {n t : Nat} {more : List UInt8} (ht : 0x80 ≤ t ∧ t < 0xC0)
    (rest : Conts ar (n + 2) more) : Conts ar (n + 1) (UInt8.ofNat t :: more) := by
  have value := toNat_byte (show t < 256 by omega)
  exact ⟨fun h => absurd h (Nat.succ_ne_zero n), by rw [value]; exact ht, rest⟩

theorem follows_two {n : Nat} (low : 0x7f < n) (high : n ≤ 0x7ff) :
    Follows [n / 64 + 0xc0, n % 64 + 0x80] n := by
  have hb := toNat_byte (show n / 64 + 0xc0 < 256 by omega)
  have ht := toNat_byte (show n % 64 + 0x80 < 256 by omega)
  refine ⟨_, ⟨0x80, 0xBF, 1, n / 64⟩, [UInt8.ofNat (n % 64 + 0x80)], rfl, by omega, ?_, rfl, ?_, ?_⟩
  · rw [hb, leadSpec, if_neg (by omega), if_pos (by omega), Nat.add_sub_cancel]
  · exact conts_one (by omega) (by simp only [UInt8.toNat_ofNat]; omega) trivial
  · simp only [gather_cons, gather_nil, ht]
    omega

theorem follows_three {n : Nat} (low : 0x7ff < n) (high : n ≤ 0xffff)
    (valid : n < 0xd800 ∨ 0xdfff < n) :
    Follows [n / 4096 + 0xe0, n / 64 % 64 + 0x80, n % 64 + 0x80] n := by
  have hb := toNat_byte (show n / 4096 + 0xe0 < 256 by omega)
  have ht := toNat_byte (show n / 64 % 64 + 0x80 < 256 by omega)
  have hu := toNat_byte (show n % 64 + 0x80 < 256 by omega)
  have build : ∀ lo hi : UInt8, leadSpec (n / 4096 + 0xe0) = some ⟨lo, hi, 2, n / 4096⟩ →
      lo.toNat ≤ n / 64 % 64 + 0x80 ∧ n / 64 % 64 + 0x80 ≤ hi.toNat →
      Follows [n / 4096 + 0xe0, n / 64 % 64 + 0x80, n % 64 + 0x80] n := by
    intro lo hi hl range
    refine ⟨_, ⟨lo, hi, 2, n / 4096⟩, [UInt8.ofNat (n / 64 % 64 + 0x80), UInt8.ofNat (n % 64 + 0x80)],
      rfl, by omega, by rw [hb]; exact hl, rfl, ?_, ?_⟩
    · exact conts_one (by omega) range (conts_succ (by omega) trivial)
    · simp only [gather_cons, gather_nil, ht, hu]
      omega
  by_cases e0 : n / 4096 = 0
  · exact build 0xA0 0xBF (by rw [e0]; rfl) (by simp only [UInt8.toNat_ofNat]; omega)
  by_cases ed : n / 4096 = 13
  · exact build 0x80 0x9F (by rw [ed]; rfl) (by simp only [UInt8.toNat_ofNat]; omega)
  · refine build 0x80 0xBF ?_ (by simp only [UInt8.toNat_ofNat]; omega)
    rw [leadSpec, if_neg (by omega), if_neg (by omega), if_neg (by omega), if_neg (by omega),
      if_pos (by omega), Nat.add_sub_cancel]

theorem follows_four {n : Nat} (low : 0xffff < n) (high : n < 0x110000) :
    Follows [n / 262144 + 0xf0, n / 4096 % 64 + 0x80, n / 64 % 64 + 0x80, n % 64 + 0x80] n := by
  have hb := toNat_byte (show n / 262144 + 0xf0 < 256 by omega)
  have ht := toNat_byte (show n / 4096 % 64 + 0x80 < 256 by omega)
  have hu := toNat_byte (show n / 64 % 64 + 0x80 < 256 by omega)
  have hw := toNat_byte (show n % 64 + 0x80 < 256 by omega)
  have build : ∀ lo hi : UInt8, leadSpec (n / 262144 + 0xf0) = some ⟨lo, hi, 3, n / 262144⟩ →
      lo.toNat ≤ n / 4096 % 64 + 0x80 ∧ n / 4096 % 64 + 0x80 ≤ hi.toNat →
      Follows [n / 262144 + 0xf0, n / 4096 % 64 + 0x80, n / 64 % 64 + 0x80, n % 64 + 0x80] n := by
    intro lo hi hl range
    refine ⟨_, ⟨lo, hi, 3, n / 262144⟩, [UInt8.ofNat (n / 4096 % 64 + 0x80),
      UInt8.ofNat (n / 64 % 64 + 0x80), UInt8.ofNat (n % 64 + 0x80)],
      rfl, by omega, by rw [hb]; exact hl, rfl, ?_, ?_⟩
    · exact conts_one (by omega) range (conts_succ (by omega) (conts_succ (by omega) trivial))
    · simp only [gather_cons, gather_nil, ht, hu, hw]
      omega
  by_cases f0 : n / 262144 = 0
  · exact build 0x90 0xBF (by rw [f0]; rfl) (by simp only [UInt8.toNat_ofNat]; omega)
  by_cases f4 : n / 262144 = 4
  · exact build 0x80 0x8F (by rw [f4]; rfl) (by simp only [UInt8.toNat_ofNat]; omega)
  · refine build 0x80 0xBF ?_ (by simp only [UInt8.toNat_ofNat]; omega)
    rw [leadSpec, if_neg (by omega), if_neg (by omega), if_neg (by omega), if_neg (by omega),
      if_neg (by omega), if_neg (by omega), if_pos (by omega), Nat.add_sub_cancel]

/-- Conversely the bytes of a character above ASCII follow the tables. -/
theorem encode_follows {n : Nat} (hn : Scalar n) (high : 0x7f < n) : Follows (encode n) n := by
  have lt := hn.lt
  have valid : n < 0xd800 ∨ 0xdfff < n ∧ n < 0x110000 := hn
  unfold encode
  rw [if_neg (by omega)]
  split_ifs with two three
  · exact follows_two high two
  · exact follows_three (by omega) three (by omega)
  · exact follows_four (by omega) lt

theorem Conts.of_prefix {ar : AcceptRange} {n : Nat} {t t' : List UInt8} (h : Conts ar n t)
    (hp : t' <+: t) : Conts ar n t' := by
  obtain ⟨more, rfl⟩ := hp
  induction t' generalizing n with
  | nil => trivial
  | cons b t' ih => exact ⟨h.1, h.2.1, ih h.2.2⟩

theorem conts_replicate (ar : AcceptRange) (n k : Nat) : Conts ar (n + 1) (List.replicate k 0x80) := by
  induction k generalizing n with
  | zero => trivial
  | succ k ih =>
      exact ⟨fun h => absurd h (Nat.succ_ne_zero n), by decide, ih (n + 1)⟩

theorem Conts.append_replicate {ar : AcceptRange} {n : Nat} {t : List UInt8} (h : Conts ar n t)
    (k : Nat) (started : n ≠ 0 ∨ t ≠ []) : Conts ar n (t ++ List.replicate k 0x80) := by
  induction t generalizing n with
  | nil =>
      obtain ⟨m, rfl⟩ := Nat.exists_eq_succ_of_ne_zero (started.resolve_right (fun h => h rfl))
      exact conts_replicate ar m k
  | cons b t ih => exact ⟨h.1, h.2.1, ih h.2.2 (.inl (Nat.succ_ne_zero n))⟩

/-- Every accept range of the table starts with a continuation byte. -/
theorem leadSpec_range {n : Nat} {l : Lead} (hl : leadSpec n = some l) :
    (0x80 ≤ l.lo.toNat ∧ l.lo.toNat < 0xC0) ∧ l.lo.toNat ≤ l.hi.toNat := by
  unfold leadSpec at hl
  split_ifs at hl <;> cases hl <;> dsimp only <;> decide

/-- Bytes cut short inside a character can be completed. -/
theorem conts_complete {n : Nat} {l : Lead} {t : List UInt8} (hl : leadSpec n = some l)
    (ht : Conts l.range 0 t) (short : t.length < l.following) :
    ∃ pad, pad ≠ [] ∧ (t ++ pad).length = l.following ∧ Conts l.range 0 (t ++ pad) := by
  obtain ⟨k, hk⟩ := Nat.exists_eq_add_of_lt short
  cases t with
  | nil =>
      have range := leadSpec_range hl
      refine ⟨l.lo :: List.replicate k 0x80, by simp, by simp at hk ⊢; omega, ?_⟩
      exact ⟨fun _ => ⟨Nat.le_refl _, range.2⟩, range.1, conts_replicate _ 0 k⟩
  | cons b t =>
      refine ⟨List.replicate (k + 1) 0x80, by simp, ?_, ht.append_replicate _ (.inr (by simp))⟩
      simp only [List.length_append, List.length_replicate, hk, Nat.add_assoc]

/-- Reading a character above ASCII, whole or cut. -/
theorem multibyte_char {c : Char} (high : 0x7f < c.toNat) :
    ∃ b t, String.utf8EncodeChar c = b :: t ∧ ¬ b.toNat < 0xC0 ∧
      (∀ rest, multibyte b (t ++ rest) = .ok c.toNat rest) ∧
      ∀ t', t' <+: t → t' ≠ t → multibyte b t' = .cut := by
  obtain ⟨b, l, t, bytes, hb, hl, len, conts, value⟩ := encode_follows (scalar_toNat c) high
  refine ⟨b, t, by rw [utf8EncodeChar_eq, bytes], hb, ?_, ?_⟩
  · intro rest
    rw [multibyte_eq, lead_eq b hb, hl]
    simp only [← len, tailBytes_ok conts, value]
  · intro t' hp ne
    rw [multibyte_eq, lead_eq b hb, hl]
    have shorter : t'.length < t.length :=
      lt_of_le_of_ne hp.length_le (fun same => ne (hp.eq_of_length same))
    exact tailBytes_cut (conts.of_prefix hp) (by omega)

/-- What each outcome of the multibyte branch says about the bytes. -/
theorem multibyte_inv {b : UInt8} (hb : ¬ b.toNat < 0xC0) (buf : List UInt8) :
    multibyte b buf = .bad ∨ (multibyte b buf = .cut ∧ Truncated (b :: buf)) ∨
    ∃ (c : Char) (t rest : List UInt8), buf = t ++ rest ∧ String.utf8EncodeChar c = b :: t ∧
      0x7f < c.toNat ∧ multibyte b buf = .ok c.toNat rest := by
  rw [multibyte_eq, lead_eq b hb]
  cases hl : leadSpec b.toNat with
  | none => exact .inl rfl
  | some l =>
      have whole : ∀ t, t.length = l.following → Conts l.range 0 t →
          ∃ c : Char, String.utf8EncodeChar c = b :: t ∧ 0x7f < c.toNat ∧ c.toNat = gather l.payload t := by
        intro t len conts
        obtain ⟨scalar, high, bytes⟩ := gather_encode hl len conts
        exact ⟨scalar.char, scalar.utf8EncodeChar_char bytes, by rw [scalar.toNat_char]; exact high,
          scalar.toNat_char⟩
      rcases tailBytes_inv l.range 0 l.following l.payload buf with
        bad | ⟨cut, short, conts⟩ | ⟨t, rest, rfl, len, conts, ok⟩
      · exact .inl bad
      · obtain ⟨pad, ne, len, conts'⟩ := conts_complete hl conts short
        obtain ⟨c, bytes, -, -⟩ := whole _ len conts'
        refine .inr (.inl ⟨cut, c, ?_, ?_⟩)
        · rw [bytes]
          exact List.cons_prefix_cons.mpr ⟨rfl, List.prefix_append _ _⟩
        · rw [bytes]
          intro same
          exact ne (List.append_right_eq_self.mp (List.cons.inj same).2.symm)
      · obtain ⟨c, bytes, high, value⟩ := whole t len conts
        exact .inr (.inr ⟨c, t, rest, rfl, bytes, high, by rw [value]; exact ok⟩)

/-! ## The loop -/

/-- The last line of `file_looks_utf8`. -/
def verdict (ctrl gotone : Bool) : Int := if ctrl then 0 else if gotone then 2 else 1

/-- An ASCII character that `text_chars` does not class as text. -/
def oddControl (c : Char) : Bool := decide (c.toNat < 0x80) && textChars c.toNat != .T

def isMultibyte (c : Char) : Bool := decide (0x7f < c.toNat)

def storeAll (u : Option Unichars) (cs : List Char) : Option Unichars :=
  u.map (·.pushAll (cs.map Char.toNat))

@[simp] theorem storeAll_nil (u : Option Unichars) : storeAll u [] = u := by
  cases u <;> rfl

@[simp] theorem storeAll_cons (u : Option Unichars) (c : Char) (cs : List Char) :
    storeAll u (c :: cs) = storeAll (store u c.toNat) cs := by
  cases u <;> rfl

section steps
variable {u : Option Unichars} {ctrl gotone : Bool} {b : UInt8} {buf : List UInt8}

theorem looksUtf8_nil : looksUtf8 u ctrl gotone [] = (verdict ctrl gotone, u) := by
  rw [looksUtf8, verdict]

theorem looksUtf8_ascii (hb : b.toNat < 0x80) :
    looksUtf8 u ctrl gotone (b :: buf) =
      looksUtf8 (store u b.toNat) (ctrl || textChars b.toNat != .T) gotone buf := by
  rw [looksUtf8, if_pos ((ascii_iff b).mpr hb)]

theorem looksUtf8_lone (low : ¬ b.toNat < 0x80) (high : b.toNat < 0xC0) :
    looksUtf8 u ctrl gotone (b :: buf) = (-1, u) := by
  have notAscii : ¬ b &&& 0x80 = 0 := mt (ascii_iff b).mp low
  rw [looksUtf8, if_neg notAscii, if_pos ((high_iff b notAscii).mpr high)]

theorem looksUtf8_lead (hb : ¬ b.toNat < 0xC0) :
    looksUtf8 u ctrl gotone (b :: buf) = match multibyte b buf with
      | .bad => (-1, u)
      | .cut => (verdict ctrl gotone, u)
      | .ok c rest => looksUtf8 (store u c) ctrl true rest := by
  have notAscii : ¬ b &&& 0x80 = 0 := by rw [ascii_iff]; omega
  rw [looksUtf8, if_neg notAscii, if_neg (mt (high_iff b notAscii).mp hb)]
  split <;> rename_i h <;> simp only [h]
  rfl

end steps

theorem utf8EncodeChar_ascii {c : Char} (low : c.toNat < 0x80) :
    String.utf8EncodeChar c = [UInt8.ofNat c.toNat] ∧ (UInt8.ofNat c.toNat).toNat = c.toNat := by
  refine ⟨?_, toNat_byte (by omega)⟩
  rw [utf8EncodeChar_eq, encode, if_pos (by omega)]
  rfl

/-- On a text followed by a cut character the loop stores the text and judges it. -/
theorem looksUtf8_text (cs : List Char) {rest : List UInt8} (cut : Truncated rest)
    (u : Option Unichars) (ctrl gotone : Bool) :
    looksUtf8 u ctrl gotone (utf8 cs ++ rest) =
      (verdict (ctrl || cs.any oddControl) (gotone || cs.any isMultibyte), storeAll u cs) := by
  induction cs generalizing u ctrl gotone with
  | nil =>
      obtain ⟨c, hp, ne⟩ := cut
      simp only [utf8_nil, List.nil_append, List.any_nil, Bool.or_false, storeAll_nil]
      cases rest with
      | nil => exact looksUtf8_nil
      | cons b rest =>
          by_cases low : c.toNat < 0x80
          · rw [(utf8EncodeChar_ascii low).1] at hp ne
            obtain ⟨rfl, hr⟩ := List.cons_prefix_cons.mp hp
            exact absurd (by rw [List.prefix_nil.mp hr]) ne
          · obtain ⟨b', t, bytes, hb, -, short⟩ := multibyte_char (c := c) (by omega)
            rw [bytes] at hp ne
            obtain ⟨rfl, hr⟩ := List.cons_prefix_cons.mp hp
            rw [looksUtf8_lead hb, short rest hr (fun same => ne (by rw [same]))]
  | cons c cs ih =>
      simp only [utf8_cons, List.append_assoc, List.any_cons, storeAll_cons]
      by_cases low : c.toNat < 0x80
      · obtain ⟨bytes, value⟩ := utf8EncodeChar_ascii low
        have single : isMultibyte c = false := decide_eq_false (by omega)
        have control : oddControl c = (textChars c.toNat != .T) := by
          simp only [oddControl, low, decide_true, Bool.true_and]
        rw [bytes, List.singleton_append, looksUtf8_ascii (by omega), value, ih, single, control]
        simp only [Bool.or_assoc, Bool.false_or]
      · obtain ⟨b, t, bytes, hb, whole, -⟩ := multibyte_char (c := c) (by omega)
        have multi : isMultibyte c = true := decide_eq_true (by omega)
        have control : oddControl c = false := by simp only [oddControl, low, decide_false, Bool.false_and]
        rw [bytes, List.cons_append, looksUtf8_lead hb, whole]
        simp only [ih, multi, control, Bool.false_or, Bool.true_or, Bool.or_true]

/-- Whatever the loop does not reject is a text followed by a cut character. -/
theorem looksUtf8_accepts {u : Option Unichars} {ctrl gotone : Bool} {buf : List UInt8}
    (h : (looksUtf8 u ctrl gotone buf).1 ≠ -1) :
    ∃ cs rest, buf = utf8 cs ++ rest ∧ Truncated rest := by
  induction len : buf.length using Nat.strong_induction_on generalizing u ctrl gotone buf with
  | _ k ih =>
      subst len
      cases buf with
      | nil => exact ⟨[], [], rfl, truncated_nil⟩
      | cons b buf =>
          by_cases low : b.toNat < 0x80
          · rw [looksUtf8_ascii low] at h
            obtain ⟨cs, rest, rfl, cut⟩ := ih _ (Nat.lt_succ_self _) h rfl
            have scalar : Scalar b.toNat := .inl (by omega)
            have bytes : String.utf8EncodeChar scalar.char = [b] :=
              scalar.utf8EncodeChar_char (by rw [encode, if_pos (by omega)]; rfl)
            exact ⟨scalar.char :: cs, rest, by simp [bytes], cut⟩
          by_cases high : b.toNat < 0xC0
          · rw [looksUtf8_lone low high] at h
            exact absurd rfl h
          rw [looksUtf8_lead high] at h
          rcases multibyte_inv high buf with bad | ⟨-, cut⟩ | ⟨c, t, rest, rfl, bytes, -, ok⟩
          · rw [bad] at h
            exact absurd rfl h
          · exact ⟨[], b :: buf, rfl, cut⟩
          · rw [ok] at h
            obtain ⟨cs, rest', rfl, cut⟩ := ih _ (by simp only [List.length_cons, List.length_append]; omega) h rfl
            exact ⟨c :: cs, rest', by simp [bytes], cut⟩

/-- `file_looks_utf8` is exact. It returns -1 on precisely the buffers that begin
no well-formed UTF-8 text. Every other buffer is a text `cs` and a cut character;
the code points of `cs` are stored, and the verdict looks at `cs` only. -/
theorem fileLooksUtf8_exact (buf : List UInt8) (ubuf : Option Unichars) :
    ((fileLooksUtf8 buf ubuf).1 = -1 ↔ ¬ ∃ text, buf <+: utf8 text) ∧
    ((fileLooksUtf8 buf ubuf).1 ≠ -1 → ∃ cs rest, buf = utf8 cs ++ rest ∧ Truncated rest) ∧
    ∀ cs rest, buf = utf8 cs ++ rest → Truncated rest →
      (∀ u, ubuf = some u → buf.length ≤ u.cells.length →
        ∃ v, (fileLooksUtf8 buf ubuf).2 = some v ∧ v.text = cs.map Char.toNat ∧
          v.ulen = cs.length ∧ v.ulen ≤ buf.length ∧
          v.cells.drop v.ulen = u.cells.drop v.ulen) ∧
      ((fileLooksUtf8 buf ubuf).1 = 0 ↔ ∃ c ∈ cs, oddControl c) ∧
      ((fileLooksUtf8 buf ubuf).1 = 2 ↔ (¬ ∃ c ∈ cs, oddControl c) ∧ ∃ c ∈ cs, isMultibyte c) ∧
      ((fileLooksUtf8 buf ubuf).1 = 1 ↔ (¬ ∃ c ∈ cs, oddControl c) ∧ ¬ ∃ c ∈ cs, isMultibyte c) := by
  refine ⟨?_, looksUtf8_accepts, ?_⟩
  · constructor
    · rintro rejected ⟨text, hp⟩
      obtain ⟨cs, rest, rfl, cut⟩ := prefix_utf8 hp
      rw [fileLooksUtf8, looksUtf8_text cs cut, verdict] at rejected
      split_ifs at rejected
    · intro none
      by_contra accepted
      obtain ⟨cs, rest, rfl, cut⟩ := looksUtf8_accepts accepted
      exact none (cut.extends cs)
  · rintro cs rest rfl cut
    have run := looksUtf8_text cs cut (ubuf.map Unichars.reset) false false
    simp only [Bool.false_or] at run
    rw [fileLooksUtf8, run]
    refine ⟨?_, ?_⟩
    · rintro u rfl room
      have short := length_le_length_utf8 cs
      rw [List.length_append] at room ⊢
      obtain ⟨text, beyond⟩ := Unichars.pushAll_text (u := u.reset) (cs.map Char.toNat)
        (by simp only [Unichars.reset, List.length_map]; omega)
      have len : (u.reset.pushAll (cs.map Char.toNat)).ulen = cs.length := by
        simp [Unichars.reset]
      refine ⟨u.reset.pushAll (cs.map Char.toNat), rfl, text, len, by omega, ?_⟩
      simpa [Unichars.reset] using beyond
    · simp only [← List.any_eq_true]
      cases cs.any oddControl <;> cases cs.any isMultibyte <;> decide

end Libmagic.Encoding
