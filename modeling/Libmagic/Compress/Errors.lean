import Libmagic.Scan
import Libmagic.Softmagic.Cstring
import Libmagic.Softmagic.Output

/-!
# `compress.c`: what a decompressor says on its standard error

`uncompressbuf` reads both pipes of the child into one buffer, and `filter_error` makes a message of
what it finds there.
-/
namespace Libmagic.Compress

open Softmagic

namespace Errors

/-- What `uncompressbuf` returns. -/
inductive Status where
  | OKDATA | NODATA | ERRDATA
  deriving DecidableEq, Repr

structure Result where
  rv : Status
  newch : Bytes
  n : Nat
  deriving DecidableEq, Repr

def strchr (c : UInt8) : Bytes → Option Nat
  | [] => none
  | b :: s => if b = c then some 0 else (strchr c s).map (· + 1)

def strrchr (c : UInt8) : Bytes → Option Nat
  | [] => none
  | b :: s =>
      match strrchr c s with
      | some p => some (p + 1)
      | none => if b = c then some 0 else none

/-- `if ((p = strchr(buf, c)) != NULL) *p = '\0'`. -/
def cut (ubuf : Bytes) (buf : Nat) (c : UInt8) : Bytes :=
  match strchr c (cstring (ubuf.drop buf)) with
  | some p => ubuf.set (buf + p) 0
  | none => ubuf

/-- The first byte in upper case. -/
def capitalise : Bytes → Bytes
  | [] => []
  | b :: s => if islower b then toupper b :: s else b :: s

/-- `filter_error`: the buffer, and what is returned. -/
def filterError (ubuf : Bytes) (n : Nat) : Bytes × Nat :=
  let ubuf := ubuf.set n 0
  let buf := (ubuf.takeWhile isspace).length
  let ubuf := cut ubuf buf 10
  let ubuf := cut ubuf buf 59
  match strrchr 58 (cstring (ubuf.drop buf)) with
  | some p =>
      let p := buf + p + 1
      let p := p + ((ubuf.drop p).takeWhile isspace).length
      let n := (cstring (ubuf.drop p)).length
      (capitalise ((ubuf.drop p).take (n + 1) ++ ubuf.drop (n + 1)), n)
  | none => (capitalise ubuf, n)

/-- `makeerror`, with the message that `vasprintf` makes if there is memory for it. -/
def makeerror : (msg : Option Bytes) → Result
  | none => ⟨.NODATA, [], 0⟩
  | some msg => ⟨.ERRDATA, msg ++ [0], (cstring msg).length⟩

/-- What is read is in front of what was in the buffer. -/
def store (newch bs : Bytes) : Bytes := bs ++ newch.drop bs.length

/-- Label `ok` of `uncompressbuf`. -/
def ok (rv : Status) (newch : Bytes) (r : Nat) : Result := ⟨rv, newch.set r 0, r⟩

/-- `uncompressbuf` from the first `sread` to label `err`, with what the two pipes give. -/
def readPipes (newch : Bytes) (bytesMax n : Nat) (out err msg : Option Bytes) : Result :=
  match out with
  | none => ⟨.ERRDATA, newch, n⟩
  | some out =>
      let newch := store newch out
      if out.length = bytesMax then ok .OKDATA newch out.length
      else
        match err with
        | some [] => ok .OKDATA newch out.length
        | some err =>
            let filtered := filterError (store newch err) out.length
            ok .ERRDATA filtered.1 filtered.2
        | none => makeerror msg

/-! ## The rules for the message -/

/-- The first line without the space in front of it, up to a semicolon. -/
def line (text : Bytes) : Bytes :=
  (((cstring text).dropWhile isspace).takeWhile (· ≠ 10)).takeWhile (· ≠ 59)

/-- What is behind the last colon, if there is one. -/
def afterColon (text : Bytes) : Bytes := (text.reverse.takeWhile (· ≠ 58)).reverse

/-- What a text is reduced to. -/
def reduce (text : Bytes) : Bytes := capitalise ((afterColon (line text)).dropWhile isspace)

/-- What `filter_error` is told to look at: as many bytes as came from the standard output, of what is in
the buffer by then. -/
def seen (out err : Bytes) : Bytes := (err ++ out.drop err.length).take out.length

/-! ## C strings -/

theorem strchr_cases (c : UInt8) (s : Bytes) :
    c ∉ s ∧ strchr c s = none ∨ ∃ u v, s = u ++ c :: v ∧ c ∉ u ∧ strchr c s = some u.length := by
  induction s with
  | nil => exact .inl ⟨List.not_mem_nil, rfl⟩
  | cons b s ih =>
      rw [strchr]
      by_cases hb : b = c
      · subst hb
        exact .inr ⟨[], s, rfl, List.not_mem_nil, if_pos rfl⟩
      · rw [if_neg hb]
        rcases ih with ⟨none, known⟩ | ⟨u, v, rfl, none, known⟩
        · exact .inl ⟨fun member => none ((List.mem_cons.mp member).resolve_left (Ne.symm hb)), by rw [known]; rfl⟩
        · refine .inr ⟨b :: u, v, rfl, ?_, by rw [known]; rfl⟩
          exact fun member => none ((List.mem_cons.mp member).resolve_left (Ne.symm hb))

theorem strrchr_cases (c : UInt8) (s : Bytes) :
    c ∉ s ∧ strrchr c s = none ∨ ∃ u v, s = u ++ c :: v ∧ c ∉ v ∧ strrchr c s = some u.length := by
  induction s with
  | nil => exact .inl ⟨List.not_mem_nil, rfl⟩
  | cons b s ih =>
      rw [strrchr]
      rcases ih with ⟨none, known⟩ | ⟨u, v, rfl, none, known⟩
      · rw [known]
        by_cases hb : b = c
        · subst hb
          exact .inr ⟨[], s, rfl, none, if_pos rfl⟩
        · exact .inl ⟨fun member => none ((List.mem_cons.mp member).resolve_left (Ne.symm hb)), if_neg hb⟩
      · rw [known]
        exact .inr ⟨b :: u, v, rfl, none, rfl⟩

theorem takeWhile_cut {c : UInt8} {u : Bytes} (none : c ∉ u) (v : Bytes) :
    (u ++ c :: v).takeWhile (· ≠ c) = u := by
  have keep : ∀ b ∈ u, decide (b ≠ c) = true := by
    intro b member
    rw [decide_eq_true_iff]
    exact fun same => none (same ▸ member)
  rw [List.takeWhile_append_of_pos keep, List.takeWhile_cons_of_neg (by simp), List.append_nil]

theorem takeWhile_all {c : UInt8} {u : Bytes} (none : c ∉ u) : u.takeWhile (· ≠ c) = u := by
  rw [List.takeWhile_eq_self_iff]
  intro b member
  rw [decide_eq_true_iff]
  exact fun same => none (same ▸ member)

/-- Cutting a string in memory. -/
theorem cut_eq (a : Bytes) {t : Bytes} (free : (0 : UInt8) ∉ t) (rest : Bytes) (c : UInt8) :
    ∃ rest', cut (a ++ (t ++ 0 :: rest)) a.length c = a ++ (t.takeWhile (· ≠ c) ++ 0 :: rest') := by
  rw [cut, List.drop_left, cstring_terminated free]
  rcases strchr_cases c t with ⟨none, known⟩ | ⟨u, v, rfl, none, known⟩
  · rw [known, takeWhile_all none]
    exact ⟨rest, rfl⟩
  · rw [known, takeWhile_cut none]
    refine ⟨v ++ 0 :: rest, ?_⟩
    dsimp only
    rw [List.append_assoc, List.cons_append, List.set_append_right _ _ (by omega), Nat.add_sub_cancel_left,
      List.set_append_right _ _ (Nat.le_refl _), Nat.sub_self]
    rfl

/-- A text in memory is a string that ends no later. -/
theorem cstring_split (text rest : Bytes) : ∃ rest', text ++ 0 :: rest = cstring text ++ 0 :: rest' := by
  induction text with
  | nil => exact ⟨rest, rfl⟩
  | cons b text ih =>
      by_cases hb : b = 0
      · subst hb
        exact ⟨text ++ 0 :: rest, rfl⟩
      · obtain ⟨rest', same⟩ := ih
        have more : cstring (b :: text) = b :: cstring text :=
          List.takeWhile_cons_of_pos (bne_iff_ne.mpr hb)
        exact ⟨rest', by rw [more, List.cons_append, same]; rfl⟩

/-- The space in front of a string in memory. -/
theorem space_split (s rest : Bytes) : (s ++ 0 :: rest).takeWhile isspace = s.takeWhile isspace := by
  induction s with
  | nil => rfl
  | cons b s ih => rw [List.cons_append, List.takeWhile_cons, List.takeWhile_cons, ih]

theorem afterColon_eq (u : Bytes) {v : Bytes} (none : 58 ∉ v) : afterColon (u ++ 58 :: v) = v := by
  have turned : (u ++ 58 :: v).reverse = v.reverse ++ 58 :: u.reverse := by
    rw [List.reverse_append, List.reverse_cons, List.append_assoc, List.singleton_append]
  rw [afterColon, turned, takeWhile_cut (fun member => none (List.mem_reverse.mp member)), List.reverse_reverse]

/-! ## `filter_error` -/

/-- The space in front of the message. -/
def space (text : Bytes) : Bytes := (cstring text).takeWhile isspace

theorem filterError_eq (text : Bytes) (b : UInt8) (rest : Bytes) :
    ∃ junk, filterError (text ++ b :: rest) text.length =
      if 58 ∈ line text then
        (capitalise ((afterColon (line text)).dropWhile isspace ++ 0 :: junk),
          ((afterColon (line text)).dropWhile isspace).length)
      else (capitalise (space text ++ (line text ++ 0 :: junk)), text.length) := by
  obtain ⟨rest₁, start⟩ := cstring_split text rest
  have ended : (text ++ b :: rest).set text.length 0 = space text ++ ((cstring text).dropWhile isspace ++ 0 :: rest₁) := by
    rw [List.set_append_right _ _ (Nat.le_refl _), Nat.sub_self, List.set_cons_zero, start, ← List.append_assoc,
      space, List.takeWhile_append_dropWhile]
  have skip : (space text ++ ((cstring text).dropWhile isspace ++ 0 :: rest₁)).takeWhile isspace = space text := by
    rw [← List.append_assoc, space, List.takeWhile_append_dropWhile, space_split]
  have free₁ : (0 : UInt8) ∉ (cstring text).dropWhile isspace :=
    fun member => zero_notMem_cstring text ((List.dropWhile_suffix _).subset member)
  obtain ⟨rest₂, newline⟩ := cut_eq (space text) free₁ rest₁ 10
  have free₂ : (0 : UInt8) ∉ ((cstring text).dropWhile isspace).takeWhile (· ≠ 10) :=
    fun member => free₁ ((List.takeWhile_prefix _).subset member)
  obtain ⟨rest₃, semicolon⟩ := cut_eq (space text) free₂ rest₂ 59
  have free₃ : (0 : UInt8) ∉ line text := fun member => free₂ ((List.takeWhile_prefix _).subset member)
  rw [← line] at semicolon
  rw [filterError, ended]
  dsimp only
  rw [skip, newline, semicolon, List.drop_left, cstring_terminated free₃]
  rcases strrchr_cases 58 (line text) with ⟨none, known⟩ | ⟨u, v, found, none, known⟩
  · refine ⟨rest₃, ?_⟩
    rw [known, if_neg none]
  · have member : 58 ∈ line text := by
      rw [found]
      exact List.mem_append_right u List.mem_cons_self
    have free : (0 : UInt8) ∉ v.dropWhile isspace := by
      intro zero
      apply free₃
      rw [found]
      exact List.mem_append_right u (List.mem_cons_of_mem _ ((List.dropWhile_suffix _).subset zero))
    have behind : (space text ++ (line text ++ 0 :: rest₃)).drop ((space text).length + u.length + 1) =
        v ++ 0 :: rest₃ := by
      rw [Nat.add_assoc, ← List.drop_drop, List.drop_left, ← List.drop_drop, found, List.append_assoc,
        List.drop_left]
      rfl
    have message : (space text ++ (line text ++ 0 :: rest₃)).drop
        ((space text).length + u.length + 1 + (v.takeWhile isspace).length) =
        v.dropWhile isspace ++ 0 :: rest₃ := by
      have whole : v ++ 0 :: rest₃ = v.takeWhile isspace ++ (v.dropWhile isspace ++ 0 :: rest₃) := by
        rw [← List.append_assoc, List.takeWhile_append_dropWhile]
      rw [← List.drop_drop, behind, whole, List.drop_left]
    have moved : afterColon (line text) = v := by rw [found, afterColon_eq u none]
    refine ⟨(space text ++ (line text ++ 0 :: rest₃)).drop ((v.dropWhile isspace).length + 1), ?_⟩
    rw [known, if_pos member, moved]
    dsimp only
    rw [behind, space_split, message, cstring_terminated free, List.take_append, List.take_of_length_le (Nat.le_succ _),
      Nat.add_sub_cancel_left, List.append_assoc]
    rfl

/-! ## The message -/

theorem capitalise_length (s : Bytes) : (capitalise s).length = s.length := by
  cases s with
  | nil => rfl
  | cons b s =>
      rw [capitalise]
      split <;> rfl

theorem capitalise_append (s rest : Bytes) : capitalise (s ++ 0 :: rest) = capitalise s ++ 0 :: rest := by
  cases s with
  | nil => rfl
  | cons b s =>
      rw [List.cons_append, capitalise, capitalise]
      split <;> rfl

theorem islower_range {b : UInt8} (lower : islower b) : 97 ≤ b.toNat ∧ b.toNat ≤ 122 := by
  rw [islower, Bool.and_eq_true, decide_eq_true_iff, decide_eq_true_iff] at lower
  exact lower

theorem isspace_low {b : UInt8} (space : isspace b) : b.toNat ≤ 32 := by
  rw [isspace, Bool.or_eq_true, Bool.and_eq_true, beq_iff_eq, decide_eq_true_iff, decide_eq_true_iff,
    UInt8.le_iff_toNat_le, UInt8.le_iff_toNat_le] at space
  rcases space with rfl | ⟨-, high⟩
  · exact Nat.le_refl 32
  · exact Nat.le_trans high (by decide)

theorem islower_toupper {b : UInt8} (lower : islower b) : toupper b ≠ 0 ∧ isspace (toupper b) = false := by
  obtain ⟨low, high⟩ := islower_range lower
  have value : (toupper b).toNat = b.toNat - 32 := by
    rw [toupper, if_pos lower, UInt8.toNat_sub_of_le]
    · rfl
    · exact Nat.le_trans (by decide) low
  constructor
  · intro zero
    rw [zero] at value
    have none : UInt8.toNat 0 = 0 := rfl
    omega
  · apply Bool.eq_false_iff.mpr
    intro space
    have := isspace_low space
    omega

theorem capitalise_free {s : Bytes} (free : (0 : UInt8) ∉ s) : (0 : UInt8) ∉ capitalise s := by
  cases s with
  | nil => exact free
  | cons b s =>
      rw [capitalise]
      split
      case isTrue lower =>
        intro member
        rcases List.mem_cons.mp member with zero | member
        · exact (islower_toupper lower).1 zero.symm
        · exact free (List.mem_cons_of_mem b member)
      case isFalse => exact free

theorem capitalise_head {s : Bytes} (stop : ∀ b ∈ s.head?, isspace b = false) :
    ∀ b ∈ (capitalise s).head?, isspace b = false := by
  cases s with
  | nil => exact stop
  | cons b s =>
      rw [capitalise]
      split
      case isTrue lower =>
        rintro c ⟨⟩
        exact (islower_toupper lower).2
      case isFalse => exact stop

theorem line_free (text : Bytes) : (0 : UInt8) ∉ line text := fun member =>
  zero_notMem_cstring text ((List.dropWhile_suffix _).subset ((List.takeWhile_prefix _).subset
    ((List.takeWhile_prefix _).subset member)))

theorem line_head (text : Bytes) : ∀ b ∈ (line text).head?, isspace b = false := by
  intro b first
  have front : line text <+: (cstring text).dropWhile isspace :=
    (List.takeWhile_prefix _).trans (List.takeWhile_prefix _)
  obtain ⟨rest, same⟩ := front
  refine dropWhile_head (cstring text) b ?_
  rw [← same, List.head?_append, first]
  rfl

/-- Where there is no colon, the whole line is the message. -/
theorem reduce_line {text : Bytes} (none : 58 ∉ line text) : reduce text = capitalise (line text) := by
  have whole : afterColon (line text) = line text := by
    rw [afterColon, takeWhile_all (fun member => none (List.mem_reverse.mp member)), List.reverse_reverse]
  rw [reduce, whole, dropWhile_stop (line_head text)]

theorem space_line (text : Bytes) : space text ++ line text <+: text := by
  have front : line text <+: (cstring text).dropWhile isspace :=
    (List.takeWhile_prefix _).trans (List.takeWhile_prefix _)
  have whole : space text ++ (cstring text).dropWhile isspace = cstring text := List.takeWhile_append_dropWhile
  have string : space text ++ line text <+: cstring text := by
    rw [← whole]
    exact (List.prefix_append_right_inj _).mpr front
  exact string.trans (List.takeWhile_prefix _)

theorem reduce_free (text : Bytes) : (0 : UInt8) ∉ reduce text := by
  refine capitalise_free (fun member => line_free text ?_)
  have behind : (0 : UInt8) ∈ afterColon (line text) := (List.dropWhile_suffix _).subset member
  rw [afterColon, List.mem_reverse] at behind
  exact List.mem_reverse.mp ((List.takeWhile_prefix _).subset behind)

theorem reduce_head (text : Bytes) : ∀ b ∈ (reduce text).head?, isspace b = false :=
  capitalise_head (dropWhile_head _)

/-- The message is the one that the text is reduced to, and its length is right. -/
def Intact (result : Result) (text : Bytes) : Prop :=
  result.rv = .ERRDATA ∧ 0 ∈ result.newch ∧ cstring result.newch = reduce text ∧ result.n = (reduce text).length

theorem intact_iff {message : Bytes} (free : (0 : UInt8) ∉ message) (rest : Bytes) (n : Nat) (text : Bytes) :
    Intact ⟨.ERRDATA, message ++ 0 :: rest, n⟩ text ↔ message = reduce text ∧ n = (reduce text).length := by
  rw [Intact, cstring_terminated free]
  constructor
  · rintro ⟨-, -, same, length⟩
    exact ⟨same, length⟩
  · rintro ⟨same, length⟩
    exact ⟨rfl, List.mem_append_right _ List.mem_cons_self, same, length⟩

/-- A string that ends in memory, with a byte behind it set to NUL. -/
theorem set_behind (s rest : Bytes) {k : Nat} (behind : s.length ≤ k) :
    ∃ rest', (s ++ 0 :: rest).set k 0 = s ++ 0 :: rest' := by
  rw [List.set_append_right _ _ behind]
  cases k - s.length with
  | zero => exact ⟨rest, rfl⟩
  | succ j => exact ⟨rest.set j 0, rfl⟩

/-- What the buffer holds when `filter_error` is called. -/
theorem store_seen {newch out err : Bytes} (room : out.length < newch.length) :
    ∃ b rest, store (store newch out) err = seen out err ++ b :: rest ∧ (seen out err).length = out.length := by
  have size : out.length ≤ (err ++ out.drop err.length).length := by
    rw [List.length_append, List.length_drop]
    omega
  have front : (store (store newch out) err).take out.length = seen out err := by
    rw [store, store, List.drop_append, ← List.append_assoc, List.take_append_of_le_length size]
    rfl
  have whole := List.take_append_drop out.length (store (store newch out) err)
  rw [front] at whole
  have length : (seen out err).length = out.length := by rw [seen, List.length_take, Nat.min_eq_left size]
  cases back : (store (store newch out) err).drop out.length with
  | nil =>
      have short := congrArg List.length back
      rw [List.length_drop, store, store, List.length_append, List.length_drop, List.length_append,
        List.length_drop, List.length_nil] at short
      omega
  | cons b rest => exact ⟨b, rest, by rw [← whole, back], length⟩

theorem readPipes_eq {newch out err : Bytes} {bytesMax : Nat} (n : Nat) (msg : Option Bytes)
    (more : out.length < bytesMax) (some : err ≠ []) :
    readPipes newch bytesMax n (.some out) (.some err) msg =
      ok .ERRDATA (filterError (store (store newch out) err) out.length).1
        (filterError (store (store newch out) err) out.length).2 := by
  cases err with
  | nil => exact absurd rfl some
  | cons b err =>
      rw [readPipes, if_neg (Nat.ne_of_lt more)]
      exact List.cons_ne_nil b err

/-- The message is intact exactly if what `filter_error` looks at is reduced to the same, and it has a colon or
needs no cut. -/
theorem readPipes_intact (newch out err : Bytes) (bytesMax n : Nat) (msg : Option Bytes)
    (size : newch.length = bytesMax + 1) (more : out.length < bytesMax) (some : err ≠ []) :
    Intact (readPipes newch bytesMax n (.some out) (.some err) msg) err ↔
      reduce (seen out err) = reduce err ∧ (58 ∈ line (seen out err) ∨ line (seen out err) = seen out err) := by
  obtain ⟨b, rest, memory, length⟩ := @store_seen newch out err (by omega)
  obtain ⟨junk, filtered⟩ := filterError_eq (seen out err) b rest
  rw [readPipes_eq n msg more some, memory, ← length, filtered]
  generalize seen out err = text
  by_cases colon : 58 ∈ line text
  · have width := capitalise_length ((afterColon (line text)).dropWhile isspace)
    obtain ⟨junk', ended⟩ := set_behind (reduce text) junk (Nat.le_of_eq width)
    rw [if_pos colon, ok, capitalise_append, ← reduce, ended, intact_iff (reduce_free text), ← width, ← reduce]
    constructor
    · rintro ⟨same, -⟩
      exact ⟨same, .inl colon⟩
    · rintro ⟨same, -⟩
      exact ⟨same, by rw [same]⟩
  · have behind : (capitalise (space text ++ line text)).length ≤ text.length := by
      rw [capitalise_length]
      exact (space_line text).length_le
    obtain ⟨junk', ended⟩ := set_behind (capitalise (space text ++ line text)) junk behind
    have free : (0 : UInt8) ∉ capitalise (space text ++ line text) := by
      refine capitalise_free (fun member => ?_)
      rcases List.mem_append.mp member with member | member
      · exact zero_notMem_cstring text ((List.takeWhile_prefix _).subset member)
      · exact line_free text member
    rw [if_neg colon, ok, ← List.append_assoc, capitalise_append, ended, intact_iff free, or_iff_right colon,
      reduce_line colon]
    constructor
    · rintro ⟨same, all : text.length = (reduce err).length⟩
      have whole : space text ++ line text = text := by
        refine (space_line text).eq_of_length ?_
        rw [all, ← same, capitalise_length]
      have none : space text = [] := by
        cases front : space text with
        | nil => rfl
        | cons c rest =>
            have blank : isspace c = true := by
              have member : c ∈ space text := by
                rw [front]
                exact List.mem_cons_self
              exact List.mem_takeWhile_imp member
            have kept : ¬ islower c = true := by
              intro lower
              have := islower_range lower
              have := isspace_low blank
              omega
            rw [front, List.cons_append, capitalise, if_neg kept] at same
            have first := reduce_head err c (by rw [← same]; rfl)
            exact absurd blank (Bool.eq_false_iff.mp first)
      rw [none, List.nil_append] at same whole
      exact ⟨same, whole⟩
    · rintro ⟨same, whole⟩
      have none : space text = [] := by
        have length := (space_line text).length_le
        rw [List.length_append, whole] at length
        exact List.length_eq_zero_iff.mp (by omega)
      rw [none, List.nil_append]
      refine ⟨same, ?_⟩
      rw [← same, capitalise_length, whole]

/-- `gz: bad` and a newline, on what came from the standard output. -/
theorem readPipes_intact_line :
    Intact (readPipes (List.replicate 33 0) 32 0 (some (List.replicate 17 1))
      (some [103, 122, 58, 32, 98, 97, 100, 10, 99]) none) [103, 122, 58, 32, 98, 97, 100, 10, 99] :=
  (readPipes_intact (List.replicate 33 0) (List.replicate 17 1) [103, 122, 58, 32, 98, 97, 100, 10, 99] 32 0 none
    (by decide) (by decide) (by decide)).mpr (by decide)

/-- Nothing came from the standard output. -/
theorem readPipes_not_intact :
    ¬ Intact (readPipes (List.replicate 33 0) 32 0 (some []) (some [98, 97, 100]) none) [98, 97, 100] := by
  rintro ⟨-, -, same, -⟩
  revert same
  decide

end Errors

end Libmagic.Compress
