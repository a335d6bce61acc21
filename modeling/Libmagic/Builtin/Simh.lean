import Libmagic.Memory
import Libmagic.Softmagic.Types

/-!
# `is_simh.c`: the records of a SIMH tape

The pointer is an offset into the buffer. It may be moved past the end, but a read there has no
result.
-/
namespace Libmagic.Builtin

open Softmagic

namespace Simh

def SIMH_TAPEMARKS : Nat := 10

/-- End of medium. -/
def EOM : Nat := 0xffffffff

/-- `NEED_SWAP`. -/
def needSwap (host : Order) : Bool := host.load [1, 2, 3, 4] == 0x01020304

/-- `getlen`, with what becomes of `*err`. -/
def getlen (host : Order) (buf : Bytes) (uc : Nat) : Option (Nat × Bool) :=
  if uc + 4 ≤ buf.length then
    let n := host.load ((buf.drop uc).take 4)
    let n := if needSwap host then Order.swap 4 n else n
    if n = EOM then some (n, false)
    else
      let err := decide (n &&& 0x00ffffff ≠ n &&& 0x0fffffff)
      let n := n &&& 0x00ffffff
      some (if n &&& 1 ≠ 0 then n + 1 else n, err)
  else none

/-- What `simh_parse` checks behind its loop. -/
def finish (uc nt nr : Nat) : Option Nat :=
  if nt * 4 = uc then some 0 else if nr = 0 then some 0 else some 1

/-- The loop of `simh_parse`. -/
def simhLoop (host : Order) (buf : Bytes) (uc nt nr : Nat) : Option Nat :=
  if uc + 4 ≤ buf.length then
    match getlen host buf uc with
    | none => none
    | some (nbytes, err) =>
        if err then some 0
        else if (nt > 0 ∨ nr > 0) ∧ nbytes = 0xFFFFFFFF then finish (uc + 4) nt nr
        else if nbytes = 0 then
          if nt + 1 = SIMH_TAPEMARKS then finish (uc + 4) (nt + 1) nr
          else simhLoop host buf (uc + 4) (nt + 1) nr
        else if buf.length < uc + 4 + nbytes + 4 then finish (uc + 4 + nbytes) nt nr
        else
          match getlen host buf (uc + 4 + nbytes) with
          | none => none
          | some (cbytes, err) =>
              if err then some 0
              else if nbytes ≠ cbytes then some 0
              else simhLoop host buf (uc + 4 + nbytes + 4) nt (nr + 1)
  else finish uc nt nr
  termination_by buf.length - uc

/-- `simh_parse`. -/
def simhParse (host : Order) (buf : Bytes) : Option Nat := simhLoop host buf 0 0 0

/-! ## Length words -/

/-- The word at a place of the buffer. -/
def word (buf : Bytes) (p : Nat) : Nat := Order.little.load ((buf.drop p).take 4)

/-- The length in a word, which has 24 bits. -/
def lengthOf (n : Nat) : Nat := n % 2 ^ 24

/-- One of the bits 24 to 27 is used. -/
def Reserved (n : Nat) : Prop := n / 2 ^ 24 % 16 ≠ 0

instance (n : Nat) : Decidable (Reserved n) := inferInstanceAs (Decidable (_ ≠ _))

/-- How many bytes a record with that word has, with its padding. -/
def padded (n : Nat) : Nat := if n = EOM then EOM else lengthOf n + lengthOf n % 2

theorem needSwap_eq (host : Order) : needSwap host = decide (host = .big) := by
  cases host <;> decide

/-- Whatever the order of the machine, a word is little endian. -/
theorem getlen_eq (host : Order) {buf : Bytes} {uc : Nat} (inside : uc + 4 ≤ buf.length) :
    getlen host buf uc = some (padded (word buf uc), decide (word buf uc ≠ EOM ∧ Reserved (word buf uc))) := by
  have size : ((buf.drop uc).take 4).length = 4 := by
    rw [List.length_take, List.length_drop]
    omega
  have native : (if needSwap host then Order.swap 4 (host.load ((buf.drop uc).take 4))
      else host.load ((buf.drop uc).take 4)) = word buf uc := by
    rw [needSwap_eq]
    cases host with
    | little => rfl
    | big => exact Order.swap_load .big size
  rw [getlen, if_pos inside]
  dsimp only
  rw [native]
  by_cases eom : word buf uc = EOM
  · rw [if_pos eom, padded, if_pos eom, eom]
    rfl
  · have low : word buf uc &&& 0x00ffffff = lengthOf (word buf uc) :=
      Nat.and_two_pow_sub_one_eq_mod (word buf uc) 24
    have all : word buf uc &&& 0x0fffffff = word buf uc % 2 ^ 28 :=
      Nat.and_two_pow_sub_one_eq_mod (word buf uc) 28
    have odd : lengthOf (word buf uc) &&& 1 = lengthOf (word buf uc) % 2 := Nat.and_one_is_mod _
    have more : lengthOf (word buf uc) ≠ word buf uc % 2 ^ 28 ↔ Reserved (word buf uc) := by
      unfold lengthOf Reserved
      omega
    rw [if_neg eom, low, all, odd, padded, if_neg eom]
    have err : decide (lengthOf (word buf uc) ≠ word buf uc % 2 ^ 28) =
        decide (word buf uc ≠ EOM ∧ Reserved (word buf uc)) := by
      rw [decide_eq_decide, more, and_iff_right eom]
    rw [err]
    congr 2
    split <;> omega

/-! ## The items of a buffer -/

/-- A tapemark. -/
def IsMark (n : Nat) : Prop := lengthOf n = 0 ∧ ¬ Reserved n

/-- What is read at `uc` is the front of a record, when `nt` tapemarks and `nr` records were read before. -/
def IsRecord (buf : Bytes) (uc nt nr : Nat) : Prop :=
  uc + 4 ≤ buf.length ∧ ¬ IsMark (word buf uc) ∧ ¬ ((nt > 0 ∨ nr > 0) ∧ word buf uc = EOM)

/-- Where the second length of the record at `p` is. -/
def trailer (buf : Bytes) (p : Nat) : Nat := p + 4 + padded (word buf p)

/-- The record at `p` is there up to its second length. -/
def Complete (buf : Bytes) (p : Nat) : Prop := trailer buf p + 4 ≤ buf.length

instance (buf : Bytes) (p : Nat) : Decidable (Complete buf p) := inferInstanceAs (Decidable (_ ≤ _))

/-- The lengths of the record at `p` are not the same, or one of the words has a bit it must not have. -/
def Bad (buf : Bytes) (p : Nat) : Prop :=
  Reserved (word buf p) ∨ Complete buf p ∧
    (Reserved (word buf (trailer buf p)) ∨ lengthOf (word buf p) ≠ lengthOf (word buf (trailer buf p)))

/-- Of the lengths one is odd and the other is the next even number, or both words are those of an end of
medium. -/
def Slip (buf : Bytes) (p : Nat) : Prop :=
  Complete buf p ∧
    (word buf p = EOM ∧ word buf (trailer buf p) = EOM ∨
      ¬ Reserved (word buf p) ∧ ¬ Reserved (word buf (trailer buf p)) ∧
        ∃ k, lengthOf (word buf p) = 2 * k + 1 ∧ lengthOf (word buf (trailer buf p)) = 2 * k + 2 ∨
          lengthOf (word buf p) = 2 * k + 2 ∧ lengthOf (word buf (trailer buf p)) = 2 * k + 1)

/-- The words of the record pass for a pair. -/
def Pairs (n n' : Nat) : Prop :=
  ¬ (n ≠ EOM ∧ Reserved n) ∧ ¬ (n' ≠ EOM ∧ Reserved n') ∧ padded n = padded n'

instance (n n' : Nat) : Decidable (Pairs n n') := inferInstanceAs (Decidable (_ ∧ _))

/-- The record at `p` is one of those that are looked at from `uc` on. -/
inductive Examines (buf : Bytes) : (uc nt nr p : Nat) → Prop where
  | here {uc nt nr : Nat} (record : IsRecord buf uc nt nr) : Examines buf uc nt nr uc
  | mark {uc nt nr p : Nat} (inside : uc + 4 ≤ buf.length) (mark : IsMark (word buf uc))
      (more : nt + 1 ≠ SIMH_TAPEMARKS) (rest : Examines buf (uc + 4) (nt + 1) nr p) : Examines buf uc nt nr p
  | next {uc nt nr p : Nat} (record : IsRecord buf uc nt nr) (complete : Complete buf uc)
      (pair : Pairs (word buf uc) (word buf (trailer buf uc)))
      (rest : Examines buf (trailer buf uc + 4) nt (nr + 1) p) : Examines buf uc nt nr p

theorem reserved_eom : Reserved EOM := by decide

theorem IsMark.ne_eom {n : Nat} (mark : IsMark n) : n ≠ EOM := by
  rintro rfl
  exact mark.2 reserved_eom

theorem IsMark.padded_eq {n : Nat} (mark : IsMark n) : padded n = 0 := by
  rw [padded, if_neg mark.ne_eom, mark.1]

theorem isRecord_first {buf : Bytes} (inside : 4 ≤ buf.length) (some : lengthOf (word buf 0) ≠ 0) :
    IsRecord buf 0 0 0 :=
  ⟨by omega, fun mark => some mark.1, by omega⟩

theorem bad_pairs {buf : Bytes} {p : Nat} (complete : Complete buf p) (bad : Bad buf p) :
    Pairs (word buf p) (word buf (trailer buf p)) ↔ Slip buf p := by
  unfold Bad at bad
  unfold Slip
  rw [and_iff_right complete] at bad ⊢
  generalize word buf p = n at bad ⊢
  generalize word buf (trailer buf p) = n' at bad ⊢
  have small (m : Nat) : lengthOf m < EOM := Nat.lt_of_lt_of_le (Nat.mod_lt _ (by decide)) (by decide)
  have first := small n
  have second := small n'
  unfold Pairs padded
  by_cases eom : n = EOM
  · subst eom
    rw [if_pos rfl]
    by_cases eom' : n' = EOM
    · subst eom'
      exact iff_of_true ⟨fun h => h.1 rfl, fun h => h.1 rfl, (if_pos rfl).symm⟩ (.inl ⟨rfl, rfl⟩)
    · rw [if_neg eom']
      refine iff_of_false ?_ ?_
      · rintro ⟨-, -, same⟩
        unfold EOM at same second
        omega
      · rintro (⟨-, same⟩ | ⟨free, -⟩)
        · exact eom' same
        · exact free reserved_eom
  · rw [if_neg eom]
    by_cases eom' : n' = EOM
    · subst eom'
      rw [if_pos rfl]
      refine iff_of_false ?_ ?_
      · rintro ⟨-, -, same⟩
        unfold EOM at same first
        omega
      · rintro (⟨same, -⟩ | ⟨-, free, -⟩)
        · exact eom same
        · exact free reserved_eom
    · rw [if_neg eom']
      constructor
      · rintro ⟨free, free', same⟩
        have free : ¬ Reserved n := fun h => free ⟨eom, h⟩
        have free' : ¬ Reserved n' := fun h => free' ⟨eom', h⟩
        have differ : lengthOf n ≠ lengthOf n' := by
          rcases bad with h | h | h
          · exact absurd h free
          · exact absurd h free'
          · exact h
        refine .inr ⟨free, free', (lengthOf n - 1) / 2, ?_⟩
        omega
      · rintro (⟨same, -⟩ | ⟨free, free', k, lengths⟩)
        · exact absurd same eom
        · exact ⟨fun h => free h.2, fun h => free' h.2, by omega⟩

/-! ## The loop -/

section Loop

variable (host : Order) {buf : Bytes} {uc nt nr : Nat}

theorem simhLoop_short (short : ¬ uc + 4 ≤ buf.length) : simhLoop host buf uc nt nr = finish uc nt nr := by
  rw [simhLoop, if_neg short]

theorem simhLoop_mark (inside : uc + 4 ≤ buf.length) (mark : IsMark (word buf uc)) :
    simhLoop host buf uc nt nr =
      if nt + 1 = SIMH_TAPEMARKS then finish (uc + 4) (nt + 1) nr else simhLoop host buf (uc + 4) (nt + 1) nr := by
  have fine : decide (word buf uc ≠ EOM ∧ Reserved (word buf uc)) = false :=
    decide_eq_false (fun h => mark.2 h.2)
  rw [simhLoop, if_pos inside, getlen_eq host inside, fine, mark.padded_eq]
  dsimp only
  rw [if_neg Bool.false_ne_true, if_neg (by omega), if_pos rfl]

theorem simhLoop_eom (inside : uc + 4 ≤ buf.length) (seen : nt > 0 ∨ nr > 0) (eom : word buf uc = EOM) :
    simhLoop host buf uc nt nr = finish (uc + 4) nt nr := by
  have known : padded EOM = 0xFFFFFFFF := rfl
  rw [simhLoop, if_pos inside, getlen_eq host inside, eom, decide_eq_false (fun h => h.1 rfl)]
  dsimp only
  rw [if_neg Bool.false_ne_true, if_pos ⟨seen, known⟩]

theorem simhLoop_record (record : IsRecord buf uc nt nr) :
    simhLoop host buf uc nt nr =
      if word buf uc ≠ EOM ∧ Reserved (word buf uc) then some 0
      else if Complete buf uc then
        if Pairs (word buf uc) (word buf (trailer buf uc)) then simhLoop host buf (trailer buf uc + 4) nt (nr + 1)
        else some 0
      else finish (trailer buf uc) nt nr := by
  obtain ⟨inside, noMark, noEom⟩ := record
  rw [simhLoop, if_pos inside, getlen_eq host inside]
  dsimp only
  by_cases err : word buf uc ≠ EOM ∧ Reserved (word buf uc)
  · rw [decide_eq_true err, if_pos rfl, if_pos err]
  · have nonzero : padded (word buf uc) ≠ 0 := by
      unfold padded
      by_cases eom : word buf uc = EOM
      · rw [if_pos eom]
        decide
      · rw [if_neg eom]
        intro zero
        exact noMark ⟨by omega, fun h => err ⟨eom, h⟩⟩
    have noEom' : ¬ ((nt > 0 ∨ nr > 0) ∧ padded (word buf uc) = 0xFFFFFFFF) := by
      rintro ⟨seen, eom⟩
      refine noEom ⟨seen, ?_⟩
      by_contra other
      have small : lengthOf (word buf uc) < 2 ^ 24 := Nat.mod_lt _ (by decide)
      rw [padded, if_neg other] at eom
      omega
    have second : uc + 4 + padded (word buf uc) = trailer buf uc := rfl
    rw [decide_eq_false err, if_neg Bool.false_ne_true, if_neg noEom', if_neg nonzero, if_neg err, second]
    by_cases complete : Complete buf uc
    · have room : ¬ buf.length < trailer buf uc + 4 := Nat.not_lt.mpr complete
      rw [if_neg room, if_pos complete, getlen_eq host complete]
      dsimp only
      by_cases err' : word buf (trailer buf uc) ≠ EOM ∧ Reserved (word buf (trailer buf uc))
      · rw [decide_eq_true err', if_pos rfl, if_neg (fun pair => pair.2.1 err')]
      · rw [decide_eq_false err', if_neg Bool.false_ne_true]
        by_cases same : padded (word buf uc) = padded (word buf (trailer buf uc))
        · rw [if_neg (not_not_intro same), if_pos ⟨err, err', same⟩]
        · rw [if_pos same, if_neg (fun pair => same pair.2.2)]
    · rw [if_pos (Nat.lt_of_not_le complete), if_neg complete]

/-- The offset grows as long as there is a word to read. -/
theorem walk_induction (buf : Bytes) {motive : Nat → Nat → Nat → Prop}
    (step : ∀ uc nt nr, (∀ uc' nt' nr', uc + 4 ≤ buf.length → uc + 4 ≤ uc' → motive uc' nt' nr') →
      motive uc nt nr) (uc nt nr : Nat) : motive uc nt nr := by
  generalize left : buf.length - uc = n
  induction n using Nat.strong_induction_on generalizing uc nt nr with
  | _ n ih =>
      refine step uc nt nr (fun uc' nt' nr' inside further => ?_)
      exact ih (buf.length - uc') (by omega) uc' nt' nr' rfl

theorem finish_ne_none (uc nt nr : Nat) : finish uc nt nr ≠ none := by
  unfold finish
  split
  · exact Option.some_ne_none _
  · split <;> exact Option.some_ne_none _

theorem finish_one (nr_pos : 0 < nr) (front : nt * 4 < uc) : finish uc nt nr = some 1 := by
  rw [finish, if_neg (Nat.ne_of_lt front), if_neg (Nat.ne_of_gt nr_pos)]

/-- What is read at a place where there is a word. -/
theorem item_cases (inside : uc + 4 ≤ buf.length) :
    IsMark (word buf uc) ∨ ((nt > 0 ∨ nr > 0) ∧ word buf uc = EOM) ∨ IsRecord buf uc nt nr := by
  by_cases mark : IsMark (word buf uc)
  · exact .inl mark
  · by_cases eom : (nt > 0 ∨ nr > 0) ∧ word buf uc = EOM
    · exact .inr (.inl eom)
    · exact .inr (.inr ⟨inside, mark, eom⟩)

theorem simhLoop_ne_none (uc nt nr : Nat) : simhLoop host buf uc nt nr ≠ none := by
  induction uc, nt, nr using walk_induction buf with
  | step uc nt nr ih =>
      by_cases inside : uc + 4 ≤ buf.length
      · rcases @item_cases buf uc nt nr inside with mark | ⟨seen, eom⟩ | record
        · rw [simhLoop_mark host inside mark]
          split
          · exact finish_ne_none _ _ _
          · exact ih _ _ _ inside (Nat.le_refl _)
        · rw [simhLoop_eom host inside seen eom]
          exact finish_ne_none _ _ _
        · rw [simhLoop_record host record]
          have further : uc + 4 ≤ trailer buf uc + 4 := by
            unfold trailer
            omega
          split
          · exact Option.some_ne_none _
          · split
            · split
              · exact ih _ _ _ inside further
              · exact Option.some_ne_none _
            · exact finish_ne_none _ _ _
      · rw [simhLoop_short host inside]
        exact finish_ne_none _ _ _

/-- A bad record that is no slip is refused. -/
theorem simhLoop_refuses {p : Nat} (examined : Examines buf uc nt nr p) (bad : Bad buf p) (clear : ¬ Slip buf p) :
    simhLoop host buf uc nt nr = some 0 := by
  induction examined with
  | @here uc nt nr record =>
      rw [simhLoop_record host record]
      by_cases err : word buf uc ≠ EOM ∧ Reserved (word buf uc)
      · exact if_pos err
      · rw [if_neg err]
        by_cases complete : Complete buf uc
        · rw [if_pos complete, if_neg (fun pair => clear ((bad_pairs complete bad).mp pair))]
        · rw [if_neg complete]
          have reserved : Reserved (word buf uc) := bad.resolve_right (fun h => complete h.1)
          have eom : word buf uc = EOM := by
            by_contra other
            exact err ⟨other, reserved⟩
          have none : nr = 0 := by
            by_contra pos
            exact record.2.2 ⟨.inr (Nat.pos_of_ne_zero pos), eom⟩
          rw [finish, if_pos none, ite_self]
  | mark inside mark more _ ih => rw [simhLoop_mark host inside mark, if_neg more, ih bad clear]
  | next record complete pair _ ih =>
      rw [simhLoop_record host record, if_neg pair.1, if_pos complete, if_pos pair, ih bad clear]

theorem pairs_of_not_bad {p : Nat} (complete : Complete buf p) (fine : ¬ Bad buf p) :
    Pairs (word buf p) (word buf (trailer buf p)) := by
  obtain ⟨free, rest⟩ := not_or.mp fine
  have rest := not_or.mp (fun h => rest ⟨complete, h⟩)
  have same := not_not.mp rest.2
  have noEom (n : Nat) (h : ¬ Reserved n) : n ≠ EOM := by
    rintro rfl
    exact h reserved_eom
  refine ⟨fun h => free h.2, fun h => rest.1 h.2, ?_⟩
  rw [padded, padded, if_neg (noEom _ free), if_neg (noEom _ rest.1), same]

theorem Examines.inside {p : Nat} (examined : Examines buf uc nt nr p) : uc + 4 ≤ buf.length := by
  cases examined with
  | here record => exact record.1
  | mark inside => exact inside
  | next record => exact record.1

/-- When nothing is refused, one record that was read to its end is enough. -/
theorem simhLoop_accepts (front : nt * 4 ≤ uc ∧ (0 < nr → nt * 4 < uc))
    (fine : ∀ p, Examines buf uc nt nr p → Bad buf p → Slip buf p)
    (seen : 0 < nr ∨ ∃ p, Examines buf uc nt nr p ∧ Complete buf p) :
    simhLoop host buf uc nt nr = some 1 := by
  induction uc, nt, nr using walk_induction buf with
  | step uc nt nr ih =>
      by_cases inside : uc + 4 ≤ buf.length
      · rcases @item_cases buf uc nt nr inside with mark | ⟨some, eom⟩ | record
        · have pos : nt + 1 = SIMH_TAPEMARKS → 0 < nr := by
            intro last
            refine seen.resolve_right (fun ⟨p, examined, _⟩ => ?_)
            cases examined with
            | here record => exact record.2.1 mark
            | mark _ _ more => exact more last
            | next record => exact record.2.1 mark
          rw [simhLoop_mark host inside mark]
          by_cases last : nt + 1 = SIMH_TAPEMARKS
          · have before := front.2 (pos last)
            rw [if_pos last, finish_one (pos last) (by omega)]
          · rw [if_neg last]
            refine ih _ _ _ inside (Nat.le_refl _) ⟨by omega, fun pos => ?_⟩
              (fun p examined => fine p (.mark inside mark last examined)) ?_
            · have before := front.2 pos
              omega
            · refine seen.imp_right (fun ⟨p, examined, complete⟩ => ?_)
              cases examined with
              | here record => exact absurd mark record.2.1
              | mark _ _ _ rest => exact ⟨p, rest, complete⟩
              | next record => exact absurd mark record.2.1
        · have pos : 0 < nr := by
            refine seen.resolve_right (fun ⟨p, examined, _⟩ => ?_)
            cases examined with
            | here record => exact record.2.2 ⟨some, eom⟩
            | mark _ mark => exact mark.ne_eom eom
            | next record => exact record.2.2 ⟨some, eom⟩
          have before := front.2 pos
          rw [simhLoop_eom host inside some eom, finish_one pos (by omega)]
        · have further : uc + 4 ≤ trailer buf uc := Nat.le_add_right _ _
          have free : ¬ (word buf uc ≠ EOM ∧ Reserved (word buf uc)) := by
            rintro ⟨other, reserved⟩
            rcases (fine uc (.here record) (.inl reserved)).2 with ⟨eom, -⟩ | ⟨free, -⟩
            · exact other eom
            · exact free reserved
          rw [simhLoop_record host record, if_neg free]
          by_cases complete : Complete buf uc
          · have pair : Pairs (word buf uc) (word buf (trailer buf uc)) := by
              by_cases bad : Bad buf uc
              · exact (bad_pairs complete bad).mpr (fine uc (.here record) bad)
              · exact pairs_of_not_bad complete bad
            rw [if_pos complete, if_pos pair]
            exact ih _ _ _ inside (by omega) ⟨by omega, fun _ => by omega⟩
              (fun p examined => fine p (.next record complete pair examined)) (.inl (Nat.succ_pos nr))
          · have pos : 0 < nr := by
              refine seen.resolve_right (fun ⟨p, examined, whole⟩ => ?_)
              cases examined with
              | here => exact complete whole
              | mark _ mark => exact record.2.1 mark
              | next _ whole => exact complete whole
            rw [if_neg complete, finish_one pos (by omega)]
      · rw [simhLoop_short host inside]
        have pos : 0 < nr := seen.resolve_right (fun ⟨_, examined, _⟩ => inside examined.inside)
        exact finish_one pos (front.2 pos)

end Loop

/-! ## Tapes -/

/-- What a tape holds. -/
inductive Item where
  | record (data : Bytes) (pad : UInt8) (size : 0 < data.length ∧ data.length < 2 ^ 24)
  | tapemark

/-- The data of a record, padded to an even number of bytes. -/
def body (data : Bytes) (pad : UInt8) : Bytes := data ++ List.replicate (data.length % 2) pad

def Item.write : Item → Bytes
  | .record data pad _ =>
      Order.little.store 4 data.length ++ (body data pad ++ Order.little.store 4 data.length)
  | .tapemark => Order.little.store 4 0

/-- The items, and the end of medium if there is one. -/
def encode (items : List Item) (eom : Bool) : Bytes :=
  items.flatMap Item.write ++ if eom then Order.little.store 4 EOM else []

theorem encode_cons (item : Item) (items : List Item) (eom : Bool) :
    encode (item :: items) eom = item.write ++ encode items eom := by
  rw [encode, List.flatMap_cons, List.append_assoc]
  rfl

theorem body_length (data : Bytes) (pad : UInt8) :
    (body data pad).length = data.length + data.length % 2 := by
  rw [body, List.length_append, List.length_replicate]

section Tape

variable {buf front back : Bytes} {uc c : Nat}

theorem drop_front (here : buf.drop uc = (front ++ back).take c) :
    buf.drop (uc + front.length) = back.take (c - front.length) := by
  rw [← List.drop_drop, here, List.drop_take, List.drop_left]

theorem room_front (here : buf.drop uc = (front ++ back).take c) (enough : front.length ≤ c)
    (inside : uc ≤ buf.length) : uc + front.length ≤ buf.length := by
  have size := congrArg List.length here
  rw [List.length_drop, List.length_take, List.length_append] at size
  omega

theorem word_front {n : Nat} (here : buf.drop uc = (Order.little.store 4 n ++ back).take c)
    (inside : uc + 4 ≤ buf.length) (small : n < 2 ^ 32) : word buf uc = n := by
  have size := congrArg List.length here
  rw [List.length_drop, List.length_take] at size
  have first : ((Order.little.store 4 n ++ back).take c).take 4 = Order.little.store 4 n := by
    rw [List.take_take, Nat.min_eq_left (by omega), List.take_left' (Order.store_length _ _ _)]
  rw [word, here, first, Order.load_store]
  exact Nat.mod_eq_of_lt small

/-- The number of bytes of a record as a length word. -/
theorem length_word {n : Nat} (size : 0 < n ∧ n < 2 ^ 24) :
    lengthOf n = n ∧ ¬ Reserved n ∧ padded n = n + n % 2 := by
  have whole : lengthOf n = n := Nat.mod_eq_of_lt size.2
  have other : n ≠ EOM := by
    unfold EOM
    omega
  refine ⟨whole, ?_, by rw [padded, if_neg other, whole]⟩
  unfold Reserved
  omega

/-- The second word of a record, as far as the tape goes. -/
theorem trailer_front {data : Bytes} {pad : UInt8} (size : 0 < data.length ∧ data.length < 2 ^ 24)
    (here : buf.drop uc = (Order.little.store 4 data.length ++
      (body data pad ++ Order.little.store 4 data.length) ++ back).take c)
    (inside : uc + 4 ≤ buf.length) :
    word buf uc = data.length ∧ trailer buf uc = uc + 4 + (body data pad).length ∧
    (Complete buf uc → word buf (trailer buf uc) = data.length) := by
  have first : word buf uc = data.length := by
    rw [List.append_assoc] at here
    exact word_front here inside (by omega)
  have second : trailer buf uc = uc + 4 + (body data pad).length := by
    rw [trailer, first, (length_word size).2.2, body_length]
  refine ⟨first, second, fun complete => ?_⟩
  rw [Complete, second] at complete
  rw [List.append_assoc, List.append_assoc] at here
  have behind := drop_front (drop_front here)
  rw [Order.store_length] at behind
  rw [second]
  exact word_front behind complete (by omega)

/-- No record of a tape is bad, wherever the tape is cut. -/
theorem encode_fine (items : List Item) (eom : Bool) {nt nr : Nat}
    (some : items = [] → eom = true → nt > 0 ∨ nr > 0) (here : buf.drop uc = (encode items eom).take c)
    {p : Nat} (examined : Examines buf uc nt nr p) : ¬ Bad buf p := by
  induction items generalizing uc nt nr c with
  | nil =>
      have inside := examined.inside
      have only : eom = true ∧ word buf uc = EOM := by
        cases eom with
        | false =>
            have size := congrArg List.length here
            rw [List.length_drop, List.length_take] at size
            have : (encode [] false).length = 0 := rfl
            omega
        | true =>
            have whole : encode [] true = Order.little.store 4 EOM ++ [] := (List.append_nil _).symm
            rw [whole] at here
            exact ⟨rfl, word_front here inside (by decide)⟩
      have last := some rfl only.1
      cases examined with
      | here record => exact absurd ⟨last, only.2⟩ record.2.2
      | mark _ mark => exact absurd only.2 mark.ne_eom
      | next record => exact absurd ⟨last, only.2⟩ record.2.2
  | cons item items ih =>
      have inside := examined.inside
      rw [encode_cons] at here
      cases item with
      | tapemark =>
          have zero : word buf uc = 0 := word_front here inside (by decide)
          have mark : IsMark (word buf uc) := by
            rw [zero]
            exact ⟨rfl, by decide⟩
          have behind := drop_front here
          rw [Item.write, Order.store_length] at behind
          cases examined with
          | here record => exact absurd mark record.2.1
          | mark _ _ _ rest => exact ih (fun _ _ => .inl (Nat.succ_pos nt)) behind rest
          | next record => exact absurd mark record.2.1
      | record data pad size =>
          obtain ⟨first, second, third⟩ := trailer_front size here inside
          obtain ⟨whole, free, -⟩ := length_word size
          have fine : ¬ Bad buf uc := by
            rintro (reserved | ⟨complete, reserved | differ⟩)
            · exact free (first ▸ reserved)
            · exact free (third complete ▸ reserved)
            · exact differ (by rw [first, third complete])
          have behind := drop_front here
          cases examined with
          | here => exact fine
          | mark _ mark =>
              have zero : lengthOf (word buf uc) = 0 := mark.1
              rw [first, whole] at zero
              omega
          | next _ _ _ rest =>
              have place : trailer buf uc + 4 = uc + (Item.record data pad size).write.length := by
                rw [second, Item.write, List.length_append, List.length_append, Order.store_length]
                omega
              rw [place] at rest
              exact ih (fun _ _ => .inr (Nat.succ_pos nr)) behind rest

/-- The first record is looked at and complete, if it is there and no ten tapemarks are in front of it. -/
theorem encode_first (n : Nat) {data : Bytes} {pad : UInt8} (size : 0 < data.length ∧ data.length < 2 ^ 24)
    (more : List Item) (eom : Bool) {nt : Nat} (few : nt + n < SIMH_TAPEMARKS)
    (here : buf.drop uc = (encode (List.replicate n .tapemark ++ .record data pad size :: more) eom).take c)
    (start : uc ≤ buf.length)
    (enough : ((List.replicate n Item.tapemark ++ [Item.record data pad size]).flatMap Item.write).length ≤ c) :
    ∃ p, Examines buf uc nt 0 p ∧ Complete buf p := by
  induction n generalizing uc nt c with
  | zero =>
      rw [List.replicate_zero, List.nil_append, List.flatMap_singleton] at enough
      rw [List.replicate_zero, List.nil_append, encode_cons] at here
      have room := room_front here enough start
      have long : (Item.record data pad size).write.length = 8 + (body data pad).length := by
        rw [Item.write, List.length_append, List.length_append, Order.store_length]
        omega
      rw [long] at room
      have inside : uc + 4 ≤ buf.length := by omega
      obtain ⟨first, second, -⟩ := trailer_front size here inside
      refine ⟨uc, .here ⟨inside, ?_, ?_⟩, ?_⟩
      · rintro ⟨zero, -⟩
        rw [first, (length_word size).1] at zero
        omega
      · rintro ⟨-, eom⟩
        rw [first, EOM] at eom
        omega
      · rw [Complete, second]
        omega
  | succ n ih =>
      rw [List.replicate_succ, List.cons_append, List.flatMap_cons, List.length_append] at enough
      rw [List.replicate_succ, List.cons_append, encode_cons] at here
      have size : Item.tapemark.write.length = 4 := Order.store_length .little 4 0
      have room := room_front here (by omega) start
      have zero : word buf uc = 0 := word_front here (by omega) (by decide)
      have mark : IsMark (word buf uc) := by
        rw [zero]
        exact ⟨rfl, by decide⟩
      have behind := drop_front here
      rw [size] at behind room enough
      obtain ⟨p, examined, complete⟩ := @ih (uc + 4) (c - 4) (nt + 1) (by omega) behind room (by omega)
      exact ⟨p, .mark room mark (by omega) examined, complete⟩

end Tape

/-- A tape with a record in front of the tenth tapemark is accepted, as far as its first record and however
far it goes. Nothing behind the end of a buffer is read. A bad record is a reason to refuse a buffer unless
all that are looked at are slips. -/
theorem simhParse_iff (host : Order) :
    (∀ (n : Nat) (data : Bytes) (pad : UInt8) (size : 0 < data.length ∧ data.length < 2 ^ 24) (more : List Item)
      (eom : Bool) (cut : Nat), n < SIMH_TAPEMARKS →
      ((List.replicate n Item.tapemark ++ [Item.record data pad size]).flatMap Item.write).length ≤ cut →
      simhParse host ((encode (List.replicate n .tapemark ++ .record data pad size :: more) eom).take cut) = some 1) ∧
    (∀ buf, simhParse host buf ≠ none) ∧
    (∀ buf, ((∃ p, Examines buf 0 0 0 p ∧ Bad buf p) → simhParse host buf = some 0) ↔
      ((∃ p, Examines buf 0 0 0 p ∧ Bad buf p) → ∃ p, Examines buf 0 0 0 p ∧ Bad buf p ∧ ¬ Slip buf p)) := by
  refine ⟨?_, fun buf => simhLoop_ne_none host 0 0 0, fun buf => ⟨?_, ?_⟩⟩
  · intro n data pad size more eom cut few enough
    have here := @List.drop_zero _ ((encode (List.replicate n .tapemark ++ .record data pad size :: more) eom).take cut)
    refine simhLoop_accepts host ⟨Nat.le_refl 0, fun pos => absurd pos (Nat.lt_irrefl 0)⟩ ?_ (.inr ?_)
    · intro p examined bad
      refine absurd bad (encode_fine _ eom (fun empty _ => ?_) here examined)
      exact absurd empty (List.append_ne_nil_of_right_ne_nil _ (List.cons_ne_nil _ _))
    · exact encode_first n size more eom (by omega) here (Nat.zero_le _) enough
  · rintro refused ⟨p, examined, bad⟩
    by_contra clear
    have slips (q : Nat) (h : Examines buf 0 0 0 q) (hb : Bad buf q) : Slip buf q := by
      by_contra no
      exact clear ⟨q, h, hb, no⟩
    have accepted : simhParse host buf = some 1 :=
      simhLoop_accepts host ⟨Nat.le_refl 0, fun pos => absurd pos (Nat.lt_irrefl 0)⟩ slips
        (.inr ⟨p, examined, (slips p examined bad).1⟩)
    rw [refused ⟨p, examined, bad⟩] at accepted
    cases accepted
  · intro clear bad
    obtain ⟨p, examined, hb, no⟩ := clear bad
    exact simhLoop_refuses host examined hb no

/-- A record of three bytes with the second length `n`. -/
def threeAnd (n : Nat) : Bytes := Order.little.store 4 3 ++ [1, 2, 3, 0] ++ Order.little.store 4 n

/-- A tape cut inside its end of medium, and a record with the lengths 3 and 6. -/
theorem simhParse_three :
    simhParse .little ((encode [.record [1, 2, 3] 0 (by decide)] true).take 14) = some 1 ∧
    simhParse .little (threeAnd 6) = some 0 := by
  have record : IsRecord (threeAnd 6) 0 0 0 := isRecord_first (by decide) (by decide)
  have bad : Bad (threeAnd 6) 0 := .inr ⟨by decide, .inr (by decide)⟩
  have clear : ¬ Slip (threeAnd 6) 0 := by
    have first : lengthOf (word (threeAnd 6) 0) = 3 := by decide
    have second : lengthOf (word (threeAnd 6) (trailer (threeAnd 6) 0)) = 6 := by decide
    rintro ⟨-, ⟨eom, -⟩ | ⟨-, -, k, lengths⟩⟩
    · rw [eom] at first
      cases first
    · omega
  exact ⟨(simhParse_iff .little).1 0 [1, 2, 3] 0 (by decide) [] true 14 (by decide) (by decide),
    ((simhParse_iff .little).2.2 (threeAnd 6)).mpr (fun _ => ⟨0, .here record, bad, clear⟩) ⟨0, .here record, bad⟩⟩

/-- The lengths 3 and 4. -/
theorem simhParse_slips :
    (∃ p, Examines (threeAnd 4) 0 0 0 p ∧ Bad (threeAnd 4) p) ∧ simhParse .little (threeAnd 4) ≠ some 0 := by
  have record : IsRecord (threeAnd 4) 0 0 0 := isRecord_first (by decide) (by decide)
  have free : ¬ (word (threeAnd 4) 0 ≠ EOM ∧ Reserved (word (threeAnd 4) 0)) := by decide
  have complete : Complete (threeAnd 4) 0 := by decide
  have pair : Pairs (word (threeAnd 4) 0) (word (threeAnd 4) (trailer (threeAnd 4) 0)) := by decide
  have short : ¬ trailer (threeAnd 4) 0 + 4 + 4 ≤ (threeAnd 4).length := by decide
  refine ⟨⟨0, .here record, .inr ⟨complete, .inr (by decide)⟩⟩, ?_⟩
  rw [simhParse, simhLoop_record .little record, if_neg free, if_pos complete, if_pos pair,
    simhLoop_short .little short]
  decide

end Simh

end Libmagic.Builtin
