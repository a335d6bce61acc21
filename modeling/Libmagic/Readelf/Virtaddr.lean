import Libmagic.Readelf.Note
import Libmagic.Softmagic.Numeric

/-!
# `readelf.c`: from an address to a position in the file

`get_offset_from_virtaddr` takes the first header that its own comparisons take, which are those of
`size_t`s, and an address of 0 in a header is 4 for it.
-/
namespace Libmagic.Readelf

open Softmagic

namespace Virtaddr

section Rules

variable (e : Elf) (fsize : Int) (virtaddr : Nat)

/-- The members as the file has them. -/
def pOffset (ph : Bytes) : Nat := member e ⟨4, 4⟩ ⟨8, 8⟩ ph
def pVaddr (ph : Bytes) : Nat := member e ⟨8, 4⟩ ⟨16, 8⟩ ph

/-- The segment starts inside the file and has the address. -/
def Contains (ph : Bytes) : Prop :=
  (fsize = SIZE_UNKNOWN ∨ (pOffset e ph : Int) ≤ fsize) ∧
    pVaddr e ph ≤ virtaddr ∧ virtaddr < pVaddr e ph + phFilesz e ph

instance (ph : Bytes) : Decidable (Contains e fsize virtaddr ph) := inferInstanceAs (Decidable (_ ∧ _))

/-- Where the address is in the file. -/
def position (ph : Bytes) : Int := pOffset e ph + (virtaddr - pVaddr e ph)

/-- The segment is one that the comparisons of the loop take. -/
def Taken (ph : Bytes) : Prop :=
  ¬ (fsize ≠ SIZE_UNKNOWN ∧ phOffset e ph > fsize) ∧
    phVaddr e ph ≤ virtaddr ∧ virtaddr < sz (phVaddr e ph + phFilesz e ph)

instance (ph : Bytes) : Decidable (Taken e fsize virtaddr ph) := inferInstanceAs (Decidable (_ ∧ _))

def takenPosition (ph : Bytes) : Int := sN 64 (phOffset e ph + (virtaddr - phVaddr e ph))

/-- The headers that are looked for, each with its offset, as far as they can be read. -/
def table : (num : Nat) → (off : Int) → List (Int × Option Bytes)
  | 0, _ => []
  | num + 1, off => (off, readAll e (phSizeof e) off) :: table num (off + phSizeof e)

def readable (t : List (Int × Option Bytes)) : List Bytes := t.filterMap (·.2)

/-- The headers in front of the first that cannot be read. -/
def front (t : List (Int × Option Bytes)) : List Bytes := readable (t.takeWhile (·.2.isSome))

/-- The offset of that one. -/
def hole (t : List (Int × Option Bytes)) : Option Int := (t.find? (·.2.isNone)).map (·.1)

/-- `elf_printf` has room for the complaint about a header. -/
def printed (ms : Ms) (off : Int) : Bool :=
  has e.magicFlags MAGIC_MIME ||
    (filePrintf e.host (asc ", can't read elf program header at %jd") [.int off] ms.io).1

/-- What is returned behind the headers. -/
def stop (ms : Ms) (t : List (Int × Option Bytes)) : Int :=
  if (hole t).all (printed e ms) then 0 else -1

/-- The position of the address in the first readable segment that has it, or else 0. -/
def translation (t : List (Int × Option Bytes)) : Int :=
  ((readable t).find? (Contains e fsize virtaddr)).elim 0 (position e virtaddr)

end Rules

variable (e : Elf) (fsize : Int)

theorem printThen_value (ms : Ms) (off : Int) :
    (printThen e ", can't read elf program header at %jd" [.int off] (pure 0) ms).value.map Prod.fst =
      some (if printed e ms off then 0 else -1) := by
  have bind (x : Prog Bool) (f : Bool → Prog Int) : (x >>= f) ms = (x ms >>= fun r => f r.1 r.2) := rfl
  rw [printThen, bind, elfPrintf, printed]
  by_cases mime : has e.magicFlags MAGIC_MIME = true
  · rw [if_pos mime, mime, Run.pure_bind]
    rfl
  · rw [if_neg mime, Bool.eq_false_iff.mpr mime, Run.pure_bind, Bool.false_or]
    dsimp only
    split <;> rfl

/-- The loop. -/
theorem getOffset_value (virtaddr : Nat) (ms : Ms) (num : Nat) (off : Int) :
    (getOffsetFromVirtaddr e fsize virtaddr num off ms).value.map Prod.fst =
      some (((front (table e num off)).find? (Taken e fsize virtaddr)).elim (stop e ms (table e num off))
        (takenPosition e virtaddr)) := by
  induction num generalizing off with
  | zero => rfl
  | succ num ih =>
      rw [getOffsetFromVirtaddr, table]
      cases here : readAll e (phSizeof e) off with
      | none =>
          have first : front ((off, none) :: table e num (off + phSizeof e)) = [] := rfl
          have here : hole ((off, none) :: table e num (off + phSizeof e)) = some off := rfl
          dsimp only
          rw [printThen_value, stop, first, here, List.find?_nil, Option.elim_none, Option.all_some]
      | some ph =>
          have first : front ((off, some ph) :: table e num (off + phSizeof e)) =
              ph :: front (table e num (off + phSizeof e)) := rfl
          have rest : hole ((off, some ph) :: table e num (off + phSizeof e)) =
              hole (table e num (off + phSizeof e)) := rfl
          have next := ih (off + phSizeof e)
          rw [stop] at next
          dsimp only
          rw [stop, first, rest, List.find?_cons]
          by_cases outside : fsize ≠ SIZE_UNKNOWN ∧ phOffset e ph > fsize
          · rw [if_pos outside, decide_eq_false (fun takes => takes.1 outside), next]
          · rw [if_neg outside]
            by_cases inside : phVaddr e ph ≤ virtaddr ∧ virtaddr < sz (phVaddr e ph + phFilesz e ph)
            · rw [if_pos inside, decide_eq_true ⟨outside, inside⟩]
              dsimp only
              rw [Option.elim_some]
              rfl
            · rw [if_neg inside, decide_eq_false (fun takes => inside takes.2), next]

theorem wrapped {o d : Int} : sN 64 (sN 64 o + d) = sN 64 (o + d) :=
  sN_congr ((sN_modEq 64 o).add_right d)

/-- Where the segment is one that both rules take. -/
theorem takenPosition_eq {virtaddr : Nat} {ph : Bytes} (contains : Contains e fsize virtaddr ph) :
    position e virtaddr ph = takenPosition e virtaddr ph ↔ pVaddr e ph ≠ 0 ∧ position e virtaddr ph < 2 ^ 63 := by
  obtain ⟨-, low, -⟩ := contains
  have vaddr : phVaddr e ph = if pVaddr e ph = 0 then 4 else pVaddr e ph := rfl
  have offset : phOffset e ph = sN 64 (pOffset e ph) := rfl
  unfold position takenPosition
  rw [offset, vaddr, wrapped]
  generalize pOffset e ph = o
  generalize pVaddr e ph = a at low ⊢
  unfold sN
  by_cases zero : a = 0
  · rw [if_pos zero]
    omega
  · rw [if_neg zero]
    omega

/-- The two rules differ on a segment at address 0, on one whose end wraps, and on one whose offset is
negative as an `off_t`. -/
theorem taken_iff {virtaddr : Nat} {ph : Bytes} (nonzero : pVaddr e ph ≠ 0)
    (ends : pVaddr e ph + phFilesz e ph < 2 ^ 64) (starts : pOffset e ph < 2 ^ 63) :
    Taken e fsize virtaddr ph ↔ Contains e fsize virtaddr ph := by
  have vaddr : phVaddr e ph = pVaddr e ph := if_neg nonzero
  have offset : phOffset e ph = pOffset e ph := by
    have : phOffset e ph = sN 64 (pOffset e ph) := rfl
    rw [this]
    unfold sN
    omega
  have sum : sz (pVaddr e ph + phFilesz e ph) = pVaddr e ph + phFilesz e ph := Nat.mod_eq_of_lt ends
  unfold Taken Contains
  rw [vaddr, offset, sum]
  refine and_congr_left (fun _ => ?_)
  rw [not_and_or, not_not, not_lt]

/-- The segment that decides is the same under both rules, and its position is a positive `off_t`; or there is
none, and no complaint fails. -/
def Regular (virtaddr : Nat) (ms : Ms) (t : List (Int × Option Bytes)) : Prop :=
  (readable t).find? (Contains e fsize virtaddr) = (front t).find? (Taken e fsize virtaddr) ∧
    ((readable t).find? (Contains e fsize virtaddr)).elim ((hole t).all (printed e ms) = true)
      (fun ph => pVaddr e ph ≠ 0 ∧ position e virtaddr ph < 2 ^ 63)

/-- The rules differ on the segment, but not on the position. -/
def Coincides (virtaddr : Nat) (ms : Ms) (t : List (Int × Option Bytes)) : Prop :=
  (readable t).find? (Contains e fsize virtaddr) ≠ (front t).find? (Taken e fsize virtaddr) ∧
    ((readable t).find? (Contains e fsize virtaddr)).elim 0 (position e virtaddr) =
      ((front t).find? (Taken e fsize virtaddr)).elim (stop e ms t) (takenPosition e virtaddr)

/-- A file of one 64-bit header: an offset of 100, an address of 0 and 16 bytes. -/
def lone : Elf where
  host :=
    { bigendian := false, haveMemmem := true, malloc := fun _ => true, vasprintf := fun _ _ => none
      strerror := fun _ => [], fmtcheck := fun _ _ => false, regcomp := fun _ _ => none
      regexec := fun _ _ _ => .noMatch, fmtdatetime := fun _ _ => [], fmtdate := fun _ => []
      fmttime := fun _ => [] }
  magicFlags := 0
  os := { (default : Os) with
    pread := fun _ len => some (((List.replicate 8 0 ++ Order.little.store 8 100 ++ List.replicate 16 0 ++
      Order.little.store 8 16 ++ List.replicate 16 0)).take len)
    pread_length := by
      rintro _ len _ ⟨⟩
      exact List.length_take_le _ _ }
  clazz := .elf64
  swap := false

end Virtaddr

end Libmagic.Readelf
