import Libmagic.Run

/-!
# Cells of an object

Reads and writes of an object that is made of bytes, each at its index, as the events of a
run. `within` is the policy of a routine that may read so many cells and write so many.
-/
namespace Libmagic

open Run

inductive CellAccess where
  | read (i : Nat)
  | write (i : Nat)
  deriving DecidableEq, Repr

/-- One of the first `r` cells is read, or one of the first `w` is written. -/
def CellAccess.within (r w : Nat) : CellAccess → Prop
  | .read i => i < r
  | .write i => i < w

namespace Cells

variable {mem out : List UInt8} {r w d : Nat}

def readAt (mem : List UInt8) (i : Nat) : Run CellAccess UInt8 := event (.read i) (mem.getD i 0)

def writeAt (mem : List UInt8) (i : Nat) (b : UInt8) : Run CellAccess (List UInt8) :=
  event (.write i) (mem.set i b)

/-- `memcpy(out + dst, mem + src, l)`. -/
def memcpy (mem : List UInt8) : (l src dst : Nat) → List UInt8 → Run CellAccess (List UInt8)
  | 0, _, _, out => pure out
  | l + 1, src, dst, out => do
      let b ← readAt mem src
      let out ← writeAt out dst b
      memcpy mem l (src + 1) (dst + 1) out

def writeAll : List UInt8 → Nat → List UInt8 → Run CellAccess (List UInt8)
  | [], _, out => pure out
  | b :: text, i, out => do
      let out ← writeAt out i b
      writeAll text (i + 1) out

abbrev within (r w : Nat) : Policy CellAccess := Policy.each (CellAccess.within r w)

theorem readAt_meets {i : Nat} (inside : i < r) :
    Meets (within r w) d (readAt mem i) (· = mem.getD i 0) :=
  Meets.event (Policy.each_single (show CellAccess.within r w (.read i) from inside)) rfl

theorem writeAt_meets {i : Nat} (b : UInt8) (inside : i < w) :
    Meets (within r w) d (writeAt mem i b) (· = mem.set i b) :=
  Meets.event (Policy.each_single (show CellAccess.within r w (.write i) from inside)) rfl

theorem take_set_succ {l : List UInt8} {i : Nat} (b : UInt8) (inside : i < l.length) :
    (l.set i b).take (i + 1) = l.take i ++ [b] := by
  have size : i < (l.set i b).length := by rwa [List.length_set]
  rw [List.take_succ_eq_append_getElem size, List.getElem_set_self, List.take_set_of_le (Nat.le_refl i)]

/-- A copy puts the text behind what stands in front of it. -/
theorem memcpy_meets {text : List UInt8} {src dst : Nat} (inside : src + text.length ≤ r)
    (source : ∀ i, i < text.length → mem.getD (src + i) 0 = text.getD i 0)
    (room : dst + text.length ≤ out.length) (size : out.length ≤ w) :
    Meets (within r w) d (memcpy mem text.length src dst out)
      (fun out' => out'.length = out.length ∧
        out'.take (dst + text.length) = out.take dst ++ text) := by
  induction text generalizing src dst out with
  | nil =>
      apply Meets.pure
      rw [List.length_nil, Nat.add_zero, List.append_nil]
      exact ⟨rfl, rfl⟩
  | cons b text ih =>
      rw [List.length_cons] at inside room
      have first : mem.getD src 0 = b := by
        have := source 0 (Nat.succ_pos _)
        rwa [Nat.add_zero] at this
      apply Meets.bind (readAt_meets (by omega))
      intro b' hb
      obtain rfl := hb.trans first
      apply Meets.bind (writeAt_meets b' (by omega))
      intro out' hout
      subst hout
      have next : ∀ i, i < text.length → mem.getD (src + 1 + i) 0 = text.getD i 0 := by
        intro i hi
        have := source (i + 1) (by rw [List.length_cons]; omega)
        rwa [List.getD_cons_succ, ← Nat.add_assoc, Nat.add_right_comm] at this
      have size' : (out.set dst b').length = out.length := List.length_set
      refine (ih (by omega) next (by omega) (by omega)).mono (Nat.le_refl d) ?_
      rintro out' ⟨length, front⟩
      refine ⟨length.trans size', ?_⟩
      rw [List.length_cons, ← Nat.add_assoc, Nat.add_right_comm, front, take_set_succ _ (by omega),
        List.append_assoc, List.singleton_append]

/-- Bytes that are written one after the other take the place of as many. -/
theorem writeAll_meets {text : List UInt8} {i : Nat} (room : i + text.length ≤ out.length) (size : out.length ≤ w) :
    Meets (within r w) 0 (writeAll text i out) (· = out.take i ++ text ++ out.drop (i + text.length)) := by
  induction text generalizing i out with
  | nil =>
      apply Meets.pure
      rw [List.length_nil, Nat.add_zero, List.append_nil, List.take_append_drop]
  | cons b text ih =>
      rw [List.length_cons] at room
      apply Meets.bind (writeAt_meets b (show i < w by omega))
      rintro out' rfl
      have size' : (out.set i b).length = out.length := List.length_set
      refine (ih (by omega) (by omega)).mono (Nat.le_refl 0) ?_
      rintro out' rfl
      have behind : (out.set i b).drop (i + 1 + text.length) = out.drop (i + 1 + text.length) :=
        List.drop_set_of_lt (by omega)
      rw [take_set_succ _ (by omega), behind, List.append_assoc _ [b] text, List.singleton_append, List.length_cons,
        Nat.add_right_comm, Nat.add_assoc]

end Cells

end Libmagic
