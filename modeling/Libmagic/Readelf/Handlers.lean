import Libmagic.Readelf.Walk

/-!
# What the handlers touch

A handler reads only inside the name and the description of its note, or looks at the end of
the buffer itself: all of them are safe with a note that is inside the buffer.
-/
namespace Libmagic.Readelf

open Softmagic
open Run (Policy Meets Yields)

/-- What the walk may do: read the buffer, call a handler with a note that is inside the
buffer, and count down from a number that is not 0. -/
def Allowed : Event → Prop
  | .read size p len => p + len ≤ size
  | .handler size noff namesz doff descsz => noff + namesz ≤ size ∧ doff + descsz ≤ size
  | .decrement notecount => notecount ≠ 0

def walking : Policy Event := .each Allowed

/-- A routine that comes to its end and does only what is allowed. -/
def Safe {α : Type} (x : Prog α) : Prop := Yields walking x (fun _ => True)

section Rules

variable {α β : Type} {x : Prog α} {post : β → Prop}

theorem safe_pure (a : α) : Safe (pure a) := Yields.pure trivial

theorem Safe.bind {f : α → Prog β} (hx : Safe x) (hf : ∀ a, Yields walking (f a) post) :
    Yields walking (x >>= f) post :=
  Yields.bind hx (fun a _ => hf a)

theorem safe_getFlags : Safe getFlags := Yields.state (fun _ => trivial)

theorem safe_setFlags (bits : Nat) : Safe (setFlags bits) := Yields.state (fun _ => trivial)

theorem safe_elfError (e : Elf) (error : Nat) (fmt : String) (args : List Arg) :
    Safe (elfError e error fmt args) :=
  Yields.state (fun _ => trivial)

theorem safe_elfPrintf (e : Elf) (fmt : String) (args : List Arg) : Safe (elfPrintf e fmt args) := by
  intro ms
  unfold elfPrintf
  split
  · exact Meets.pure trivial
  · exact Meets.pure trivial

theorem safe_printThen (e : Elf) (fmt : String) (args : List Arg) {rest : Prog Int} (h : Safe rest) :
    Safe (printThen e fmt args rest) :=
  (safe_elfPrintf e fmt args).bind (fun _ => Yields.ite (fun _ => h) (fun _ => safe_pure _))

theorem safe_print (e : Elf) (fmt : String) (args : List Arg) (rv : Int) :
    Safe (printThen e fmt args (pure rv)) :=
  safe_printThen e fmt args (safe_pure rv)

end Rules

/-! ## The handlers -/

/-- A note that is inside its buffer. -/
structure Note.Inside (n : Note) : Prop where
  name : n.noff + n.namesz ≤ n.size
  desc : n.doff + n.descsz ≤ n.size
  size_lt : n.size < 2 ^ 63

section Reads

variable {n : Note}

theorem safe_bytes {p len : Nat} (h : p + len ≤ n.size) : Safe (n.bytes p len) :=
  Yields.once (Policy.each_single h) trivial

theorem safe_byte {p : Nat} (h : p < n.size) : Safe (n.byte p) :=
  Yields.once (Policy.each_single (Nat.succ_le_of_lt h)) trivial

theorem safe_nameStarts {len : Nat} (v : Bytes) (h : n.noff + len ≤ n.size) :
    Safe (n.nameStarts v len) :=
  (safe_bytes h).bind (fun _ => safe_pure _)

theorem safe_copystr {width p : Nat} (h : p + width ≤ n.size) : Safe (n.copystr width p) := by
  apply Safe.bind
  · apply safe_bytes
    split <;> omega
  · intro text
    exact safe_pure _

variable (inside : n.Inside)

include inside

theorem safe_nameEquals (v : String) : Safe (n.nameEquals v) :=
  Yields.ite (fun _ => safe_nameStarts _ inside.name) (fun _ => safe_pure _)

theorem safe_when (v : String) (type : Nat) (fits : Bool) {body rest : Prog Int}
    (hbody : fits = true → Safe body) (hrest : Safe rest) :
    Safe (n.when v type fits body rest) := by
  apply (safe_nameEquals inside v).bind
  intro same
  apply Yields.ite
  · intro h
    rw [Bool.and_eq_true] at h
    exact hbody h.2
  · intro _
    exact hrest

theorem safe_desc32 (e : Elf) (h : 4 ≤ n.descsz) : Safe (n.desc32 e) := by
  have desc := inside.desc
  exact (safe_bytes (by omega)).bind (fun _ => safe_pure _)

end Reads

section Handlers

variable (e : Elf) {n : Note}

theorem safe_netbsdRelease (verRel : Nat) : Safe (netbsdRelease e verRel) := by
  fun_induction netbsdRelease e verRel with
  | case1 verRel more ih => exact safe_printThen e _ _ ih
  | case2 verRel done => exact safe_print e _ _ 0

theorem safe_printHex (desc : Bytes) : Safe (printHex e desc) := by
  induction desc with
  | nil => exact safe_pure 1
  | cons b desc ih => exact safe_printThen e _ _ ih

theorem safe_printBits (desc i : Nat) (did : Bool) (names : List String) :
    Safe (printBits e desc i did names) := by
  induction names generalizing i did with
  | nil => exact safe_pure 1
  | cons name names ih =>
      exact Yields.ite (fun _ => safe_printThen e _ _ (ih (i + 1) true)) (fun _ => ih (i + 1) did)

variable (inside : n.Inside)

include inside

theorem safe_doNoteNetbsdVersion (h : 4 ≤ n.descsz) : Safe (doNoteNetbsdVersion e n) := by
  apply (safe_desc32 inside e h).bind
  intro desc
  apply safe_printThen
  apply Yields.ite
  · intro _
    apply safe_printThen
    apply Yields.ite
    · intro _
      exact safe_print e _ _ 0
    · intro _
      exact Yields.ite (fun _ => safe_netbsdRelease e _) (fun _ => safe_pure 0)
  · intro _
    exact safe_pure 0

theorem safe_doNoteFreebsdVersion (h : 4 ≤ n.descsz) : Safe (doNoteFreebsdVersion e n) := by
  apply (safe_desc32 inside e h).bind
  intro desc
  apply safe_printThen
  have printed (fmt : String) (args : List Arg) : Safe (printThen e fmt args (pure 0)) :=
    safe_print e fmt args 0
  -- the two last versions end in the same way
  have minor (c d : Prop) [Decidable c] [Decidable d] (fmt fmt' : String) (args args' : List Arg) :
      Safe (if c then printThen e fmt args (pure 0)
        else if d then printThen e fmt' args' (pure 0) else pure 0) :=
    Yields.ite (fun _ => printed _ _) (fun _ => Yields.ite (fun _ => printed _ _) (fun _ => safe_pure 0))
  refine Yields.ite (fun _ => printed _ _) (fun _ => Yields.ite (fun _ => ?_) (fun _ =>
    Yields.ite (fun _ => safe_printThen e _ _ (minor _ _ _ _ _ _))
      (fun _ => safe_printThen e _ _ (minor _ _ _ _ _ _))))
  apply safe_printThen
  have tail (c : Prop) [Decidable c] (fmt : String) (args : List Arg) :
      Safe (if c then printThen e fmt args (pure 0) else pure 0) :=
    Yields.ite (fun _ => printed _ _) (fun _ => safe_pure 0)
  exact Yields.ite (fun _ => safe_printThen e _ _ (tail _ _ _)) (fun _ => tail _ _ _)

theorem safe_suseNote (h : n.descsz = 2) : Safe (suseNote e n) := by
  have desc := inside.desc
  have size := inside.size_lt
  have second : sz (n.doff + 1) = n.doff + 1 := Nat.mod_eq_of_lt (by omega)
  apply (safe_setFlags _).bind
  intro _
  apply (safe_byte (by omega)).bind
  intro major
  apply (safe_byte (by omega)).bind
  intro minor
  exact safe_print e _ _ 1

theorem safe_gnuNote (h : n.descsz = 16) : Safe (gnuNote e n) := by
  have desc := inside.desc
  apply (safe_bytes (by omega)).bind
  intro desc
  apply (safe_setFlags _).bind
  intro _
  exact safe_printThen e _ _ (safe_printThen e _ _ (safe_print e _ _ 1))

omit inside in
theorem safe_versionNote {version : Prog Int} (h : Safe version) : Safe (versionNote version) := by
  apply (safe_setFlags _).bind
  intro _
  apply h.bind
  intro rv
  exact Yields.ite (fun _ => safe_pure _) (fun _ => safe_pure _)

omit inside in
theorem safe_openbsdNote : Safe (openbsdNote e) :=
  (safe_setFlags _).bind (fun _ => safe_print e _ _ 1)

theorem safe_dragonflyNote (h : 4 ≤ n.descsz) : Safe (dragonflyNote e n) := by
  apply (safe_setFlags _).bind
  intro _
  apply safe_printThen
  exact (safe_desc32 inside e h).bind (fun _ => safe_print e _ _ 1)

theorem safe_androidNote (h : 4 ≤ n.descsz) : Safe (androidNote e n) := by
  have desc := inside.desc
  have size := inside.size_lt
  apply (safe_setFlags _).bind
  intro _
  apply (safe_desc32 inside e h).bind
  intro apiLevel
  apply safe_printThen
  apply Yields.ite
  · intro strings
    have release : sz (n.doff + 4) = n.doff + 4 := Nat.mod_eq_of_lt (by omega)
    have build : sz (n.doff + 4 + 64) = n.doff + 4 + 64 := Nat.mod_eq_of_lt (by omega)
    apply (safe_bytes (by omega)).bind
    intro _
    apply (safe_bytes (by omega)).bind
    intro _
    exact safe_print e _ _ 0
  · intro _
    exact safe_pure 0

theorem safe_doOsNote : Safe (doOsNote e n) := by
  have four (h : (n.descsz == 4) = true) : 4 ≤ n.descsz := Nat.le_of_eq (beq_iff_eq.mp h).symm
  apply safe_when inside _ _ _ (fun h => safe_suseNote e inside (beq_iff_eq.mp h))
  apply safe_when inside _ _ _ (fun h => safe_gnuNote e inside (beq_iff_eq.mp h))
  apply safe_when inside _ _ _
    (fun h => safe_versionNote (safe_doNoteNetbsdVersion e inside (four h)))
  apply safe_when inside _ _ _
    (fun h => safe_versionNote (safe_doNoteFreebsdVersion e inside (four h)))
  apply safe_when inside _ _ _ (fun _ => safe_openbsdNote e)
  apply safe_when inside _ _ _ (fun h => safe_dragonflyNote e inside (four h))
  exact safe_when inside _ _ _ (fun h => safe_androidNote e inside (of_decide_eq_true h)) (safe_pure 0)

theorem safe_doBidNote : Safe (doBidNote e n) := by
  have name := inside.name
  have desc := inside.desc
  apply safe_when inside
  · intro _
    apply (safe_setFlags _).bind
    intro _
    apply safe_printThen
    exact (safe_bytes desc).bind (fun bs => safe_printHex e bs)
  · apply Yields.ite
    · intro four
      apply (safe_nameStarts _ (by omega)).bind
      intro go
      apply Yields.ite
      · intro _
        exact (safe_copystr desc).bind (fun _ => safe_print e _ _ 1)
      · intro _
        exact safe_pure 0
    · intro _
      exact safe_pure 0

theorem safe_bitsNote (h : (n.descsz == 4) = true) (flag : Nat) (title : String) (names : List String) :
    Safe (bitsNote e n flag title names) := by
  apply (safe_setFlags _).bind
  intro _
  apply (safe_desc32 inside e (Nat.le_of_eq (beq_iff_eq.mp h).symm)).bind
  intro desc
  exact Yields.ite (fun _ => safe_printThen e _ _ (safe_printBits e _ _ _ _))
    (fun _ => safe_printBits e _ _ _ _)

theorem safe_doPaxNote : Safe (doPaxNote e n) :=
  safe_when inside _ _ _ (fun h => safe_bitsNote e inside h _ _ _) (safe_pure 0)

theorem safe_doMemtagNote : Safe (doMemtagNote e n) :=
  safe_when inside _ _ _ (fun h => safe_bitsNote e inside h _ _ _) (safe_pure 0)

end Handlers

/-! ## Core files -/

section Core

variable (e : Elf) {n : Note}

theorem safe_didCore (rv : Int) : Safe (didCore rv) :=
  (safe_setFlags _).bind (fun _ => safe_pure rv)

theorem safe_nameAt (left j noffset reloffset : Nat) : Safe (nameAt n left j noffset reloffset) := by
  induction left generalizing j noffset reloffset with
  | zero => exact safe_pure _
  | succ left ih =>
      apply Yields.ite (fun _ => safe_pure _)
      intro before
      apply Yields.ite (fun _ => safe_pure _)
      intro _
      apply (safe_byte (Nat.lt_of_not_le before)).bind
      intro c
      apply Yields.ite (fun _ => safe_pure _)
      intro _
      exact Yields.ite (fun _ => safe_pure _) (fun _ => ih _ _ _)

/-- A name that was found starts inside the buffer. -/
theorem yields_nameAt (left j noffset reloffset : Nat) :
    Yields walking (nameAt n (left + 1) j noffset reloffset)
      (fun found => found.isSome = true → noffset < n.size) := by
  by_cases before : noffset < n.size
  · exact (safe_nameAt (left + 1) j noffset reloffset).mono (fun _ _ _ => before)
  · rw [nameAt, if_pos (Nat.le_of_not_lt before)]
    exact Yields.pure (fun some => absurd some Bool.false_ne_true)

theorem safe_allPrintable (count no : Nat) (h : no + count ≤ n.size) : Safe (allPrintable n count no) := by
  induction count generalizing no with
  | zero => exact safe_pure true
  | succ count ih =>
      apply (safe_byte (by omega)).bind
      intro c
      exact Yields.ite (fun _ => ih (no + 1) (by omega)) (fun _ => safe_pure false)

theorem yields_printableEnd (left cp : Nat) (h : cp + left ≤ n.size) :
    Yields walking (printableEnd n left cp) (fun r => r ≤ cp + left) := by
  induction left generalizing cp with
  | zero => exact Yields.pure (Nat.le_refl cp)
  | succ left ih =>
      apply (safe_byte (by omega)).bind
      intro c
      apply Yields.ite
      · intro _
        exact (ih (cp + 1) (by omega)).mono (fun r hr => by omega)
      · intro _
        exact Yields.pure (Nat.le_add_right cp _)

theorem yields_trimSpace (cname len : Nat) (h : cname + len ≤ n.size) :
    Yields walking (trimSpace n cname len) (fun r => r ≤ len) := by
  induction len with
  | zero => exact Yields.pure (Nat.le_refl 0)
  | succ len ih =>
      apply (safe_byte (by omega)).bind
      intro c
      apply Yields.ite
      · intro _
        exact (ih (by omega)).mono (fun r hr => Nat.le_succ_of_le hr)
      · intro _
        exact Yields.pure (Nat.le_refl _)

variable (inside : n.Inside)

include inside

theorem yields_adjust (j : Nat) (later : List Nat) (found : Nat) (h : n.doff + found < n.size) :
    Yields walking (adjust n j later found) (fun off => n.doff + off < n.size) := by
  have size := inside.size_lt
  induction later generalizing found with
  | nil => exact Yields.pure h
  | cons off later ih =>
      apply Yields.ite (fun _ => ih found h)
      intro below
      apply Yields.ite (fun _ => ih found h)
      intro _
      have hfound : sz (n.doff + found) = n.doff + found := Nat.mod_eq_of_lt (by omega)
      have hoff : sz (n.doff + off) = n.doff + off := Nat.mod_eq_of_lt (by omega)
      apply (safe_allPrintable _ _ (by omega)).bind
      intro printable
      exact Yields.ite (fun _ => ih off (by omega)) (fun _ => ih found h)

theorem safe_svr4Core (offsets : List Nat) (small : ∀ off ∈ offsets, off < 2 ^ 63) :
    Safe (svr4Core e n offsets) := by
  have desc := inside.desc
  have size := inside.size_lt
  induction offsets with
  | nil => exact safe_pure 0
  | cons off later ih =>
      have near := small off List.mem_cons_self
      have hoff : sz (n.doff + off) = n.doff + off := Nat.mod_eq_of_lt (by omega)
      apply (yields_nameAt 15 0 (sz (n.doff + off)) off).bind
      intro found start
      cases found with
      | none => exact ih (fun o ho => small o (List.mem_cons_of_mem off ho))
      | some j =>
          apply (yields_adjust inside j later off (hoff ▸ start rfl)).bind
          intro off hoff
          have hcname : sz (n.doff + off) = n.doff + off := Nat.mod_eq_of_lt (by omega)
          apply (yields_printableEnd (n.size - sz (n.doff + off)) (sz (n.doff + off)) (by omega)).bind
          intro cp hcp
          apply (yields_trimSpace (sz (n.doff + off)) (cp - sz (n.doff + off)) (by omega)).bind
          intro len hlen
          apply (safe_copystr (by omega)).bind
          intro name
          exact safe_printThen e _ _ (safe_didCore 1)

theorem safe_coreName : Safe (coreName n) := by
  have name := inside.name
  apply Yields.ite
  · intro four
    apply (safe_nameStarts _ (by omega)).bind
    intro core
    exact Yields.ite (fun _ => safe_pure true) (fun _ => safe_nameEquals inside _)
  · intro _
    exact safe_nameEquals inside _

theorem safe_osStyle : Safe (osStyle n) := by
  have name := inside.name
  apply (safe_coreName inside).bind
  intro svr4
  apply (safe_nameEquals inside _).bind
  intro freebsd
  apply Safe.bind (Yields.ite (fun eleven => safe_nameStarts _ (by omega)) (fun _ => safe_pure false))
  intro netbsd
  exact safe_pure _

theorem safe_procinfoNote : Safe (procinfoNote e n) := by
  have desc := inside.desc
  apply (safe_bytes (by omega)).bind
  intro copied
  exact safe_printThen e _ _ (safe_didCore 1)

/-- A field that the source finds to end inside the buffer does so. -/
theorem Note.Inside.field {off len : Nat} (near : off + len < 2 ^ 63)
    (fits : sz (n.doff + off + len) ≤ n.size) : n.doff + off + len ≤ n.size := by
  have desc := inside.desc
  have size := inside.size_lt
  rwa [sz, Nat.mod_eq_of_lt (by omega)] at fits

theorem safe_freebsdPid {pidoff : Nat} (near : pidoff < 2 ^ 62) : Safe (freebsdPid e n pidoff) := by
  apply Yields.ite
  · intro fits
    apply (safe_bytes (inside.field (by omega) fits)).bind
    intro bs
    exact safe_printThen e _ _ (safe_didCore 0)
  · intro _
    exact safe_didCore 0

theorem safe_freebsdCore : Safe (freebsdCore e n) := by
  have near : argoff e < 100 := by
    unfold argoff
    split <;> decide
  have pid := safe_freebsdPid e inside (show argoff e + 81 + 2 < 2 ^ 62 by omega)
  apply Yields.ite
  · intro fits
    have args := inside.field (by omega) fits
    exact (safe_bytes (by omega)).bind (fun _ => safe_printThen e _ _ pid)
  · intro _
    exact pid

theorem safe_coreOf (style : Option OsStyle) : Safe (coreOf e n style) := by
  have offsets : ∀ off ∈ prpsoffsets e.clazz, off < 2 ^ 63 := by
    cases e.clazz <;> decide
  have svr4 (flags : Nat) : Safe (if n.type = NT_PRPSINFO ∧ has flags FLAGS_IS_CORE then
      svr4Core e n (prpsoffsets e.clazz) else pure 0) :=
    Yields.ite (fun _ => safe_svr4Core e inside _ offsets) (fun _ => safe_pure 0)
  apply safe_getFlags.bind
  intro flags
  rcases style with _ | _ | _ | _
  · exact svr4 flags
  · exact svr4 flags
  · exact Yields.ite (fun _ => safe_freebsdCore e inside) (fun _ => safe_pure 0)
  · exact Yields.ite (fun _ => safe_procinfoNote e inside) (fun _ => safe_pure 0)

theorem safe_doCoreNote : Safe (doCoreNote e n) := by
  apply (safe_osStyle inside).bind
  intro style
  apply safe_getFlags.bind
  intro flags
  cases style with
  | none => exact safe_coreOf e inside none
  | some s =>
      apply Yields.ite (fun _ => safe_coreOf e inside (some s))
      intro _
      apply safe_printThen
      apply (safe_setFlags _).bind
      intro _
      exact (safe_setFlags _).bind (fun _ => safe_coreOf e inside (some s))

omit inside in
theorem safe_getOffsetFromVirtaddr (fsize : Int) (virtaddr num : Nat) (off : Int) :
    Safe (getOffsetFromVirtaddr e fsize virtaddr num off) := by
  induction num generalizing off with
  | zero => exact safe_pure 0
  | succ num ih =>
      rw [getOffsetFromVirtaddr]
      split
      · exact safe_print e _ _ 0
      · apply Yields.ite (fun _ => ih _)
        intro _
        exact Yields.ite (fun _ => safe_pure _) (fun _ => ih _)

omit inside in
theorem safe_getStringOnVirtaddr (phOff : Int) (phNum : Nat) (fsize : Int) (virtaddr : Nat) :
    Safe (getStringOnVirtaddr e phOff phNum fsize virtaddr) := by
  apply (safe_getOffsetFromVirtaddr e fsize virtaddr phNum phOff).bind
  intro offset
  have cannot : Safe (do
      let _ ← elfPrintf e ", can't read elf string at %jd" [.int offset]
      pure ([] : Bytes)) :=
    (safe_elfPrintf e _ _).bind (fun _ => safe_pure [])
  apply Yields.ite (fun _ => cannot)
  intro _
  split
  · exact cannot
  · exact cannot
  · exact safe_pure _

omit inside in
theorem safe_auxvElement (phOff : Int) (phNum : Nat) (fsize : Int) (auxv : Bytes) {rest : Prog Int}
    (h : Safe rest) : Safe (auxvElement e phOff phNum fsize auxv rest) := by
  rw [auxvElement]
  split
  · exact h
  · apply (safe_getStringOnVirtaddr e phOff phNum fsize _).bind
    intro buf
    exact Yields.ite (fun _ => h) (fun _ => safe_printThen e _ _ h)
  · exact safe_printThen e _ _ h

theorem safe_auxvFrom (phOff : Int) (phNum : Nat) (fsize : Int) (left off : Nat) :
    Safe (auxvFrom e n phOff phNum fsize left off) := by
  have desc := inside.desc
  have size := inside.size_lt
  have element (fits : off + auxvSizeof e ≤ n.descsz) :
      sz (n.doff + off) + auxvSizeof e ≤ n.size := by
    rw [sz, Nat.mod_eq_of_lt (by omega)]
    omega
  induction left generalizing off with
  | zero =>
      rw [auxvFrom]
      apply Yields.ite
      · intro fits
        apply (safe_bytes (element fits)).bind
        intro auxv
        exact (safe_elfError e _ _ _).bind (fun _ => safe_pure 1)
      · intro _
        exact safe_pure 1
  | succ left ih =>
      rw [auxvFrom]
      apply Yields.ite
      · intro fits
        apply (safe_bytes (element fits)).bind
        intro auxv
        apply safe_auxvElement
        apply ih
        intro fits
        rw [sz, Nat.mod_eq_of_lt (by omega)]
        omega
      · intro _
        exact safe_pure 1

theorem safe_doAuxvNote (phOff : Int) (phNum : Nat) (fsize : Int) :
    Safe (doAuxvNote e n phOff phNum fsize) := by
  apply safe_getFlags.bind
  intro flags
  apply Yields.ite (fun _ => safe_pure 0)
  intro _
  apply Yields.ite (fun _ => safe_pure 0)
  intro _
  apply Yields.ite (fun _ => safe_pure 0)
  intro _
  exact (safe_setFlags _).bind (fun _ => safe_auxvFrom e inside phOff phNum fsize 50 0)

end Core

end Libmagic.Readelf
