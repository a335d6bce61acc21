import Libmagic.Readelf.Handlers

/-!
# What the walk over the notes touches

`donote` calls its handlers with notes that are inside the buffer, whatever the sizes and the
alignment of the file make `ELF_ALIGN` do, and the loops around it come to their end.
-/
namespace Libmagic.Readelf

open Softmagic
open Run (Policy Meets Yields)

/-! ## `ELF_ALIGN` -/

theorem has_bit31 (x : Nat) : has x 0x80000000 = x.testBit 31 := by
  have single : x &&& 2 ^ 31 = (x.testBit 31).toNat * 2 ^ 31 := Nat.and_two_pow x 31
  rw [show (0x80000000 : Nat) = 2 ^ 31 by rfl, has, single]
  cases x.testBit 31 <;> rfl

theorem testBit31_false {x : Nat} (h : has x 0x80000000 = false) : x / 2 ^ 31 % 2 = 0 := by
  rw [has_bit31, Nat.testBit_eq_decide_div_mod_eq, decide_eq_false_iff_not] at h
  omega

/-- Where the sum does not wrap, the alignment is the least multiple that is not below. -/
theorem elfAlign_le {align a : Nat} (pos : 0 < align) (h : a + align ≤ 2 ^ 64) :
    elfAlign align a ≤ a + (align - 1) ∧ (a ≤ align → elfAlign align a ≤ align) := by
  have sum : sz (a + align + (2 ^ 64 - 1)) = a + (align - 1) := by
    have wrap : a + align + (2 ^ 64 - 1) = a + (align - 1) + 2 ^ 64 := by omega
    rw [sz, wrap, Nat.add_mod_right, Nat.mod_eq_of_lt (by omega)]
  have below : (a + (align - 1)) / align * align ≤ a + (align - 1) := Nat.div_mul_le_self _ _
  have whole : elfAlign align a = (a + (align - 1)) / align * align := by
    rw [elfAlign, sum, sz, Nat.mod_eq_of_lt (by omega)]
  rw [whole]
  refine ⟨below, ?_⟩
  intro small
  have once : (a + (align - 1)) / align ≤ 1 := by
    rw [← Nat.lt_succ_iff, Nat.div_lt_iff_lt_mul pos]
    omega
  calc (a + (align - 1)) / align * align
      ≤ 1 * align := Nat.mul_le_mul_right align once
    _ = align := Nat.one_mul align

/-- What the callers pass: an alignment of 4, or one of the file that was let through with
what fits into `nbuf`. -/
def Passed (size align : Nat) : Prop :=
  (align = 4 ∧ size < 2 ^ 63) ∨ (align < 2 ^ 64 ∧ badAlign align = false ∧ size ≤ NBUFSIZE)

theorem Passed.size_lt {size align : Nat} (h : Passed size align) : size < 2 ^ 63 := by
  rcases h with ⟨_, lt⟩ | ⟨_, _, le⟩
  · exact lt
  · exact Nat.lt_of_le_of_lt le (by decide)

/-- A description of less than `2 ^ 31` bytes behind an aligned index does not wrap: bit 31 of
the alignment is clear. -/
theorem Passed.elfAlign_lt {size align a : Nat} (h : Passed size align) (inside : a ≤ size) :
    elfAlign align a < 2 ^ 64 - 2 ^ 31 := by
  rcases h with ⟨rfl, lt⟩ | ⟨lt, good, le⟩
  · have near := (elfAlign_le (show 0 < 4 by decide) (show a + 4 ≤ 2 ^ 64 by omega)).1
    omega
  · rw [badAlign, Bool.or_eq_false_iff, decide_eq_false_iff_not] at good
    have clear := testBit31_false good.1
    have small : size ≤ 2024 := le
    have near := elfAlign_le (show 0 < align by omega) (show a + align ≤ 2 ^ 64 by omega)
    rcases Nat.le_total a align with below | above
    · have := near.2 below
      omega
    · have := near.1
      omega

/-! ## `donote` -/

section Donote

variable (e : Elf)

theorem getu_lt {n : Nat} {bs : Bytes} (h : bs.length ≤ n) : getu e n bs < 256 ^ n := by
  have grow : 256 ^ bs.length ≤ 256 ^ n := Nat.pow_le_pow_right (by decide) h
  rw [getu]
  split
  · rw [Order.swap]
    have lt := Order.load_lt .big (Order.little.store n
      ((if e.host.bigendian then Order.big else Order.little).load bs))
    rwa [Order.store_length] at lt
  · exact Nat.lt_of_lt_of_le (Order.load_lt _ bs) grow

theorem getu_field_lt (f : Field) (bs : Bytes) : getu e f.size (f.get bs) < 256 ^ f.size :=
  getu_lt e (by rw [Field.get]; exact List.length_take_le _ _)

section Handle

variable {n : Note} (inside : n.Inside)

include inside

theorem safe_handlers (phOff : Int) (phNum : Nat) (fsize : Int) :
    ∀ h ∈ handlers e phOff phNum fsize n, Safe h.2 := by
  simp only [handlers, List.forall_mem_cons, List.not_mem_nil, false_implies, implies_true, and_true]
  exact ⟨safe_doOsNote e inside, safe_doBidNote e inside, safe_doPaxNote e inside,
    safe_doMemtagNote e inside, safe_doCoreNote e inside, safe_doAuxvNote e inside phOff phNum fsize⟩

theorem safe_callHandlers (hs : List (Nat × Prog Int)) (safe : ∀ h ∈ hs, Safe h.2) :
    Safe (callHandlers n hs) := by
  induction hs with
  | nil => exact safe_pure false
  | cons h hs ih =>
      have rest := ih (fun h' hh' => safe h' (List.mem_cons_of_mem h hh'))
      apply safe_getFlags.bind
      intro flags
      apply Yields.ite (fun _ => rest)
      intro _
      have called : Safe (Run.once (.handler n.size n.noff n.namesz n.doff n.descsz) () : Prog Unit) :=
        Yields.once (Policy.each_single ⟨inside.name, inside.desc⟩) trivial
      apply called.bind
      intro _
      apply (safe h List.mem_cons_self).bind
      intro rv
      exact Yields.ite (fun _ => safe_pure true) (fun _ => rest)

theorem safe_netbsdString (flag : Nat) (tag : String) : Safe (netbsdString e n flag tag) := by
  have desc := inside.desc
  apply safe_getFlags.bind
  intro flags
  apply Yields.ite (fun _ => safe_pure ())
  intro _
  apply (safe_setFlags _).bind
  intro _
  apply (safe_copystr (by omega)).bind
  intro str
  exact (safe_elfPrintf e _ _).bind (fun _ => safe_pure ())

theorem safe_netbsdNote : Safe (netbsdNote e n) := by
  apply (safe_nameEquals inside _).bind
  intro netbsd
  apply Yields.ite
  · intro _
    apply Yields.ite (fun _ => safe_pure ())
    intro _
    apply Yields.ite (fun _ => safe_netbsdString e inside _ _)
    intro _
    apply Yields.ite (fun _ => safe_netbsdString e inside _ _)
    intro _
    apply Yields.ite (fun _ => safe_netbsdString e inside _ _)
    intro _
    apply safe_getFlags.bind
    intro flags
    apply Yields.ite (fun _ => safe_pure ())
    intro _
    apply (safe_setFlags _).bind
    intro _
    exact (safe_elfPrintf e _ _).bind (fun _ => safe_pure ())
  · intro _
    exact safe_pure ()

theorem safe_handleNote (phOff : Int) (phNum : Nat) (fsize : Int) :
    Safe (handleNote e phOff phNum fsize n) := by
  apply (safe_callHandlers inside _ (safe_handlers e inside phOff phNum fsize)).bind
  intro done
  exact Yields.ite (fun _ => safe_pure ()) (fun _ => safe_netbsdNote e inside)

end Handle

/-- How far an alignment of 4 can get. -/
def FourNear (align r : Nat) : Prop := align = 4 → r < 2 ^ 63 + 2 ^ 33

theorem fourNear_elfAlign {align a : Nat} (h : a < 2 ^ 63 + 2 ^ 32 + 3) :
    FourNear align (elfAlign align a) := by
  rintro rfl
  have near := (elfAlign_le (show 0 < 4 by decide) (show a + 4 ≤ 2 ^ 64 by omega)).1
  omega

theorem yields_noteBody (phOff : Int) (phNum : Nat) (fsize : Int) (nbuf : Nat → UInt8)
    {size align noff : Nat} (nh : Bytes) (passed : Passed size align) (header : noff ≤ size) :
    Yields walking (noteBody e phOff phNum fsize nbuf size align nh noff) (FourNear align) := by
  have size_lt := passed.size_lt
  have namesz_lt := getu_field_lt e ⟨0, 4⟩ nh
  have descsz_lt := getu_field_lt e ⟨4, 4⟩ nh
  have zero : FourNear align 0 := fun _ => by decide
  have most {r : Nat} (h : r < 2 ^ 63 + 2 ^ 33) : FourNear align r := fun _ => h
  rw [noteBody]
  dsimp only at namesz_lt descsz_lt ⊢
  generalize getu e 4 ((⟨0, 4⟩ : Field).get nh) = namesz at *
  generalize getu e 4 ((⟨4, 4⟩ : Field).get nh) = descsz at *
  apply Yields.ite
  · intro _
    exact Yields.pure (most (by split <;> omega))
  intro _
  apply Yields.ite (fun _ => (safe_elfPrintf e _ _).bind (fun _ => Yields.pure zero))
  intro goodName
  apply Yields.ite (fun _ => (safe_elfPrintf e _ _).bind (fun _ => Yields.pure zero))
  intro goodDesc
  have hnamesz : namesz < 2 ^ 31 := by
    have clear := testBit31_false (Bool.eq_false_of_not_eq_true goodName)
    omega
  have hdescsz : descsz < 2 ^ 31 := by
    have clear := testBit31_false (Bool.eq_false_of_not_eq_true goodDesc)
    omega
  have name : sz (noff + namesz) = noff + namesz := Nat.mod_eq_of_lt (by omega)
  apply Yields.ite
  · intro _
    exact Yields.pure (fourNear_elfAlign (by omega))
  intro fits
  have doff_lt := passed.elfAlign_lt (Nat.le_of_not_lt fits)
  have desc : sz (elfAlign align (sz (noff + namesz)) + descsz) =
      elfAlign align (sz (noff + namesz)) + descsz := Nat.mod_eq_of_lt (by omega)
  have next : FourNear align (elfAlign align (sz (elfAlign align (sz (noff + namesz)) + descsz))) := by
    rintro rfl
    have near := (elfAlign_le (show 0 < 4 by decide)
      (show sz (noff + namesz) + 4 ≤ 2 ^ 64 by omega)).1
    exact fourNear_elfAlign (by omega) rfl
  apply Yields.ite
  · intro _
    apply Yields.pure
    split
    · exact next
    · exact most (by omega)
  intro fits'
  have inside : Note.Inside ⟨nbuf, size, getu e 4 ((⟨8, 4⟩ : Field).get nh), namesz, descsz, noff,
      elfAlign align (sz (noff + namesz))⟩ := by
    constructor
    · dsimp only
      omega
    · dsimp only
      omega
    · exact size_lt
  exact (safe_handleNote e inside phOff phNum fsize).bind (fun _ => Yields.pure next)

/-- What `donote` leaves: one note less to go, unless it returns 0. -/
structure Left (align offset : Nat) (notecount : UInt16) (r : Nat × UInt16) : Prop where
  less : r.1 ≠ 0 → r.2.toNat < notecount.toNat
  near : align = 4 → r.1 = 12 + offset ∨ r.1 < 2 ^ 63 + 2 ^ 33

theorem yields_donote (phOff : Int) (phNum : Nat) (fsize : Int) (nbuf : Nat → UInt8)
    {size align offset : Nat} (notecount : UInt16) (passed : Passed size align)
    (nowrap : 12 + offset < 2 ^ 64) :
    Yields walking (donote e phOff phNum fsize nbuf size align offset notecount)
      (Left align offset notecount) := by
  have sum : sz (12 + offset) = 12 + offset := Nat.mod_eq_of_lt nowrap
  apply Yields.ite
  · intro none
    exact Yields.pure ⟨fun h => absurd rfl h, fun _ => .inr (show 0 < 2 ^ 63 + 2 ^ 33 by decide)⟩
  intro some
  have one : (notecount - 1).toNat < notecount.toNat := by
    have pos : notecount.toNat ≠ 0 := fun h => some (UInt16.toNat_inj.mp h)
    have one_le : 1 ≤ notecount := UInt16.le_iff_toNat_le.mpr (Nat.pos_of_ne_zero pos)
    rw [UInt16.toNat_sub_of_le _ _ one_le]
    exact Nat.sub_lt (Nat.pos_of_ne_zero pos) (by decide)
  have counted : Safe (Run.once (.decrement notecount) () : Prog Unit) :=
    Yields.once (Policy.each_single some) trivial
  apply counted.bind
  intro _
  apply Yields.ite
  · intro _
    exact Yields.pure ⟨fun _ => one, fun _ => .inl sum⟩
  intro header
  have copied : Safe (Run.once (.read size offset 12) ((List.range 12).map (fun i => nbuf (offset + i)))
      : Prog Bytes) :=
    Yields.once (Policy.each_single (show offset + 12 ≤ size by omega)) trivial
  apply copied.bind
  intro nh
  have behind : sz (offset + 12) ≤ size := by
    rw [Nat.add_comm]
    exact Nat.le_of_not_lt header
  apply (yields_noteBody e phOff phNum fsize nbuf nh passed behind).bind
  intro next near
  exact Yields.pure ⟨fun _ => one, fun four => .inr (near four)⟩

end Donote

/-! ## The loops -/

/-- An invariant of the offset and of the notes that are left. -/
theorem safe_noteLoop {past : Nat → Bool} {note : Nat → UInt16 → Prog (Nat × UInt16)}
    (inv : Nat → UInt16 → Prop) (notecount : UInt16) (start : inv 0 notecount)
    (step : ∀ offset count, inv offset count → past offset = false →
      Yields walking (note offset count) (fun r => r.1 ≠ 0 → r.2.toNat < count.toNat ∧ inv r.1 r.2)) :
    Safe (noteLoop past note notecount) := by
  intro ms
  have round : ∀ t : Nat × UInt16 × Ms, inv t.1 t.2.1 →
      Meets walking 0 (noteRound past note t)
        (Sum.elim (fun t' => inv t'.1 t'.2.1 ∧ t'.2.1.toNat < t.2.1.toNat) (fun _ => True)) := by
    intro t ht
    unfold noteRound
    split
    · exact Meets.pure trivial
    · rename_i more
      apply Meets.bind (step t.1 t.2.1 ht (Bool.eq_false_of_not_eq_true more) t.2.2)
      intro r hr
      split
      · exact Meets.pure trivial
      · rename_i next
        exact Meets.pure (hr next).symm
  exact Meets.loop round _ _ start (Nat.lt_succ_self _)

section Drivers

variable (e : Elf) (behind : Nat → UInt8)

/-- The loop of `dophn_core` and `dophn_exec`. -/
theorem safe_headerNotes (phOff : Int) (phNum : Nat) (fsize : Int) {bs : Bytes} {align : Nat}
    (notecount : UInt16) (passed : Passed bs.length align) :
    Safe (noteLoop (fun offset => decide (offset ≥ bs.length))
      (donote e phOff phNum fsize (memory bs behind) bs.length align) notecount) := by
  have size := passed.size_lt
  apply safe_noteLoop (fun _ _ => True) notecount trivial
  intro offset count _ before
  have lt : offset < bs.length := Nat.lt_of_not_le (of_decide_eq_false before)
  apply (yields_donote e phOff phNum fsize _ count passed (by omega)).mono
  intro r left next
  exact ⟨left.less next, trivial⟩

/-- The loop of `doshn`, whose `off_t` may become negative: then every call is one header
further and the notes run out. -/
theorem safe_sectionNotes {bs : Bytes} {size : Nat} (notecount : UInt16) (lt : size < 2 ^ 63) :
    Safe (noteLoop (fun noff => decide (sN 64 noff ≥ sN 64 size))
      (donote e 0 0 0 (memory bs behind) size 4) notecount) := by
  apply safe_noteLoop (fun offset count => offset + 12 * count.toNat < 2 ^ 63 + 2 ^ 34) notecount
  · have := notecount.toNat_lt
    omega
  · intro offset count room _
    have := count.toNat_lt
    apply (yields_donote e 0 0 0 _ count (.inl ⟨rfl, lt⟩) (by omega)).mono
    intro r left next
    have less := left.less next
    refine ⟨less, ?_⟩
    rcases left.near rfl with far | near
    · omega
    · omega

theorem safe_giveUp (fmt : String) (args : List Arg) (notecount : UInt16) :
    Safe (giveUp e fmt args notecount) :=
  (safe_print e fmt args 0).bind (fun _ => safe_pure _)

theorem nbufLen_le (ph : Bytes) : nbufLen e ph ≤ NBUFSIZE := by
  unfold nbufLen
  split <;> omega

theorem pread_nbufLen {off : Int} {ph bs : Bytes} (h : e.os.pread off (nbufLen e ph) = some bs) :
    bs.length ≤ NBUFSIZE :=
  Nat.le_trans (e.os.pread_length _ _ _ h) (nbufLen_le e ph)

theorem passed_four {bs : Bytes} (h : bs.length ≤ NBUFSIZE) : Passed bs.length 4 :=
  .inl ⟨rfl, Nat.lt_of_le_of_lt h (by decide)⟩

theorem safe_coreHeaders (phOff : Int) (phNum size : Nat) (fsize : Int) (num : Nat) (off : Int)
    (notecount : UInt16) :
    Safe (coreHeaders e behind phOff phNum size fsize num off notecount) := by
  induction num generalizing off notecount with
  | zero => exact safe_pure _
  | succ num ih =>
      rw [coreHeaders]
      split
      · exact safe_giveUp e _ _ _
      apply Yields.ite (fun _ => ih _ _)
      intro _
      apply Yields.ite (fun _ => ih _ _)
      intro _
      split
      · exact safe_giveUp e _ _ _
      · rename_i bs read
        apply (safe_headerNotes e behind phOff phNum fsize notecount
          (passed_four (pread_nbufLen e read))).bind
        intro notecount
        exact ih _ _

theorem safe_dophnCore (off : Int) (num size : Nat) (fsize : Int) (notecount : UInt16) :
    Safe (dophnCore e behind off num size fsize notecount) := by
  apply Yields.ite (fun _ => safe_pure _)
  intro _
  apply Yields.ite (fun _ => safe_giveUp e _ _ _)
  intro _
  exact Yields.ite (fun _ => safe_giveUp e _ _ _)
    (fun _ => safe_coreHeaders e behind off num size fsize num off notecount)

theorem safe_doshnNote (shsizeMax shSize : Nat) (shOffset fsize : Int) (notecount : UInt16) :
    Safe (doshnNote e behind shsizeMax shSize shOffset fsize notecount) := by
  apply Yields.ite (fun _ => (safe_print e _ _ 0).bind (fun _ => safe_pure _))
  intro _
  apply Yields.ite (fun _ => (safe_elfError e _ _ _).bind (fun _ => safe_pure _))
  intro _
  apply Yields.ite
  · intro allocated
    split
    · exact (safe_print e _ _ 0).bind (fun _ => safe_pure _)
    · exact (safe_sectionNotes e behind notecount (e.os.malloc_lt _ allocated)).bind
        (fun _ => safe_pure _)
  · intro _
    exact (safe_elfError e _ _ _).bind (fun _ => safe_pure _)

/-! ### The dynamic section -/

theorem dhSizeof_pos : 0 < dhSizeof e ∧ dhSizeof e ≤ 16 := by
  unfold dhSizeof
  split <;> decide

theorem yields_dodynamic (dbuf : Nat → UInt8) {offset size : Nat} (l : Linked)
    (before : offset < size) (size_lt : size < 2 ^ 63) :
    Yields walking (dodynamic e dbuf offset size l) (fun r => offset < r.1) := by
  have width := dhSizeof_pos e
  have sum : sz (dhSizeof e + offset) = dhSizeof e + offset := Nat.mod_eq_of_lt (by omega)
  have next : offset < sz (offset + dhSizeof e) := by
    rw [Nat.add_comm, sum]
    omega
  apply Yields.ite
  · intro _
    exact Yields.pure (show offset < sz (dhSizeof e + offset) by omega)
  intro fits
  have copied : Safe (Run.once (.read size offset (dhSizeof e))
      ((List.range (dhSizeof e)).map (fun i => dbuf (offset + i))) : Prog Bytes) :=
    Yields.once (Policy.each_single (show offset + dhSizeof e ≤ size by omega)) trivial
  apply copied.bind
  intro dh
  have mode (g : Prog Unit) (h : Safe g) (l' : Linked) :
      Yields walking (do g; pure (sz (offset + dhSizeof e), l')) (fun r => offset < r.1) :=
    h.bind (fun _ => Yields.pure next)
  apply Yields.ite
  · intro _
    exact Yields.ite (fun _ => mode _ (Yields.state (fun _ => trivial)) _)
      (fun _ => mode _ (Yields.state (fun _ => trivial)) _)
  intro _
  exact Yields.ite (fun _ => Yields.pure next) (fun _ => Yields.pure next)

theorem safe_dynamicLoop (dbuf : Nat → UInt8) {size : Nat} (l : Linked) (size_lt : size < 2 ^ 63) :
    Safe (dynamicLoop e dbuf size l) := by
  intro ms
  have round : ∀ t : Nat × Linked × Ms, True →
      Meets walking 0 (dynamicRound e dbuf size t)
        (Sum.elim (fun t' => True ∧ size - t'.1 < size - t.1) (fun _ => True)) := by
    intro t _
    unfold dynamicRound
    split
    · exact Meets.pure trivial
    · rename_i before
      apply Meets.bind (yields_dodynamic e dbuf t.2.1 (Nat.lt_of_not_le before) size_lt t.2.2)
      intro r further
      split
      · exact Meets.pure trivial
      · exact Meets.pure ⟨trivial, by dsimp only; omega⟩
  exact Meets.loop round _ _ trivial (Nat.lt_succ_of_le (Nat.sub_le size 0))

/-! ### `dophn_exec` -/

theorem safe_sectionRead {align : Nat} (ph : Bytes) {bs : Bytes} (l : Linked) (notecount : UInt16)
    {next : Linked → UInt16 → Prog (Int × UInt16)} (passed : Passed bs.length align)
    (hnext : ∀ l notecount, Safe (next l notecount)) :
    Safe (sectionRead e behind align ph bs l notecount next) := by
  apply Yields.ite
  · intro _
    apply Safe.bind (x := notExecutable) (Yields.state (fun _ => trivial))
    intro _
    exact (safe_dynamicLoop e _ _ passed.size_lt).bind (fun l => hnext l notecount)
  intro _
  apply Yields.ite
  · intro _
    exact Yields.ite (fun _ => hnext _ _) (fun _ => hnext _ _)
  intro _
  apply Yields.ite (fun _ => safe_pure _)
  intro _
  exact (safe_headerNotes e behind 0 0 0 notecount passed).bind (fun c => hnext l c)

theorem safe_readSection {align : Nat} (ph : Bytes) (l : Linked) (notecount : UInt16)
    {next : Linked → UInt16 → Prog (Int × UInt16)}
    (passed : ∀ bs : Bytes, bs.length ≤ NBUFSIZE → Passed bs.length align)
    (hnext : ∀ l notecount, Safe (next l notecount)) :
    Safe (readSection e behind align ph l notecount next) := by
  rw [readSection]
  split
  · exact safe_giveUp e _ _ _
  · rename_i bs read
    exact safe_sectionRead e behind ph l notecount (passed bs (pread_nbufLen e read)) hnext

theorem phAlign_lt (ph : Bytes) : phAlign e ph < 2 ^ 64 := by
  have word : member e ⟨28, 4⟩ ⟨48, 8⟩ ph < 2 ^ 64 := by
    unfold member
    split
    · exact Nat.lt_of_lt_of_le (getu_field_lt e ⟨28, 4⟩ ph) (by decide)
    · exact Nat.lt_of_lt_of_le (getu_field_lt e ⟨48, 8⟩ ph) (by decide)
  unfold phAlign orFour
  split
  · decide
  · exact word

theorem safe_printLinked (l : Linked) : Safe (printLinked e l) := by
  apply Yields.ite (fun _ => safe_pure 0)
  intro _
  apply safe_printThen
  exact Yields.ite (fun _ => safe_pure 0) (fun _ => safe_print e _ _ 0)

theorem safe_execHeaders (size shNum num : Nat) (off : Int) (l : Linked) (notecount : UInt16) :
    Safe (execHeaders e behind size shNum num off l notecount) := by
  induction num generalizing off l notecount with
  | zero => exact (safe_printLinked e l).bind (fun _ => safe_pure _)
  | succ num ih =>
      rw [execHeaders]
      split
      · exact safe_giveUp e _ _ _
      rename_i ph _
      have four := safe_readSection e behind ph l notecount (fun bs => passed_four)
        (fun l c => ih (off + size) l c)
      apply Yields.ite
      · intro _
        apply Yields.ite (fun _ => ih _ _ _)
        intro _
        apply Yields.ite
        · intro _
          apply (safe_elfPrintf e _ _).bind
          intro ok
          exact Yields.ite (fun _ => four) (fun _ => safe_pure _)
        · intro good
          have passed (bs : Bytes) (le : bs.length ≤ NBUFSIZE) : Passed bs.length (phAlign e ph) :=
            .inr ⟨phAlign_lt e ph, Bool.eq_false_of_not_eq_true good, le⟩
          exact safe_readSection e behind ph l notecount passed (fun l c => ih (off + size) l c)
      intro _
      exact Yields.ite (fun _ => four) (fun _ => ih _ _ _)

theorem safe_dophnExec (off : Int) (num size shNum : Nat) (notecount : UInt16) :
    Safe (dophnExec e behind off num size shNum notecount) := by
  apply Yields.ite (fun _ => safe_giveUp e _ _ _)
  intro _
  exact Yields.ite (fun _ => safe_giveUp e _ _ _)
    (fun _ => safe_execHeaders e behind size shNum num off _ notecount)

end Drivers

/-- A walk that comes to its end, with every read inside the buffer, every handler called with
a note inside the buffer, and no count below 0. -/
def Walked {α : Type} (r : Run Event α) : Prop :=
  r.value.isSome = true ∧ ∀ event ∈ r.events, Allowed event

theorem Safe.walked {α : Type} {x : Prog α} (h : Safe x) (ms : Ms) : Walked (x ms) := by
  obtain ⟨a, value, _⟩ := (h ms).value_post
  exact ⟨by rw [value]; rfl, (h ms).allowed⟩

/-- Whatever the file has, each of the three routines that walk over notes is safe and comes to
its end. -/
theorem notes_walked (e : Elf) (behind : Nat → UInt8) (notecount : UInt16) (ms : Ms) :
    (∀ off num size fsize, Walked (dophnCore e behind off num size fsize notecount ms)) ∧
    (∀ off num size shNum, Walked (dophnExec e behind off num size shNum notecount ms)) ∧
    (∀ shsizeMax shSize shOffset fsize,
      Walked (doshnNote e behind shsizeMax shSize shOffset fsize notecount ms)) := by
  refine ⟨?_, ?_, ?_⟩
  · intro off num size fsize
    exact (safe_dophnCore e behind off num size fsize notecount).walked ms
  · intro off num size shNum
    exact (safe_dophnExec e behind off num size shNum notecount).walked ms
  · intro shsizeMax shSize shOffset fsize
    exact (safe_doshnNote e behind shsizeMax shSize shOffset fsize notecount).walked ms

end Libmagic.Readelf
