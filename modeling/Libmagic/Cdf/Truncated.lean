import Libmagic.Cdf.Safety

/-!
# The last sector of a file that ends too early

`cdf_read_long_sector_chain` has a branch for a last sector of which only a part was read. Here
`cdf_read` returns its `ssize_t`, so that the branch can be taken wherever that number allows it.
-/
namespace Libmagic.Cdf

open Softmagic

namespace Truncation

/-- The `pread` of `cdf_read`, with what it leaves at the start of `buf`. -/
def fromFd (info : Info) (off len : Nat) : Int × Bytes :=
  match info.fd.bind (fun pread => pread off len) with
  | none => (-1, [])
  | some bs => if bs.length ≠ len then (-1, bs) else (len, bs)

/-- `cdf_read`. -/
def cdfRead (info : Info) (off len : Nat) : Int × Bytes :=
  match info.buf with
  | some buf => if buf.length ≥ sz (off + len) then (len, (buf.drop off).take len) else fromFd info off len
  | none => fromFd info off len

/-- `cdf_read_sector`. -/
def cdfReadSector (info : Info) (tab : Tab) (mem : Bytes) (offs len : Nat) (h : Header) (id : Int) :
    Run Event (Int × Bytes) :=
  if tooFar h.secSize id then pure (-1, mem)
  else do
    Run.event (.assertion h.secSize len) ()
    touch tab mem offs len
    let r := cdfRead info (h.secPos (uN 64 id)) len
    pure (r.1, (⟨offs, len⟩ : Field).set mem r.2)

/-- A round of the loop of `cdf_read_long_sector_chain`. -/
def longRound (info : Info) (h : Header) (sat : Sat) (n : Nat) (t : Int × Nat × Bytes) :
    Run Event ((Int × Nat × Bytes) ⊕ Option Bytes) :=
  if t.1 ≥ 0 then
    if t.2.1 ≥ CDF_LOOP_LIMIT then pure (.inr none)
    else if t.2.1 ≥ n then pure (.inr none)
    else do
      let r ← cdfReadSector info .sst t.2.2 (t.2.1 * h.secSize) h.secSize h t.1
      if r.1 ≠ h.secSize then
        -- the last sector might be truncated
        if t.2.1 = n - 1 ∧ r.1 > 0 then pure (.inr (some r.2)) else pure (.inr none)
      else do
        let sid ← satAt sat t.1.toNat
        pure (.inl (sid, t.2.1 + 1, r.2))
  else pure (.inr (some t.2.2))

/-- `cdf_read_long_sector_chain`. -/
def cdfReadLongSectorChain (info : Info) (h : Header) (sat : Sat) (sid : Int) (len : Nat) :
    Run Event (Option Stream) := do
  let count ← cdfCountChain sat sid h.secSize
  if sid = CDF_SECID_END_OF_CHAIN ∨ len = 0 then pure none
  else match count with
    | none => pure none
    | some n =>
        if !info.calloc n h.secSize then pure none
        else do
          let tab ← Run.loop (longRound info h sat n) (CDF_LOOP_LIMIT + 1) (sid, 0, zeroed n h.secSize)
          pure (tab.map (fun tab => ⟨tab, n, max h.minSizeStandardStream len, h.secSize⟩))

end Truncation

/-! ## A short read is no read -/

section Whole

/-- What `cdf_read` returns is all that it was asked for, or `-1`. -/
structure Whole (r : Int × Bytes) (len : Nat) (whole : Option Bytes) : Prop where
  count : r.1 = len ∨ r.1 = -1
  bytes : whole = if r.1 = len then some r.2 else none

theorem Whole.all (bs : Bytes) (len : Nat) : Whole (len, bs) len (some bs) :=
  ⟨.inl rfl, (if_pos rfl).symm⟩

theorem Whole.failed (bs : Bytes) (len : Nat) : Whole (-1, bs) len none := by
  have never : ((-1 : Int), bs).1 ≠ len := by
    dsimp only
    omega
  exact ⟨.inr rfl, (if_neg never).symm⟩

variable (info : Info) (off len : Nat)

theorem fromFd_whole :
    Whole (Truncation.fromFd info off len) len
      (info.fd.bind (fun pread => (pread off len).filter (fun bs => bs.length == len))) := by
  unfold Truncation.fromFd
  cases info.fd with
  | none => exact Whole.failed [] len
  | some pread =>
      rw [Option.bind_some, Option.bind_some]
      cases pread off len with
      | none => exact Whole.failed [] len
      | some bs =>
          by_cases length : bs.length = len
          · have kept : (some bs).filter (fun bs => bs.length == len) = some bs :=
              Option.filter_some_pos (beq_iff_eq.mpr length)
            dsimp only
            rw [kept, if_neg (not_not_intro length)]
            exact Whole.all bs len
          · have dropped : (some bs).filter (fun bs => bs.length == len) = none :=
              Option.filter_some_neg (beq_eq_false_iff_ne.mpr length)
            dsimp only
            rw [dropped, if_pos length]
            exact Whole.failed bs len

theorem cdfRead_whole : Whole (Truncation.cdfRead info off len) len (cdfRead info off len) := by
  unfold Truncation.cdfRead cdfRead
  cases info.buf with
  | none => exact fromFd_whole info off len
  | some buf =>
      dsimp only
      by_cases fits : buf.length ≥ sz (off + len)
      · rw [if_pos fits, if_pos fits]
        exact Whole.all _ len
      · rw [if_neg fits, if_neg fits]
        exact fromFd_whole info off len

end Whole

/-! ## The branch is never taken -/

section Long

variable (info : Info) (h : Header) (sat : Sat)

/-- What comes behind a sector only sees a whole one, or `-1`. -/
theorem cdfReadSector_bind (tab : Tab) (mem : Bytes) (offs : Nat) (id : Int) {β : Type}
    {body : Int × Bytes → Run Event β} {failed : Run Event β} {next : Bytes → Run Event β}
    (whole : ∀ mem, body (h.secSize, mem) = next mem) (bad : ∀ mem, body (-1, mem) = failed) :
    Truncation.cdfReadSector info tab mem offs h.secSize h id >>= body =
      cdfReadSector info tab mem offs h.secSize h id >>= fun r => r.elim failed next := by
  unfold Truncation.cdfReadSector cdfReadSector
  by_cases far : tooFar h.secSize id
  · rw [if_pos far, if_pos far, Run.pure_bind, Run.pure_bind, bad]
    rfl
  · rw [if_neg far, if_neg far]
    simp only [Run.bind_assoc, Run.pure_bind]
    obtain ⟨count, bytes⟩ := cdfRead_whole info (h.secPos (uN 64 id)) h.secSize
    rw [bytes]
    rcases count with count | count
    · simp only [count, if_true, Option.map_some, Option.elim_some, whole]
    · have negative : (-1 : Int) ≠ h.secSize := by omega
      simp only [count, if_neg negative, Option.map_none, Option.elim_none, bad]

theorem longRound_eq (n : Nat) (t : Int × Nat × Bytes) :
    Truncation.longRound info h sat n t =
      chainRound sat (fun mem offs id => cdfReadSector info .sst mem offs h.secSize h id) h.secSize n t := by
  have negative : (-1 : Int) ≠ h.secSize := by omega
  have none_read : ¬ (t.2.1 = n - 1 ∧ (-1 : Int) > 0) := fun taken => absurd taken.2 (by decide)
  unfold Truncation.longRound chainRound
  congr 3
  refine (cdfReadSector_bind info h .sst t.2.2 (t.2.1 * h.secSize) t.1
    (fun mem => if_neg (not_not_intro rfl)) (fun mem => (if_pos negative).trans (if_neg none_read))).trans ?_
  congr 1
  funext r
  cases r <;> rfl

theorem cdfReadLongSectorChain_eq (sid : Int) (len : Nat) :
    Truncation.cdfReadLongSectorChain info h sat sid len = cdfReadLongSectorChain info h sat sid len := by
  have rounds : Truncation.longRound info h sat =
      fun n => chainRound sat (fun mem offs id => cdfReadSector info .sst mem offs h.secSize h id) h.secSize n := by
    funext n t
    exact longRound_eq info h sat n t
  unfold Truncation.cdfReadLongSectorChain
  rw [rounds]
  rfl

end Long

/-! ## A file that is cut short -/

/-- A file that is open: `i_buf` is the start of it, and `pread` delivers bytes of it. -/
structure Info.Opens (info : Info) (file : Bytes) : Prop where
  buf : ∀ buf, info.buf = some buf → buf <+: file
  fd : ∀ pread, info.fd = some pread → ∀ off len bs, pread off len = some bs →
    bs <+: (file.drop off).take len
  size : file.length < 2 ^ 63

/-- Where a sector starts in the file. -/
def Header.start (h : Header) (id : Nat) : Nat := h.secSize + id * h.secSize

/-- A chain whose sectors are all in the file, but for the last, of which only a part is. -/
structure CutShort (h : Header) (file : Bytes) (ids : List Nat) : Prop where
  some : ids ≠ []
  whole : ∀ id ∈ ids.dropLast, h.start id + h.secSize ≤ file.length
  present : h.start (ids.getLast some) < file.length
  cut : file.length < h.start (ids.getLast some) + h.secSize

/-- The sectors of a chain, as far as they are in the file. -/
def available (h : Header) (file : Bytes) (ids : List Nat) : Bytes :=
  ids.flatMap (fun id => (file.drop (h.start id)).take h.secSize)

/-- What is read is a stream with all that is there of its sectors. -/
def Tolerated (h : Header) (file : Bytes) (ids : List Nat) (r : Option (Option Stream)) : Prop :=
  ∃ scn, r = some (some scn) ∧ available h file ids <+: scn.tab

theorem sector_cut {info : Info} {h : Header} {file : Bytes} {id : Nat} (opens : info.Opens file)
    (present : h.start id < file.length) (cut : file.length < h.start id + h.secSize) :
    sector h info id = none := by
  have size := opens.size
  have le := h.secSize_le
  have nowrap : sz (h.start id + h.secSize) = h.start id + h.secSize := by
    rw [sz, Nat.mod_eq_of_lt (by omega)]
  have none_read : info.fd.bind (fun pread =>
      (pread (h.start id) h.secSize).filter (fun bs => bs.length == h.secSize)) = none := by
    apply Option.bind_eq_none_iff.mpr
    intro pread isFd
    apply Option.filter_eq_none_iff.mpr
    intro bs read
    have part := (opens.fd pread isFd _ _ bs read).length_le
    rw [List.length_take, List.length_drop] at part
    have short : bs.length ≠ h.secSize := by omega
    simpa using short
  change cdfRead info (h.start id) h.secSize = none
  cases isBuf : info.buf with
  | none =>
      simp only [cdfRead, isBuf]
      exact none_read
  | some buf =>
      have part := (opens.buf buf isBuf).length_le
      have outside : ¬ buf.length ≥ sz (h.start id + h.secSize) := by omega
      simp only [cdfRead, isBuf, if_neg outside]
      exact none_read

theorem Follows.unique {sat : Sat} {sid : Int} {ids ids' : List Nat} (h : Follows sat sid ids)
    (h' : Follows sat sid ids') : ids = ids' := by
  induction h generalizing ids' with
  | stop negative => exact (h'.empty negative).symm
  | link rest ih =>
      obtain ⟨rest', rfl, follows⟩ := h'.nonempty (Int.natCast_nonneg _)
      rw [Int.toNat_natCast] at follows ⊢
      rw [ih follows]

theorem concat_none {sec : Nat → Option Bytes} {ids : List Nat} {id : Nat} (member : id ∈ ids)
    (failed : sec id = none) : concat sec ids = none := by
  induction ids with
  | nil => cases member
  | cons first ids ih =>
      rw [concat, List.mapM_cons]
      rcases List.mem_cons.mp member with rfl | member
      · rw [failed]
        rfl
      · have rest : ids.mapM sec = none := Option.map_eq_none_iff.mp (ih member)
        rw [rest]
        cases sec first <;> rfl

/-- A chain whose last sector is cut short is not read: the result is `-1`, whether the bytes are in
memory or come through the descriptor. -/
theorem truncated_refused (info : Info) (file : Bytes) (h : Header) (sat : Sat) (sid : Int) (ids : List Nat)
    (len : Nat) (opens : info.Opens file) (valid : sat.Valid h.secSize) (follows : Follows sat sid ids)
    (short : CutShort h file ids) :
    (Truncation.cdfReadLongSectorChain info h sat sid len).value = some none ∧
      ¬ Tolerated h file ids (Truncation.cdfReadLongSectorChain info h sat sid len).value := by
  have refused : (Truncation.cdfReadLongSectorChain info h sat sid len).value = some none := by
    rw [cdfReadLongSectorChain_eq]
    obtain ⟨r, read, of⟩ := (meets_cdfReadLongSectorChain info h valid sid len).value_post
    cases r with
    | none => exact read
    | some scn =>
        obtain ⟨ids', follows', _, data⟩ := (of scn rfl).1.chain
        obtain rfl := follows.unique follows'
        have last := sector_cut opens short.present short.cut
        rw [concat_none (List.getLast_mem short.some) last] at data
        cases data
  refine ⟨refused, ?_⟩
  rintro ⟨scn, kept, _⟩
  rw [refused] at kept
  cases kept

/-- Sectors of 512 bytes. The first is the table of sectors, and the second is cut short. -/
def ordinaryHeader : Header where
  secSizeP2 := 9
  shortSecSizeP2 := 6
  secidFirstDirectory := 1
  minSizeStandardStream := 4096
  secidFirstSectorInShortSat := -2
  secidFirstSectorInMasterSat := -2
  numSectorsInMasterSat := 0
  masterSat := 0 :: List.replicate 108 (-1)
  secSizeP2_le := by decide
  shortSecSizeP2_le := by decide

def ordinarySat : Sat := ⟨[0xfd, 0xff, 0xff, 0xff, 0xfe, 0xff, 0xff, 0xff] ++ List.replicate 504 0xff, 1⟩

/-- A file that ends 100 bytes into its second sector. -/
def cutFile : Bytes := List.replicate 1124 0

def inMemory (file : Bytes) : Info := ⟨some file, none, fun _ _ => true⟩

def byDescriptor (file : Bytes) : Info :=
  ⟨none, some (fun off len => some ((file.drop off).take len)), fun _ _ => true⟩

theorem cutFile_length : cutFile.length = 1124 := List.length_replicate

theorem cutFile_cutShort : CutShort ordinaryHeader cutFile [1] where
  some := List.cons_ne_nil 1 []
  whole := fun _ member => absurd member List.not_mem_nil
  present := cutFile_length ▸ (by decide : ordinaryHeader.start 1 < 1124)
  cut := cutFile_length ▸ (by decide : 1124 < ordinaryHeader.start 1 + ordinaryHeader.secSize)

theorem inMemory_opens {file : Bytes} (size : file.length < 2 ^ 63) : (inMemory file).Opens file where
  buf := by
    rintro buf ⟨⟩
    exact List.prefix_refl file
  fd := by
    rintro pread ⟨⟩
  size := size

theorem byDescriptor_opens {file : Bytes} (size : file.length < 2 ^ 63) : (byDescriptor file).Opens file where
  buf := by
    rintro buf ⟨⟩
  fd := by
    rintro pread ⟨⟩ off len bs ⟨⟩
    exact List.prefix_refl _
  size := size

theorem ordinarySat_follows : Follows ordinarySat 1 [1] :=
  @Follows.link ordinarySat 1 [] (.stop (by decide +kernel))

theorem truncated_refused_cutFile :
    ((inMemory cutFile).Opens cutFile ∧ (byDescriptor cutFile).Opens cutFile ∧
      ordinarySat.Valid ordinaryHeader.secSize ∧ Follows ordinarySat 1 [1] ∧
      CutShort ordinaryHeader cutFile [1]) ∧
    (Truncation.cdfReadLongSectorChain (inMemory cutFile) ordinaryHeader ordinarySat 1 100).value = some none ∧
    (Truncation.cdfReadLongSectorChain (byDescriptor cutFile) ordinaryHeader ordinarySat 1 100).value = some none := by
  have small : cutFile.length < 2 ^ 63 := cutFile_length ▸ (by decide : 1124 < 2 ^ 63)
  have memory : (inMemory cutFile).Opens cutFile := inMemory_opens small
  have descriptor : (byDescriptor cutFile).Opens cutFile := byDescriptor_opens small
  have valid : ordinarySat.Valid ordinaryHeader.secSize := ⟨by decide +kernel, by decide +kernel⟩
  exact ⟨⟨memory, descriptor, valid, ordinarySat_follows, cutFile_cutShort⟩,
    (truncated_refused _ cutFile _ _ 1 [1] 100 memory valid ordinarySat_follows cutFile_cutShort).1,
    (truncated_refused _ cutFile _ _ 1 [1] 100 descriptor valid ordinarySat_follows cutFile_cutShort).1⟩

/-- There are 100 bytes of the last sector, and no stream of them. -/
theorem truncated_not_kept :
    CutShort ordinaryHeader cutFile [1] ∧
    ¬ Tolerated ordinaryHeader cutFile [1]
      (Truncation.cdfReadLongSectorChain (inMemory cutFile) ordinaryHeader ordinarySat 1 100).value ∧
    ¬ Tolerated ordinaryHeader cutFile [1]
      (Truncation.cdfReadLongSectorChain (byDescriptor cutFile) ordinaryHeader ordinarySat 1 100).value := by
  have memory : ((Truncation.cdfReadLongSectorChain (inMemory cutFile) ordinaryHeader ordinarySat 1 100).value.bind
      id).isNone = true := by decide +kernel
  have descriptor : ((Truncation.cdfReadLongSectorChain (byDescriptor cutFile) ordinaryHeader ordinarySat 1
      100).value.bind id).isNone = true := by decide +kernel
  refine ⟨cutFile_cutShort, ?_, ?_⟩
  · rintro ⟨scn, kept, _⟩
    rw [kept] at memory
    cases memory
  · rintro ⟨scn, kept, _⟩
    rw [kept] at descriptor
    cases descriptor

end Libmagic.Cdf
