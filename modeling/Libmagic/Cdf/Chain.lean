import Libmagic.Memory
import Libmagic.Run
import Libmagic.Softmagic.Types

/-!
# `cdf.c`: sectors and chains of sectors

An allocated table is the list of its bytes, and every access to one is an event of the run
with the size of the allocation. `CDF_TOLE4` of a word that was copied from the file is its
little-endian number. A result `none` is `-1`; `errno` is left out.
-/
namespace Libmagic.Cdf

open Softmagic

def CDF_LOOP_LIMIT : Nat := 10000
def CDF_MEMORY_LIMIT : Nat := 16 * 1024 * 1024
def CDF_SAT_LIMIT : Nat := 16 * 1024 * 1024
def CDF_MAGIC : Nat := 0xE11AB1A1E011CFD0
def CDF_SECID_FREE : Int := -1
def CDF_SECID_END_OF_CHAIN : Int := -2

/-- `size_t`. -/
def sz (n : Nat) : Nat := n % 2 ^ 64

/-- `cdf_info_t`, and whether an allocation of a number of members of a size succeeds. -/
structure Info where
  /-- `i_buf`. -/
  buf : Option Bytes
  /-- `pread(i_fd, ...)`, where there is a descriptor. -/
  fd : Option (Nat → Nat → Option Bytes)
  calloc : Nat → Nat → Bool

/-- A table of the source. -/
inductive Tab where
  | sat | msa | sst | dir | buf
  deriving DecidableEq, Repr

/-- An access to `len` members from the index `off` on, in an allocation of `alloc` of them. -/
structure Access where
  tab : Tab
  alloc : Nat
  off : Nat
  len : Nat
  deriving DecidableEq, Repr

/-- What a routine does: an access, an `assert` that two sizes are equal, or `abort()`. -/
inductive Event where
  | access (a : Access)
  | assertion (ss len : Nat)
  | abort
  deriving DecidableEq, Repr

/-- `cdf_header_t` as `cdf_read_header` leaves it. -/
structure Header where
  secSizeP2 : Nat
  shortSecSizeP2 : Nat
  secidFirstDirectory : Int
  minSizeStandardStream : Nat
  secidFirstSectorInShortSat : Int
  secidFirstSectorInMasterSat : Int
  numSectorsInMasterSat : Nat
  masterSat : List Int
  secSizeP2_le : secSizeP2 ≤ 20
  shortSecSizeP2_le : shortSecSizeP2 ≤ 20

namespace Header

/-- `CDF_SEC_SIZE`. -/
def secSize (h : Header) : Nat := 2 ^ h.secSizeP2

/-- `CDF_SHORT_SEC_SIZE`. -/
def shortSecSize (h : Header) : Nat := 2 ^ h.shortSecSizeP2

/-- `CDF_SEC_POS`. -/
def secPos (h : Header) (secid : Nat) : Nat := sz (h.secSize + secid * h.secSize)

/-- `CDF_SHORT_SEC_POS`. -/
def shortSecPos (h : Header) (secid : Nat) : Nat := sz (secid * h.shortSecSize)

end Header

/-- `cdf_read`. -/
def cdfRead (info : Info) (off len : Nat) : Option Bytes :=
  let fromFd := info.fd.bind (fun pread => (pread off len).filter (fun bs => bs.length == len))
  match info.buf with
  | some buf => if buf.length ≥ sz (off + len) then some ((buf.drop off).take len) else fromFd
  | none => fromFd

def word (f : Field) (bs : Bytes) : Nat := Order.little.load (f.get bs)

/-- A `cdf_secid_t`, which is signed. -/
def secid (f : Field) (bs : Bytes) : Int := sN 32 (word f bs)

/-- `cdf_read_header`, with `cdf_unpack_header` and `cdf_swap_header`. -/
def cdfReadHeader (info : Info) : Option Header :=
  match cdfRead info 0 512 with
  | none => none
  | some buf =>
      if word ⟨0, 8⟩ buf ≠ CDF_MAGIC then none
      else if sec : word ⟨30, 2⟩ buf > 20 then none
      else if short : word ⟨32, 2⟩ buf > 20 then none
      else some
        { secSizeP2 := word ⟨30, 2⟩ buf
          shortSecSizeP2 := word ⟨32, 2⟩ buf
          secidFirstDirectory := secid ⟨48, 4⟩ buf
          minSizeStandardStream := word ⟨56, 4⟩ buf
          secidFirstSectorInShortSat := secid ⟨60, 4⟩ buf
          secidFirstSectorInMasterSat := secid ⟨68, 4⟩ buf
          numSectorsInMasterSat := word ⟨72, 4⟩ buf
          masterSat := (List.range 109).map (fun i => secid ⟨76 + 4 * i, 4⟩ buf)
          secSizeP2_le := Nat.le_of_not_lt sec
          shortSecSizeP2_le := Nat.le_of_not_lt short }

/-- An access to bytes of a table. -/
def touch (tab : Tab) (mem : Bytes) (off len : Nat) : Run Event Unit :=
  .event (.access ⟨tab, mem.length, off, len⟩) ()

/-- `SIZE_T_MAX / ss < CAST(size_t, id)`. -/
def tooFar (ss : Nat) (id : Int) : Bool := decide ((2 ^ 64 - 1) / ss < uN 64 id)

/-- `cdf_read_sector` into a table. -/
def cdfReadSector (info : Info) (tab : Tab) (mem : Bytes) (offs len : Nat) (h : Header) (id : Int) :
    Run Event (Option Bytes) :=
  if tooFar h.secSize id then pure none
  else do
    Run.event (.assertion h.secSize len) ()
    touch tab mem offs len
    pure ((cdfRead info (h.secPos (uN 64 id)) len).map (fun bs => (⟨offs, len⟩ : Field).set mem bs))

/-- `CDF_CALLOC`, which makes room for one member at least. -/
def zeroed (n u : Nat) : Bytes := List.replicate ((if n = 0 then 1 else n) * u) 0

/-! ## The sector allocation table -/

/-- `cdf_sat_t`. -/
structure Sat where
  tab : Bytes
  len : Nat

/-- `CDF_TOLE4(sat->sat_tab[sid])`. -/
def Sat.entry (sat : Sat) (sid : Nat) : Int := secid ⟨4 * sid, 4⟩ sat.tab

/-- A number of a table of them. -/
def secidAt (tab : Tab) (mem : Bytes) (i : Nat) : Run Event Int := do
  touch tab mem (4 * i) 4
  pure (secid ⟨4 * i, 4⟩ mem)

def satAt (sat : Sat) (sid : Nat) : Run Event Int := secidAt .sat sat.tab sid

section ReadSat

variable (info : Info) (h : Header)

/-- `(ss / sizeof(mid)) - 1`, which wraps for a sector that holds no number. -/
def nsatpersec : Nat := sz (h.secSize / 4 + (2 ^ 64 - 1))

/-- The loop over `h_master_sat`, from its index `i` on: the table and the index behind the
last sector, or `none` for `goto out1`. -/
def readMaster : List Int → Bytes → (i : Nat) → Run Event (Option (Bytes × Nat))
  | [], tab, i => pure (some (tab, i))
  | id :: ids, tab, i =>
      if id < 0 then pure (some (tab, i))
      else do
        let r ← cdfReadSector info .sat tab (h.secSize * i) h.secSize h id
        match r with
        | none => pure none
        | some tab => readMaster ids tab (i + 1)

/-- How a round of a loop of `cdf_read_sat` ends. -/
inductive Msa where
  /-- `goto out`, with the table and `i`. -/
  | out (tab : Bytes) (i : Nat)
  /-- `goto out2` or `goto out3`. -/
  | bad
  /-- The end of the loop. -/
  | next (tab : Bytes) (i : Nat)

/-- A round of `for (k = 0; k < nsatpersec; k++, i++)`. -/
def msaEntry (satLen : Nat) (msa : Bytes) (t : Nat × Bytes × Nat) :
    Run Event ((Nat × Bytes × Nat) ⊕ Msa) :=
  if t.1 < nsatpersec h then do
    let sec ← secidAt .msa msa t.1
    if sec < 0 then pure (.inr (.out t.2.1 t.2.2))
    else if t.2.2 ≥ satLen then pure (.inr .bad)
    else do
      let r ← cdfReadSector info .sat t.2.1 (h.secSize * t.2.2) h.secSize h sec
      match r with
      | none => pure (.inr .bad)
      | some tab => pure (.inl (t.1 + 1, tab, t.2.2 + 1))
  else pure (.inr (.next t.2.1 t.2.2))

/-- The state of the loop over the master sectors: `j`, `mid`, the table and `i`. -/
structure MsaState where
  j : Nat
  mid : Int
  tab : Bytes
  i : Nat

/-- A round of `for (j = 0; j < h->h_num_sectors_in_master_sat; j++)`. -/
def msaSector (satLen : Nat) (s : MsaState) : Run Event (MsaState ⊕ Option Sat) :=
  if s.j < h.numSectorsInMasterSat then
    if s.mid < 0 then pure (.inr (some ⟨s.tab, s.i⟩))
    else if s.j ≥ CDF_LOOP_LIMIT then pure (.inr none)
    else do
      let r ← cdfReadSector info .msa (zeroed 1 h.secSize) 0 h.secSize h s.mid
      match r with
      | none => pure (.inr none)
      | some msa => do
          let inner ← .loop (msaEntry info h satLen msa) (nsatpersec h + 1) (0, s.tab, s.i)
          match inner with
          | .out tab i => pure (.inr (some ⟨tab, i⟩))
          | .bad => pure (.inr none)
          | .next tab i => do
              let mid ← secidAt .msa msa (nsatpersec h)
              pure (.inl ⟨s.j + 1, mid, tab, i⟩)
  else pure (.inr (some ⟨s.tab, s.i⟩))

/-- `CDF_SEC_LIMIT`. -/
def secLimit : Nat := (2 ^ 32 - 1) / (64 * h.secSize)

/-- The number of sectors before the first free one in `h_master_sat`. -/
def masterUsed : Nat := (h.masterSat.takeWhile (· != CDF_SECID_FREE)).length

/-- `sat->sat_len` before anything is read. -/
def satLen : Nat := sz (h.numSectorsInMasterSat * nsatpersec h + masterUsed h)

/-- The loop over the master sectors, with at most one round more than the limit lets it have. -/
def readMsa (tab : Bytes) (i : Nat) : Run Event (Option Sat) :=
  if !info.calloc 1 h.secSize then pure none
  else Run.loop (msaSector info h (satLen h)) (CDF_LOOP_LIMIT + 1)
    ⟨0, h.secidFirstSectorInMasterSat, tab, i⟩

/-- `cdf_read_sat`. -/
def cdfReadSat : Run Event (Option Sat) :=
  if (nsatpersec h > 0 ∧ h.numSectorsInMasterSat > secLimit h / nsatpersec h) ∨
      masterUsed h > secLimit h then pure none
  else if satLen h > CDF_SAT_LIMIT / h.secSize then pure none
  else if !info.calloc (satLen h) h.secSize then pure none
  else do
    let r ← readMaster info h h.masterSat (zeroed (satLen h) h.secSize) 0
    match r with
    | none => pure none
    | some (tab, i) => readMsa info h tab i

end ReadSat

/-! ## Chains -/

/-- A round of the loop of `cdf_count_chain`; `j` is `i`. -/
def countRound (sat : Sat) (size : Nat) (maxsector : Int) (t : Int × Nat) :
    Run Event ((Int × Nat) ⊕ Option Nat) :=
  if t.1 ≥ 0 then
    if t.2 ≥ CDF_LOOP_LIMIT then pure (.inr none)
    else if t.2 ≥ CDF_MEMORY_LIMIT / size then pure (.inr none)
    else if t.1 ≥ maxsector then pure (.inr none)
    else do
      let sid ← satAt sat t.1.toNat
      pure (.inl (sid, t.2 + 1))
  else pure (.inr (if t.2 = 0 then none else some t.2))

/-- `cdf_count_chain`. -/
def cdfCountChain (sat : Sat) (sid : Int) (size : Nat) : Run Event (Option Nat) :=
  if size = 0 ∨ sat.len > (2 ^ 64 - 1) / size then pure none
  else if sid = CDF_SECID_END_OF_CHAIN then pure (some 0)
  else .loop (countRound sat size (sN 32 (sz (sat.len * size) / 4))) (CDF_LOOP_LIMIT + 1) (sid, 0)

/-- A round of `for (j = i = 0; sid >= 0; i++, j++)`, which reads a sector of `ss` bytes into a
table of `n` of them and goes on to the next. -/
def chainRound (sat : Sat) (read : Bytes → Nat → Int → Run Event (Option Bytes)) (ss n : Nat)
    (t : Int × Nat × Bytes) : Run Event ((Int × Nat × Bytes) ⊕ Option Bytes) :=
  if t.1 ≥ 0 then
    if t.2.1 ≥ CDF_LOOP_LIMIT then pure (.inr none)
    else if t.2.1 ≥ n then pure (.inr none)
    else do
      let r ← read t.2.2 (t.2.1 * ss) t.1
      match r with
      | none => pure (.inr none)
      | some tab => do
          let sid ← satAt sat t.1.toNat
          pure (.inl (sid, t.2.1 + 1, tab))
  else pure (.inr (some t.2.2))

def readChain (sat : Sat) (read : Bytes → Nat → Int → Run Event (Option Bytes)) (ss n : Nat)
    (sid : Int) : Run Event (Option Bytes) :=
  .loop (chainRound sat read ss n) (CDF_LOOP_LIMIT + 1) (sid, 0, zeroed n ss)

/-- `cdf_stream_t`. -/
structure Stream where
  tab : Bytes
  len : Nat
  dirlen : Nat
  ss : Nat
  deriving DecidableEq, Repr

/-- `cdf_read_long_sector_chain`. `cdf_read_sector` never reads a part of a sector, so that
the branch for a truncated last sector is not taken. -/
def cdfReadLongSectorChain (info : Info) (h : Header) (sat : Sat) (sid : Int) (len : Nat) :
    Run Event (Option Stream) := do
  let count ← cdfCountChain sat sid h.secSize
  if sid = CDF_SECID_END_OF_CHAIN ∨ len = 0 then pure none
  else match count with
    | none => pure none
    | some n =>
        if !info.calloc n h.secSize then pure none
        else do
          let tab ← readChain sat (fun mem offs id => cdfReadSector info .sst mem offs h.secSize h id)
            h.secSize n sid
          pure (tab.map (fun tab => ⟨tab, n, max h.minSizeStandardStream len, h.secSize⟩))

/-- `cdf_read_short_sector` into a table, out of the short stream. -/
def cdfReadShortSector (sst : Stream) (mem : Bytes) (offs len : Nat) (h : Header) (id : Int) :
    Run Event (Option Bytes) :=
  let pos := h.shortSecPos (uN 64 id)
  if tooFar h.shortSecSize id then pure none
  else do
    Run.event (.assertion h.shortSecSize len) ()
    if sz (pos + len) > sz (h.secSize * sst.len) then pure none
    else do
      touch .sst sst.tab pos len
      touch .sst mem offs len
      pure (some ((⟨offs, len⟩ : Field).set mem ((⟨pos, len⟩ : Field).get sst.tab)))

/-- `cdf_read_short_sector_chain`. -/
def cdfReadShortSectorChain (info : Info) (h : Header) (ssat : Sat) (sst : Stream) (sid : Int)
    (len : Nat) : Run Event (Option Stream) := do
  let count ← cdfCountChain ssat sid h.secSize
  match count with
  | none => pure none
  | some n =>
      if !info.calloc n h.shortSecSize then pure none
      else do
        let tab ← readChain ssat (fun mem offs id => cdfReadShortSector sst mem offs h.shortSecSize h id)
          h.shortSecSize n sid
        pure (tab.map (fun tab => ⟨tab, n, len, h.shortSecSize⟩))

/-- `cdf_read_sector_chain`; the short stream is `none` where `sst_tab` is `NULL`. -/
def cdfReadSectorChain (info : Info) (h : Header) (sat ssat : Sat) (sst : Option Stream) (sid : Int)
    (len : Nat) : Run Event (Option Stream) :=
  match sst with
  | some sst =>
      if len < h.minSizeStandardStream then cdfReadShortSectorChain info h ssat sst sid len
      else cdfReadLongSectorChain info h sat sid len
  | none => cdfReadLongSectorChain info h sat sid len

/-- `cdf_read_ssat`. -/
def cdfReadSsat (info : Info) (h : Header) (sat : Sat) : Run Event (Option Sat) := do
  let count ← cdfCountChain sat h.secidFirstSectorInShortSat h.secSize
  match count with
  | none => pure none
  | some n =>
      if !info.calloc n h.secSize then pure none
      else do
        let tab ← readChain sat (fun mem offs id => cdfReadSector info .sat mem offs h.secSize h id)
          h.secSize n h.secidFirstSectorInShortSat
        pure (tab.map (fun tab => ⟨tab, n⟩))

/-! ## The directory -/

def CDF_DIRECTORY_SIZE : Nat := 128

/-- `sizeof(cdf_directory_t)`, with its padding. -/
def directorySizeof : Nat := 136

/-- `cdf_directory_t` with its numbers in the order of the host. The name is kept as it is in
the file. -/
structure Directory where
  name : Bytes
  namelen : Nat
  type : Nat
  color : Nat
  leftChild : Int
  rightChild : Int
  storage : Int
  storageUuid : Nat × Nat
  flags : Nat
  created : Int
  modified : Int
  streamFirstSector : Int
  size : Nat
  deriving DecidableEq, Repr

/-- `cdf_unpack_dir` and `cdf_swap_dir`. -/
def cdfUnpackDir (buf : Bytes) : Directory where
  name := (⟨0, 64⟩ : Field).get buf
  namelen := word ⟨64, 2⟩ buf
  type := word ⟨66, 1⟩ buf
  color := word ⟨67, 1⟩ buf
  leftChild := secid ⟨68, 4⟩ buf
  rightChild := secid ⟨72, 4⟩ buf
  storage := secid ⟨76, 4⟩ buf
  storageUuid := (word ⟨80, 8⟩ buf, word ⟨88, 8⟩ buf)
  flags := word ⟨96, 4⟩ buf
  created := sN 64 (word ⟨100, 8⟩ buf)
  modified := sN 64 (word ⟨108, 8⟩ buf)
  streamFirstSector := secid ⟨116, 4⟩ buf
  size := word ⟨120, 4⟩ buf

/-- An entry of memory that is all 0. -/
def Directory.zero : Directory := cdfUnpackDir (List.replicate 128 0)

/-- The entries `j` and on of a sector into the table, where the sector starts at `base`. -/
def unpackSector (buf : Bytes) (base : Nat) : (left j : Nat) → List Directory →
    Run Event (List Directory)
  | 0, _, dirTab => pure dirTab
  | left + 1, j, dirTab => do
      touch .buf buf (j * CDF_DIRECTORY_SIZE) CDF_DIRECTORY_SIZE
      Run.event (.access ⟨.dir, dirTab.length, base + j, 1⟩) ()
      let entry := cdfUnpackDir ((⟨j * CDF_DIRECTORY_SIZE, CDF_DIRECTORY_SIZE⟩ : Field).get buf)
      unpackSector buf base left (j + 1) (dirTab.set (base + j) entry)

/-- The state of the loop of `cdf_read_dir`. `j` counts the entries of a sector too. -/
structure DirState where
  sid : Int
  i : Nat
  j : Nat
  dirTab : List Directory

def dirRound (info : Info) (h : Header) (sat : Sat) (ns : Nat) (s : DirState) :
    Run Event (DirState ⊕ Option (List Directory)) :=
  let nd := h.secSize / CDF_DIRECTORY_SIZE
  if s.i < ns then
    if s.j ≥ CDF_LOOP_LIMIT then pure (.inr none)
    else do
      let r ← cdfReadSector info .buf (List.replicate h.secSize 0) 0 h.secSize h s.sid
      match r with
      | none => pure (.inr none)
      | some buf => do
          let dirTab ← unpackSector buf (s.i * nd) nd 0 s.dirTab
          let sid ← satAt sat s.sid.toNat
          pure (.inl ⟨sid, s.i + 1, nd + 1, dirTab⟩)
  else pure (.inr (some s.dirTab))

/-- `cdf_dir_t`. -/
structure Dir where
  tab : List Directory
  len : Nat

/-- `cdf_read_dir`. -/
def cdfReadDir (info : Info) (h : Header) (sat : Sat) : Run Event (Option Dir) := do
  let count ← cdfCountChain sat h.secidFirstDirectory h.secSize
  match count with
  | none => pure none
  | some ns =>
      let nd := h.secSize / CDF_DIRECTORY_SIZE
      if nd ≠ 0 ∧ ns > CDF_MEMORY_LIMIT / nd / directorySizeof then pure none
      else if !info.calloc (ns * nd) directorySizeof then pure none
      else if !info.calloc 1 h.secSize then pure none
      else do
        let dirTab ← .loop (dirRound info h sat ns) (ns + 1)
          ⟨h.secidFirstDirectory, 0, 0, List.replicate (if ns * nd = 0 then 1 else ns * nd) .zero⟩
        pure (dirTab.map (fun tab => ⟨tab, ns * nd⟩))

end Libmagic.Cdf
