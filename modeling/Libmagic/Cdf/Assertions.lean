import Libmagic.Cdf.Property
import Libmagic.Cdf.Safety

/-!
# The assertions of `cdf.c`

The size of the sectors of a stream is decided where the stream is read, and `cdf_check_stream`
works it out once more from `sst_dirlen`. The routines that read a stream are here with their
assertions; what they do between two of them is that of `Property`.
-/
namespace Libmagic.Cdf

open Softmagic
open Run (Policy Within)

/-- An assertion that does not abort. -/
def Event.Passes : Event → Prop
  | .access _ => True
  | .assertion ss len => ss = len
  | .abort => False

def passes : Policy Event := .each Event.Passes

/-- The sector size that `sst_dirlen` stands for. -/
def Stream.sectorSize (sst : Stream) (h : Header) : Nat :=
  if sst.dirlen < h.minSizeStandardStream then h.shortSecSize else h.secSize

/-- `cdf_check_stream`. -/
def cdfCheckStream (sst : Stream) (h : Header) : Run Event Nat := do
  Run.event (.assertion (sst.sectorSize h) sst.ss) ()
  pure sst.ss

namespace Checked

section Properties

variable (sst : Stream) (h : Header) (place : Place)

/-- `cdf_check_stream_offset`, which is true for 0. -/
def cdfCheckStreamOffset (p tail : Nat) : Run Event Bool := do
  let ss ← cdfCheckStream sst h
  pure (decide (p + tail ≥ place.tab) && decide (p + tail - place.tab ≤ sz (ss * sst.len)))

/-- `cdf_get_property_info_pos`. -/
def cdfGetPropertyInfoPos (p e i : Nat) : Run Event (Option Nat) :=
  let tail := 2 * i + 1
  if p ≥ e then pure none
  else do
    let ok ← cdfCheckStreamOffset sst h place p ((tail + 1) * 4)
    if !ok then pure none
    else do
      let ofs ← (cdfGetuint32 sst place p tail).silent
      if ofs < 8 then pure none
      else if ofs - 8 > e - p then pure none
      else pure (some (p + (ofs - 8)))

/-- `cdf_copy_info`, with its `default: abort()`. -/
def cdfCopyInfo (type p e len : Nat) : Run Event (Option Nat) :=
  if has type CDF_VECTOR then pure none
  else if uN 64 ((e : Int) - p) < len then pure none
  else do
    let n ← (numberAt sst place p len).silent
    match len with
    | 2 | 4 | 8 => pure (some n)
    | _ => Run.event .abort (some n)

/-- The `switch` over the type of a property. -/
def readValue (heap : Heap) (properties inp q e left : Nat) (type nelements slen : Nat)
    (s : PropertyState) (info : List Property) : Run Event Round :=
  if has type (CDF_ARRAY ||| CDF_BYREF ||| CDF_RESERVED) then (nextWith s inp info (.num 0)).silent
  else match kind type with
    | .scalar len => do
        let n ← cdfCopyInfo sst place type (q + slen * 4) e len
        (nextWith s inp info (.num (n.getD 0))).silent
    | _ => (Cdf.readValue sst place heap properties inp q e left type nelements slen s info).silent

def readProperty (heap : Heap) (properties inp q e id : Nat) (s : PropertyState) : Run Event Round :=
  let left := e - q
  if left < 4 then pure (.inr none)
  else do
    let type ← (cdfGetuint32 sst place q 0).silent
    let info := s.info.modify (inp + s.i) (fun property => { property with id, type })
    if has type CDF_VECTOR then
      if left < 8 then pure (.inr none)
      else do
        let nelements ← (cdfGetuint32 sst place q 1).silent
        if nelements > CDF_ELEMENT_LIMIT ∨ nelements = 0 then pure (.inr none)
        else readValue sst place heap properties inp q e left type nelements 2 s info
    else readValue sst place heap properties inp q e left type 1 1 s info

def propertyRound (heap : Heap) (properties inp p e : Nat) (s : PropertyState) : Run Event Round :=
  if s.i < properties then do
    let pos ← cdfGetPropertyInfoPos sst h place p e s.i
    match pos with
    | none => pure (.inr none)
    | some q => do
        let id ← (cdfGetuint32 sst place p (2 * s.i)).silent
        readProperty sst place heap properties inp q e id s
  else pure (.inr (some s.info))

def readProperties (heap : Heap) (offs shLen properties : Nat) (info : List Property) (count : Nat) :
    Run Event (Option (List Property × Nat)) := do
  let ok ← cdfCheckStreamOffset sst h place place.sh shLen
  if !ok then pure none
  else if properties > CDF_PROP_LIMIT then pure none
  else match cdfGrowInfo heap info properties with
    | none => pure none
    | some info => do
        let p := place.tab + (offs + 8)
        let e := place.sh + shLen
        if p ≥ e then pure none
        else do
          let ok ← cdfCheckStreamOffset sst h place e 0
          if !ok then pure none
          else do
            let r ← Run.loop (propertyRound sst h place heap properties count p e) (properties + 1) ⟨0, info⟩
            pure (r.map (fun info => (info, count + properties)))

/-- `cdf_read_property_info`. -/
def cdfReadPropertyInfo (heap : Heap) (offs : Nat) (info : List Property) (count : Nat) :
    Run Event (Option (List Property × Nat)) :=
  if offs > (2 ^ 32 - 1) / 4 then pure none
  else do
    let ok ← cdfCheckStreamOffset sst h place (place.tab + offs) 8
    if !ok then pure none
    else do
      let shLen ← (numberAt sst place (place.tab + offs) 4).silent
      let properties ← (numberAt sst place (place.tab + offs + 4) 4).silent
      if shLen > CDF_SHLEN_LIMIT then pure none
      else readProperties sst h place heap offs shLen properties info count

end Properties

end Checked

/-! ## The summary and the catalog -/

/-- `cdf_summary_info_header_t`, with `si_class` as its four members. -/
structure SummaryInfo where
  byteOrder : Nat
  osVersion : Nat
  os : Nat
  clazz : Nat × (Nat × Nat) × Bytes × Bytes
  count : Nat

def CDF_SECTION_DECLARATION_OFFSET : Nat := 0x1c

/-- What `cdf_unpack_summary_info` takes from the start of the stream. -/
def summaryHeader (tab : Bytes) : SummaryInfo where
  byteOrder := word ⟨0, 2⟩ tab
  osVersion := word ⟨4, 2⟩ tab
  os := word ⟨6, 2⟩ tab
  clazz := (word ⟨8, 4⟩ tab, (word ⟨12, 2⟩ tab, word ⟨14, 2⟩ tab), (⟨16, 2⟩ : Field).get tab,
    (⟨18, 6⟩ : Field).get tab)
  count := word ⟨24, 4⟩ tab

/-- `cdf_unpack_summary_info`. -/
def cdfUnpackSummaryInfo (sst : Stream) (h : Header) (place : Place) (heap : Heap) :
    Run Event (Option (SummaryInfo × List Property × Nat)) := do
  let si ← Checked.cdfCheckStreamOffset sst h place place.tab 28
  if !si then pure none
  else do
    let sd ← Checked.cdfCheckStreamOffset sst h place (place.tab + CDF_SECTION_DECLARATION_OFFSET) 20
    if !sd then pure none
    else do
      let offset := word ⟨CDF_SECTION_DECLARATION_OFFSET + 16, 4⟩ sst.tab
      let r ← Checked.cdfReadPropertyInfo sst h place heap offset [] 0
      pure (r.map (fun r => (summaryHeader sst.tab, r.1, r.2)))

/-- `cdf_catalog_entry_t`. -/
structure CatalogEntry where
  namlen : Nat
  num : Nat
  timestamp : Nat
  name : List Nat
  deriving DecidableEq, Repr

def CatalogEntry.zero : CatalogEntry := ⟨0, 0, 0, List.replicate 256 0⟩

section Catalog

variable (host : Order) (tab : Bytes) (eb : Nat)

/-- A round of the loop that counts the records: `b`, as an index of the stream, and `nr`. -/
def recordRound (t : Nat × Nat) : Run Event ((Nat × Nat) ⊕ Nat) :=
  let reclen := word ⟨t.1, 2⟩ tab
  if t.1 + 2 > eb then pure (.inr t.2)
  else if reclen = 0 then pure (.inr t.2)
  else if t.1 + reclen > eb then pure (.inr t.2)
  else pure (.inl (t.1 + reclen, t.2 + 1))

/-- The state of the loop over the records. -/
structure CatalogState where
  i : Nat
  j : Nat
  b : Nat
  ce : List CatalogEntry

/-- `cep->ce_namlen = 0`, where `cep` is `&ce[j]`. -/
def CatalogState.unnamed (s : CatalogState) : List CatalogEntry :=
  s.ce.modify s.j (fun ce => { ce with namlen := 0 })

/-- `cep->f` gets the bytes as they are, and `ce[i].f` the number in them; an error is a `break`. -/
def extractCatalogField (s : CatalogState) (t : Nat → Nat) (put : Nat → CatalogEntry → CatalogEntry)
    (l size : Nat) : Except (List CatalogEntry) CatalogState :=
  if s.b + l + size > eb then .error s.unnamed
  else
    let bs := (⟨s.b + l, size⟩ : Field).get tab
    .ok { s with ce := (s.ce.modify s.j (put (host.load bs))).modify s.i (put (t (Order.little.load bs))) }

/-- The three fields of a record. -/
def extractFields (s : CatalogState) : Except (List CatalogEntry) CatalogState := do
  let s ← extractCatalogField host tab eb s id (fun n ce => { ce with namlen := n }) 0 2
  let s ← extractCatalogField host tab eb s (· % 2 ^ 16) (fun n ce => { ce with num := n }) 4 4
  extractCatalogField host tab eb s id (fun n ce => { ce with timestamp := n }) 8 8

/-- A round of the loop over the `nr` records: the state, or the entries and `j`. -/
def entryRound (nr : Nat) (s : CatalogState) : Run Event (CatalogState ⊕ (List CatalogEntry × Nat)) :=
  if s.i < nr then
    match extractFields host tab eb s with
    | .error ce => pure (.inr (ce, s.j))
    | .ok s =>
        let reclen := ((s.ce[s.j]?).map CatalogEntry.namlen).getD 0
        if reclen = 0 then pure (.inr (s.ce, s.j))
        else if reclen < 14 then pure (.inl { s with b := s.b + reclen, ce := s.unnamed })
        else
          let namlen := min 255 (reclen - 14)
          if s.b + 16 + 2 * namlen > eb then pure (.inr (s.unnamed, s.j))
          else
            let name := (List.range namlen).map (fun k => host.load ((⟨s.b + 16 + 2 * k, 2⟩ : Field).get tab))
            pure (.inl ⟨s.i + 1, s.i, s.b + reclen, s.ce.modify s.j (fun ce =>
              { ce with namlen, name := name ++ 0 :: ce.name.drop (namlen + 1) })⟩)
  else pure (.inr (s.ce, s.j))

/-- `cdf_unpack_catalog`: `cat_e` and `cat_num`, or `none` for `-1`. -/
def cdfUnpackCatalog (h : Header) (sst : Stream) (malloc : Nat → Bool) :
    Run Event (Option (List CatalogEntry × Nat)) := do
  let ss ← cdfCheckStream sst h
  let eb := sz (ss * sst.len)
  let nr ← Run.loop (recordRound sst.tab eb) (eb + 1) (0, 0)
  if nr = 0 then pure none
  else if !malloc nr then pure none
  else do
    let cat ← Run.loop (entryRound host sst.tab eb (nr - 1)) (eb + 1) ⟨0, 0, 0, List.replicate nr .zero⟩
    pure (some cat)

end Catalog

/-! ## The values are those of `Property` -/

namespace Checked

section Values

variable (sst : Stream) (h : Header) (place : Place)

@[simp] theorem cdfCheckStreamOffset_value (p tail : Nat) :
    (cdfCheckStreamOffset sst h place p tail).value = some (Cdf.cdfCheckStreamOffset sst place p tail) := rfl

@[simp] theorem cdfGetPropertyInfoPos_value (p e i : Nat) :
    (cdfGetPropertyInfoPos sst h place p e i).value = (Cdf.cdfGetPropertyInfoPos sst place p e i).value := by
  unfold cdfGetPropertyInfoPos Cdf.cdfGetPropertyInfoPos
  by_cases past : p ≥ e
  · simp only [if_pos past, Run.value_pure]
  · cases ok : Cdf.cdfCheckStreamOffset sst place p ((2 * i + 1 + 1) * 4) <;>
      simp [past, ok, apply_ite Run.value]

@[simp] theorem cdfCopyInfo_value (type p e len : Nat) :
    (cdfCopyInfo sst place type p e len).value = (Cdf.cdfCopyInfo sst place type p e len).value := by
  unfold cdfCopyInfo Cdf.cdfCopyInfo
  split
  · rfl
  split
  · rfl
  rw [Run.value_bind, Run.value_bind, Run.value_silent]
  congr 1
  funext n
  split <;> rfl

@[simp] theorem readValue_value (heap : Heap) (properties inp q e left type nelements slen : Nat)
    (s : PropertyState) (info : List Property) :
    (readValue sst place heap properties inp q e left type nelements slen s info).value =
      (Cdf.readValue sst place heap properties inp q e left type nelements slen s info).value := by
  unfold readValue
  split
  next flagged => rw [Cdf.readValue, if_pos flagged, Run.value_silent]
  next unflagged =>
    split
    next len scalar =>
      rw [Cdf.readValue, if_neg unflagged, scalar]
      simp
    next => rfl

@[simp] theorem readProperty_value (heap : Heap) (properties inp q e id : Nat) (s : PropertyState) :
    (readProperty sst place heap properties inp q e id s).value =
      (Cdf.readProperty sst place heap properties inp q e id s).value := by
  unfold readProperty Cdf.readProperty
  simp only [apply_ite Run.value, Run.value_bind, Run.value_silent, Run.value_pure, readValue_value]

@[simp] theorem propertyRound_value (heap : Heap) (properties inp p e : Nat) (s : PropertyState) :
    (propertyRound sst h place heap properties inp p e s).value =
      (Cdf.propertyRound sst place heap properties inp p e s).value := by
  unfold propertyRound Cdf.propertyRound
  simp only [apply_ite Run.value, Run.value_bind, Run.value_pure, cdfGetPropertyInfoPos_value]
  congr 2
  funext pos
  cases pos with
  | none => rfl
  | some q =>
      dsimp only
      rw [Run.value_bind, Run.value_bind, Run.value_silent]
      congr 1
      funext id
      exact readProperty_value sst place heap properties inp q e id s

@[simp] theorem readProperties_value (heap : Heap) (offs shLen properties : Nat) (info : List Property)
    (count : Nat) :
    (readProperties sst h place heap offs shLen properties info count).value =
      (Cdf.readProperties sst place heap offs shLen properties info count).value := by
  unfold readProperties Cdf.readProperties
  have loops (k : Nat) (s : PropertyState) (p e : Nat) :=
    Run.value_loop_congr (propertyRound_value sst h place heap properties count p e) k s
  cases ok : Cdf.cdfCheckStreamOffset sst place place.sh shLen with
  | false => simp [ok]
  | true =>
      cases cdfGrowInfo heap info properties with
      | none => simp [ok]
      | some info =>
          cases stop : Cdf.cdfCheckStreamOffset sst place (place.sh + shLen) 0 with
          | false => simp [ok, stop, apply_ite Run.value]
          | true => simp [ok, stop, loops, apply_ite Run.value]

/-- With its assertions, `cdf_read_property_info` still returns what it returned. -/
theorem cdfReadPropertyInfo_value (heap : Heap) (offs : Nat) (info : List Property) (count : Nat) :
    (cdfReadPropertyInfo sst h place heap offs info count).value =
      (Cdf.cdfReadPropertyInfo sst place heap offs info count).value := by
  unfold cdfReadPropertyInfo Cdf.cdfReadPropertyInfo
  cases ok : Cdf.cdfCheckStreamOffset sst place (place.tab + offs) 8 <;>
    simp [ok, apply_ite Run.value]

end Values

end Checked

/-! ## The sizes of the sectors -/

section Sectors

variable (info : Info) (h : Header)

theorem within_touch (tab : Tab) (mem : Bytes) (off len : Nat) : Within passes (touch tab mem off len) :=
  Within.event (Policy.each_single trivial)

theorem within_assertion {ss len : Nat} (same : ss = len) :
    Within passes (Run.event (.assertion ss len) ()) :=
  Within.event (Policy.each_single same)

theorem within_secidAt (tab : Tab) (mem : Bytes) (i : Nat) : Within passes (secidAt tab mem i) :=
  Within.bind (within_touch tab mem (4 * i) 4) (fun _ _ => Within.pure _)

/-- `cdf_read_sector`, for a caller that passes the size of a sector. -/
theorem within_cdfReadSector (tab : Tab) (mem : Bytes) (offs : Nat) (id : Int) :
    Within passes (cdfReadSector info tab mem offs h.secSize h id) := by
  apply Within.ite (fun _ => Within.pure none)
  intro _
  apply Within.bind (within_assertion rfl)
  intro _ _
  exact Within.bind (within_touch _ _ _ _) (fun _ _ => Within.pure _)

theorem within_cdfReadShortSector (sst : Stream) (mem : Bytes) (offs : Nat) (id : Int) :
    Within passes (cdfReadShortSector sst mem offs h.shortSecSize h id) := by
  apply Within.ite (fun _ => Within.pure none)
  intro _
  apply Within.bind (within_assertion rfl)
  intro _ _
  apply Within.ite (fun _ => Within.pure none)
  intro _
  apply Within.bind (within_touch _ _ _ _)
  intro _ _
  exact Within.bind (within_touch _ _ _ _) (fun _ _ => Within.pure _)

theorem within_readMaster (ids : List Int) (tab : Bytes) (i : Nat) :
    Within passes (readMaster info h ids tab i) := by
  induction ids generalizing tab i with
  | nil => exact Within.pure _
  | cons id ids ih =>
      apply Within.ite (fun _ => Within.pure _)
      intro _
      apply Within.bind (within_cdfReadSector info h .sat tab _ id)
      intro r _
      cases r with
      | none => exact Within.pure none
      | some tab => exact ih tab (i + 1)

theorem within_msaEntry (satLen : Nat) (msa : Bytes) (t : Nat × Bytes × Nat) :
    Within passes (msaEntry info h satLen msa t) := by
  refine Within.ite (fun _ => ?_) (fun _ => Within.pure _)
  apply Within.bind (within_secidAt .msa msa t.1)
  intro sec _
  apply Within.ite (fun _ => Within.pure _)
  intro _
  apply Within.ite (fun _ => Within.pure _)
  intro _
  apply Within.bind (within_cdfReadSector info h .sat _ _ sec)
  intro r _
  cases r with
  | none => exact Within.pure _
  | some tab => exact Within.pure _

theorem within_msaSector (satLen : Nat) (s : MsaState) : Within passes (msaSector info h satLen s) := by
  refine Within.ite (fun _ => ?_) (fun _ => Within.pure _)
  apply Within.ite (fun _ => Within.pure _)
  intro _
  apply Within.ite (fun _ => Within.pure _)
  intro _
  apply Within.bind (within_cdfReadSector info h .msa _ 0 s.mid)
  intro r _
  cases r with
  | none => exact Within.pure _
  | some msa =>
      apply Within.bind (Within.loop (within_msaEntry info h satLen msa) _ _)
      intro inner _
      cases inner with
      | out tab i => exact Within.pure _
      | bad => exact Within.pure _
      | next tab i => exact Within.bind (within_secidAt .msa msa _) (fun _ _ => Within.pure _)

theorem within_cdfReadSat : Within passes (cdfReadSat info h) := by
  apply Within.ite (fun _ => Within.pure none)
  intro _
  apply Within.ite (fun _ => Within.pure none)
  intro _
  apply Within.ite (fun _ => Within.pure none)
  intro _
  apply Within.bind (within_readMaster info h h.masterSat _ 0)
  intro r _
  cases r with
  | none => exact Within.pure none
  | some p =>
      apply Within.ite (fun _ => Within.pure none)
      intro _
      exact Within.loop (within_msaSector info h (satLen h)) _ _

theorem within_cdfCountChain (sat : Sat) (sid : Int) (size : Nat) :
    Within passes (cdfCountChain sat sid size) := by
  apply Within.ite (fun _ => Within.pure none)
  intro _
  apply Within.ite (fun _ => Within.pure _)
  intro _
  apply Within.loop
  intro t
  refine Within.ite (fun _ => ?_) (fun _ => Within.pure _)
  apply Within.ite (fun _ => Within.pure _)
  intro _
  apply Within.ite (fun _ => Within.pure _)
  intro _
  apply Within.ite (fun _ => Within.pure _)
  intro _
  exact Within.bind (within_secidAt .sat sat.tab _) (fun _ _ => Within.pure _)

theorem within_readChain {sat : Sat} {read : Bytes → Nat → Int → Run Event (Option Bytes)} {ss : Nat}
    (reads : ∀ mem offs id, Within passes (read mem offs id)) (n : Nat) (sid : Int) :
    Within passes (readChain sat read ss n sid) := by
  apply Within.loop
  intro t
  refine Within.ite (fun _ => ?_) (fun _ => Within.pure _)
  apply Within.ite (fun _ => Within.pure _)
  intro _
  apply Within.ite (fun _ => Within.pure _)
  intro _
  apply Within.bind (reads _ _ _)
  intro r _
  cases r with
  | none => exact Within.pure _
  | some tab => exact Within.bind (within_secidAt .sat sat.tab _) (fun _ _ => Within.pure _)

theorem within_cdfReadSsat (sat : Sat) : Within passes (cdfReadSsat info h sat) := by
  apply Within.bind (within_cdfCountChain sat _ _)
  intro count _
  cases count with
  | none => exact Within.pure none
  | some n =>
      apply Within.ite (fun _ => Within.pure none)
      intro _
      exact Within.bind (within_readChain (within_cdfReadSector info h .sat) n _) (fun _ _ => Within.pure _)

theorem within_unpackSector (buf : Bytes) (base left j : Nat) (dirTab : List Directory) :
    Within passes (unpackSector buf base left j dirTab) := by
  induction left generalizing j dirTab with
  | zero => exact Within.pure dirTab
  | succ left ih =>
      apply Within.bind (within_touch .buf buf _ _)
      intro _ _
      exact Within.bind (Within.event (Policy.each_single trivial)) (fun _ _ => ih _ _)

theorem within_cdfReadDir (sat : Sat) : Within passes (cdfReadDir info h sat) := by
  apply Within.bind (within_cdfCountChain sat _ _)
  intro count _
  cases count with
  | none => exact Within.pure none
  | some ns =>
      apply Within.ite (fun _ => Within.pure none)
      intro _
      apply Within.ite (fun _ => Within.pure none)
      intro _
      apply Within.ite (fun _ => Within.pure none)
      intro _
      refine Within.bind (Within.loop ?_ _ _) (fun _ _ => Within.pure _)
      intro s
      refine Within.ite (fun _ => ?_) (fun _ => Within.pure _)
      apply Within.ite (fun _ => Within.pure _)
      intro _
      apply Within.bind (within_cdfReadSector info h .buf _ 0 s.sid)
      intro r _
      cases r with
      | none => exact Within.pure _
      | some buf =>
          apply Within.bind (within_unpackSector buf _ _ 0 s.dirTab)
          intro _ _
          exact Within.bind (within_secidAt .sat sat.tab _) (fun _ _ => Within.pure _)

/-! ## The size class of a stream -/

/-- A stream of which `cdf_check_stream` is told the size that it was read with. -/
def Stream.Classed (scn : Stream) (h : Header) : Prop := scn.sectorSize h = scn.ss

/-- What a routine that reads a stream does: its assertions hold, and that of the stream will. -/
structure ReadsClassed (r : Run Event (Option Stream)) (h : Header) : Prop where
  within : Within passes r
  classed : ∀ scn, r.value = some (some scn) → scn.Classed h

variable {h} in
theorem ReadsClassed.failed {h : Header} : ReadsClassed (pure none) h where
  within := Within.pure none
  classed := by
    rintro scn ⟨⟩

variable {h} in
theorem ReadsClassed.bind {α : Type} {first : Run Event α} {rest : α → Run Event (Option Stream)}
    (hfirst : Within passes first) (hrest : ∀ a, ReadsClassed (rest a) h) : ReadsClassed (first >>= rest) h where
  within := Within.bind hfirst (fun a _ => (hrest a).within)
  classed := by
    intro scn read
    rw [Run.value_bind] at read
    obtain ⟨a, _, read⟩ := Option.bind_eq_some_iff.mp read
    exact (hrest a).classed scn read

variable {h} in
theorem ReadsClassed.ite {c : Prop} [Decidable c] {x y : Run Event (Option Stream)} (hx : ReadsClassed x h)
    (hy : ReadsClassed y h) : ReadsClassed (if c then x else y) h := by
  split
  · exact hx
  · exact hy

/-- A stream is made out of a table only if the table was read. -/
theorem ReadsClassed.made {f : Bytes → Stream} (classed : ∀ tab, (f tab).Classed h) (tab : Option Bytes) :
    ReadsClassed (pure (tab.map f)) h where
  within := Within.pure _
  classed := by
    intro scn read
    obtain ⟨tab, _, rfl⟩ := Option.map_eq_some_iff.mp (Option.some.inj read)
    exact classed tab

theorem readsClassed_long (sat : Sat) (sid : Int) (len : Nat) :
    ReadsClassed (cdfReadLongSectorChain info h sat sid len) h := by
  apply ReadsClassed.bind (within_cdfCountChain sat sid _)
  intro count
  apply ReadsClassed.ite ReadsClassed.failed
  cases count with
  | none => exact ReadsClassed.failed
  | some n =>
      apply ReadsClassed.ite ReadsClassed.failed
      apply ReadsClassed.bind (within_readChain (within_cdfReadSector info h .sst) n sid)
      apply ReadsClassed.made
      intro tab
      exact if_neg (Nat.not_lt.mpr (Nat.le_max_left _ _))

theorem readsClassed_short (ssat : Sat) (sst : Stream) (sid : Int) {len : Nat}
    (short : len < h.minSizeStandardStream) :
    ReadsClassed (cdfReadShortSectorChain info h ssat sst sid len) h := by
  apply ReadsClassed.bind (within_cdfCountChain ssat sid _)
  intro count
  cases count with
  | none => exact ReadsClassed.failed
  | some n =>
      apply ReadsClassed.ite ReadsClassed.failed
      apply ReadsClassed.bind (within_readChain (within_cdfReadShortSector h sst) n sid)
      apply ReadsClassed.made
      intro tab
      exact if_pos short

theorem readsClassed_chain (sat ssat : Sat) (sst : Option Stream) (sid : Int) (len : Nat) :
    ReadsClassed (cdfReadSectorChain info h sat ssat sst sid len) h := by
  cases sst with
  | none => exact readsClassed_long info h sat sid len
  | some sst =>
      by_cases short : len < h.minSizeStandardStream
      · rw [cdfReadSectorChain, if_pos short]
        exact readsClassed_short info h ssat sst sid short
      · rw [cdfReadSectorChain, if_neg short]
        exact readsClassed_long info h sat sid len

end Sectors

/-! ## The routines that read a stream -/

section Streams

variable {scn : Stream} {h : Header} (classed : scn.Classed h) (place : Place)

include classed

theorem within_cdfCheckStream : Within passes (cdfCheckStream scn h) :=
  Within.bind (within_assertion classed) (fun _ _ => Within.pure _)

theorem within_cdfCheckStreamOffset (p tail : Nat) :
    Within passes (Checked.cdfCheckStreamOffset scn h place p tail) :=
  Within.bind (within_cdfCheckStream classed) (fun _ _ => Within.pure _)

theorem within_cdfGetPropertyInfoPos (p e i : Nat) :
    Within passes (Checked.cdfGetPropertyInfoPos scn h place p e i) := by
  apply Within.ite (fun _ => Within.pure none)
  intro _
  apply Within.bind (within_cdfCheckStreamOffset classed place p _)
  intro _ _
  apply Within.ite (fun _ => Within.pure none)
  intro _
  apply Within.bind (Within.silent _)
  intro _ _
  apply Within.ite (fun _ => Within.pure none)
  intro _
  exact Within.ite (fun _ => Within.pure none) (fun _ => Within.pure _)

omit classed in
/-- The sizes that are copied are 2, 4 and 8. -/
theorem within_cdfCopyInfo {type len : Nat} (scalar : kind type = .scalar len) (p e : Nat) :
    Within passes (Checked.cdfCopyInfo scn place type p e len) := by
  have sizes : len = 2 ∨ len = 4 ∨ len = 8 := by
    unfold kind at scalar
    split at scalar <;> cases scalar <;> decide
  apply Within.ite (fun _ => Within.pure none)
  intro _
  apply Within.ite (fun _ => Within.pure none)
  intro _
  apply Within.bind (Within.silent _)
  intro _ _
  rcases sizes with rfl | rfl | rfl <;> exact Within.pure _

omit classed in
theorem within_readValue (heap : Heap) (properties inp q e left type nelements slen : Nat)
    (s : PropertyState) (info : List Property) :
    Within passes (Checked.readValue scn place heap properties inp q e left type nelements slen s info) := by
  apply Within.ite (fun _ => Within.silent _)
  intro _
  split
  next len scalar =>
    exact Within.bind (within_cdfCopyInfo place scalar _ _) (fun _ _ => Within.silent _)
  next => exact Within.silent _

omit classed in
theorem within_readProperty (heap : Heap) (properties inp q e id : Nat) (s : PropertyState) :
    Within passes (Checked.readProperty scn place heap properties inp q e id s) := by
  apply Within.ite (fun _ => Within.pure _)
  intro _
  apply Within.bind (Within.silent _)
  intro type _
  apply Within.ite
  · intro _
    apply Within.ite (fun _ => Within.pure _)
    intro _
    apply Within.bind (Within.silent _)
    intro nelements _
    apply Within.ite (fun _ => Within.pure _)
    intro _
    exact within_readValue place heap _ _ _ _ _ _ _ _ _ _
  · intro _
    exact within_readValue place heap _ _ _ _ _ _ _ _ _ _

theorem within_propertyRound (heap : Heap) (properties inp p e : Nat) (s : PropertyState) :
    Within passes (Checked.propertyRound scn h place heap properties inp p e s) := by
  refine Within.ite (fun _ => ?_) (fun _ => Within.pure _)
  apply Within.bind (within_cdfGetPropertyInfoPos classed place p e s.i)
  intro pos _
  cases pos with
  | none => exact Within.pure _
  | some q =>
      apply Within.bind (Within.silent _)
      intro id _
      exact within_readProperty place heap properties inp q e id s

theorem within_readProperties (heap : Heap) (offs shLen properties : Nat) (info : List Property)
    (count : Nat) :
    Within passes (Checked.readProperties scn h place heap offs shLen properties info count) := by
  apply Within.bind (within_cdfCheckStreamOffset classed place _ _)
  intro _ _
  apply Within.ite (fun _ => Within.pure none)
  intro _
  apply Within.ite (fun _ => Within.pure none)
  intro _
  cases cdfGrowInfo heap info properties with
  | none => exact Within.pure none
  | some info =>
      apply Within.ite (fun _ => Within.pure none)
      intro _
      apply Within.bind (within_cdfCheckStreamOffset classed place _ _)
      intro _ _
      apply Within.ite (fun _ => Within.pure none)
      intro _
      exact Within.bind (Within.loop (within_propertyRound classed place heap properties count _ _) _ _)
        (fun _ _ => Within.pure _)

theorem within_cdfReadPropertyInfo (heap : Heap) (offs : Nat) (info : List Property) (count : Nat) :
    Within passes (Checked.cdfReadPropertyInfo scn h place heap offs info count) := by
  apply Within.ite (fun _ => Within.pure none)
  intro _
  apply Within.bind (within_cdfCheckStreamOffset classed place _ _)
  intro _ _
  apply Within.ite (fun _ => Within.pure none)
  intro _
  apply Within.bind (Within.silent _)
  intro shLen _
  apply Within.bind (Within.silent _)
  intro properties _
  apply Within.ite (fun _ => Within.pure none)
  intro _
  exact within_readProperties classed place heap offs shLen properties info count

theorem within_cdfUnpackSummaryInfo (heap : Heap) : Within passes (cdfUnpackSummaryInfo scn h place heap) := by
  apply Within.bind (within_cdfCheckStreamOffset classed place _ _)
  intro _ _
  apply Within.ite (fun _ => Within.pure none)
  intro _
  apply Within.bind (within_cdfCheckStreamOffset classed place _ _)
  intro _ _
  apply Within.ite (fun _ => Within.pure none)
  intro _
  exact Within.bind (within_cdfReadPropertyInfo classed place heap _ [] 0) (fun _ _ => Within.pure _)

theorem within_cdfUnpackCatalog (host : Order) (malloc : Nat → Bool) :
    Within passes (cdfUnpackCatalog host h scn malloc) := by
  have records (tab : Bytes) (eb : Nat) (t : Nat × Nat) : Within passes (recordRound tab eb t) := by
    apply Within.ite (fun _ => Within.pure _)
    intro _
    apply Within.ite (fun _ => Within.pure _)
    intro _
    exact Within.ite (fun _ => Within.pure _) (fun _ => Within.pure _)
  have entries (tab : Bytes) (eb nr : Nat) (s : CatalogState) : Within passes (entryRound host tab eb nr s) := by
    refine Within.ite (fun _ => ?_) (fun _ => Within.pure _)
    cases extractFields host tab eb s with
    | error ce => exact Within.pure _
    | ok s =>
        apply Within.ite (fun _ => Within.pure _)
        intro _
        apply Within.ite (fun _ => Within.pure _)
        intro _
        exact Within.ite (fun _ => Within.pure _) (fun _ => Within.pure _)
  apply Within.bind (within_cdfCheckStream classed)
  intro ss _
  apply Within.bind (Within.loop (records scn.tab _) _ _)
  intro nr _
  apply Within.ite (fun _ => Within.pure none)
  intro _
  apply Within.ite (fun _ => Within.pure none)
  intro _
  exact Within.bind (Within.loop (entries scn.tab _ _) _ _) (fun _ _ => Within.pure _)

end Streams

/-- No assertion on the way fails, and there is no `abort()`. -/
def Unaborted {α : Type} (r : Run Event α) : Prop := ∀ e ∈ r.events, e.Passes

/-- Whatever is in the header and in the tables, a sector is only read with its size, and a stream that
was read is one that `cdf_check_stream` lets through. -/
theorem assertions_pass (info : Info) (h : Header) :
    Unaborted (cdfReadSat info h) ∧
    ∀ sat : Sat, Unaborted (cdfReadSsat info h sat) ∧ Unaborted (cdfReadDir info h sat) ∧
      ∀ (ssat : Sat) (sst : Option Stream) (sid : Int) (len : Nat),
        Unaborted (cdfReadLongSectorChain info h sat sid len) ∧
        Unaborted (cdfReadSectorChain info h sat ssat sst sid len) ∧
        ∀ scn, (cdfReadSectorChain info h sat ssat sst sid len).value = some (some scn) →
          scn.sectorSize h = scn.ss ∧
          (∀ place heap, Unaborted (cdfUnpackSummaryInfo scn h place heap)) ∧
          (∀ place heap offs props count,
            Unaborted (Checked.cdfReadPropertyInfo scn h place heap offs props count)) ∧
          ∀ host malloc, Unaborted (cdfUnpackCatalog host h scn malloc) := by
  refine ⟨within_cdfReadSat info h, ?_⟩
  intro sat
  refine ⟨within_cdfReadSsat info h sat, within_cdfReadDir info h sat, ?_⟩
  intro ssat sst sid len
  have chain := readsClassed_chain info h sat ssat sst sid len
  refine ⟨(readsClassed_long info h sat sid len).within, chain.within, ?_⟩
  intro scn read
  have classed := chain.classed scn read
  refine ⟨classed, ?_, ?_, ?_⟩
  · intro place heap
    exact within_cdfUnpackSummaryInfo classed place heap
  · intro place heap offs props count
    exact within_cdfReadPropertyInfo classed place heap offs props count
  · intro host malloc
    exact within_cdfUnpackCatalog classed host malloc

/-- The short sectors are for streams of less than four bytes. -/
def tinyHeader : Header := { smallHeader with minSizeStandardStream := 4 }

def sixteenBytes : Info := ⟨some [0, 1, 2, 3, 4, 5, 6, 7, 8, 9, 10, 11, 12, 13, 14, 15], none, fun _ _ => true⟩

def shortStream : Stream := ⟨[4, 5, 6, 7], 1, 4, 4⟩

/-- A short stream and a long one are both let through. -/
theorem assertions_pass_linked :
    (⟨[4, 5, 6, 7], 2, 3, 2⟩ : Stream).sectorSize tinyHeader = 2 ∧
    (⟨[4, 5, 6, 7, 8, 9, 10, 11], 2, 8, 4⟩ : Stream).sectorSize tinyHeader = 4 := by
  have chains := ((assertions_pass sixteenBytes tinyHeader).2 twoLinks).2.2 twoLinks (some shortStream) 0
  exact ⟨((chains 3).2.2 ⟨[4, 5, 6, 7], 2, 3, 2⟩ (by decide +kernel)).1,
    ((chains 8).2.2 ⟨[4, 5, 6, 7, 8, 9, 10, 11], 2, 8, 4⟩ (by decide +kernel)).1⟩

end Libmagic.Cdf
