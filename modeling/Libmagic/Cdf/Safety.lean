import Libmagic.Cdf.Chain

/-!
# What the chains of sectors touch

`cdf_count_chain` is the only routine that checks the links of a chain. What it counts is a
list of sectors, and the routines that come after it walk along that list once more.
-/
namespace Libmagic.Cdf

open Softmagic
open Run (Policy Meets)

/-- An access is inside its allocation. -/
def Event.InBounds : Event → Prop
  | .access a => a.off + a.len ≤ a.alloc
  | .assertion _ _ => True
  | .abort => True

/-- Every access is inside its allocation. -/
def inBounds : Policy Event := .each Event.InBounds

/-- What `cdf_read_sat` and `cdf_read_ssat` leave: `sat_len` sectors of a table are allocated. -/
structure Sat.Valid (sat : Sat) (ss : Nat) : Prop where
  allocated : sat.len * ss ≤ sat.tab.length
  limited : sat.len * ss ≤ CDF_MEMORY_LIMIT

/-- The chain that starts at a sector, as far as the links say. -/
inductive Follows (sat : Sat) : Int → List Nat → Prop where
  | stop {sid : Int} (negative : sid < 0) : Follows sat sid []
  | link {sid : Nat} {ids : List Nat} (rest : Follows sat (sat.entry sid) ids) :
      Follows sat sid (sid :: ids)

/-- A chain that can be walked along without a check. -/
structure Walkable (sat : Sat) (sid : Int) (ids : List Nat) : Prop where
  follows : Follows sat sid ids
  short : ids.length ≤ CDF_LOOP_LIMIT
  inside : ∀ id ∈ ids, 4 * id + 4 ≤ sat.tab.length
  small : ∀ id ∈ ids, id < 2 ^ 31

theorem Follows.nonempty {sat : Sat} {sid : Int} {ids : List Nat} (h : Follows sat sid ids)
    (le : 0 ≤ sid) : ∃ rest, ids = sid.toNat :: rest ∧ Follows sat (sat.entry sid.toNat) rest := by
  cases h with
  | stop negative => omega
  | link rest => exact ⟨_, rfl, rest⟩

theorem Follows.empty {sat : Sat} {sid : Int} {ids : List Nat} (h : Follows sat sid ids)
    (lt : sid < 0) : ids = [] := by
  cases h with
  | stop negative => rfl
  | link rest => omega

theorem Follows.cons {sat : Sat} {sid : Int} {id : Nat} {rest : List Nat}
    (h : Follows sat sid (id :: rest)) : sid = id ∧ Follows sat (sat.entry id) rest := by
  cases h with
  | link rest => exact ⟨rfl, rest⟩

section Accesses

theorem meets_touch {tab : Tab} {mem : Bytes} {off len : Nat} (h : off + len ≤ mem.length) :
    Meets inBounds 0 (touch tab mem off len) (fun _ => True) :=
  Meets.event (Policy.each_single h) trivial

theorem meets_assertion (ss len : Nat) :
    Meets inBounds 0 (Run.event (.assertion ss len) ()) (fun _ => True) :=
  Meets.event (Policy.each_single trivial) trivial

theorem meets_secidAt {tab : Tab} {mem : Bytes} {i : Nat} (h : 4 * i + 4 ≤ mem.length) :
    Meets inBounds 0 (secidAt tab mem i) (fun r => r = secid ⟨4 * i, 4⟩ mem) :=
  Meets.bind (meets_touch h) (fun _ _ => Meets.pure rfl)

theorem meets_satAt {sat : Sat} {sid : Nat} (h : 4 * sid + 4 ≤ sat.tab.length) :
    Meets inBounds 0 (satAt sat sid) (fun r => r = sat.entry sid) :=
  meets_secidAt h

variable (h : Header)

theorem Header.secSize_pos : 0 < h.secSize := Nat.two_pow_pos _

theorem Header.secSize_le : h.secSize ≤ 2 ^ 20 := Nat.pow_le_pow_right (by decide) h.secSizeP2_le

theorem Header.shortSecSize_pos : 0 < h.shortSecSize := Nat.two_pow_pos _

theorem Header.shortSecSize_le : h.shortSecSize ≤ 2 ^ 20 :=
  Nat.pow_le_pow_right (by decide) h.shortSecSizeP2_le

/-- The bytes of a sector of the file. -/
def sector (info : Info) (id : Nat) : Option Bytes := cdfRead info (h.secSize + id * h.secSize) h.secSize

/-- The bytes of a sector of the short stream. -/
def shortSector (sst : Stream) (id : Nat) : Option Bytes :=
  if id * h.shortSecSize + h.shortSecSize ≤ h.secSize * sst.len then
    some ((⟨id * h.shortSecSize, h.shortSecSize⟩ : Field).get sst.tab)
  else none

variable {h}

theorem cdfRead_length {info : Info} {off len : Nat} {bs : Bytes} (nowrap : off + len < 2 ^ 64)
    (read : cdfRead info off len = some bs) : bs.length = len := by
  have fromFd (h : info.fd.bind (fun pread => (pread off len).filter (fun bs => bs.length == len)) =
      some bs) : bs.length = len := by
    obtain ⟨pread, _, h⟩ := Option.bind_eq_some_iff.mp h
    exact beq_iff_eq.mp (Option.filter_eq_some_iff.mp h).2
  unfold cdfRead at read
  split at read
  · split at read
    · rename_i buf _ fits
      have whole : sz (off + len) = off + len := Nat.mod_eq_of_lt nowrap
      obtain rfl := Option.some.inj read
      rw [List.length_take, List.length_drop]
      omega
    · exact fromFd read
  · exact fromFd read

theorem uN_nat {id : Nat} (small : id < 2 ^ 31) : uN 64 (id : Int) = id := by
  unfold uN
  omega

/-- A number of sectors of at most `2 ^ 20` bytes does not wrap. -/
theorem mul_lt {id ss : Nat} (small : id < 2 ^ 31) (le : ss ≤ 2 ^ 20) : id * ss < 2 ^ 51 := by
  calc id * ss ≤ id * 2 ^ 20 := Nat.mul_le_mul_left id le
    _ < 2 ^ 51 := by omega

theorem tooFar_eq_false {id ss : Nat} (small : id < 2 ^ 31) (pos : 0 < ss) (le : ss ≤ 2 ^ 20) :
    tooFar ss id = false := by
  rw [tooFar, uN_nat small, decide_eq_false_iff_not, Nat.not_lt, Nat.le_div_iff_mul_le pos]
  have := mul_lt small le
  omega

theorem secPos_eq {id : Nat} (small : id < 2 ^ 31) : h.secPos (uN 64 id) = h.secSize + id * h.secSize := by
  have := mul_lt small h.secSize_le
  have := h.secSize_le
  rw [Header.secPos, uN_nat small, sz, Nat.mod_eq_of_lt (by omega)]

theorem meets_cdfReadSector {info : Info} {tab : Tab} {mem : Bytes} {offs : Nat} {id : Int}
    (room : offs + h.secSize ≤ mem.length) :
    Meets inBounds 0 (cdfReadSector info tab mem offs h.secSize h id)
      (fun r => ∀ mem', r = some mem' → mem'.length = mem.length) := by
  apply Meets.ite
  · intro _
    exact Meets.pure (fun mem' none => absurd none (by simp))
  · intro _
    apply Meets.bind (meets_assertion _ _)
    intro _ _
    apply Meets.bind (meets_touch room)
    intro _ _
    apply Meets.pure
    intro mem' some
    obtain ⟨bs, _, rfl⟩ := Option.map_eq_some_iff.mp some
    exact Field.set_length _ _ _

end Accesses

/-! ## Counting -/

section Count

variable {sat : Sat} {size : Nat}

theorem sN_of_small {x : Nat} (small : x < 2 ^ 31) : sN 32 (x : Int) = x := by
  unfold sN
  omega

/-- The sectors that were counted so far, before the one that is looked at now. -/
structure Counted (sat : Sat) (size : Nat) (sid : Int) (t : Int × Nat) (done : List Nat) : Prop where
  length : done.length = t.2
  limit : t.2 ≤ CDF_LOOP_LIMIT
  memory : t.2 ≤ CDF_MEMORY_LIMIT / size
  follows : ∀ rest, Follows sat t.1 rest → Follows sat sid (done ++ rest)
  inside : ∀ id ∈ done, 4 * id + 4 ≤ sat.tab.length
  small : ∀ id ∈ done, id < 2 ^ 31

theorem Counted.start (sid : Int) : Counted sat size sid (sid, 0) [] where
  length := rfl
  limit := Nat.zero_le _
  memory := Nat.zero_le _
  follows := fun _ h => h
  inside := fun _ h => absurd h List.not_mem_nil
  small := fun _ h => absurd h List.not_mem_nil

theorem Counted.step {sid : Int} {t : Int × Nat} {done : List Nat} (c : Counted sat size sid t done)
    (le : 0 ≤ t.1) (limit : t.2 < CDF_LOOP_LIMIT) (memory : t.2 < CDF_MEMORY_LIMIT / size)
    (inside : 4 * t.1.toNat + 4 ≤ sat.tab.length) (small : t.1.toNat < 2 ^ 31) :
    Counted sat size sid (sat.entry t.1.toNat, t.2 + 1) (done ++ [t.1.toNat]) where
  length := by rw [List.length_append, List.length_singleton, c.length]
  limit := limit
  memory := memory
  follows := by
    intro rest h
    rw [List.append_assoc]
    apply c.follows
    have link := Follows.link h
    rwa [Int.toNat_of_nonneg le] at link
  inside := by
    intro id hid
    rcases List.mem_append.mp hid with hid | hid
    · exact c.inside id hid
    · rw [List.mem_singleton.mp hid]
      exact inside
  small := by
    intro id hid
    rcases List.mem_append.mp hid with hid | hid
    · exact c.small id hid
    · rw [List.mem_singleton.mp hid]
      exact small

/-- What a count that is not `-1` says. -/
structure CountedAll (sat : Sat) (size : Nat) (sid : Int) (n : Nat) (ids : List Nat) : Prop where
  walkable : Walkable sat sid ids
  length : ids.length = n
  memory : n * size ≤ CDF_MEMORY_LIMIT

theorem Counted.all {sid : Int} {t : Int × Nat} {done : List Nat} (c : Counted sat size sid t done)
    (negative : t.1 < 0) : CountedAll sat size sid t.2 done where
  walkable :=
    { follows := by simpa only [List.append_nil] using c.follows [] (.stop negative)
      short := c.length ▸ c.limit
      inside := c.inside
      small := c.small }
  length := c.length
  memory := Nat.le_trans (Nat.mul_le_mul_right size c.memory) (Nat.div_mul_le_self _ _)

theorem meets_cdfCountChain (valid : sat.Valid size) (sid : Int) :
    Meets inBounds 0 (cdfCountChain sat sid size)
      (fun r => ∀ n, r = some n → ∃ ids, CountedAll sat size sid n ids) := by
  have fits := valid.limited
  have entries : sN 32 (sz (sat.len * size) / 4 : Nat) = (sat.len * size / 4 : Nat) := by
    have limit : CDF_MEMORY_LIMIT = 2 ^ 24 := by decide
    rw [sz, Nat.mod_eq_of_lt (by omega)]
    exact sN_of_small (by omega)
  have limit : CDF_MEMORY_LIMIT = 2 ^ 24 := by decide
  apply Meets.ite
  · intro _
    exact Meets.pure (fun n none => absurd none (by simp))
  intro _
  apply Meets.ite
  · intro ends
    apply Meets.pure
    rintro n ⟨⟩
    exact ⟨[], (Counted.start sid).all (by rw [ends]; decide)⟩
  intro _
  have round : ∀ t : Int × Nat, (∃ done, Counted sat size sid t done) →
      Meets inBounds 0 (countRound sat size (sN 32 (sz (sat.len * size) / 4 : Nat)) t)
        (Sum.elim (fun t' => (∃ done, Counted sat size sid t' done) ∧
            CDF_LOOP_LIMIT - t'.2 < CDF_LOOP_LIMIT - t.2)
          (fun r => ∀ n, r = some n → ∃ ids, CountedAll sat size sid n ids)) := by
    rintro t ⟨done, c⟩
    apply Meets.ite
    · intro le
      apply Meets.ite (fun _ => Meets.pure (fun n none => absurd none (by simp)))
      intro below
      apply Meets.ite (fun _ => Meets.pure (fun n none => absurd none (by simp)))
      intro memory
      apply Meets.ite (fun _ => Meets.pure (fun n none => absurd none (by simp)))
      intro link
      rw [entries] at link
      have allocated := valid.allocated
      have inside : 4 * t.1.toNat + 4 ≤ sat.tab.length := by omega
      apply Meets.bind (meets_satAt inside)
      intro next hnext
      rw [hnext]
      apply Meets.pure
      refine ⟨⟨_, c.step le (by omega) (by omega) inside (by omega)⟩, ?_⟩
      dsimp only
      omega
    · intro negative
      apply Meets.pure
      intro n count
      by_cases zero : t.2 = 0
      · rw [if_pos zero] at count
        cases count
      · rw [if_neg zero] at count
        obtain rfl := Option.some.inj count
        exact ⟨done, c.all (by omega)⟩
  exact Meets.loop round _ _ ⟨[], Counted.start sid⟩ (by dsimp only; omega)

end Count

/-! ## Reading along a chain -/

/-- The bytes of the sectors of a chain, one behind the other. -/
def concat (sec : Nat → Option Bytes) (ids : List Nat) : Option Bytes := (ids.mapM sec).map List.flatten

theorem concat_snoc {sec : Nat → Option Bytes} {done : List Nat} {id : Nat} {data bs : Bytes}
    (before : concat sec done = some data) (last : sec id = some bs) :
    concat sec (done ++ [id]) = some (data ++ bs) := by
  obtain ⟨secs, hsecs, rfl⟩ := Option.map_eq_some_iff.mp before
  simp [concat, List.mapM_append, hsecs, last]

/-- A routine that puts sectors into a table. -/
def Reads (read : Bytes → Nat → Int → Run Event (Option Bytes)) (sec : Nat → Option Bytes) (ss : Nat) :
    Prop :=
  ∀ (mem : Bytes) (offs id : Nat), id < 2 ^ 31 → offs + ss ≤ mem.length →
    Meets inBounds 0 (read mem offs id) (fun r => ∀ mem', r = some mem' →
      ∃ bs, sec id = some bs ∧ bs.length = ss ∧ mem' = (⟨offs, ss⟩ : Field).set mem bs)

theorem take_set {mem bs : Bytes} {offs ss : Nat} (length : bs.length = ss)
    (room : offs + ss ≤ mem.length) :
    ((⟨offs, ss⟩ : Field).set mem bs).take (offs + ss) = mem.take offs ++ bs := by
  have front : (mem.take offs ++ bs).length = offs + ss := by
    rw [List.length_append, List.length_take, length]
    omega
  have fits : (⟨offs, ss⟩ : Field).off + bs.length ≤ mem.length := length.symm ▸ room
  rw [Field.set, if_pos fits, List.take_left' front]

section Read

variable {sat : Sat} {sid : Int} {ids : List Nat} {sec : Nat → Option Bytes} {ss : Nat}
  {read : Bytes → Nat → Int → Run Event (Option Bytes)}

/-- The sectors that were read so far and those that are still to come. -/
structure ReadSoFar (sat : Sat) (ids : List Nat) (sec : Nat → Option Bytes) (ss alloc : Nat)
    (t : Int × Nat × Bytes) (done rest : List Nat) : Prop where
  split : ids = done ++ rest
  length : done.length = t.2.1
  follows : Follows sat t.1 rest
  alloc : t.2.2.length = alloc
  data : concat sec done = some (t.2.2.take (t.2.1 * ss))

theorem zeroed_length (n u : Nat) : (zeroed n u).length = (if n = 0 then 1 else n) * u :=
  List.length_replicate

theorem mul_le_zeroed_length (n u : Nat) : n * u ≤ (zeroed n u).length := by
  rw [zeroed_length]
  apply Nat.mul_le_mul_right
  split <;> omega

theorem meets_readChain (walkable : Walkable sat sid ids) (reads : Reads read sec ss) :
    Meets inBounds 0 (readChain sat read ss ids.length sid) (fun r => ∀ tab, r = some tab →
      tab.length = (zeroed ids.length ss).length ∧
        concat sec ids = some (tab.take (ids.length * ss))) := by
  have room := mul_le_zeroed_length ids.length ss
  generalize hz : (zeroed ids.length ss).length = alloc at room ⊢
  have round : ∀ t : Int × Nat × Bytes, (∃ done rest, ReadSoFar sat ids sec ss alloc t done rest) →
      Meets inBounds 0 (chainRound sat read ss ids.length t)
        (Sum.elim (fun t' => (∃ done rest, ReadSoFar sat ids sec ss alloc t' done rest) ∧
            ids.length - t'.2.1 < ids.length - t.2.1)
          (fun r => ∀ tab, r = some tab → tab.length = alloc ∧
            concat sec ids = some (tab.take (ids.length * ss)))) := by
    rintro t ⟨done, rest, h⟩
    have count : ids.length = t.2.1 + rest.length := by
      rw [h.split, List.length_append, h.length]
    apply Meets.ite
    · intro le
      apply Meets.ite (fun _ => Meets.pure (fun tab none => absurd none (by simp)))
      intro below
      apply Meets.ite (fun _ => Meets.pure (fun tab none => absurd none (by simp)))
      intro more
      obtain ⟨rest', hrest, follows⟩ := h.follows.nonempty le
      have member : t.1.toNat ∈ ids := by
        rw [h.split, hrest]
        exact List.mem_append_right done List.mem_cons_self
      have offs : t.2.1 * ss + ss ≤ t.2.2.length := by
        rw [h.alloc]
        calc t.2.1 * ss + ss = (t.2.1 + 1) * ss := (Nat.succ_mul _ _).symm
          _ ≤ ids.length * ss := Nat.mul_le_mul_right ss (by omega)
          _ ≤ alloc := room
      have one := reads t.2.2 (t.2.1 * ss) t.1.toNat (walkable.small _ member) offs
      rw [Int.toNat_of_nonneg le] at one
      apply Meets.bind one
      intro r hr
      cases r with
      | none => exact Meets.pure (fun tab none => absurd none (by simp))
      | some tab =>
          obtain ⟨bs, hbs, length, rfl⟩ := hr tab rfl
          apply Meets.bind (meets_satAt (walkable.inside _ member))
          intro next hnext
          rw [hnext]
          apply Meets.pure
          refine ⟨⟨done ++ [t.1.toNat], rest', ?_⟩, by dsimp only; omega⟩
          constructor
          · rw [h.split, hrest, List.append_assoc, List.singleton_append]
          · rw [List.length_append, List.length_singleton, h.length]
          · exact follows
          · rw [Field.set_length, h.alloc]
          · dsimp only
            rw [Nat.succ_mul, take_set length offs]
            exact concat_snoc h.data hbs
    · intro negative
      apply Meets.pure
      rintro tab ⟨⟩
      have none_left := h.follows.empty (by omega)
      refine ⟨h.alloc, ?_⟩
      have all : ids = done := by simpa only [none_left, List.append_nil] using h.split
      rw [all, h.length]
      exact h.data
  apply Meets.loop round
  · exact ⟨[], ids, rfl, rfl, walkable.follows, hz, by rw [Nat.zero_mul, List.take_zero]; rfl⟩
  · have := walkable.short
    dsimp only
    omega

end Read

/-! ## Streams -/

/-- A stream has the sectors of its chain, one behind the other. -/
structure Stream.Of (scn : Stream) (sat : Sat) (sec : Nat → Option Bytes) (ss : Nat) (sid : Int) : Prop where
  chain : ∃ ids, Follows sat sid ids ∧ scn.len = ids.length ∧
    concat sec ids = some (scn.tab.take (scn.len * ss))
  allocated : scn.len * ss ≤ scn.tab.length

section Streams

variable (info : Info) (h : Header)

theorem reads_sector (tab : Tab) :
    Reads (fun mem offs id => cdfReadSector info tab mem offs h.secSize h id) (sector h info) h.secSize := by
  intro mem offs id small room
  change Meets inBounds 0 (cdfReadSector info tab mem offs h.secSize h id) _
  rw [cdfReadSector, tooFar_eq_false small h.secSize_pos h.secSize_le, if_neg Bool.false_ne_true]
  apply Meets.bind (meets_assertion _ _)
  intro _ _
  apply Meets.bind (meets_touch room)
  intro _ _
  apply Meets.pure
  intro mem' some
  obtain ⟨bs, read, rfl⟩ := Option.map_eq_some_iff.mp some
  rw [secPos_eq small] at read
  have nowrap := mul_lt small h.secSize_le
  have le := h.secSize_le
  exact ⟨bs, read, cdfRead_length (by omega) read, rfl⟩

/-- The short stream is as long as its sectors say. -/
def Stream.Allocated (sst : Stream) (h : Header) : Prop :=
  h.secSize * sst.len ≤ sst.tab.length ∧ sst.len ≤ CDF_LOOP_LIMIT

theorem reads_shortSector {sst : Stream} (allocated : sst.Allocated h) :
    Reads (fun mem offs id => cdfReadShortSector sst mem offs h.shortSecSize h id) (shortSector h sst)
      h.shortSecSize := by
  intro mem offs id small room
  change Meets inBounds 0 (cdfReadShortSector sst mem offs h.shortSecSize h id) _
  have le := h.shortSecSize_le
  have nowrap := mul_lt small le
  have pos : h.shortSecPos (uN 64 id) = id * h.shortSecSize := by
    rw [Header.shortSecPos, uN_nat small, sz, Nat.mod_eq_of_lt (by omega)]
  have whole : sz (h.secSize * sst.len) = h.secSize * sst.len := by
    have limit : sst.len < 2 ^ 31 := Nat.lt_of_le_of_lt allocated.2 (by decide)
    have := mul_lt limit h.secSize_le
    rw [Nat.mul_comm, sz, Nat.mod_eq_of_lt (by omega)]
  have sum : sz (id * h.shortSecSize + h.shortSecSize) = id * h.shortSecSize + h.shortSecSize :=
    Nat.mod_eq_of_lt (by omega)
  rw [cdfReadShortSector, tooFar_eq_false small h.shortSecSize_pos le, if_neg Bool.false_ne_true, pos, whole, sum]
  apply Meets.bind (meets_assertion _ _)
  intro _ _
  apply Meets.ite
  · intro _
    exact Meets.pure (fun mem' none => absurd none (by simp))
  · intro inside
    have source : id * h.shortSecSize + h.shortSecSize ≤ sst.tab.length :=
      Nat.le_trans (Nat.le_of_not_lt inside) allocated.1
    apply Meets.bind (meets_touch source)
    intro _ _
    apply Meets.bind (meets_touch room)
    intro _ _
    apply Meets.pure
    rintro mem' ⟨⟩
    exact ⟨_, if_pos (Nat.le_of_not_lt inside), Field.get_length source, rfl⟩

variable {sat : Sat} (valid : sat.Valid h.secSize)

include valid

theorem meets_cdfReadLongSectorChain (sid : Int) (len : Nat) :
    Meets inBounds 0 (cdfReadLongSectorChain info h sat sid len)
      (fun r => ∀ scn, r = some scn → scn.Of sat (sector h info) h.secSize sid ∧ scn.Allocated h) := by
  have failed : ∀ scn : Stream, none = some scn →
      scn.Of sat (sector h info) h.secSize sid ∧ scn.Allocated h := fun scn none => absurd none (by simp)
  apply Meets.bind (meets_cdfCountChain valid sid)
  intro count hcount
  apply Meets.ite (fun _ => Meets.pure failed)
  intro _
  cases count with
  | none => exact Meets.pure failed
  | some n =>
      obtain ⟨ids, all⟩ := hcount n rfl
      obtain rfl := all.length
      apply Meets.ite (fun _ => Meets.pure failed)
      intro _
      apply Meets.bind (meets_readChain all.walkable (reads_sector info h .sst))
      intro tab htab
      apply Meets.pure
      intro scn some
      obtain ⟨tab, rfl, rfl⟩ := Option.map_eq_some_iff.mp some
      obtain ⟨length, data⟩ := htab tab rfl
      have room : ids.length * h.secSize ≤ tab.length := length ▸ mul_le_zeroed_length _ _
      refine ⟨⟨⟨ids, all.walkable.follows, rfl, data⟩, room⟩, ?_, all.walkable.short⟩
      rw [Nat.mul_comm]
      exact room

theorem meets_cdfReadShortSectorChain {sst : Stream} (allocated : sst.Allocated h) (sid : Int)
    (len : Nat) :
    Meets inBounds 0 (cdfReadShortSectorChain info h sat sst sid len)
      (fun r => ∀ scn, r = some scn → scn.Of sat (shortSector h sst) h.shortSecSize sid) := by
  have failed : ∀ scn : Stream, none = some scn →
      scn.Of sat (shortSector h sst) h.shortSecSize sid := fun scn none => absurd none (by simp)
  apply Meets.bind (meets_cdfCountChain valid sid)
  intro count hcount
  cases count with
  | none => exact Meets.pure failed
  | some n =>
      obtain ⟨ids, all⟩ := hcount n rfl
      obtain rfl := all.length
      apply Meets.ite (fun _ => Meets.pure failed)
      intro _
      apply Meets.bind (meets_readChain all.walkable (reads_shortSector h allocated))
      intro tab htab
      apply Meets.pure
      intro scn some
      obtain ⟨tab, rfl, rfl⟩ := Option.map_eq_some_iff.mp some
      obtain ⟨length, data⟩ := htab tab rfl
      exact ⟨⟨ids, all.walkable.follows, rfl, data⟩, length ▸ mul_le_zeroed_length _ _⟩

/-- The short table has the sectors of its chain too. -/
structure Sat.Of (ssat : Sat) (info : Info) (h : Header) (sat : Sat) : Prop where
  chain : ∃ ids, Follows sat h.secidFirstSectorInShortSat ids ∧ ssat.len = ids.length ∧
    concat (sector h info) ids = some (ssat.tab.take (ssat.len * h.secSize))
  valid : ssat.Valid h.secSize

theorem meets_cdfReadSsat :
    Meets inBounds 0 (cdfReadSsat info h sat) (fun r => ∀ ssat, r = some ssat → ssat.Of info h sat) := by
  have failed : ∀ ssat : Sat, none = some ssat → ssat.Of info h sat :=
    fun ssat none => absurd none (by simp)
  apply Meets.bind (meets_cdfCountChain valid _)
  intro count hcount
  cases count with
  | none => exact Meets.pure failed
  | some n =>
      obtain ⟨ids, all⟩ := hcount n rfl
      obtain rfl := all.length
      apply Meets.ite (fun _ => Meets.pure failed)
      intro _
      apply Meets.bind (meets_readChain all.walkable (reads_sector info h .sat))
      intro tab htab
      apply Meets.pure
      intro ssat some
      obtain ⟨tab, rfl, rfl⟩ := Option.map_eq_some_iff.mp some
      obtain ⟨length, data⟩ := htab tab rfl
      exact ⟨⟨ids, all.walkable.follows, rfl, data⟩, length ▸ mul_le_zeroed_length _ _, all.memory⟩

end Streams

/-! ## The directory -/

/-- The entries of a sector. -/
def entries (nd : Nat) (bs : Bytes) : List Directory :=
  (List.range nd).map (fun j =>
    cdfUnpackDir ((⟨j * CDF_DIRECTORY_SIZE, CDF_DIRECTORY_SIZE⟩ : Field).get bs))

/-- The directory has the entries of the sectors of its chain. -/
structure Dir.Of (dir : Dir) (info : Info) (h : Header) (sat : Sat) : Prop where
  chain : ∃ ids, Follows sat h.secidFirstDirectory ids ∧
    dir.len = ids.length * (h.secSize / CDF_DIRECTORY_SIZE) ∧
    (ids.mapM (sector h info)).map (List.flatMap (entries (h.secSize / CDF_DIRECTORY_SIZE))) =
      some (dir.tab.take dir.len)

theorem take_set_append {α : Type} (l : List α) (i : Nat) (a : α) (h : i < l.length) :
    (l.set i a).take (i + 1) = l.take i ++ [a] := by
  rw [List.take_succ_eq_append_getElem (by rwa [List.length_set]), List.take_set_of_le (Nat.le_refl i),
    List.getElem_set_self]

theorem meets_dirAt {alloc i : Nat} (h : i < alloc) :
    Meets inBounds 0 (Run.event (.access ⟨.dir, alloc, i, 1⟩) ()) (fun _ => True) :=
  Meets.event (Policy.each_single (Nat.succ_le_of_lt h)) trivial

theorem meets_unpackSector (buf : Bytes) (base left j : Nat) (dirTab : List Directory)
    (source : (j + left) * CDF_DIRECTORY_SIZE ≤ buf.length) (room : base + (j + left) ≤ dirTab.length) :
    Meets inBounds 0 (unpackSector buf base left j dirTab) (fun tab =>
      tab.length = dirTab.length ∧
      tab.take (base + (j + left)) = dirTab.take (base + j) ++ (List.range' j left).map (fun j =>
        cdfUnpackDir ((⟨j * CDF_DIRECTORY_SIZE, CDF_DIRECTORY_SIZE⟩ : Field).get buf))) := by
  induction left generalizing j dirTab with
  | zero => exact Meets.pure ⟨rfl, by rw [List.range'_zero, List.map_nil, List.append_nil]; rfl⟩
  | succ left ih =>
      have fits : j * CDF_DIRECTORY_SIZE + CDF_DIRECTORY_SIZE ≤ buf.length := by
        rw [← Nat.succ_mul]
        exact Nat.le_trans (Nat.mul_le_mul_right _ (by omega)) source
      apply Meets.bind (meets_touch fits)
      intro _ _
      apply Meets.bind (meets_dirAt (show base + j < dirTab.length by omega))
      intro _ _
      generalize hentry : cdfUnpackDir ((⟨j * CDF_DIRECTORY_SIZE, CDF_DIRECTORY_SIZE⟩ : Field).get buf) =
        entry
      have same : j + 1 + left = j + (left + 1) := by omega
      have next := ih (j + 1) (dirTab.set (base + j) entry) (by rwa [same])
        (by rw [List.length_set, same]; exact room)
      have front : (dirTab.set (base + j) entry).take (base + (j + 1)) =
          dirTab.take (base + j) ++ [entry] := take_set_append dirTab (base + j) entry (by omega)
      rw [same, List.length_set, front] at next
      apply next.mono (Nat.le_refl 0)
      rintro tab ⟨length, data⟩
      refine ⟨length, ?_⟩
      rw [List.range'_succ, List.map_cons, data, hentry, List.append_assoc, List.singleton_append]

section ReadDir

variable (info : Info) (h : Header) {sat : Sat} {ids : List Nat}

/-- The sectors of the directory that were read so far. -/
structure DirSoFar (info : Info) (h : Header) (sat : Sat) (ids : List Nat) (alloc : Nat) (s : DirState)
    (done rest : List Nat) : Prop where
  split : ids = done ++ rest
  length : done.length = s.i
  follows : Follows sat s.sid rest
  j_lt : s.j < CDF_LOOP_LIMIT
  alloc : s.dirTab.length = alloc
  data : (done.mapM (sector h info)).map (List.flatMap (entries (h.secSize / CDF_DIRECTORY_SIZE))) =
    some (s.dirTab.take (s.i * (h.secSize / CDF_DIRECTORY_SIZE)))

theorem flatMap_snoc {sec : Nat → Option Bytes} {f : Bytes → List Directory} {done : List Nat} {id : Nat}
    {bs : Bytes} {data : List Directory} (before : (done.mapM sec).map (List.flatMap f) = some data)
    (last : sec id = some bs) :
    ((done ++ [id]).mapM sec).map (List.flatMap f) = some (data ++ f bs) := by
  obtain ⟨secs, hsecs, rfl⟩ := Option.map_eq_some_iff.mp before
  simp [List.mapM_append, hsecs, last]

/-- A sector that fills the whole buffer. -/
theorem set_all {mem bs : Bytes} {ss : Nat} (length : bs.length = ss) (size : mem.length = ss) :
    (⟨0, ss⟩ : Field).set mem bs = bs := by
  have fits : (⟨0, ss⟩ : Field).off + bs.length ≤ mem.length := by
    dsimp only
    omega
  have behind : mem.drop (0 + bs.length) = [] := List.drop_eq_nil_of_le (by omega)
  rw [Field.set, if_pos fits, List.take_zero, List.nil_append, behind, List.append_nil]

theorem meets_dirRound (walkable : Walkable sat h.secidFirstDirectory ids) {alloc : Nat}
    (room : ids.length * (h.secSize / CDF_DIRECTORY_SIZE) ≤ alloc) (s : DirState)
    (start : ∃ done rest, DirSoFar info h sat ids alloc s done rest) :
    Meets inBounds 0 (dirRound info h sat ids.length s)
      (Sum.elim (fun s' => (∃ done rest, DirSoFar info h sat ids alloc s' done rest) ∧
          ids.length - s'.i < ids.length - s.i)
        (fun r => ∀ tab, r = some tab →
          (ids.mapM (sector h info)).map (List.flatMap (entries (h.secSize / CDF_DIRECTORY_SIZE))) =
            some (tab.take (ids.length * (h.secSize / CDF_DIRECTORY_SIZE))))) := by
  obtain ⟨done, rest, so⟩ := start
  have count : ids.length = s.i + rest.length := by rw [so.split, List.length_append, so.length]
  rw [dirRound]
  generalize hnd : h.secSize / CDF_DIRECTORY_SIZE = nd at room ⊢
  have nd_le : nd ≤ 8192 := by
    have := h.secSize_le
    rw [← hnd, CDF_DIRECTORY_SIZE]
    omega
  have source : nd * CDF_DIRECTORY_SIZE ≤ h.secSize := hnd ▸ Nat.div_mul_le_self _ _
  apply Meets.ite
  · intro more
    apply Meets.ite (fun _ => Meets.pure (fun tab none => absurd none (by simp)))
    intro _
    cases rest with
    | nil =>
        rw [List.length_nil] at count
        omega
    | cons id rest =>
        have member : id ∈ ids := by
          rw [so.split]
          exact List.mem_append_right done List.mem_cons_self
        obtain ⟨hsid, follows⟩ := so.follows.cons
        rw [hsid]
        have buffer : (List.replicate h.secSize (0 : UInt8)).length = h.secSize := List.length_replicate
        apply Meets.bind (reads_sector info h .buf (List.replicate h.secSize 0) 0 id
          (walkable.small id member) (by rw [buffer]; omega))
        intro r hr
        cases r with
        | none => exact Meets.pure (fun tab none => absurd none (by simp))
        | some buf =>
            obtain ⟨bs, hbs, length, hbuf⟩ := hr buf rfl
            rw [set_all length buffer] at hbuf
            subst hbuf
            have next : s.i * nd + (0 + nd) ≤ s.dirTab.length := by
              rw [so.alloc, Nat.zero_add, ← Nat.succ_mul]
              exact Nat.le_trans (Nat.mul_le_mul_right nd (by omega)) room
            apply Meets.bind (meets_unpackSector buf (s.i * nd) nd 0 s.dirTab
              (by rwa [Nat.zero_add, length]) next)
            rintro dirTab ⟨same, data⟩
            rw [Int.toNat_natCast]
            apply Meets.bind (meets_satAt (walkable.inside id member))
            intro sid hlink
            rw [hlink]
            apply Meets.pure
            refine ⟨⟨done ++ [id], rest, ?_⟩, by dsimp only; omega⟩
            constructor
            · rw [so.split, List.append_assoc, List.singleton_append]
            · rw [List.length_append, List.length_singleton, so.length]
            · exact follows
            · exact Nat.lt_of_le_of_lt (Nat.succ_le_succ nd_le) (by decide)
            · exact same.trans so.alloc
            · have before := so.data
              rw [hnd] at before
              rw [Nat.zero_add, Nat.add_zero, ← List.range_eq_range', ← Nat.succ_mul] at data
              rw [hnd, flatMap_snoc before hbs]
              exact congrArg some data.symm
  · intro finished
    apply Meets.pure
    rintro tab ⟨⟩
    have last : rest = [] := List.eq_nil_of_length_eq_zero (by omega)
    have all : ids = done := by rw [so.split, last, List.append_nil]
    have before := so.data
    rw [hnd] at before
    rw [all, so.length, before]

theorem meets_cdfReadDir (valid : sat.Valid h.secSize) :
    Meets inBounds 0 (cdfReadDir info h sat) (fun r => ∀ dir, r = some dir → dir.Of info h sat) := by
  have failed : ∀ dir : Dir, none = some dir → dir.Of info h sat := fun dir none => absurd none (by simp)
  apply Meets.bind (meets_cdfCountChain valid _)
  intro count hcount
  cases count with
  | none => exact Meets.pure failed
  | some n =>
      obtain ⟨ids, all⟩ := hcount n rfl
      obtain rfl := all.length
      apply Meets.ite (fun _ => Meets.pure failed)
      intro _
      apply Meets.ite (fun _ => Meets.pure failed)
      intro _
      apply Meets.ite (fun _ => Meets.pure failed)
      intro _
      generalize halloc : (if ids.length * (h.secSize / CDF_DIRECTORY_SIZE) = 0 then 1
        else ids.length * (h.secSize / CDF_DIRECTORY_SIZE)) = alloc
      have room : ids.length * (h.secSize / CDF_DIRECTORY_SIZE) ≤ alloc := by
        rw [← halloc]
        split <;> omega
      apply Meets.bind (Meets.loop (meets_dirRound info h all.walkable room) _ _
        ⟨[], ids, rfl, rfl, all.walkable.follows, (show 0 < CDF_LOOP_LIMIT by decide),
          List.length_replicate, by simp⟩
        (Nat.lt_succ_of_le (Nat.sub_le _ _)))
      intro tab htab
      apply Meets.pure
      intro dir some
      obtain ⟨tab, rfl, rfl⟩ := Option.map_eq_some_iff.mp some
      exact ⟨ids, all.walkable.follows, rfl, htab tab rfl⟩

end ReadDir

/-! ## The sector allocation table -/

section ReadSat

variable (info : Info) (h : Header)

/-- What the first checks of `cdf_read_sat` leave. -/
structure Limited (h : Header) : Prop where
  sectors : ¬ ((nsatpersec h > 0 ∧ h.numSectorsInMasterSat > secLimit h / nsatpersec h) ∨
    masterUsed h > secLimit h)
  memory : ¬ satLen h > CDF_SAT_LIMIT / h.secSize

variable {h}

theorem secLimit_lt : secLimit h < 2 ^ 32 := by
  have le : secLimit h ≤ 2 ^ 32 - 1 := Nat.div_le_self _ _
  omega

theorem Limited.masterUsed_le (limited : Limited h) : masterUsed h ≤ satLen h := by
  have limit := @secLimit_lt h
  have sectors := limited.sectors
  have product : h.numSectorsInMasterSat * nsatpersec h ≤ secLimit h := by
    rcases Nat.eq_zero_or_pos (nsatpersec h) with zero | pos
    · rw [zero, Nat.mul_zero]
      exact Nat.zero_le _
    · have few : h.numSectorsInMasterSat ≤ secLimit h / nsatpersec h :=
        Nat.le_of_not_lt (fun many => sectors (.inl ⟨pos, many⟩))
      exact (Nat.le_div_iff_mul_le pos).mp few
  have used : masterUsed h ≤ secLimit h := Nat.le_of_not_lt (fun many => sectors (.inr many))
  rw [satLen, sz, Nat.mod_eq_of_lt (by omega)]
  exact Nat.le_add_left _ _

theorem Limited.memory_le (limited : Limited h) : satLen h * h.secSize ≤ CDF_MEMORY_LIMIT :=
  (Nat.le_div_iff_mul_le h.secSize_pos).mp (Nat.le_of_not_lt limited.memory)

/-- Where there is a master sector at all, its numbers are inside it. -/
theorem Limited.msa_inside (limited : Limited h) {j : Nat} (some : j < h.numSectorsInMasterSat) :
    4 * nsatpersec h + 4 ≤ h.secSize := by
  have limit := @secLimit_lt h
  have le := h.secSize_le
  rcases Nat.eq_zero_or_pos (h.secSize / 4) with tiny | pos
  · -- the count wrapped, and then no master sector is let through
    have wrapped : nsatpersec h = 2 ^ 64 - 1 := by rw [nsatpersec, tiny]; rfl
    have none : secLimit h / nsatpersec h = 0 := Nat.div_eq_of_lt (by omega)
    exact absurd (.inl ⟨by omega, by omega⟩) limited.sectors
  · have whole : nsatpersec h = h.secSize / 4 - 1 := by
      rw [nsatpersec, sz]
      omega
    omega

variable (limited : Limited h)

include limited

/-- A table that is being filled, with the number of sectors that it has. -/
structure Filled (h : Header) (tab : Bytes) (i : Nat) : Prop where
  alloc : tab.length = (zeroed (satLen h) h.secSize).length
  count : i ≤ satLen h

omit limited in
theorem Filled.room {tab : Bytes} {i : Nat} (f : Filled h tab i) (lt : i < satLen h) :
    h.secSize * i + h.secSize ≤ tab.length := by
  rw [f.alloc, ← Nat.mul_succ]
  calc h.secSize * (i + 1) ≤ h.secSize * satLen h := Nat.mul_le_mul_left _ lt
    _ = satLen h * h.secSize := Nat.mul_comm _ _
    _ ≤ _ := mul_le_zeroed_length _ _

theorem Filled.valid {tab : Bytes} {i : Nat} (f : Filled h tab i) : Sat.Valid ⟨tab, i⟩ h.secSize := by
  have scaled : i * h.secSize ≤ satLen h * h.secSize := Nat.mul_le_mul_right _ f.count
  constructor
  · rw [f.alloc]
    exact Nat.le_trans scaled (mul_le_zeroed_length _ _)
  · exact Nat.le_trans scaled limited.memory_le

omit limited in
theorem meets_readMaster (ids : List Int) (tab : Bytes) (i : Nat)
    (used : i + (ids.takeWhile (· != CDF_SECID_FREE)).length ≤ satLen h) (f : Filled h tab i) :
    Meets inBounds 0 (readMaster info h ids tab i)
      (fun r => ∀ p, r = some p → Filled h p.1 p.2) := by
  induction ids generalizing tab i with
  | nil =>
      apply Meets.pure
      rintro p ⟨⟩
      exact f
  | cons id ids ih =>
      apply Meets.ite
      · intro _
        apply Meets.pure
        rintro p ⟨⟩
        exact f
      · intro nonneg
        have taken : (id != CDF_SECID_FREE) = true := by
          rw [bne_iff_ne, CDF_SECID_FREE]
          omega
        rw [List.takeWhile_cons, taken, if_pos rfl, List.length_cons] at used
        apply Meets.bind (meets_cdfReadSector (f.room (by omega)))
        intro r hr
        cases r with
        | none => exact Meets.pure (fun p none => absurd none (by simp))
        | some tab' =>
            apply ih tab' (i + 1) (by omega)
            exact ⟨(hr tab' rfl).trans f.alloc, by omega⟩

/-- What a loop of `cdf_read_sat` ends with is a table with its sectors. -/
def Msa.Filled (h : Header) : Msa → Prop
  | .out tab i => Cdf.Filled h tab i
  | .bad => True
  | .next tab i => Cdf.Filled h tab i

omit limited in
theorem meets_msaEntry {msa : Bytes} (inside : 4 * nsatpersec h + 4 ≤ msa.length)
    (t : Nat × Bytes × Nat) (f : Filled h t.2.1 t.2.2) :
    Meets inBounds 0 (msaEntry info h (satLen h) msa t)
      (Sum.elim (fun t' => Filled h t'.2.1 t'.2.2 ∧ nsatpersec h - t'.1 < nsatpersec h - t.1)
        (Msa.Filled h)) := by
  apply Meets.ite
  · intro lt
    apply Meets.bind (meets_secidAt (by omega))
    intro sec _
    apply Meets.ite
    · intro _
      exact Meets.pure f
    intro _
    apply Meets.ite
    · intro _
      exact Meets.pure trivial
    intro more
    apply Meets.bind (meets_cdfReadSector (f.room (Nat.lt_of_not_le more)))
    intro r hr
    cases r with
    | none => exact Meets.pure trivial
    | some tab =>
        apply Meets.pure
        exact ⟨⟨(hr tab rfl).trans f.alloc, Nat.lt_of_not_le more⟩, by dsimp only; omega⟩
  · intro _
    exact Meets.pure f

theorem meets_msaSector (s : MsaState) (f : Filled h s.tab s.i) :
    Meets inBounds 0 (msaSector info h (satLen h) s)
      (Sum.elim (fun s' => Filled h s'.tab s'.i ∧ CDF_LOOP_LIMIT - s'.j < CDF_LOOP_LIMIT - s.j)
        (fun r => ∀ sat, r = some sat → sat.Valid h.secSize)) := by
  have filled {tab : Bytes} {i : Nat} (f : Filled h tab i) :
      ∀ sat, some (⟨tab, i⟩ : Sat) = some sat → sat.Valid h.secSize := by
    rintro sat ⟨⟩
    exact f.valid limited
  have failed : ∀ sat : Sat, none = some sat → sat.Valid h.secSize := fun sat none => absurd none (by simp)
  apply Meets.ite
  · intro some
    have inside := limited.msa_inside some
    apply Meets.ite (fun _ => Meets.pure (filled f))
    intro _
    apply Meets.ite (fun _ => Meets.pure failed)
    intro below
    have whole : (zeroed 1 h.secSize).length = h.secSize := by
      rw [zeroed_length, if_neg Nat.one_ne_zero, Nat.one_mul]
    apply Meets.bind (meets_cdfReadSector (by rw [whole]; omega))
    intro r hr
    cases r with
    | none => exact Meets.pure failed
    | some msa =>
        have length : msa.length = h.secSize := (hr msa rfl).trans whole
        rw [← length] at inside
        apply Meets.bind (Meets.loop (meets_msaEntry info inside) (nsatpersec h + 1) (0, s.tab, s.i) f
          (Nat.lt_succ_of_le (Nat.sub_le _ _)))
        intro inner hinner
        cases inner with
        | out tab i => exact Meets.pure (filled hinner)
        | bad => exact Meets.pure failed
        | next tab i =>
            apply Meets.bind (meets_secidAt inside)
            intro mid _
            exact Meets.pure ⟨hinner, by dsimp only; omega⟩
  · intro _
    exact Meets.pure (filled f)

omit limited in
theorem meets_cdfReadSat :
    Meets inBounds 0 (cdfReadSat info h) (fun r => ∀ sat, r = some sat → sat.Valid h.secSize) := by
  have failed : ∀ sat : Sat, none = some sat → sat.Valid h.secSize := fun sat none => absurd none (by simp)
  apply Meets.ite (fun _ => Meets.pure failed)
  intro sectors
  apply Meets.ite (fun _ => Meets.pure failed)
  intro memory
  have limited : Limited h := ⟨sectors, memory⟩
  apply Meets.ite (fun _ => Meets.pure failed)
  intro _
  apply Meets.bind (meets_readMaster info h.masterSat (zeroed (satLen h) h.secSize) 0
    (by rw [Nat.zero_add]; exact limited.masterUsed_le) ⟨rfl, Nat.zero_le _⟩)
  intro r hr
  cases r with
  | none => exact Meets.pure failed
  | some p =>
      apply Meets.ite (fun _ => Meets.pure failed)
      intro _
      exact Meets.loop (meets_msaSector info limited) _ _ (hr p rfl)
        (Nat.lt_succ_of_le (Nat.sub_le _ _))

end ReadSat

/-! ## All of it -/

/-- A run that comes to its end, with every access inside its allocation and a value that `post`
holds of unless it is `-1`. -/
def Walks {α : Type} (r : Run Event (Option α)) (post : α → Prop) : Prop :=
  (∀ a : Access, .access a ∈ r.events → a.off + a.len ≤ a.alloc) ∧
  ∃ v, r.value = some v ∧ ∀ x, v = some x → post x

theorem walks_of_meets {α : Type} {r : Run Event (Option α)} {post : α → Prop}
    (h : Meets inBounds 0 r (fun v => ∀ x, v = some x → post x)) : Walks r post :=
  ⟨fun a done => h.allowed (.access a) done, h.value_post⟩

/-- Whatever is in the file and in its tables, walking along the chains is safe and comes to an
end, and a stream that is read has the sectors of its chain. -/
theorem chains_walked (info : Info) (h : Header) :
    Walks (cdfReadSat info h) (fun sat => sat.Valid h.secSize) ∧
    ∀ sat : Sat, sat.Valid h.secSize →
      Walks (cdfReadSsat info h sat) (fun ssat => ssat.Of info h sat) ∧
      Walks (cdfReadDir info h sat) (fun dir => dir.Of info h sat) ∧
      ∀ sid : Int,
        Walks (cdfCountChain sat sid h.secSize)
          (fun n => ∃ ids, Follows sat sid ids ∧ ids.length = n) ∧
        (∀ len, Walks (cdfReadLongSectorChain info h sat sid len)
          (fun scn => scn.Of sat (sector h info) h.secSize sid ∧ scn.Allocated h)) ∧
        ∀ (sst : Stream) (len : Nat), sst.Allocated h →
          Walks (cdfReadShortSectorChain info h sat sst sid len)
            (fun scn => scn.Of sat (shortSector h sst) h.shortSecSize sid) := by
  refine ⟨walks_of_meets (meets_cdfReadSat info), ?_⟩
  intro sat valid
  refine ⟨walks_of_meets (meets_cdfReadSsat info h valid), walks_of_meets (meets_cdfReadDir info h valid), ?_⟩
  intro sid
  refine ⟨?_, ?_, ?_⟩
  · apply walks_of_meets
    apply (meets_cdfCountChain valid sid).mono (Nat.le_refl 0)
    intro r all n count
    obtain ⟨ids, counted⟩ := all n count
    exact ⟨ids, counted.walkable.follows, counted.length⟩
  · intro len
    exact walks_of_meets (meets_cdfReadLongSectorChain info h valid sid len)
  · intro sst len allocated
    exact walks_of_meets (meets_cdfReadShortSectorChain info h valid allocated sid len)

/-- Sectors of four bytes and short sectors of two. -/
def smallHeader : Header where
  secSizeP2 := 2
  shortSecSizeP2 := 1
  secidFirstDirectory := -2
  minSizeStandardStream := 0
  secidFirstSectorInShortSat := -2
  secidFirstSectorInMasterSat := -2
  numSectorsInMasterSat := 0
  masterSat := [-1]
  secSizeP2_le := by decide
  shortSecSizeP2_le := by decide

def twelveBytes : Info := ⟨some [0, 1, 2, 3, 4, 5, 6, 7, 8, 9, 10, 11], none, fun _ _ => true⟩

/-- Sector 1 is behind sector 0 and the last of its chain. -/
def twoLinks : Sat := ⟨[1, 0, 0, 0, 0xfe, 0xff, 0xff, 0xff], 2⟩

theorem chains_walked_twoLinks :
    (twoLinks.Valid smallHeader.secSize ∧ Stream.Allocated ⟨[4, 5, 6, 7], 1, 0, 4⟩ smallHeader) ∧
    Walks (cdfReadLongSectorChain twelveBytes smallHeader twoLinks 0 8)
      (fun scn => scn.Of twoLinks (sector smallHeader twelveBytes) smallHeader.secSize 0 ∧
        scn.Allocated smallHeader) ∧
    Walks (cdfReadShortSectorChain twelveBytes smallHeader twoLinks ⟨[4, 5, 6, 7], 1, 0, 4⟩ 0 4)
      (fun scn => scn.Of twoLinks (shortSector smallHeader ⟨[4, 5, 6, 7], 1, 0, 4⟩)
        smallHeader.shortSecSize 0) := by
  have valid : twoLinks.Valid smallHeader.secSize := ⟨by decide, by decide⟩
  have allocated : Stream.Allocated ⟨[4, 5, 6, 7], 1, 0, 4⟩ smallHeader := ⟨by decide, by decide⟩
  have walked := ((chains_walked twelveBytes smallHeader).2 twoLinks valid).2.2 0
  exact ⟨⟨valid, allocated⟩, walked.2.1 8, walked.2.2 _ 4 allocated⟩

example : ((cdfReadLongSectorChain twelveBytes smallHeader twoLinks 0 8).value.bind id).map Stream.tab =
    some [4, 5, 6, 7, 8, 9, 10, 11] := by
  decide +kernel

end Libmagic.Cdf
