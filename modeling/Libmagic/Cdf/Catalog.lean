import Libmagic.Cdf.Assertions

/-!
# `cdf.c`: the records of a catalog

`cdf_unpack_catalog` goes over the records twice: it counts them and then leaves the last one out, and
the entry it fills in is one behind the one it counts.
-/
namespace Libmagic.Cdf

open Softmagic
open Run (Policy Meets)

/-- What `cdf_unpack_catalog` touches. -/
inductive Touch where
  /-- Bytes of the stream. -/
  | stream (p len : Nat)
  /-- The `i`-th entry. -/
  | entry (i : Nat)
  /-- A unit of the name of the `i`-th entry. -/
  | unit (i k : Nat)
  deriving DecidableEq, Repr

/-- Inside a stream of `size` bytes and the first `count` entries. -/
def Touch.Inside (size count : Nat) : Touch → Prop
  | .stream p len => p + len ≤ size
  | .entry i => i < count
  | .unit i k => i < count ∧ k < 256

namespace Touched

def touch (ts : List Touch) : Run Touch Unit := ⟨ts, 0, some ()⟩

section Rounds

variable (host : Order) (tab : Bytes) (eb : Nat)

/-- A round of the loop that counts the records. -/
def recordRound (t : Nat × Nat) : Run Touch ((Nat × Nat) ⊕ Nat) := do
  touch (if t.1 + 2 > eb then [] else [.stream t.1 2])
  (Cdf.recordRound tab eb t).silent

/-- Fields of the record, each with its place and its size, up to the first that is not there. -/
def fields (s : CatalogState) : List (Nat × Nat) → List Touch
  | [] => []
  | (l, size) :: rest =>
      if s.b + l + size > eb then [.entry s.j]
      else [.stream (s.b + l) size, .entry s.j, .entry s.i] ++ fields s rest

/-- The name, and the terminator behind it. -/
def name (s : CatalogState) (namlen : Nat) : List Touch :=
  (List.range namlen).flatMap (fun k => [.stream (s.b + 16 + 2 * k) 2, .unit s.j k]) ++ [.unit s.j namlen]

/-- What a round of the loop over the records touches. -/
def entryTouches (nr : Nat) (s : CatalogState) : List Touch :=
  if s.i < nr then
    fields eb s [(0, 2), (4, 4), (8, 8)] ++
      match extractFields host tab eb s with
      | .error _ => []
      | .ok s =>
          let reclen := ((s.ce[s.j]?).map CatalogEntry.namlen).getD 0
          let namlen := min 255 (reclen - 14)
          .entry s.j ::
            if reclen = 0 then []
            else if reclen < 14 then [.entry s.j]
            else .entry s.j :: if s.b + 16 + 2 * namlen > eb then [.entry s.j] else name s namlen
  else []

def entryRound (nr : Nat) (s : CatalogState) : Run Touch (CatalogState ⊕ (List CatalogEntry × Nat)) := do
  touch (entryTouches host tab eb nr s)
  (Cdf.entryRound host tab eb nr s).silent

end Rounds

/-- `cdf_unpack_catalog`, with what it touches. Of the `nr` entries it has memory for, all but the last are
set to 0. -/
def cdfUnpackCatalog (host : Order) (h : Header) (sst : Stream) (malloc : Nat → Bool) :
    Run Touch (Option (List CatalogEntry × Nat)) := do
  let ss ← (cdfCheckStream sst h).silent
  let eb := sz (ss * sst.len)
  let nr ← Run.loop (recordRound sst.tab eb) (eb + 1) (0, 0)
  if nr = 0 then pure none
  else if !malloc nr then pure none
  else do
    touch ((List.range (nr - 1)).map .entry)
    let cat ← Run.loop (entryRound host sst.tab eb (nr - 1)) (eb + 1) ⟨0, 0, 0, List.replicate nr .zero⟩
    pure (some cat)

end Touched

/-- The number of records that are counted, which is that of the entries there is memory for. -/
def counted (sst : Stream) : Option Nat :=
  (Run.loop (recordRound sst.tab (streamSize sst)) (streamSize sst + 1) (0, 0)).value

/-! ## The value -/

theorem value_touch_bind {β : Type} (ts : List Touch) (rest : Unit → Run Touch β) :
    (Touched.touch ts >>= rest).value = (rest ()).value := rfl

theorem touched_counted (sst : Stream) :
    (Run.loop (Touched.recordRound sst.tab (streamSize sst)) (streamSize sst + 1) (0, 0)).value = counted sst := by
  apply Run.value_loop_congr
  intro t
  rfl

/-- The value is that of the run that tells nothing. -/
theorem touched_value (host : Order) (h : Header) (sst : Stream) (malloc : Nat → Bool) :
    (Touched.cdfUnpackCatalog host h sst malloc).value = (cdfUnpackCatalog host h sst malloc).value := by
  have records (tab : Bytes) (eb : Nat) (t : Nat × Nat) :
      (Touched.recordRound tab eb t).value = (recordRound tab eb t).value := rfl
  have entries (tab : Bytes) (eb nr : Nat) (s : CatalogState) :
      (Touched.entryRound host tab eb nr s).value = (entryRound host tab eb nr s).value := rfl
  unfold Touched.cdfUnpackCatalog cdfUnpackCatalog
  rw [Run.value_bind, Run.value_bind, Run.value_silent]
  congr 1
  funext ss
  dsimp only
  rw [Run.value_bind, Run.value_bind, Run.value_loop_congr (records sst.tab _)]
  congr 1
  funext nr
  split
  · rfl
  split
  · rfl
  rw [value_touch_bind, Run.value_bind, Run.value_bind, Run.value_loop_congr (entries sst.tab _ _)]
  rfl

/-! ## What is touched -/

section Safety

variable {P : Policy Touch} {d : Nat}

theorem touch_meets {ts : List Touch} (allowed : P.allows ts) : Meets P d (Touched.touch ts) (fun _ => True) :=
  ⟨allowed, Nat.zero_le d, (), rfl, trivial⟩

variable {host : Order} {tab : Bytes} {eb : Nat}

/-- A record that is counted is not empty and inside the stream. -/
theorem meets_recordRound {Q : Policy Event} (t : Nat × Nat) :
    Meets Q 0 (recordRound tab eb t) (Sum.elim (fun t' => True ∧ eb - t'.1 < eb - t.1) (fun _ => True)) := by
  apply Meets.ite (fun _ => Meets.pure trivial)
  intro inside
  apply Meets.ite (fun _ => Meets.pure trivial)
  intro some
  apply Meets.ite (fun _ => Meets.pure trivial)
  intro fits
  apply Meets.pure
  refine ⟨trivial, ?_⟩
  dsimp only
  omega

theorem meets_counting (count : Nat) :
    Meets (.each (Touch.Inside eb count)) 0 (Run.loop (Touched.recordRound tab eb) (eb + 1) (0, 0))
      (fun _ => True) := by
  have step (t : Nat × Nat) (_ : True) : Meets (.each (Touch.Inside eb count)) 0 (Touched.recordRound tab eb t)
      (Sum.elim (fun t' => True ∧ eb - t'.1 < eb - t.1) (fun _ => True)) := by
    refine Meets.bind (touch_meets ?_) ?_
    · intro touch mem
      split at mem
      next => cases mem
      next inside =>
        cases List.mem_singleton.mp mem
        exact Nat.le_of_not_lt inside
    · intro _ _
      exact Meets.silent (meets_recordRound (Q := passes) t)
  exact Meets.loop step (eb + 1) (0, 0) trivial (Nat.lt_succ_of_le (Nat.sub_le eb 0))

theorem of_bind_ok {ε α β : Type} {x : Except ε α} {f : α → Except ε β} {b : β} (ok : (x >>= f) = .ok b) :
    ∃ a, x = .ok a ∧ f a = .ok b := by
  cases x with
  | error e => cases ok
  | ok a => exact ⟨a, rfl, ok⟩

theorem extractCatalogField_ok {s s' : CatalogState} {t : Nat → Nat} {put : Nat → CatalogEntry → CatalogEntry}
    {l size : Nat} (ok : extractCatalogField host tab eb s t put l size = .ok s') :
    (s'.i = s.i ∧ s'.j = s.j ∧ s'.b = s.b) ∧ s.b + l + size ≤ eb := by
  unfold extractCatalogField at ok
  split at ok
  next => cases ok
  next fits =>
    cases ok
    exact ⟨⟨rfl, rfl, rfl⟩, Nat.le_of_not_lt fits⟩

/-- The fields leave the indices as they are, and the last of them is inside the stream. -/
theorem extractFields_ok {s s' : CatalogState} (ok : extractFields host tab eb s = .ok s') :
    (s'.i = s.i ∧ s'.j = s.j ∧ s'.b = s.b) ∧ s.b + 16 ≤ eb := by
  obtain ⟨s₁, first, ok⟩ := of_bind_ok ok
  obtain ⟨s₂, second, third⟩ := of_bind_ok ok
  have one := extractCatalogField_ok first
  have two := extractCatalogField_ok second
  have three := extractCatalogField_ok third
  omega

/-- A round goes on with the next entry or with the same one, always further on in the stream. -/
theorem meets_entryRound {Q : Policy Event} {nr : Nat} (s : CatalogState) (inv : s.j ≤ s.i ∧ s.i ≤ nr) :
    Meets Q 0 (entryRound host tab eb nr s)
      (Sum.elim (fun s' => (s'.j ≤ s'.i ∧ s'.i ≤ nr) ∧ eb - s'.b < eb - s.b) (fun cat => cat.2 ≤ nr)) := by
  have stopped : s.j ≤ nr := Nat.le_trans inv.1 inv.2
  refine Meets.ite (fun more => ?_) (fun _ => Meets.pure stopped)
  cases ok : extractFields host tab eb s with
  | error ce => exact Meets.pure stopped
  | ok s' =>
      have same := extractFields_ok ok
      have stopped' : s'.j ≤ nr := by rw [same.1.2.1]; exact stopped
      dsimp only
      refine Meets.ite (fun _ => Meets.pure stopped') (fun some => ?_)
      refine Meets.ite (fun short => ?_) (fun long => ?_)
      · apply Meets.pure
        dsimp only [Sum.elim_inl]
        omega
      · refine Meets.ite (fun _ => Meets.pure stopped') (fun _ => ?_)
        apply Meets.pure
        dsimp only [Sum.elim_inl]
        omega

theorem fields_inside {count : Nat} {s : CatalogState} (hi : s.i < count) (hj : s.j < count)
    (places : List (Nat × Nat)) : ∀ touch ∈ Touched.fields eb s places, touch.Inside eb count := by
  induction places with
  | nil =>
      intro touch mem
      cases mem
  | cons place places ih =>
      intro touch mem
      unfold Touched.fields at mem
      split at mem
      next =>
        cases List.mem_singleton.mp mem
        exact hj
      next fits =>
        rcases List.mem_append.mp mem with here | later
        · simp only [List.mem_cons, List.not_mem_nil, or_false] at here
          rcases here with rfl | rfl | rfl
          · exact Nat.le_of_not_lt fits
          · exact hj
          · exact hi
        · exact ih touch later

theorem name_inside {count namlen : Nat} {s : CatalogState} (hj : s.j < count) (short : namlen ≤ 255)
    (fits : s.b + 16 + 2 * namlen ≤ eb) : ∀ touch ∈ Touched.name s namlen, touch.Inside eb count := by
  intro touch mem
  rcases List.mem_append.mp mem with unit | last
  · obtain ⟨k, hk, mem⟩ := List.mem_flatMap.mp unit
    have hk := List.mem_range.mp hk
    simp only [List.mem_cons, List.not_mem_nil, or_false] at mem
    rcases mem with rfl | rfl
    · change s.b + 16 + 2 * k + 2 ≤ eb
      omega
    · exact ⟨hj, by omega⟩
  · cases List.mem_singleton.mp last
    exact ⟨hj, by omega⟩

/-- Both indices are below the number of the entries, and what is not in the stream is not read. -/
theorem entryTouches_inside {count nr : Nat} (le : nr ≤ count) (s : CatalogState) (behind : s.j ≤ s.i) :
    ∀ touch ∈ Touched.entryTouches host tab eb nr s, touch.Inside eb count := by
  intro touch mem
  unfold Touched.entryTouches at mem
  split at mem
  next more =>
    have hi : s.i < count := Nat.lt_of_lt_of_le more le
    have hj : s.j < count := Nat.lt_of_le_of_lt behind hi
    rcases List.mem_append.mp mem with field | mem
    · exact fields_inside hi hj _ touch field
    cases ok : extractFields host tab eb s with
    | error ce => rw [ok] at mem; cases mem
    | ok s' =>
        have same := extractFields_ok ok
        have hj' : s'.j < count := by rw [same.1.2.1]; exact hj
        rw [ok] at mem
        dsimp only at mem
        rcases List.mem_cons.mp mem with rfl | mem
        · exact hj'
        split at mem
        next => cases mem
        next =>
          split at mem
          next =>
            cases List.mem_singleton.mp mem
            exact hj'
          next =>
            rcases List.mem_cons.mp mem with rfl | mem
            · exact hj'
            split at mem
            next =>
              cases List.mem_singleton.mp mem
              exact hj'
            next fits => exact name_inside hj' (Nat.min_le_left _ _) (Nat.le_of_not_lt fits) touch mem
  next => cases mem

theorem meets_entries {count nr : Nat} (le : nr ≤ count) (ce : List CatalogEntry) :
    Meets (.each (Touch.Inside eb count)) 0
      (Run.loop (Touched.entryRound host tab eb nr) (eb + 1) ⟨0, 0, 0, ce⟩) (fun cat => cat.2 ≤ nr) := by
  have step (s : CatalogState) (inv : s.j ≤ s.i ∧ s.i ≤ nr) :
      Meets (.each (Touch.Inside eb count)) 0 (Touched.entryRound host tab eb nr s)
        (Sum.elim (fun s' => (s'.j ≤ s'.i ∧ s'.i ≤ nr) ∧ eb - s'.b < eb - s.b) (fun cat => cat.2 ≤ nr)) := by
    apply Meets.bind (touch_meets (entryTouches_inside le s inv.1))
    intro _ _
    exact Meets.silent (meets_entryRound (Q := passes) s inv)
  exact Meets.loop step (eb + 1) ⟨0, 0, 0, ce⟩ ⟨Nat.le_refl 0, Nat.zero_le nr⟩
    (Nat.lt_succ_of_le (Nat.sub_le eb 0))

theorem meets_cdfUnpackCatalog (host : Order) (h : Header) (sst : Stream) (malloc : Nat → Bool) {count : Nat}
    (num : counted sst = some count) :
    Meets (.each (Touch.Inside (streamSize sst) count)) 0 (Touched.cdfUnpackCatalog host h sst malloc)
      (fun r => ∀ cat, r = some cat → cat.2 < count) := by
  rw [← touched_counted] at num
  have checked : Meets (.each (Touch.Inside (streamSize sst) count)) 0 (cdfCheckStream sst h).silent
      (· = sst.ss) := ⟨Policy.nil _, Nat.le_refl 0, sst.ss, rfl, rfl⟩
  apply Meets.bind checked
  rintro ss rfl
  apply Meets.bind ((meets_counting count).at_value num)
  rintro nr rfl
  refine Meets.ite (fun _ => Meets.pure ?_) (fun some => ?_)
  · rintro cat ⟨⟩
  refine Meets.ite (fun _ => Meets.pure ?_) (fun _ => ?_)
  · rintro cat ⟨⟩
  have fewer : nr - 1 < nr := Nat.sub_lt (Nat.pos_of_ne_zero some) Nat.one_pos
  refine Meets.bind (touch_meets ?_) ?_
  · intro touch mem
    obtain ⟨i, hi, rfl⟩ := List.mem_map.mp mem
    exact Nat.lt_trans (List.mem_range.mp hi) fewer
  intro _ _
  apply Meets.bind (meets_entries (Nat.le_of_lt fewer) _)
  intro cat le
  apply Meets.pure
  rintro cat ⟨⟩
  exact Nat.lt_of_le_of_lt le fewer

end Safety

/-! ## The records -/

/-- A record: its length, its number, its time and its name, which is some of its units. -/
structure Record where
  bytes : Bytes
  units : Nat
  length_eq : word ⟨0, 2⟩ bytes = bytes.length
  length_ge : 14 ≤ bytes.length
  inside : units = 0 ∨ 16 + 2 * units ≤ bytes.length

def Record.num (r : Record) : Nat := word ⟨4, 4⟩ r.bytes

def Record.timestamp (r : Record) : Nat := word ⟨8, 8⟩ r.bytes

def Record.name (r : Record) : List Nat := (List.range r.units).map (fun k => word ⟨16 + 2 * k, 2⟩ r.bytes)

/-- The records, and a length of 0 behind them. -/
def catalogTab (records : List Record) (tail : Bytes) : Bytes := records.flatMap Record.bytes ++ 0 :: 0 :: tail

/-- The catalog has an entry for every record, with what the record has. -/
def Unpacked (records : List Record) (cat : List CatalogEntry × Nat) : Prop :=
  cat.2 = records.length ∧
  ∀ (k : Nat) (r : Record), records[k]? = some r →
    ∃ e : CatalogEntry, cat.1[k]? = some e ∧ e.num = r.num ∧ e.timestamp = r.timestamp ∧ e.name.take e.namlen = r.name

theorem word_behind (before bs : Bytes) (size : Nat) : word ⟨before.length, size⟩ (before ++ bs) = word ⟨0, size⟩ bs := by
  simp [word, Field.get]

theorem word_first {size : Nat} (bs after : Bytes) (fits : size ≤ bs.length) :
    word ⟨0, size⟩ (bs ++ after) = word ⟨0, size⟩ bs := by
  simp [word, Field.get, List.take_append_of_le_length fits]

/-- Every record is counted. -/
theorem counting (tail : Bytes) (records : List Record) : ∀ (before : Bytes) (m k : Nat),
    (catalogTab records tail).length < k →
      (Run.loop (recordRound (before ++ catalogTab records tail) (before ++ catalogTab records tail).length) k
        (before.length, m)).value = some (m + records.length) := by
  induction records with
  | nil =>
      intro before m k enough
      obtain ⟨k, rfl⟩ := Nat.exists_eq_add_one_of_ne_zero (Nat.ne_zero_of_lt enough)
      have zero : word ⟨before.length, 2⟩ (before ++ catalogTab [] tail) = 0 := by
        rw [word_behind]
        rfl
      have stopped (eb : Nat) :
          (recordRound (before ++ catalogTab [] tail) eb (before.length, m)).value = some (.inr m) := by
        unfold recordRound
        dsimp only
        rw [zero]
        split
        · rfl
        · rfl
      rw [Run.value_loop_succ, stopped]
      rfl
  | cons r records ih =>
      intro before m k enough
      obtain ⟨k, rfl⟩ := Nat.exists_eq_add_one_of_ne_zero (Nat.ne_zero_of_lt enough)
      have split : catalogTab (r :: records) tail = r.bytes ++ catalogTab records tail := by
        simp [catalogTab]
      have long := r.length_ge
      have length : word ⟨before.length, 2⟩ (before ++ (r.bytes ++ catalogTab records tail)) = r.bytes.length := by
        rw [word_behind, word_first _ _ (Nat.le_trans (by decide) long), r.length_eq]
      rw [split] at enough ⊢
      rw [Run.value_loop_succ]
      have step : (recordRound (before ++ (r.bytes ++ catalogTab records tail))
          (before ++ (r.bytes ++ catalogTab records tail)).length (before.length, m)).value =
          some (.inl ((before ++ r.bytes).length, m + 1)) := by
        have total : (before ++ (r.bytes ++ catalogTab records tail)).length =
            before.length + (r.bytes.length + (catalogTab records tail).length) := by
          rw [List.length_append, List.length_append]
        unfold recordRound
        dsimp only
        rw [total, length, if_neg, if_neg, if_neg, List.length_append]
        · rfl
        all_goals omega
      rw [step]
      have rest := ih (before ++ r.bytes) (m + 1) k (by rw [List.length_append] at enough; omega)
      rw [List.append_assoc] at rest
      rw [List.length_cons, Nat.add_comm records.length, ← Nat.add_assoc]
      exact rest

theorem counted_records {sst : Stream} {records : List Record} {tail : Bytes}
    (tab : sst.tab = catalogTab records tail) (size : streamSize sst = sst.tab.length) :
    counted sst = some records.length := by
  rw [counted, size, tab]
  have all := counting tail records [] 0 ((catalogTab records tail).length + 1) (Nat.lt_succ_self _)
  rw [Nat.zero_add] at all
  exact all

/-- Of one record and more, there is never an entry for each; but `cdf_unpack_catalog` comes to its end on
every stream, reads inside it and writes inside the entries. -/
theorem catalog_short (host : Order) (h : Header) (sst : Stream) (malloc : Nat → Bool) :
    (∀ records tail, records ≠ [] → sst.tab = catalogTab records tail → streamSize sst = sst.tab.length →
      ¬ ∃ cat, (cdfUnpackCatalog host h sst malloc).value = some (some cat) ∧ Unpacked records cat) ∧
    ∃ count, counted sst = some count ∧
      (Touched.cdfUnpackCatalog host h sst malloc).value = (cdfUnpackCatalog host h sst malloc).value ∧
      (cdfUnpackCatalog host h sst malloc).value.isSome ∧
      ∀ touch ∈ (Touched.cdfUnpackCatalog host h sst malloc).events, touch.Inside (streamSize sst) count := by
  have same := touched_value host h sst malloc
  obtain ⟨count, num, _⟩ := (@meets_counting sst.tab (streamSize sst) 0).value_post
  rw [touched_counted] at num
  have run := meets_cdfUnpackCatalog host h sst malloc num
  obtain ⟨result, value, fewer⟩ := run.value_post
  rw [same] at value
  refine ⟨?_, count, num, same, by rw [value]; rfl, run.allowed⟩
  rintro records tail some tab size ⟨cat, unpacked, each⟩
  have all : count = records.length := Option.some.inj (num.symm.trans (counted_records tab size))
  rw [value] at unpacked
  have less := fewer cat (Option.some.inj unpacked)
  rw [all, each.1] at less
  exact Nat.lt_irrefl _ less

/-- A record with nothing in it but its length. -/
def bareRecord : Record where
  bytes := 14 :: List.replicate 13 0
  units := 0
  length_eq := by decide
  length_ge := by decide
  inside := .inl rfl

def bareStream : Stream := ⟨catalogTab [bareRecord, bareRecord] [0, 0], 8, 32, 4⟩

theorem catalog_short_bare :
    ¬ ∃ cat, (cdfUnpackCatalog .little tinyHeader bareStream (fun _ => true)).value = some (some cat) ∧
      Unpacked [bareRecord, bareRecord] cat :=
  (catalog_short .little tinyHeader bareStream (fun _ => true)).1 [bareRecord, bareRecord] [0, 0] (by decide) rfl
    (by decide)

/-- Two records, and no entry. -/
theorem catalog_of_two :
    ∃ cat, (cdfUnpackCatalog .little tinyHeader bareStream (fun _ => true)).value = some (some cat) ∧ cat.2 = 0 ∧
      ¬ Unpacked [bareRecord, bareRecord] cat := by
  refine ⟨_, rfl, ?_, ?_⟩
  · decide +kernel
  · intro unpacked
    exact absurd unpacked.1 (by decide +kernel)

end Libmagic.Cdf
