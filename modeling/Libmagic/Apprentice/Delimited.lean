import Libmagic.Apprentice.Database

/-!
# The slices of a map that `check_buffer` accepts

The counters are untrusted and their sum is a `uint32_t`. Everything `check_buffer` asks
for is stated once (`Accepted`), and the slices follow from that.
-/
namespace Libmagic.Apprentice

open Softmagic (Bytes)

/-- What the checks come to, with the header read in the order `q`. -/
structure Accepted (q : Order) (p : Bytes) : Prop where
  whole : p.length = FILE_MAGICSIZE * (p.length / FILE_MAGICSIZE)
  two_le : 2 ≤ p.length / FILE_MAGICSIZE
  lt : p.length / FILE_MAGICSIZE < 2 ^ 32
  magic : word q p 0 = MAGICNO
  version : word q p 1 = VERSIONNO
  nmagic0_le : word q p 2 ≤ p.length / FILE_MAGICSIZE
  nmagic1_le : word q p 3 ≤ p.length / FILE_MAGICSIZE
  sum : p.length / FILE_MAGICSIZE = (word q p 2 + word q p 3 + 1) % 2 ^ 32

/-- The map that the counters, read in the order `q`, lay out over `p`. -/
def layout (q : Order) (p : Bytes) : Map := ⟨p, 1, word q p 2, 1 + word q p 2, word q p 3⟩

theorem takeSet_le {entries : Nat} {sets : Sets} {i nmagic : Nat} (le : nmagic ≤ entries) :
    takeSet entries sets i nmagic = .ok ⟨sets.next + nmagic, (sets.nentries + nmagic) % 2 ^ 32⟩ :=
  if_neg (Nat.not_lt.mpr le)

theorem takeSet_gt {entries : Nat} {sets : Sets} {i nmagic : Nat} (gt : ¬ nmagic ≤ entries) :
    takeSet entries sets i nmagic = .error (.nmagicTooLarge i) :=
  if_pos (Nat.not_le.mp gt)

theorem checkSets_ok_iff {entries : Nat} {get : Nat → Nat} {p : Bytes} {map : Map} :
    checkSets entries get p = .ok map ↔
      get 1 = VERSIONNO ∧ get 2 ≤ entries ∧ get 3 ≤ entries ∧
        entries = (get 2 + get 3 + 1) % 2 ^ 32 ∧ map = ⟨p, 1, get 2, 1 + get 2, get 3⟩ := by
  have sum : (((0 + get 2) % 2 ^ 32 + get 3) % 2 ^ 32 + 1) % 2 ^ 32 =
      (get 2 + get 3 + 1) % 2 ^ 32 := by omega
  have refused : ∀ {e : LoadError}, (.error e : Except LoadError Map) ≠ .ok map := by simp
  unfold checkSets
  by_cases version : get 1 = VERSIONNO
  · rw [if_neg (not_not.mpr version)]
    by_cases first : get 2 ≤ entries
    · by_cases second : get 3 ≤ entries
      · simp only [takeSet_le first, takeSet_le second, bind, Except.bind, sum]
        by_cases consistent : entries = (get 2 + get 3 + 1) % 2 ^ 32
        · rw [if_neg (not_not.mpr consistent), Except.ok.injEq, eq_comm]
          exact ⟨fun h => ⟨version, first, second, consistent, h⟩, fun h => h.2.2.2.2⟩
        · rw [if_pos consistent]
          exact ⟨fun h => absurd h refused, fun h => absurd h.2.2.2.1 consistent⟩
      · simp only [takeSet_le first, takeSet_gt second, bind, Except.bind]
        exact ⟨fun h => absurd h refused, fun h => absurd h.2.2.1 second⟩
    · simp only [takeSet_gt first, bind, Except.bind]
      exact ⟨fun h => absurd h refused, fun h => absurd h.2.1 first⟩
  · rw [if_pos version]
    exact ⟨fun h => absurd h refused, fun h => absurd h.1 version⟩

theorem word_flip {o : Order} {p : Bytes} {i : Nat} (inside : 4 * i + 4 ≤ p.length) :
    Order.swap 4 (word o p i) = word o.flip p i := by
  have size : ((⟨4 * i, 4⟩ : Field).get p).length = 4 := Field.get_length inside
  exact Order.swap_load o size

theorem size_checks {len : Nat} :
    (¬ len / FILE_MAGICSIZE % 2 ^ 32 < MAGIC_SETS ∧
        len / FILE_MAGICSIZE % 2 ^ 32 * FILE_MAGICSIZE % 2 ^ 64 = len) ↔
      len = FILE_MAGICSIZE * (len / FILE_MAGICSIZE) ∧ 2 ≤ len / FILE_MAGICSIZE ∧
        len / FILE_MAGICSIZE < 2 ^ 32 := by
  unfold FILE_MAGICSIZE MAGIC_SETS
  have split := Nat.div_add_mod len 432
  have rest : len % 432 < 432 := Nat.mod_lt len (by decide)
  generalize len / 432 = q at split
  generalize len % 432 = r at split rest
  have bound : q % 4294967296 < 4294967296 := Nat.mod_lt q (by decide)
  -- the product is a `size_t`, which the cast count cannot fill
  have product : q % 4294967296 * 432 % 18446744073709551616 = q % 4294967296 * 432 :=
    Nat.mod_eq_of_lt (by omega)
  norm_num only
  rw [product]
  constructor
  · rintro ⟨enough, same⟩
    refine ⟨?_, ?_, ?_⟩ <;> omega
  · rintro ⟨whole, two_le, lt⟩
    rw [Nat.mod_eq_of_lt lt]
    omega

/-- The magic number tells the two orders apart. -/
theorem magic_order {o : Order} {p : Bytes} (inside : 4 ≤ p.length)
    (flipped : word o.flip p 0 = MAGICNO) : word o p 0 ≠ MAGICNO := by
  intro straight
  rw [← word_flip (by omega), straight] at flipped
  exact absurd flipped (by decide)

theorem Accepted.room {q : Order} {p : Bytes} (accepted : Accepted q p) : 864 ≤ p.length := by
  have whole := accepted.whole
  have two_le := accepted.two_le
  unfold FILE_MAGICSIZE at whole two_le
  omega

/-- With the size in order, the rest of the checks. -/
theorem checkSets_accepted {q : Order} {p : Bytes} {map : Map}
    (whole : p.length = FILE_MAGICSIZE * (p.length / FILE_MAGICSIZE))
    (two_le : 2 ≤ p.length / FILE_MAGICSIZE) (lt : p.length / FILE_MAGICSIZE < 2 ^ 32)
    (magic : word q p 0 = MAGICNO) :
    checkSets (p.length / FILE_MAGICSIZE) (word q p) p = .ok map ↔
      Accepted q p ∧ map = layout q p := by
  rw [checkSets_ok_iff]
  constructor
  · rintro ⟨version, first, second, sum, rfl⟩
    exact ⟨⟨whole, two_le, lt, magic, version, first, second, sum⟩, rfl⟩
  · rintro ⟨accepted, rfl⟩
    exact ⟨accepted.version, accepted.nmagic0_le, accepted.nmagic1_le, accepted.sum, rfl⟩

theorem checkSets_congr {entries : Nat} {get get' : Nat → Nat} (p : Bytes)
    (same : ∀ i, i < 4 → get i = get' i) : checkSets entries get p = checkSets entries get' p := by
  unfold checkSets
  rw [same 1 (by decide), same 2 (by decide), same 3 (by decide)]

theorem map_ok_iff {x : Except LoadError Map} {f : Map → Map} {map : Map} :
    x.map f = .ok map ↔ ∃ map', x = .ok map' ∧ map = f map' := by
  cases x with
  | error e => simp [Except.map]
  | ok map' => simp [Except.map, eq_comm]

theorem checkBuffer_ok_iff {o : Order} {p : Bytes} {map : Map} :
    checkBuffer o p = .ok map ↔
      (Accepted o p ∧ map = layout o p) ∨
        (Accepted o.flip p ∧ map = swapSets o (layout o.flip p)) := by
  have refused : ∀ {e : LoadError}, (.error e : Except LoadError Map) ≠ .ok map := by simp
  unfold checkBuffer
  by_cases size : ¬ p.length / FILE_MAGICSIZE % 2 ^ 32 < MAGIC_SETS ∧
      p.length / FILE_MAGICSIZE % 2 ^ 32 * FILE_MAGICSIZE % 2 ^ 64 = p.length
  · obtain ⟨whole, two_le, lt⟩ := size_checks.mp size
    have room : 864 ≤ p.length := by
      unfold FILE_MAGICSIZE at whole two_le
      omega
    dsimp only
    rw [if_neg size.1, if_neg (not_not.mpr size.2), word_flip (by omega), Nat.mod_eq_of_lt lt]
    by_cases straight : word o p 0 = MAGICNO
    · rw [if_pos straight, checkSets_accepted whole two_le lt straight]
      exact ⟨.inl, fun h => h.elim id (fun h =>
        absurd straight (magic_order (by omega) h.1.magic))⟩
    · rw [if_neg straight]
      by_cases flipped : word o.flip p 0 = MAGICNO
      · rw [if_pos flipped, checkSets_congr p (fun i hi => word_flip (by omega)), map_ok_iff]
        constructor
        · rintro ⟨map', ok, rfl⟩
          obtain ⟨accepted, rfl⟩ := (checkSets_accepted whole two_le lt flipped).mp ok
          exact .inr ⟨accepted, rfl⟩
        · rintro (⟨accepted, -⟩ | ⟨accepted, rfl⟩)
          · exact absurd accepted.magic straight
          · exact ⟨_, (checkSets_accepted whole two_le lt flipped).mpr ⟨accepted, rfl⟩, rfl⟩
      · rw [if_neg flipped]
        exact ⟨fun h => absurd h refused,
          fun h => h.elim (fun h => absurd h.1.magic straight) (fun h => absurd h.1.magic flipped)⟩
  · have small : ∀ q, ¬ Accepted q p :=
      fun q accepted => size (size_checks.mpr ⟨accepted.whole, accepted.two_le, accepted.lt⟩)
    constructor
    · intro ok
      dsimp only at ok
      split at ok
      · exact absurd ok refused
      · rename_i enough
        rw [if_pos (fun same => size ⟨enough, same⟩)] at ok
        exact absurd ok refused
    · rintro (⟨accepted, -⟩ | ⟨accepted, -⟩)
      · exact absurd accepted (small o)
      · exact absurd accepted (small o.flip)

/-! ## The slices -/

/-- The entries of set 0, by their numbers in the map. -/
def Map.InSet0 (map : Map) (j : Nat) : Prop := map.magic0 ≤ j ∧ j < map.magic0 + map.nmagic0

def Map.InSet1 (map : Map) (j : Nat) : Prop := map.magic1 ≤ j ∧ j < map.magic1 + map.nmagic1

/-- Entry `j` lies in the map. -/
def Map.Holds (map : Map) (j : Nat) : Prop := FILE_MAGICSIZE * (j + 1) ≤ map.p.length

/-- The two slices are disjoint and consecutive, they lie in the map, and they are all of it
but the header. -/
structure Map.WellDelimited (map : Map) : Prop where
  whole : FILE_MAGICSIZE ∣ map.p.length
  consecutive : map.magic1 = map.magic0 + map.nmagic0
  disjoint : ∀ j, ¬ (map.InSet0 j ∧ map.InSet1 j)
  inside : ∀ j, map.InSet0 j ∨ map.InSet1 j → map.Holds j
  cover : ∀ j, map.InSet0 j ∨ map.InSet1 j ↔ 0 < j ∧ map.Holds j

theorem byteswap_length (o : Order) (p : Bytes) (magic nmagic : Nat) :
    (byteswap o p magic nmagic).length = p.length := by
  induction nmagic generalizing p magic with
  | zero => rfl
  | succ nmagic ih => rw [byteswap, ih, Field.set_length]

theorem swapSets_wellDelimited {o : Order} {map : Map} :
    (swapSets o map).WellDelimited ↔ map.WellDelimited := by
  have length : (swapSets o map).p.length = map.p.length := by
    rw [swapSets, byteswap_length, byteswap_length]
  constructor
  · rintro ⟨whole, consecutive, disjoint, inside, cover⟩
    unfold Map.Holds at inside cover
    rw [length] at whole inside cover
    exact ⟨whole, consecutive, disjoint, inside, cover⟩
  · rintro ⟨whole, consecutive, disjoint, inside, cover⟩
    unfold Map.Holds at inside cover
    rw [← length] at whole inside cover
    exact ⟨whole, consecutive, disjoint, inside, cover⟩

/-- The slices are right unless the sum of the counters wraps, which takes the two
largest counters and as many entries. -/
theorem layout_wellDelimited_iff {q : Order} {p : Bytes} (accepted : Accepted q p) :
    (layout q p).WellDelimited ↔ ¬ (word q p 2 = 2 ^ 32 - 1 ∧ word q p 3 = 2 ^ 32 - 1) := by
  obtain ⟨whole, two_le, lt, -, -, first, second, sum⟩ := accepted
  have holds : ∀ j, (layout q p).Holds j ↔ j < p.length / FILE_MAGICSIZE := by
    intro j
    show FILE_MAGICSIZE * (j + 1) ≤ p.length ↔ _
    unfold FILE_MAGICSIZE at whole ⊢
    omega
  generalize p.length / FILE_MAGICSIZE = entries at whole lt first second sum holds
  constructor
  · rintro ⟨-, -, -, inside, -⟩ ⟨max0, max1⟩
    -- the last entry of set 1 is one too far
    have last := (holds _).mp (inside (1 + word q p 2 + (word q p 3 - 1)) (.inr (by
      simp only [Map.InSet1, layout]
      omega)))
    omega
  · intro fits
    have total : word q p 2 + word q p 3 + 1 = entries := by omega
    refine ⟨⟨entries, whole⟩, rfl, ?_, ?_, ?_⟩
    · intro j
      simp only [Map.InSet0, Map.InSet1, layout]
      omega
    · intro j
      rw [holds]
      simp only [Map.InSet0, Map.InSet1, layout]
      omega
    · intro j
      rw [holds]
      simp only [Map.InSet0, Map.InSet1, layout]
      omega

/-- The one kind of map whose counters wrap: `2 ^ 32 - 1` entries, and both counters
`2 ^ 32 - 1`, in a header that is good otherwise. -/
def Wraps (q : Order) (p : Bytes) : Prop :=
  p.length = FILE_MAGICSIZE * (2 ^ 32 - 1) ∧ word q p 0 = MAGICNO ∧ word q p 1 = VERSIONNO ∧
    word q p 2 = 2 ^ 32 - 1 ∧ word q p 3 = 2 ^ 32 - 1

theorem wraps_iff {q : Order} {p : Bytes} :
    Wraps q p ↔ Accepted q p ∧ word q p 2 = 2 ^ 32 - 1 ∧ word q p 3 = 2 ^ 32 - 1 := by
  constructor
  · rintro ⟨length, magic, version, max0, max1⟩
    have entries : p.length / FILE_MAGICSIZE = 2 ^ 32 - 1 := by
      rw [length]
      exact Nat.mul_div_cancel_left _ (by decide)
    refine ⟨⟨?_, ?_, ?_, magic, version, ?_, ?_, ?_⟩, max0, max1⟩
    · rw [entries, length]
    all_goals rw [entries]
    · decide
    · decide
    · rw [max0]
    · rw [max1]
    · rw [max0, max1]
      decide
  · rintro ⟨accepted, max0, max1⟩
    have most := accepted.nmagic0_le
    have lt := accepted.lt
    have entries : p.length / FILE_MAGICSIZE = 2 ^ 32 - 1 := by omega
    have whole := accepted.whole
    rw [entries] at whole
    exact ⟨whole, accepted.magic, accepted.version, max0, max1⟩

/-- Every map that `check_buffer` accepts is well delimited, but for the maps whose counters
wrap. -/
theorem checkBuffer_delimited_iff (o : Order) (p : Bytes) :
    (∀ map, checkBuffer o p = .ok map → map.WellDelimited) ↔ ¬ Wraps o p ∧ ¬ Wraps o.flip p := by
  constructor
  · intro delimited
    constructor
    · intro wraps
      obtain ⟨accepted, max⟩ := wraps_iff.mp wraps
      exact (layout_wellDelimited_iff accepted).mp
        (delimited _ (checkBuffer_ok_iff.mpr (.inl ⟨accepted, rfl⟩))) max
    · intro wraps
      obtain ⟨accepted, max⟩ := wraps_iff.mp wraps
      exact (layout_wellDelimited_iff accepted).mp (swapSets_wellDelimited.mp
        (delimited _ (checkBuffer_ok_iff.mpr (.inr ⟨accepted, rfl⟩)))) max
  · rintro ⟨straight, flipped⟩ map ok
    rcases checkBuffer_ok_iff.mp ok with ⟨accepted, rfl⟩ | ⟨accepted, rfl⟩
    · exact (layout_wellDelimited_iff accepted).mpr
        (fun max => straight (wraps_iff.mpr ⟨accepted, max⟩))
    · exact swapSets_wellDelimited.mpr ((layout_wellDelimited_iff accepted).mpr
        (fun max => flipped (wraps_iff.mpr ⟨accepted, max⟩)))

/-! ## The header that is written -/

section Header

variable (o : Order) {nmagic0 nmagic1 : Nat} (rest : Bytes)

@[simp] theorem header_length (nmagic0 nmagic1 : Nat) :
    (header o nmagic0 nmagic1).length = FILE_MAGICSIZE := by
  simp only [header, List.length_append, Order.store_length, List.length_replicate]
  rfl

/-- A word behind the words before it. -/
theorem word_store {i x : Nat} (start rest : Bytes) (off : start.length = 4 * i) (lt : x < 2 ^ 32) :
    word o (start ++ (o.store 4 x ++ rest)) i = x := by
  rw [word, Field.get_append off (Order.store_length o 4 x), Order.load_store]
  exact Nat.mod_eq_of_lt lt

theorem header_magic : word o (header o nmagic0 nmagic1 ++ rest) 0 = MAGICNO := by
  simp only [header, List.append_assoc]
  exact word_store o [] _ rfl (by decide)

theorem header_version : word o (header o nmagic0 nmagic1 ++ rest) 1 = VERSIONNO := by
  simp only [header, List.append_assoc]
  exact word_store o _ _ (Order.store_length o 4 _) (by decide)

theorem header_nmagic0 (lt : nmagic0 < 2 ^ 32) :
    word o (header o nmagic0 nmagic1 ++ rest) 2 = nmagic0 := by
  simp only [header, List.append_assoc]
  rw [← List.append_assoc (o.store 4 MAGICNO)]
  exact word_store o _ _ (by simp) lt

theorem header_nmagic1 (lt : nmagic1 < 2 ^ 32) :
    word o (header o nmagic0 nmagic1 ++ rest) 3 = nmagic1 := by
  rw [header, List.append_assoc, List.append_assoc]
  exact word_store o _ _ (by simp) lt

end Header

/-- Two counters of `2 ^ 32 - 1` over as many entries are accepted, and set 1 ends far
behind the map. -/
theorem checkBuffer_delimited_fails :
    ∃ map, checkBuffer .little (header .little (2 ^ 32 - 1) (2 ^ 32 - 1) ++
        List.replicate (FILE_MAGICSIZE * (2 ^ 32 - 2)) 0) = .ok map ∧ ¬ map.WellDelimited := by
  have wraps : Wraps .little (header .little (2 ^ 32 - 1) (2 ^ 32 - 1) ++
      List.replicate (FILE_MAGICSIZE * (2 ^ 32 - 2)) 0) := by
    refine ⟨?_, header_magic _ _, header_version _ _, header_nmagic0 _ _ (by decide),
      header_nmagic1 _ _ (by decide)⟩
    rw [List.length_append, header_length, List.length_replicate]
    rfl
  obtain ⟨accepted, max⟩ := wraps_iff.mp wraps
  exact ⟨_, checkBuffer_ok_iff.mpr (.inl ⟨accepted, rfl⟩),
    fun delimited => (layout_wellDelimited_iff accepted).mp delimited max⟩

/-! ## Compile, then load -/

theorem image_length (set : List Entry) : (image set).length = FILE_MAGICSIZE * set.length := by
  induction set with
  | nil => rfl
  | cons m set ih =>
      have step : image (m :: set) = m.bytes ++ image set := rfl
      rw [step, List.length_append, m.size, ih, List.length_cons, Nat.mul_succ, Nat.add_comm]

/-- Entry `j` of an array that follows a whole number of entries. -/
theorem slot_image {start rest : Bytes} {k : Nat} (off : start.length = FILE_MAGICSIZE * k)
    (set : List Entry) {j : Nat} (lt : j < set.length) :
    (slot (k + j)).get (start ++ (image set ++ rest)) = (set[j]).bytes := by
  have split : image set = image (set.take j) ++ ((set[j]).bytes ++ image (set.drop (j + 1))) := by
    have parts : set.take j ++ set[j] :: set.drop (j + 1) = set := by
      rw [← List.drop_eq_getElem_cons lt, List.take_append_drop]
    have spread := congrArg image parts
    rw [image, List.flatMap_append, List.flatMap_cons] at spread
    exact spread.symm
  have before : (start ++ image (set.take j)).length = FILE_MAGICSIZE * (k + j) := by
    rw [List.length_append, off, image_length, List.length_take_of_le (Nat.le_of_lt lt), Nat.mul_add]
  rw [split, List.append_assoc, List.append_assoc, ← List.append_assoc start]
  exact Field.get_append before (set[j]).size

theorem compile_length (o : Order) (set0 set1 : List Entry) :
    (apprenticeCompile o set0 set1).length =
      FILE_MAGICSIZE * (set0.length + set1.length + 1) := by
  rw [apprenticeCompile, List.length_append, List.length_append, header_length, image_length,
    image_length]
  unfold FILE_MAGICSIZE
  omega

theorem coalesceEntries_le {me : List (List Entry)} {set : List Entry}
    (coalesced : coalesceEntries me = some set) : set.length ≤ (2 ^ 32 - 1) / FILE_MAGICSIZE := by
  unfold coalesceEntries at coalesced
  split at coalesced
  · simp at coalesced
  · rename_i fits
    obtain rfl := Option.some.inj coalesced
    rw [List.length_flatten]
    exact Nat.not_lt.mp fits

/-- The image is accepted in the order it was written in. -/
theorem compile_accepted (o : Order) {me0 me1 : List (List Entry)} {set0 set1 : List Entry}
    (coalesced0 : coalesceEntries me0 = some set0) (coalesced1 : coalesceEntries me1 = some set1)
    (some_entry : 0 < set0.length + set1.length) :
    Accepted o (apprenticeCompile o set0 set1) ∧
      layout o (apprenticeCompile o set0 set1) =
        ⟨apprenticeCompile o set0 set1, 1, set0.length, 1 + set0.length, set1.length⟩ := by
  have le0 := coalesceEntries_le coalesced0
  have le1 := coalesceEntries_le coalesced1
  have bound : (2 ^ 32 - 1) / FILE_MAGICSIZE < 2 ^ 30 := by decide
  have length := compile_length o set0 set1
  have entries : (apprenticeCompile o set0 set1).length / FILE_MAGICSIZE =
      set0.length + set1.length + 1 := by
    rw [length]
    exact Nat.mul_div_cancel_left _ (by decide)
  have parts : apprenticeCompile o set0 set1 =
      header o set0.length set1.length ++ (image set0 ++ image set1) := by
    rw [apprenticeCompile, List.append_assoc]
  have n0 : word o (apprenticeCompile o set0 set1) 2 = set0.length := by
    rw [parts]
    exact header_nmagic0 o _ (by omega)
  have n1 : word o (apprenticeCompile o set0 set1) 3 = set1.length := by
    rw [parts]
    exact header_nmagic1 o _ (by omega)
  constructor
  · refine ⟨by rw [entries, length], ?_, ?_, ?_, ?_, ?_, ?_, ?_⟩
    · omega
    · omega
    · rw [parts]
      exact header_magic o _
    · rw [parts]
      exact header_version o _
    · omega
    · omega
    · rw [n0, n1, entries, Nat.mod_eq_of_lt (by omega)]
  · rw [layout, n0, n1]

/-- The entries of the image, at their places. -/
theorem compile_entry0 (o : Order) (set0 set1 : List Entry) {j : Nat} (lt : j < set0.length) :
    (slot (1 + j)).get (apprenticeCompile o set0 set1) = (set0[j]).bytes := by
  rw [apprenticeCompile, List.append_assoc]
  exact slot_image (header_length o _ _) set0 lt

theorem compile_entry1 (o : Order) (set0 set1 : List Entry) {j : Nat} (lt : j < set1.length) :
    (slot (1 + set0.length + j)).get (apprenticeCompile o set0 set1) = (set1[j]).bytes := by
  have start : (header o set0.length set1.length ++ image set0).length =
      FILE_MAGICSIZE * (1 + set0.length) := by
    rw [List.length_append, header_length, image_length, Nat.mul_add, Nat.mul_one]
  have placed := @slot_image _ [] _ start set1 j lt
  rwa [List.append_nil] at placed

/-- What was compiled is accepted on the same machine, and its sets are what is loaded. -/
theorem compile_load (o : Order) (me0 me1 : List (List Entry)) (set0 set1 : List Entry)
    (coalesced0 : coalesceEntries me0 = some set0) (coalesced1 : coalesceEntries me1 = some set1)
    (some_entry : 0 < set0.length + set1.length) :
    ∃ map, checkBuffer o (apprenticeCompile o set0 set1) = .ok map ∧
      map.nmagic0 = set0.length ∧ map.nmagic1 = set1.length ∧
      (∀ (j : Nat) (lt : j < set0.length), map.entry0 j = (set0[j]).bytes) ∧
      (∀ (j : Nat) (lt : j < set1.length), map.entry1 j = (set1[j]).bytes) := by
  obtain ⟨accepted, laid⟩ := compile_accepted o coalesced0 coalesced1 some_entry
  refine ⟨_, checkBuffer_ok_iff.mpr (.inl ⟨accepted, rfl⟩), ?_⟩
  rw [laid]
  refine ⟨rfl, rfl, ?_, ?_⟩
  · intro j lt
    exact compile_entry0 o set0 set1 lt
  · intro j lt
    exact compile_entry1 o set0 set1 lt

/-- An entry as `memset` leaves it. -/
def blank : Entry := ⟨List.replicate FILE_MAGICSIZE 0, List.length_replicate⟩

theorem compile_load_blank :
    ∃ map, checkBuffer .big (apprenticeCompile .big [blank] []) = .ok map ∧
      map.nmagic0 = [blank].length ∧ map.nmagic1 = ([] : List Entry).length ∧
      (∀ (j : Nat) (lt : j < [blank].length), map.entry0 j = ([blank][j]).bytes) ∧
      (∀ (j : Nat) (lt : j < ([] : List Entry).length), map.entry1 j = (([] : List Entry)[j]).bytes) :=
  compile_load .big [[blank]] [] [blank] [] rfl rfl (by decide)

end Libmagic.Apprentice
