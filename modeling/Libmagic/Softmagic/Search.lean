import Libmagic.Occurrence
import Libmagic.Softmagic.Match

/-!
# `softmagic.c`: the two implementations of `search`

Without flags `magiccheck` looks for the pattern with `memmem`, where the machine has it, and
otherwise compares it with the region place by place.
-/
namespace Libmagic.Softmagic

/-! ## `memmem` -/

theorem memmem_some {needle s : Bytes} {i : Nat} (found : memmem needle s = some i) :
    FirstAt needle s i := by
  induction s generalizing i with
  | nil =>
      rw [memmem] at found
      split_ifs at found with empty
      · obtain rfl := Option.some.inj found
        refine ⟨?_, ?_⟩
        · rw [empty]
          exact List.nil_prefix
        · intro j lt
          omega
  | cons c s ih =>
      rw [memmem] at found
      split_ifs at found with here
      · obtain rfl := Option.some.inj found
        refine ⟨List.isPrefixOf_iff_prefix.mp here, ?_⟩
        intro j lt
        omega
      · obtain ⟨k, later, rfl⟩ := Option.map_eq_some_iff.mp found
        obtain ⟨occurs, first⟩ := ih later
        refine ⟨occurs, ?_⟩
        intro j lt
        cases j with
        | zero =>
            intro occurs
            exact here (List.isPrefixOf_iff_prefix.mpr occurs)
        | succ j => exact first j (by omega)

theorem memmem_none {needle s : Bytes} (missing : memmem needle s = none) (i : Nat) :
    ¬ OccursAt needle s i := by
  induction s generalizing i with
  | nil =>
      rw [memmem] at missing
      split_ifs at missing with empty
      rw [OccursAt, List.drop_nil, List.prefix_nil]
      exact empty
  | cons c s ih =>
      rw [memmem] at missing
      split_ifs at missing with here
      cases i with
      | zero =>
          intro occurs
          exact here (List.isPrefixOf_iff_prefix.mpr occurs)
      | succ i => exact ih (Option.map_eq_none_iff.mp missing) i

/-! ## The loop -/

theorem strncmpFast_eq_zero {len : Nat} {a b : Bytes} (fits : len ≤ a.length) (fits' : len ≤ b.length) :
    strncmpFast len a b = 0 ↔ a.take len = b.take len := by
  induction len generalizing a b with
  | zero => simp [strncmpFast]
  | succ len ih =>
      cases a with
      | nil => cases fits
      | cons x a =>
          cases b with
          | nil => cases fits'
          | cons y b =>
              have rest := @ih a b (Nat.le_of_succ_le_succ fits) (Nat.le_of_succ_le_succ fits')
              have step : strncmpFast (len + 1) (x :: a) (y :: b) =
                  if (y.toNat : Int) - x.toNat ≠ 0 then (y.toNat : Int) - x.toNat
                  else strncmpFast len a b := rfl
              rw [step, List.take_succ_cons, List.take_succ_cons, List.cons.injEq]
              by_cases same : x = y
              · subst same
                rw [if_neg (by simp), rest]
                simp
              · have differ : (y.toNat : Int) - x.toNat ≠ 0 := by
                  intro zero
                  apply same
                  apply UInt8.toNat_inj.mp
                  omega
                rw [if_pos differ]
                simp [same, differ]

theorem strncmpFast_bounds (len : Nat) (a b : Bytes) :
    -255 ≤ strncmpFast len a b ∧ strncmpFast len a b ≤ 255 := by
  induction len generalizing a b with
  | zero => simp [strncmpFast]
  | succ len ih =>
      rw [strncmpFast]
      split_ifs with differ
      · have left := (a.headD 0).toNat_lt
        have right := (b.headD 0).toNat_lt
        omega
      · exact ih a.tail b.tail

/-- What is searched for. -/
def Magic.pattern (m : Magic) : Bytes := m.value.bytes.take (min m.vallen 128)

theorem pattern_length (m : Magic) : m.pattern.length = min m.vallen 128 := by
  rw [Magic.pattern, List.length_take, m.value.size]
  omega

/-- `ms->search` when the pattern was found at place `i`. -/
def Search.advance (search : Search) (i : Nat) : Search :=
  { search with offset := search.offset + i, rmLen := search.sLen - i }

/-- The comparison holds at place `i` of a region of `sLen` bytes at `s`. -/
def Accepts (m : Magic) (s : Bytes) (sLen i : Nat) : Prop :=
  fileStrncmp m.value.bytes (s.drop i) (min m.vallen 128) (sLen - i) m.strFlags = 0

instance (m : Magic) (s : Bytes) (sLen i : Nat) : Decidable (Accepts m s sLen i) :=
  inferInstanceAs (Decidable (_ = _))

/-- The places where the loop compares. -/
def Tried (m : Magic) (sLen i : Nat) : Prop :=
  (m.strRange = 0 ∨ i < m.strRange) ∧ min m.vallen 128 + i ≤ sLen

/-- The last value of `v` when nothing was found. -/
def lastCompared (m : Magic) (s : Bytes) (sLen : Nat) : Int :=
  if m.strRange ≠ 0 ∧ min m.vallen 128 + (m.strRange - 1) ≤ sLen then
    fileStrncmp m.value.bytes (s.drop (m.strRange - 1)) (min m.vallen 128) (sLen - (m.strRange - 1)) m.strFlags
  else 1

/-- The loop from a place on, with more rounds than there are places left. -/
theorem searchFrom_spec (m : Magic) (s : Bytes) (sLen n idx : Nat) (v : Int)
    (enough : sLen + 2 ≤ n + idx) (inside : idx ≤ sLen + 1)
    (before : m.strRange ≠ 0 → m.strRange ≤ idx → v = lastCompared m s sLen) :
    (∃ i, idx ≤ i ∧ Tried m sLen i ∧ Accepts m s sLen i ∧
      (∀ j, idx ≤ j → j < i → ¬ Accepts m s sLen j) ∧
      searchFrom m (min m.vallen 128) sLen n idx (s.drop idx) v = (0, some i)) ∨
    ((∀ i, idx ≤ i → Tried m sLen i → ¬ Accepts m s sLen i) ∧
      searchFrom m (min m.vallen 128) sLen n idx (s.drop idx) v = (lastCompared m s sLen, none)) := by
  induction n generalizing idx v with
  | zero => omega
  | succ n ih =>
      rw [searchFrom]
      dsimp only
      split_ifs with done beyond found
      · refine .inr ⟨?_, ?_⟩
        · rintro i le ⟨range, -⟩
          omega
        · rw [before done.1 done.2]
      · refine .inr ⟨?_, ?_⟩
        · rintro i le ⟨-, fits⟩
          omega
        · rw [lastCompared, if_neg]
          omega
      · refine .inl ⟨idx, le_rfl, ⟨by omega, by omega⟩, found, ?_, rfl⟩
        intro j le lt
        omega
      · have last : m.strRange ≠ 0 → m.strRange ≤ idx + 1 →
            fileStrncmp m.value.bytes (s.drop idx) (min m.vallen 128) (sLen - idx) m.strFlags =
              lastCompared m s sLen := by
          intro ranged le
          have at' : m.strRange - 1 = idx := by omega
          rw [lastCompared, at', if_pos ⟨ranged, by omega⟩]
        have next := ih (idx + 1) _ (by omega) (by omega) last
        rw [List.tail_drop]
        rcases next with ⟨i, le, tried, accepts, first, eq⟩ | ⟨none, eq⟩
        · refine .inl ⟨i, by omega, tried, accepts, ?_, eq⟩
          intro j le' lt
          rcases Nat.eq_or_lt_of_le le' with rfl | gt
          · exact found
          · exact first j gt lt
        · refine .inr ⟨?_, eq⟩
          intro i le' tried
          rcases Nat.eq_or_lt_of_le le' with rfl | gt
          · exact found
          · exact none i gt tried

/-- Whether `magiccheck` calls `memmem`. -/
def Host.fast (host : Host) (m : Magic) : Bool :=
  host.haveMemmem && decide (min m.vallen 128 > 0) && m.strFlags == 0

/-- The loop finds the first place that it tries and accepts. -/
theorem checkSearch_slow {host : Host} {m : Magic} (s : Bytes) (search : Search) (slow : host.fast m = false) :
    (∃ i, Tried m search.sLen i ∧ Accepts m s search.sLen i ∧ (∀ j < i, ¬ Accepts m s search.sLen j) ∧
      checkSearch host m s search = (0, search.advance i)) ∨
    ((∀ i, Tried m search.sLen i → ¬ Accepts m s search.sLen i) ∧
      checkSearch host m s search = (lastCompared m s search.sLen, search)) := by
  have run := searchFrom_spec m s search.sLen (search.sLen + 2) 0 0 (by omega) (by omega) (by omega)
  have unfolded : checkSearch host m s search =
      ((searchFrom m (min m.vallen 128) search.sLen (search.sLen + 2) 0 s 0).1,
        (searchFrom m (min m.vallen 128) search.sLen (search.sLen + 2) 0 s 0).2.elim search search.advance) := by
    rw [Host.fast] at slow
    simp only [checkSearch, slow, Bool.false_eq_true, if_false]
    rcases searchFrom m (min m.vallen 128) search.sLen (search.sLen + 2) 0 s 0 with ⟨v, _ | i⟩
    · rfl
    · rfl
  rw [unfolded]
  rw [List.drop_zero] at run
  rcases run with ⟨i, -, tried, accepts, first, eq⟩ | ⟨none, eq⟩
  · rw [eq]
    exact .inl ⟨i, tried, accepts, fun j lt => first j (Nat.zero_le j) lt, rfl⟩
  · rw [eq]
    exact .inr ⟨fun i => none i (Nat.zero_le i), rfl⟩

/-! ## Both paths -/

/-- `ms->search` before the test: the region and what lies behind it. -/
def regionOf (region rest : Bytes) (search : Search) : Search :=
  { search with s := some (region ++ rest), sLen := region.length }

section
variable {m : Magic} {region rest : Bytes}

/-- What the comparison accepts without flags. -/
theorem accepts_occurs (flags : m.strFlags = 0) {i : Nat} (fits : min m.vallen 128 + i ≤ region.length) :
    Accepts m (region ++ rest) region.length i ↔ OccursAt m.pattern region i := by
  have size := m.value.size
  have here : ((region ++ rest).drop i).take (min m.vallen 128) = (region.drop i).take (min m.vallen 128) := by
    rw [List.drop_append_of_le_length (by omega), List.take_append_of_le_length]
    rw [List.length_drop]
    omega
  rw [Accepts, fileStrncmp, if_pos flags, strncmpFast_eq_zero (by omega), here, occursAt_iff_take,
    pattern_length]
  · exact eq_comm
  · rw [List.length_drop, List.length_append]
    omega

theorem pattern_ne_nil (nonempty : 1 ≤ m.vallen) : m.pattern ≠ [] := by
  apply List.ne_nil_of_length_pos
  rw [pattern_length]
  omega

/-- The `memmem` path tries one place more than the range says. -/
theorem checkSearch_memmem {host : Host} (search : Search) (memmem' : host.haveMemmem = true)
    (flags : m.strFlags = 0) (nonempty : 1 ≤ m.vallen) :
    (∃ i, FirstAt m.pattern region i ∧ (m.strRange = 0 ∨ i ≤ m.strRange) ∧
      checkSearch host m (region ++ rest) (regionOf region rest search) =
        (0, (regionOf region rest search).advance i)) ∨
    ((∀ i, (m.strRange = 0 ∨ i ≤ m.strRange) → ¬ OccursAt m.pattern region i) ∧
      checkSearch host m (region ++ rest) (regionOf region rest search) =
        (1, regionOf region rest search)) := by
  have slen : 0 < min m.vallen 128 := by omega
  have length := pattern_length m
  have ne := pattern_ne_nil nonempty
  simp only [checkSearch, memmem', flags, slen, decide_true, beq_self_eq_true, Bool.and_self, if_true]
  generalize limit : (if m.strRange = 0 ∨ (regionOf region rest search).sLen < m.strRange + min m.vallen 128 then
    (regionOf region rest search).sLen else m.strRange + min m.vallen 128) = window
  have inside : window ≤ region.length ∧
      ∀ i, i + m.pattern.length ≤ region.length →
        (i + m.pattern.length ≤ window ↔ m.strRange = 0 ∨ i ≤ m.strRange) := by
    rw [length]
    by_cases short : m.strRange = 0 ∨ (regionOf region rest search).sLen < m.strRange + min m.vallen 128
    · rw [if_pos short] at limit
      subst limit
      exact ⟨le_rfl, fun i fits => by dsimp only [regionOf] at *; omega⟩
    · rw [if_neg short] at limit
      subst limit
      exact ⟨by dsimp only [regionOf] at *; omega, fun i fits => by omega⟩
  rw [List.take_append_of_le_length inside.1, ← Magic.pattern]
  have places : ∀ i, OccursAt m.pattern (region.take window) i ↔
      OccursAt m.pattern region i ∧ (m.strRange = 0 ∨ i ≤ m.strRange) := by
    intro i
    rw [occursAt_take ne]
    constructor
    · rintro ⟨occurs, le⟩
      exact ⟨occurs, (inside.2 i (occurs.fits ne)).mp le⟩
    · rintro ⟨occurs, range⟩
      exact ⟨occurs, (inside.2 i (occurs.fits ne)).mpr range⟩
  cases found : memmem m.pattern (region.take window) with
  | none =>
      refine .inr ⟨?_, rfl⟩
      intro i range occurs
      exact memmem_none found i ((places i).mpr ⟨occurs, range⟩)
  | some i =>
      obtain ⟨here, first⟩ := memmem_some found
      obtain ⟨occurs, range⟩ := (places i).mp here
      refine .inl ⟨i, ⟨occurs, ?_⟩, range, rfl⟩
      intro j lt occurs'
      exact first j lt ((places j).mpr ⟨occurs', by omega⟩)

/-- The loop tries the places that the range says. -/
theorem checkSearch_loop {host : Host} (search : Search) (loop : host.haveMemmem = false)
    (flags : m.strFlags = 0) (nonempty : 1 ≤ m.vallen) :
    (∃ i, FirstAt m.pattern region i ∧ (m.strRange = 0 ∨ i < m.strRange) ∧
      checkSearch host m (region ++ rest) (regionOf region rest search) =
        (0, (regionOf region rest search).advance i)) ∨
    ((∀ i, (m.strRange = 0 ∨ i < m.strRange) → ¬ OccursAt m.pattern region i) ∧
      checkSearch host m (region ++ rest) (regionOf region rest search) =
        (lastCompared m (region ++ rest) region.length, regionOf region rest search)) := by
  have length := pattern_length m
  have ne := pattern_ne_nil nonempty
  have slow : host.fast m = false := by rw [Host.fast, loop, Bool.false_and, Bool.false_and]
  rcases checkSearch_slow (region ++ rest) (regionOf region rest search) slow with
    ⟨i, tried, accepts, first, eq⟩ | ⟨none, eq⟩
  · have fits : min m.vallen 128 + i ≤ region.length := tried.2
    refine .inl ⟨i, ⟨(accepts_occurs flags fits).mp accepts, ?_⟩, tried.1, eq⟩
    intro j lt occurs
    exact first j lt ((accepts_occurs flags (by omega)).mpr occurs)
  · refine .inr ⟨?_, eq⟩
    intro i range occurs
    have fits : min m.vallen 128 + i ≤ region.length := by
      have := occurs.fits ne
      omega
    exact none i ⟨range, fits⟩ ((accepts_occurs flags fits).mpr occurs)

/-- When no place is accepted, the last comparison found a difference. -/
theorem lastCompared_ne_zero {s : Bytes} {sLen : Nat} (none : ∀ i, Tried m sLen i → ¬ Accepts m s sLen i) :
    lastCompared m s sLen ≠ 0 := by
  rw [lastCompared]
  split_ifs with tried
  · exact none (m.strRange - 1) ⟨by omega, tried.2⟩
  · decide

theorem lastCompared_bounds {s : Bytes} {sLen : Nat} (flags : m.strFlags = 0) :
    -255 ≤ lastCompared m s sLen ∧ lastCompared m s sLen ≤ 255 := by
  rw [lastCompared]
  split_ifs
  · rw [fileStrncmp, if_pos flags]
    exact strncmpFast_bounds _ _ _
  · decide

end

/-- A place where the pattern is found: with `memmem` also the one behind the range. -/
def Place (host : Host) (m : Magic) (s : Bytes) (sLen i : Nat) : Prop :=
  (m.strRange = 0 ∨ i < m.strRange ∨ host.fast m = true ∧ i = m.strRange) ∧
    min m.vallen 128 + i ≤ sLen ∧ Accepts m s sLen i

/-- `magiccheck` finds the first place, if there is one. -/
theorem checkSearch_place {host : Host} {m : Magic} {s : Bytes} {search : Search} (text : search.s = some s)
    (fits : search.sLen ≤ s.length) :
    (∃ i, Place host m s search.sLen i ∧ (∀ j < i, ¬ Place host m s search.sLen j) ∧
      checkSearch host m s search = (0, search.advance i)) ∨
    ((∀ i, ¬ Place host m s search.sLen i) ∧ (checkSearch host m s search).1 ≠ 0 ∧
      (checkSearch host m s search).2 = search) := by
  cases path : host.fast m with
  | false =>
      have tried : ∀ {i}, Place host m s search.sLen i → Tried m search.sLen i := by
        rintro i ⟨range, le, -⟩
        rw [path] at range
        exact ⟨by simpa using range, le⟩
      rcases checkSearch_slow s search path with ⟨i, here, accepts, first, eq⟩ | ⟨none, eq⟩
      · refine .inl ⟨i, ⟨?_, here.2, accepts⟩, ?_, eq⟩
        · rcases here.1 with unlimited | inside
          · exact .inl unlimited
          · exact .inr (.inl inside)
        · intro j lt place
          exact first j lt place.2.2
      · refine .inr ⟨?_, ?_, by rw [eq]⟩
        · intro i place
          exact none i (tried place) place.2.2
        · rw [eq]
          exact lastCompared_ne_zero none
  | true =>
      obtain ⟨⟨memmem', positive⟩, flags⟩ :
          (host.haveMemmem = true ∧ 0 < min m.vallen 128) ∧ m.strFlags = 0 := by
        simpa only [Host.fast, Bool.and_eq_true, decide_eq_true_eq, beq_iff_eq] using path
      have nonempty : 1 ≤ m.vallen := by omega
      have split := List.take_append_drop search.sLen s
      have length : (s.take search.sLen).length = search.sLen := by
        rw [List.length_take]
        omega
      have same : regionOf (s.take search.sLen) (s.drop search.sLen) search = search := by
        rw [regionOf, split, length, ← text]
      have places : ∀ i, Place host m s search.sLen i ↔
          OccursAt m.pattern (s.take search.sLen) i ∧ (m.strRange = 0 ∨ i ≤ m.strRange) := by
        intro i
        have occurs := @accepts_occurs m (s.take search.sLen) (s.drop search.sLen) flags i
        rw [length, split] at occurs
        simp only [Place, path, true_and]
        constructor
        · rintro ⟨range, le, accepts⟩
          exact ⟨(occurs le).mp accepts, by omega⟩
        · rintro ⟨here, range⟩
          have le := here.fits (pattern_ne_nil nonempty)
          rw [length, pattern_length] at le
          exact ⟨by omega, by omega, (occurs (by omega)).mpr here⟩
      have run := @checkSearch_memmem m (s.take search.sLen) (s.drop search.sLen) host search memmem' flags nonempty
      rw [split, same] at run
      rcases run with ⟨i, first, range, eq⟩ | ⟨none, eq⟩
      · refine .inl ⟨i, (places i).mpr ⟨first.here, range⟩, ?_, eq⟩
        intro j lt place
        exact first.first j lt ((places j).mp place).1
      · refine .inr ⟨?_, by rw [eq]; exact one_ne_zero, by rw [eq]⟩
        intro i place
        exact none i ((places i).mp place).2 ((places i).mp place).1

/-! ## The verdicts -/

/-- The machine with `memmem`, or without it. -/
def Host.memmem (host : Host) (have' : Bool) : Host := { host with haveMemmem := have' }

/-- Two differences give the same verdict, unless the relation asks for their sign. -/
theorem compareInt_differ (unsigned : Bool) (reln : Reln) (v : Int) (differ : v ≠ 0) (low : -255 ≤ v)
    (high : v ≤ 255) :
    compareInt unsigned reln (uN 64 1) 0 = compareInt unsigned reln (uN 64 v) 0 ↔
      ¬ (unsigned = false ∧ (reln = .gt ∨ reln = .lt) ∧ v < 0) := by
  have signed : sN 64 (uN 64 v) = v := by
    simp only [sN, uN]
    omega
  have nonzero : uN 64 v ≠ 0 := by
    simp only [uN]
    omega
  have one : uN 64 1 = 1 := by decide
  have signedOne : sN 64 1 = 1 := by decide
  have signedZero : sN 64 0 = 0 := by decide
  rw [one]
  cases reln <;> cases unsigned <;> simp [compareInt, signed, signedOne, signedZero, nonzero] <;> omega

theorem magiccheck_search {host : Host} {flags : Nat} {m : Magic} {v : Value} {search : Search} {s : Bytes}
    {io : Io} (type : m.type = .search) (text : search.s = some s) :
    (magiccheck host flags m v search io).matched =
        compareInt (has m.flag UNSIGNED) m.reln (uN 64 (checkSearch host m s search).1) 0 ∧
      (magiccheck host flags m v search io).search = (checkSearch host m s search).2 := by
  have extended : ∀ x, fileSignextend m x = x := by
    intro x
    simp [fileSignextend, type]
  simp only [magiccheck, type, text, extended]
  split
  · rename_i matched eq
    exact ⟨eq.symm, rfl⟩
  · rename_i eq
    exact ⟨eq.symm, rfl⟩

section
variable (host : Host) (flags : Nat) (m : Magic) (v : Value) (search : Search) (region rest : Bytes) (io : Io)

/-- `magiccheck` on a region, with `memmem` or without it. -/
def searchWith (have' : Bool) : Checked :=
  magiccheck (host.memmem have') flags m v (regionOf region rest search) io

/-- Both implementations give one verdict and one place, which is the first place of the
pattern among the first `str_range` places of the region. -/
structure SearchesAgree : Prop where
  verdict : (searchWith host flags m v search region rest io true).matched =
    (searchWith host flags m v search region rest io false).matched
  offset : (searchWith host flags m v search region rest io true).search.offset =
    (searchWith host flags m v search region rest io false).search.offset
  rmLen : (searchWith host flags m v search region rest io true).search.rmLen =
    (searchWith host flags m v search region rest io false).search.rmLen
  found : ∀ have', (checkSearch (host.memmem have') m (region ++ rest) (regionOf region rest search)).1 = 0 ↔
    ∃ i, (m.strRange = 0 ∨ i < m.strRange) ∧ OccursAt m.pattern region i
  first : ∀ have' i, (m.strRange = 0 ∨ i < m.strRange) → FirstAt m.pattern region i →
    (searchWith host flags m v search region rest io have').search =
      (regionOf region rest search).advance i

/-- The first place of the pattern is the one behind the range, which `memmem` tries too. -/
def BehindRange : Prop := m.strRange ≠ 0 ∧ FirstAt m.pattern region m.strRange

/-- A signed `<` or `>` asks how the text of the last place of the range compares, which is
below the pattern; `memmem` does not say so. -/
def BelowPattern : Prop :=
  has m.flag UNSIGNED = false ∧ (m.reln = .gt ∨ m.reln = .lt) ∧ m.strRange ≠ 0 ∧
    min m.vallen 128 + (m.strRange - 1) ≤ region.length ∧
    (∀ i < m.strRange, ¬ OccursAt m.pattern region i) ∧
    fileStrncmp m.value.bytes ((region ++ rest).drop (m.strRange - 1)) (min m.vallen 128)
      (region.length - (m.strRange - 1)) m.strFlags < 0

end

section
variable {host : Host} {flags : Nat} {m : Magic} {v : Value} {search : Search} {region rest : Bytes} {io : Io}

theorem searchWith_eq (type : m.type = .search) (have' : Bool) {x : Int} {found : Search}
    (eq : checkSearch (host.memmem have') m (region ++ rest) (regionOf region rest search) = (x, found)) :
    (searchWith host flags m v search region rest io have').matched =
        compareInt (has m.flag UNSIGNED) m.reln (uN 64 x) 0 ∧
      (searchWith host flags m v search region rest io have').search = found := by
  have checked := @magiccheck_search (host.memmem have') flags m v (regionOf region rest search)
    (region ++ rest) io type rfl
  rw [eq] at checked
  exact checked

/-- Both find the pattern at `i`. -/
theorem searchesAgree_of_found (type : m.type = .search) {i : Nat} (first : FirstAt m.pattern region i)
    (range : m.strRange = 0 ∨ i < m.strRange)
    (both : ∀ have', checkSearch (host.memmem have') m (region ++ rest) (regionOf region rest search) =
      (0, (regionOf region rest search).advance i)) :
    SearchesAgree host flags m v search region rest io := by
  have at' := fun have' => @searchWith_eq host flags m v search region rest io type have' _ _ (both have')
  refine ⟨?_, ?_, ?_, ?_, ?_⟩
  · rw [(at' true).1, (at' false).1]
  · rw [(at' true).2, (at' false).2]
  · rw [(at' true).2, (at' false).2]
  · intro have'
    rw [both have']
    exact ⟨fun _ => ⟨i, range, first.here⟩, fun _ => rfl⟩
  · intro have' j _ first'
    rw [(at' have').2, first.unique first']

/-- Neither finds the pattern. -/
theorem searchesAgree_of_missing (type : m.type = .search) (strFlags : m.strFlags = 0)
    (none : ∀ i, (m.strRange = 0 ∨ i < m.strRange) → ¬ OccursAt m.pattern region i)
    (fast : checkSearch (host.memmem true) m (region ++ rest) (regionOf region rest search) =
      (1, regionOf region rest search))
    (slow : checkSearch (host.memmem false) m (region ++ rest) (regionOf region rest search) =
      (lastCompared m (region ++ rest) region.length, regionOf region rest search)) :
    SearchesAgree host flags m v search region rest io ↔ ¬ BelowPattern m region rest := by
  have atFast := @searchWith_eq host flags m v search region rest io type true _ _ fast
  have atSlow := @searchWith_eq host flags m v search region rest io type false _ _ slow
  have differ : lastCompared m (region ++ rest) region.length ≠ 0 := by
    apply lastCompared_ne_zero
    intro i tried accepts
    exact none i tried.1 ((accepts_occurs strFlags tried.2).mp accepts)
  have bounds := @lastCompared_bounds m (region ++ rest) region.length strFlags
  have same := compareInt_differ (has m.flag UNSIGNED) m.reln _ differ bounds.1 bounds.2
  have below : BelowPattern m region rest ↔
      has m.flag UNSIGNED = false ∧ (m.reln = .gt ∨ m.reln = .lt) ∧
        lastCompared m (region ++ rest) region.length < 0 := by
    rw [BelowPattern, lastCompared]
    split_ifs with tried
    · constructor
      · rintro ⟨signed, order, -, -, -, less⟩
        exact ⟨signed, order, less⟩
      · rintro ⟨signed, order, less⟩
        exact ⟨signed, order, tried.1, tried.2, fun i lt => none i (.inr lt), less⟩
    · constructor
      · rintro ⟨-, -, ranged, fits, -⟩
        exact absurd ⟨ranged, fits⟩ tried
      · rintro ⟨-, -, less⟩
        cases less
  rw [below, ← same]
  constructor
  · intro agree
    rw [← atFast.1, ← atSlow.1]
    exact agree.verdict
  · intro verdict
    refine ⟨?_, ?_, ?_, ?_, ?_⟩
    · rw [atFast.1, atSlow.1, verdict]
    · rw [atFast.2, atSlow.2]
    · rw [atFast.2, atSlow.2]
    · intro have'
      constructor
      · intro zero
        cases have'
        · rw [slow] at zero
          exact absurd zero differ
        · rw [fast] at zero
          cases zero
      · rintro ⟨i, range, occurs⟩
        exact absurd occurs (none i range)
    · intro have' i range first
      exact absurd first.here (none i range)

/-- When the two implementations of `search` agree and keep to the range. -/
theorem searchesAgree_iff (type : m.type = .search) (strFlags : m.strFlags = 0) (nonempty : 1 ≤ m.vallen) :
    SearchesAgree host flags m v search region rest io ↔
      ¬ BehindRange m region ∧ ¬ BelowPattern m region rest := by
  have fast := @checkSearch_memmem m region rest (host.memmem true) search rfl strFlags nonempty
  have slow := @checkSearch_loop m region rest (host.memmem false) search rfl strFlags nonempty
  rcases fast with ⟨i, first, range, fast⟩ | ⟨none, fast⟩
  · rcases slow with ⟨j, first', range', slow⟩ | ⟨none, slow⟩
    · obtain rfl := first.unique first'
      have agree : SearchesAgree host flags m v search region rest io := by
        apply searchesAgree_of_found type first range'
        intro have'
        cases have'
        · exact slow
        · exact fast
      refine ⟨fun _ => ⟨?_, ?_⟩, fun _ => agree⟩
      · rintro ⟨ranged, behind⟩
        have := first.unique behind
        omega
      · rintro ⟨-, -, ranged, -, none, -⟩
        exact none i (by omega) first.here
    -- only `memmem` finds it: the place behind the range
    · have place : m.strRange ≠ 0 ∧ i = m.strRange := by
        have outside : ¬ (m.strRange = 0 ∨ i < m.strRange) := fun inside => none i inside first.here
        omega
      refine ⟨?_, ?_⟩
      · intro agree
        obtain ⟨j, range, occurs⟩ := (agree.found true).mp (by rw [fast])
        exact absurd occurs (none j range)
      · rintro ⟨behind, -⟩
        rw [place.2] at first
        exact absurd ⟨place.1, first⟩ behind
  · have outside : ∀ i, (m.strRange = 0 ∨ i < m.strRange) → ¬ OccursAt m.pattern region i :=
      fun i range => none i (by omega)
    rcases slow with ⟨j, first', range', -⟩ | ⟨-, slow⟩
    · exact absurd first'.here (outside j range')
    · rw [searchesAgree_of_missing type strFlags outside fast slow]
      refine ⟨fun below => ⟨?_, below⟩, fun both => both.2⟩
      rintro ⟨-, behind⟩
      exact none _ (.inr le_rfl) behind.here

end

/-- `0 search/1 B`. -/
def searchLine : Magic :=
  { plainLine with
    type := .search, reln := .eq, vallen := 1, strRange := 1, value := Value.zero.write 0 (asc "B") }

/-- Nothing is ever found in `AAB`, whose `B` is behind the range and the place after it. -/
theorem searchesAgree_aab :
    SearchesAgree plainHost 0 searchLine .zero ⟨none, 0, 0, 0⟩ (asc "AAB") [] (plainScan []).io := by
  refine (searchesAgree_iff rfl rfl (by decide)).mpr ⟨?_, ?_⟩
  · rintro ⟨-, behind⟩
    exact absurd behind.here (by decide +kernel)
  · rintro ⟨-, order, -⟩
    exact absurd order (by decide)

/-- In `AB` only `memmem` finds the `B`. -/
theorem searches_disagree :
    searchLine.type = .search ∧ searchLine.strFlags = 0 ∧ 1 ≤ searchLine.vallen ∧
      (searchWith plainHost 0 searchLine .zero ⟨none, 0, 0, 0⟩ (asc "AB") [] (plainScan []).io true).matched =
        some true ∧
      (searchWith plainHost 0 searchLine .zero ⟨none, 0, 0, 0⟩ (asc "AB") [] (plainScan []).io false).matched =
        some false ∧
      ¬ SearchesAgree plainHost 0 searchLine .zero ⟨none, 0, 0, 0⟩ (asc "AB") [] (plainScan []).io := by
  refine ⟨rfl, rfl, by decide, by decide +kernel, by decide +kernel, ?_⟩
  intro agree
  have verdict := agree.verdict
  revert verdict
  decide +kernel

end Libmagic.Softmagic
