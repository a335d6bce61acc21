import Mathlib.Data.List.TakeWhile
import Libmagic.Softmagic.Print
import Libmagic.Softmagic.Search

/-!
# `softmagic.c`: what `ms->search` designates after a match

`mcopy` sets the region, `magiccheck` moves to the match, and `mprint` copies the text from
there. The pointer, the offset and the length are three fields.
-/
namespace Libmagic.Softmagic

/-- A match of `regexec` lies in the text it was given. -/
def Host.MatchesInside (host : Host) : Prop :=
  ∀ pattern icase text so eo, host.regexec pattern icase text = .found so eo →
    0 ≤ so ∧ so ≤ eo ∧ eo ≤ text.length

/-- The text that `regexec` is given. -/
def Search.text (search : Search) : Bytes := cstring ((search.s.getD []).take (search.sLen - 1))

/-- What `mprint` makes of the copied text. -/
def trimmed (m : Magic) (s : Bytes) : Bytes := if has m.strFlags STRING_TRIM then fileStrtrim s else s

/-- `ms->search` after a match in `buf`, from `before`. -/
structure Designates (host : Host) (flags : Nat) (m : Magic) (buf : Bytes) (before after : Search) : Prop where
  points : after.s = some (buf.drop after.offset)
  inside : after.offset + after.rmLen ≤ buf.length
  printed : ∀ desc io, host.malloc io.tick = true →
    mprintSearch host flags m desc after io =
      printDesc host desc (asc "%s")
        (.str (filePrintable (has flags MAGIC_RAW) 511
          (trimmed m (cstring ((buf.drop after.offset).take after.rmLen)))))
        { io with tick := io.tick + 1 }
  exact : m.type = .regex → ∀ so eo,
    host.regexec m.value.str (regexIcase m) before.text = .found so eo →
      after.offset = before.offset + so ∧
      cstring ((buf.drop after.offset).take after.rmLen) = (before.text.drop so.toNat).take (eo - so).toNat

/-- The pointer decides what is printed. -/
theorem mprintSearch_points {host : Host} {flags : Nat} {m : Magic} {s : Bytes} {search : Search}
    (points : search.s = some s) (desc : Bytes) (io : Io) (ok : host.malloc io.tick = true) :
    mprintSearch host flags m desc search io =
      printDesc host desc (asc "%s")
        (.str (filePrintable (has flags MAGIC_RAW) 511 (trimmed m (cstring (s.take search.rmLen)))))
        { io with tick := io.tick + 1 } := by
  simp only [mprintSearch, points, ok, Bool.not_true, Bool.false_eq_true, if_false]
  rfl

section
variable {host : Host} {flags : Nat} {m : Magic} {v : Value} {old before : Search} {buf s : Bytes}
  {regexMax offset nbytes : Nat} {io : Io}

/-! ## `search` -/

theorem mcopy_search (type : m.type = .search) :
    (mcopy regexMax v old host m.type false (some buf) offset nbytes m).2 =
      { old with s := some (buf.drop (min offset nbytes)), sLen := nbytes - min offset nbytes,
                 offset := min offset nbytes } := by
  have start : (if offset > nbytes then nbytes else offset) = min offset nbytes := by
    split_ifs <;> omega
  simp only [mcopy, type, Bool.false_eq_true, if_false, start]
  rfl

/-- The pattern is where the region starts, or nowhere and the length of an earlier match
still fits. -/
def FoundAtStart (host : Host) (m : Magic) (buf : Bytes) (offset nbytes : Nat) (old : Search) : Prop :=
  let start := min offset nbytes
  Place host m (buf.drop start) (nbytes - start) 0 ∨
    (∀ i, ¬ Place host m (buf.drop start) (nbytes - start) i) ∧ start + old.rmLen ≤ buf.length

theorem designates_search (type : m.type = .search) (inside : nbytes ≤ buf.length) :
    Designates host flags m buf before
        (magiccheck host flags m v (mcopy regexMax v old host m.type false (some buf) offset nbytes m).2 io).search ↔
      FoundAtStart host m buf offset nbytes old := by
  have regex : m.type ≠ .regex := by
    rw [type]
    decide
  rw [mcopy_search type, FoundAtStart]
  generalize startEq : min offset nbytes = start
  have le : start ≤ nbytes := by omega
  generalize region : ({ old with s := some (buf.drop start), sLen := nbytes - start, offset := start } : Search) =
    search
  have text : search.s = some (buf.drop start) := by rw [← region]
  have length : search.sLen = nbytes - start := by rw [← region]
  have at' : search.offset = start := by rw [← region]
  have rmLen : search.rmLen = old.rmLen := by rw [← region]
  have fits : search.sLen ≤ (buf.drop start).length := by
    rw [length, List.length_drop]
    omega
  have run := @checkSearch_place host m (buf.drop start) search text fits
  rw [(magiccheck_search type text).2]
  rw [length] at run
  rcases run with ⟨i, place, first, eq⟩ | ⟨none, -, eq⟩
  · rw [eq]
    cases i with
    | zero =>
        refine ⟨fun _ => .inl place, fun _ => ⟨?_, ?_, ?_, fun h => absurd h regex⟩⟩
        · simp only [Search.advance, text, at', Nat.add_zero]
        · simp only [Search.advance, at', length]
          omega
        · intro desc io ok
          refine mprintSearch_points ?_ desc io ok
          simp only [Search.advance, text, at', Nat.add_zero]
    | succ i =>
        refine ⟨fun designates => ?_, ?_⟩
        -- the pointer stayed at the start of the region
        · have points := designates.points
          simp only [Search.advance, text, at', Option.some.injEq] at points
          have lengths := congrArg List.length points
          have := place.2.1
          rw [List.length_drop, List.length_drop] at lengths
          omega
        · rintro (zero | ⟨none, -⟩)
          · exact absurd zero (first 0 (Nat.succ_pos i))
          · exact absurd place (none (i + 1))
  · rw [eq]
    refine ⟨fun designates => .inr ⟨none, ?_⟩, ?_⟩
    · have := designates.inside
      rwa [at', rmLen] at this
    · rintro (zero | ⟨-, room⟩)
      · exact absurd zero (none 0)
      · refine ⟨by rw [text, at'], by rwa [at', rmLen], ?_, fun h => absurd h regex⟩
        intro desc io ok
        exact mprintSearch_points (by rw [text, at']) desc io ok

/-! ## `regex` -/

theorem mcopy_regex (type : m.type = .regex) (inside : offset ≤ nbytes) :
    ∃ sLen, (mcopy regexMax v old host m.type false (some buf) offset nbytes m).2 =
      { s := some (buf.drop offset), sLen, offset, rmLen := 0 } := by
  simp only [mcopy, type, Bool.false_eq_true, if_false, mcopyRegex, if_neg (Nat.not_lt.mpr inside)]
  exact ⟨_, rfl⟩

/-- Behind the end there is no region, and nothing matches. -/
theorem mcopy_regex_behind (type : m.type = .regex) (behind : nbytes < offset) :
    (mcopy regexMax v old host m.type false (some buf) offset nbytes m).2.s = none := by
  simp only [mcopy, type, Bool.false_eq_true, if_false, mcopyRegex, if_pos behind]

theorem regexText_text {search : Search} {io' : Io} {given : Bytes} (text : search.s = some s)
    (eq : regexText host s search.sLen io = (some given, io')) : given = search.text := by
  rw [Search.text, text, Option.getD_some]
  rw [regexText] at eq
  split_ifs at eq with empty
  · rw [empty]
    cases eq
    rfl
  · cases eq
    rfl
  · cases eq

theorem text_length (search : Search) : search.text.length ≤ search.sLen - 1 := by
  rw [Search.text, cstring]
  exact ((List.takeWhile_prefix _).length_le).trans (List.length_take_le _ _)

/-- What a `regex` does to the region: nothing, or it moves to what `regexec` found. -/
theorem checkRegexp_cases {search after : Search} {io' : Io} {x : Int} (text : search.s = some s)
    (lawful : host.MatchesInside) (eq : checkRegexp host flags m s search io = (some x, after, io')) :
    after = search ∧
        (∀ so eo, host.regexec m.value.str (regexIcase m) search.text ≠ .found so eo) ∨
      ∃ so eo, host.regexec m.value.str (regexIcase m) search.text = .found so eo ∧
        after = { search with s := some (s.drop so.toNat), offset := search.offset + so.toNat,
                              rmLen := (eo - so).toNat } := by
  rw [checkRegexp] at eq
  split at eq
  · cases eq
  split at eq
  · cases eq
  rename_i given _ copied
  obtain rfl := regexText_text text copied
  have short := text_length search
  split at eq
  · rename_i so eo found
    have bounds := lawful _ _ _ _ _ found
    split_ifs at eq with insane
    · omega
    · cases eq
      exact .inr ⟨so, eo, found, rfl⟩
  · rename_i missing
    cases eq
    refine .inl ⟨rfl, ?_⟩
    intro so eo found
    rw [missing] at found
    cases found
  · cases eq

/-- The matched text holds no terminator. -/
theorem cstring_text (search : Search) {so n : Nat} (text : search.s = some s)
    (inside : so + n ≤ search.text.length) :
    cstring ((s.drop so).take n) = (search.text.drop so).take n := by
  have shorter : search.text <+: s := by
    rw [Search.text, text, cstring]
    exact (List.takeWhile_prefix _).trans (List.take_prefix _ _)
  obtain ⟨rest, rfl⟩ := shorter
  have same : ((search.text ++ rest).drop so).take n = (search.text.drop so).take n := by
    rw [List.drop_append_of_le_length (by omega), List.take_append_of_le_length]
    rw [List.length_drop]
    omega
  rw [same, cstring, List.takeWhile_eq_self_iff]
  intro c mem
  have mem' : c ∈ search.text := List.mem_of_mem_drop (List.mem_of_mem_take mem)
  exact (List.mem_takeWhile_imp mem' :)

theorem magiccheck_regex {search : Search} (type : m.type = .regex) (text : search.s = some s)
    (reported : (magiccheck host flags m v search io).matched = some true) :
    ∃ x after io', checkRegexp host flags m s search io = (some x, after, io') ∧
      (magiccheck host flags m v search io).search = after := by
  rcases run : checkRegexp host flags m s search io with ⟨_ | x, after, io'⟩
  · simp only [magiccheck, type, text, run] at reported
    cases reported
  · refine ⟨x, after, io', rfl, ?_⟩
    simp only [magiccheck, type, text, run]
    split
    · rfl
    · rfl

theorem designates_regex (type : m.type = .regex) (inside : nbytes ≤ buf.length) (lawful : host.MatchesInside)
    (copied : (mcopy regexMax v old host m.type false (some buf) offset nbytes m).2 = before)
    (reported : (magiccheck host flags m v before io).matched = some true) :
    Designates host flags m buf before (magiccheck host flags m v before io).search := by
  rcases Nat.lt_or_ge nbytes offset with behind | le
  · have missing := @mcopy_regex_behind host m v old buf regexMax offset nbytes type behind
    rw [copied] at missing
    simp only [magiccheck, type, missing] at reported
    cases reported
  obtain ⟨sLen, region⟩ := @mcopy_regex host m v old buf regexMax offset nbytes type le
  rw [copied] at region
  have text : before.s = some (buf.drop offset) := by rw [region]
  have at' : before.offset = offset := by rw [region]
  obtain ⟨x, after, io', run, eq⟩ := magiccheck_regex type text reported
  rw [eq]
  rcases checkRegexp_cases text lawful run with ⟨rfl, none⟩ | ⟨so, eo, found, rfl⟩
  · have points : after.s = some (buf.drop after.offset) := by rw [text, at']
    refine ⟨points, ?_, fun desc io ok => mprintSearch_points points desc io ok, ?_⟩
    · rw [region]
      dsimp only
      omega
    · intro _ so eo found
      exact absurd found (none so eo)
  · obtain ⟨low, order, high⟩ := lawful _ _ _ _ _ found
    have within : so.toNat + (eo - so).toNat ≤ before.text.length := by omega
    have short : before.text.length ≤ (buf.drop offset).length := by
      rw [Search.text, text, cstring, Option.getD_some]
      exact ((List.takeWhile_prefix _).trans (List.take_prefix _ _)).length_le
    have place : (buf.drop offset).drop so.toNat = buf.drop (before.offset + so.toNat) := by
      rw [List.drop_drop, at']
    rw [List.length_drop] at short
    refine ⟨by rw [place], ?_, ?_, ?_⟩
    · dsimp only
      omega
    · intro desc io ok
      exact mprintSearch_points (by rw [place]) desc io ok
    · intro _ so' eo' found'
      rw [found] at found'
      obtain ⟨rfl, rfl⟩ := RegResult.found.inj found'
      refine ⟨by dsimp only; omega, ?_⟩
      dsimp only
      rw [← place]
      exact cstring_text before text within

/-- When `ms->search` designates what `magiccheck` reports as a match. -/
theorem designates_iff (type : m.type = .search ∨ m.type = .regex) (inside : nbytes ≤ buf.length)
    (lawful : host.MatchesInside)
    (copied : (mcopy regexMax v old host m.type false (some buf) offset nbytes m).2 = before)
    (reported : (magiccheck host flags m v before io).matched = some true) :
    Designates host flags m buf before (magiccheck host flags m v before io).search ↔
      (m.type = .search → FoundAtStart host m buf offset nbytes old) := by
  rcases type with search | regex
  · rw [← copied, designates_search search inside]
    exact ⟨fun found _ => found, fun found => found search⟩
  · refine ⟨fun _ search => ?_, fun _ => designates_regex regex inside lawful copied reported⟩
    rw [regex] at search
    cases search

end

/-- A machine whose expressions have no special characters. -/
def literalHost : Host :=
  { plainHost with
    regexec := fun pattern _ text =>
      match memmem pattern text with
      | none => .noMatch
      | some i => .found i (i + pattern.length : Nat) }

theorem literalHost_matchesInside : literalHost.MatchesInside := by
  intro pattern icase text so eo found
  simp only [literalHost] at found
  split at found
  · cases found
  · rename_i i place
    obtain ⟨rfl, rfl⟩ := RegResult.found.inj found
    have first := memmem_some place
    have fits : i + pattern.length ≤ text.length := by
      rcases List.eq_nil_or_concat pattern with rfl | ⟨init, last, rfl⟩
      · have zero : i = 0 := by
          by_contra positive
          exact first.first 0 (by omega) List.nil_prefix
        simp [zero]
      · exact first.here.fits (by simp)
    omega

/-- `0 regex AB`. -/
def regexLine : Magic :=
  { plainLine with type := .regex, reln := .eq, vallen := 2, value := Value.zero.write 0 (asc "AB") }

/-- `0 search AB`. -/
def searchAllLine : Magic := { regexLine with type := .search }

/-- `ms->search` for the first 4 bytes of the buffer. -/
def regionAt (m : Magic) (buf : Bytes) : Search :=
  (mcopy 8192 .zero ⟨none, 0, 0, 0⟩ literalHost m.type false (some buf) 0 4 m).2

theorem designates_regexLine :
    (magiccheck literalHost 0 regexLine .zero (regionAt regexLine (asc "xABy")) (plainScan []).io).matched =
        some true ∧
      Designates literalHost 0 regexLine (asc "xABy") (regionAt regexLine (asc "xABy"))
        (magiccheck literalHost 0 regexLine .zero (regionAt regexLine (asc "xABy")) (plainScan []).io).search := by
  refine ⟨by decide +kernel, ?_⟩
  refine (designates_iff (.inr rfl) (by decide) literalHost_matchesInside rfl (by decide +kernel)).mpr ?_
  intro search
  cases search

/-- A `search` that finds `AB` at place 1 leaves the pointer at place 0. -/
theorem search_not_designated :
    (magiccheck literalHost 0 searchAllLine .zero (regionAt searchAllLine (asc "xABy")) (plainScan []).io).matched =
        some true ∧
      ¬ Designates literalHost 0 searchAllLine (asc "xABy") (regionAt searchAllLine (asc "xABy"))
        (magiccheck literalHost 0 searchAllLine .zero (regionAt searchAllLine (asc "xABy"))
          (plainScan []).io).search := by
  refine ⟨by decide +kernel, ?_⟩
  intro designates
  have points := designates.points
  revert points
  decide +kernel

end Libmagic.Softmagic
