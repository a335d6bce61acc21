import Mathlib.Data.List.TakeWhile
import Libmagic.Softmagic.Match

/-!
# `softmagic.c`: entries in the other byte order

A call of `match` with `flip` set reads every number in the other order. This is the same
as to turn around the types in the entries and the `^` of the names they use.
-/
namespace Libmagic.Softmagic

/-- The value with a `^` before its text, or without it if it has one. -/
def Value.toggled (v : Value) : Value :=
  match v.str with
  | 0x5e :: name => v.write 0 (name ++ [0])
  | name => v.write 0 (0x5e :: name ++ [0])

/-- The entry in the other byte order. -/
def Magic.flipped (m : Magic) : Magic :=
  { m with
    type := cvtFlip m.type true
    inType := cvtFlip m.inType true
    value := if m.type = .use then m.value.toggled else m.value }

/-- The name that the entry uses does not begin with `^`, and there is room for one before it. -/
structure Magic.Toggles (m : Magic) : Prop where
  plain : (useName m).1.head? ≠ some 0x5e
  room : (useName m).1.length ≤ 126

def Call.setFlip (call : Call) (flip : Bool) : Call := { call with flip }

/-! ## Functions that do not tell the orders apart -/

section
variable (m : Magic)

theorem isFiltered_flipped (call : Call) (flip : Bool) :
    isFiltered (call.setFlip flip) m.flipped = isFiltered call m := by
  cases m with
  | mk _ _ _ _ type => cases type <;> rfl

theorem fileSignextend_flipped (v : Nat) : fileSignextend m.flipped v = fileSignextend m v := by
  cases m with
  | mk _ _ _ _ type => cases type <;> rfl

theorem mcopy_flipped (regexMax : Nat) (v : Value) (search : Search) (host : Host) (indir : Bool) (s : Window)
    (offset nbytes : Nat) :
    mcopy regexMax v search host m.flipped.type indir s offset nbytes m.flipped =
      mcopy regexMax v search host m.type indir s offset nbytes m := by
  cases m with
  | mk _ _ _ _ type => cases type <;> rfl

theorem enoughData_flipped (nbytes offset : Nat) : enoughData m.flipped nbytes offset = enoughData m nbytes offset := by
  cases m with
  | mk _ _ _ _ type => cases type <;> rfl

theorem mconvert_flipped (host : Host) (v : Value) (io : Io) :
    mconvert host m.flipped false v io = mconvert host m true v io := by
  cases m with
  | mk _ _ _ _ type => cases type <;> rfl

theorem moffset_flipped (host : Host) (nbytes o offset : Nat) (search : Search) (v : Value) (io : Io) :
    moffset host m.flipped nbytes o offset search v io = moffset host m nbytes o offset search v io := by
  cases m with
  | mk _ _ _ _ type => cases type <;> rfl

theorem searchFrom_flipped (value : m.flipped.value = m.value) (slen sLen n idx : Nat) (s : Bytes) (v : Int) :
    searchFrom m.flipped slen sLen n idx s v = searchFrom m slen sLen n idx s v := by
  induction n generalizing idx s v with
  | zero => rfl
  | succ n ih =>
      have range : m.flipped.strRange = m.strRange := rfl
      have flags : m.flipped.strFlags = m.strFlags := rfl
      simp only [searchFrom, value, range, flags, ih]

theorem checkSearch_flipped (value : m.flipped.value = m.value) (host : Host) (s : Bytes) (search : Search) :
    checkSearch host m.flipped s search = checkSearch host m s search := by
  have range : m.flipped.strRange = m.strRange := rfl
  have flags : m.flipped.strFlags = m.strFlags := rfl
  have vallen : m.flipped.vallen = m.vallen := rfl
  simp only [checkSearch, searchFrom_flipped m value, value, range, flags, vallen]

theorem magiccheck_flipped (host : Host) (flags : Nat) (v : Value) (search : Search) (io : Io) :
    magiccheck host flags m.flipped v search io = magiccheck host flags m v search io := by
  by_cases type : m.type = .search
  · have value : m.flipped.value = m.value := by
      simp only [Magic.flipped, type, reduceCtorEq, if_false]
    have type' : m.flipped.type = .search := by
      simp only [Magic.flipped, type, cvtFlip, Bool.not_true, Bool.false_eq_true, if_false]
    have flag : m.flipped.flag = m.flag := rfl
    have reln : m.flipped.reln = m.reln := rfl
    simp only [magiccheck, type, type', checkSearch_flipped m value, fileSignextend_flipped, flag, reln]
  · cases m with
    | mk _ _ _ _ kind =>
        cases kind
        case search => exact absurd rfl type
        all_goals rfl

theorem mprint_flipped (env : Env) (v : Value) (search : Search) (io : Io) :
    mprint env m.flipped v search io = mprint env m v search io := by
  cases m with
  | mk _ _ _ _ type => cases type <;> rfl

/-! ## The value of an indirect line -/

theorem cvtFlip_cvtFlip (type : MType) : cvtFlip (cvtFlip type true) true = type := by
  cases type <;> rfl

theorem indirectTarget_flipped (host : Host) (bb : Window) (call : Call) (level : Nat) (s : Scan) :
    indirectTarget host m.flipped bb (call.setFlip false) level s =
      indirectTarget host m bb (call.setFlip true) level s := by
  have off : indirectOff host m.flipped false s.value (bb.getD []) (flen bb) s.offset =
      indirectOff host m true s.value (bb.getD []) (flen bb) s.offset := by
    cases m with
    | mk _ _ _ _ _ inType => cases inType <;> rfl
  have lhs : indirectLhs host m.flipped false s.value (flen bb) s.offset =
      indirectLhs host m true s.value (flen bb) s.offset := by
    funext off
    cases m with
    | mk _ _ _ _ _ inType => cases inType <;> rfl
  simp only [indirectTarget, Call.setFlip, off, lhs]
  rfl

theorem resolve_flipped (env : Env) (bb : Window) (call : Call) (level : Nat) (s : Scan) :
    resolve env m.flipped bb (call.setFlip false) level s = resolve env m bb (call.setFlip true) level s := by
  have copy : ∀ indir offset nbytes (s : Scan), s.copy env m.flipped indir bb offset nbytes =
      s.copy env m indir bb offset nbytes := by
    intro indir offset nbytes s
    rw [Scan.copy, Scan.copy, mcopy_flipped]
  have flag : m.flipped.flag = m.flag := rfl
  have offset : (call.setFlip false).offset = (call.setFlip true).offset := rfl
  simp only [resolve, copy, flag, offset, indirectTarget_flipped]

end

/-! ## The name of a `use` line -/

theorem Value.str_write {v : Value} {s : Bytes} (clean : 0 ∉ s) (room : s.length + 1 ≤ 128) :
    (v.write 0 (s ++ [0])).str = s := by
  have text : (v.write 0 (s ++ [0])).bytes = s ++ 0 :: (v.bytes.drop (s.length + 1)).take (127 - s.length) := by
    simp only [Value.write, List.take_zero, List.nil_append, List.length_append, List.length_singleton,
      Nat.zero_add, List.append_assoc, List.singleton_append]
    rw [List.take_append, List.take_of_length_le (by omega)]
    have one : 128 - s.length = 127 - s.length + 1 := by omega
    rw [one, List.take_succ_cons]
  have kept : ∀ c ∈ s, (c != 0) = true := by
    intro c mem
    rw [bne_iff_ne]
    rintro rfl
    exact clean mem
  rw [Value.str, text, List.takeWhile_append_of_pos kept]
  simp

theorem Value.zero_notMem_str (v : Value) : 0 ∉ v.str := by
  intro mem
  have := List.mem_takeWhile_imp mem
  simp at this

theorem useName_caret {m : Magic} {name : Bytes} (str : m.value.str = 0x5e :: name) : useName m = (name, true) := by
  rw [useName, str]
  rfl

theorem useName_plain {m : Magic} (str : m.value.str.head? ≠ some 0x5e) : useName m = (m.value.str, false) := by
  rw [useName]
  split
  · rename_i name eq
    rw [eq] at str
    exact absurd rfl str
  · rfl

theorem Value.toggled_caret {v : Value} {name : Bytes} (str : v.str = 0x5e :: name) :
    v.toggled = v.write 0 (name ++ [0]) := by
  rw [Value.toggled, str]
  rfl

theorem Value.toggled_plain {v : Value} (str : v.str.head? ≠ some 0x5e) :
    v.toggled = v.write 0 (0x5e :: v.str ++ [0]) := by
  rw [Value.toggled]
  split
  · rename_i name eq
    rw [eq] at str
    exact absurd rfl str
  · rfl

/-- The flipped line uses the same name in the other order. -/
theorem useName_flipped {m : Magic} (type : m.type = .use) (toggles : m.Toggles) :
    useName m.flipped = ((useName m).1, !(useName m).2) := by
  have clean := m.value.zero_notMem_str
  obtain ⟨plain, room⟩ := toggles
  have value : m.flipped.value = m.value.toggled := by simp only [Magic.flipped, type, if_true]
  by_cases caret : m.value.str.head? = some 0x5e
  · obtain ⟨name, str⟩ := List.head?_eq_some_iff.mp caret
    rw [useName_caret str] at plain room ⊢
    dsimp only at room
    rw [str] at clean
    have clean' : 0 ∉ name := fun mem => clean (List.mem_cons_of_mem _ mem)
    have text : m.flipped.value.str = name := by
      rw [value, Value.toggled_caret str, Value.str_write clean' (by omega)]
    rw [useName_plain (by rwa [text]), text]
    rfl
  · rw [useName_plain caret] at plain room ⊢
    dsimp only at room
    have clean' : 0 ∉ 0x5e :: m.value.str := by
      intro mem
      rcases List.mem_cons.mp mem with zero | mem
      · exact absurd zero (by decide)
      · exact clean mem
    have text : m.flipped.value.str = 0x5e :: m.value.str := by
      rw [value, Value.toggled_plain caret, Value.str_write clean' (by rw [List.length_cons]; omega)]
    rw [useName_caret text]
    rfl

/-! ## Lines -/

section
variable {recur : Recur} {env : Env} {call : Call} {m : Magic}

theorem use_setFlip (flipped : Bool) (offset : Nat) :
    (call.setFlip false).use (!flipped) offset = (call.setFlip true).use flipped offset := by
  cases flipped <;> rfl

theorem mgetUse_flipped (type : m.type = .use) (toggles : m.Toggles) (bb : Window) (offset : Nat) (s : Scan) :
    mgetUse recur env m.flipped bb (call.setFlip false) offset s =
      mgetUse recur env m bb (call.setFlip true) offset s := by
  have enter : useEnter m.flipped s = useEnter m s := rfl
  simp only [mgetUse, useName_flipped type toggles, use_setFlip, enter]

theorem mgetAt_flipped (toggles : m.type = .use → m.Toggles) (bb : Window) (offset : Nat) (s : Scan) :
    mgetAt recur env m.flipped bb (call.setFlip false) offset s =
      mgetAt recur env m bb (call.setFlip true) offset s := by
  by_cases use : m.type = .use
  · have use' : m.flipped.type = .use := by
      simp only [Magic.flipped, use, cvtFlip, Bool.not_true, Bool.false_eq_true, if_false]
    simp only [mgetAt, use, use', mgetUse_flipped use (toggles use)]
  · have plain : ∀ s : Scan,
        (if !enoughData m.flipped (flen bb) offset then (⟨some false, s, []⟩ : Result)
          else
            let r := mconvert env.host m.flipped false s.value s.io
            ⟨some r.1, { s with value := r.2.1, io := r.2.2 }, []⟩) =
        if !enoughData m (flen bb) offset then (⟨some false, s, []⟩ : Result)
          else
            let r := mconvert env.host m true s.value s.io
            ⟨some r.1, { s with value := r.2.1, io := r.2.2 }, []⟩ := by
      intro s
      rw [enoughData_flipped, mconvert_flipped]
    cases m with
    | mk _ _ _ _ type =>
        cases type
        case use => exact absurd rfl use
        case indirect => rfl
        case name => rfl
        all_goals exact plain s

theorem mget_flipped (toggles : m.type = .use → m.Toggles) (bb : Window) (level : Nat) (s : Scan) :
    mget recur env m.flipped bb (call.setFlip false) level s =
      mget recur env m bb (call.setFlip true) level s := by
  simp only [mget, resolve_flipped, mgetAt_flipped toggles]

theorem type_flipped {type : MType} (fixed : type = .indirect ∨ type = .default ∨ type = .clear) :
    m.flipped.type = type ↔ m.type = type := by
  have same : cvtFlip type true = type := by
    rcases fixed with rfl | rfl | rfl <;> rfl
  constructor
  · intro eq
    have back := cvtFlip_cvtFlip m.type
    rw [← back]
    exact (congrArg (cvtFlip · true) eq).trans same
  · intro eq
    rw [← same, ← eq]
    rfl

theorem get_flipped (toggles : m.type = .use → m.Toggles) (st : St) :
    st.get recur env (call.setFlip false) m.flipped = st.get recur env (call.setFlip true) m := by
  simp only [St.get, mget_flipped toggles, type_flipped (.inl rfl)]

theorem check_flipped (st : St) : st.check env m.flipped = st.check env m := by
  rw [St.check, St.check, magiccheck_flipped]

theorem describeTop_flipped (st : St) : st.describeTop env m.flipped = st.describeTop env m := by
  have desc : m.flipped.desc = m.desc := rfl
  simp only [St.describeTop, St.mprint, desc, mprint_flipped]

theorem describeCont_flipped (st : St) : st.describeCont env m.flipped = st.describeCont env m := by
  have desc : m.flipped.desc = m.desc := rfl
  have flag : m.flipped.flag = m.flag := rfl
  simp only [St.describeCont, St.mprint, desc, flag, mprint_flipped]

theorem record_flipped (st : St) :
    st.record env (call.setFlip false) m.flipped = st.record env (call.setFlip true) m := by
  have offset : (call.setFlip false).offset = (call.setFlip true).offset := rfl
  have level : m.flipped.contLevel = m.contLevel := rfl
  simp only [St.record, moffset_flipped, offset, level]

theorem annotate_flipped (st : St) : st.annotate env m.flipped = st.annotate env m := rfl

theorem place_flipped (st : St) :
    st.place env (call.setFlip false) m.flipped = st.place env (call.setFlip true) m := rfl

theorem topMatched_flipped (read : Bool) (nested : List Row) (st : St) :
    topMatched env (call.setFlip false) m.flipped read nested st =
      topMatched env (call.setFlip true) m read nested st := by
  simp only [topMatched, annotate_flipped, describeTop_flipped, record_flipped]

theorem topStep_flipped (toggles : m.type = .use → m.Toggles) (st : St) :
    topStep recur env (call.setFlip false) m.flipped st = topStep recur env (call.setFlip true) m st := by
  have filtered : isFiltered (call.setFlip false) m.flipped = isFiltered (call.setFlip true) m :=
    isFiltered_flipped m call false
  have line : ∀ st : St, st.setLine m.flipped = st.setLine m := fun _ => rfl
  have reln : m.flipped.reln = m.reln := rfl
  simp only [topStep, topRead, filtered, place_flipped, line, get_flipped toggles, check_flipped, reln,
    topMatched_flipped]

theorem contTakes_flipped (read : Bool) (nested : List Row) (st : St) :
    contTakes env (call.setFlip false) m.flipped read nested st =
      contTakes env (call.setFlip true) m read nested st := by
  simp only [contTakes, annotate_flipped, describeCont_flipped, record_flipped]

theorem contMatched_flipped (read : Bool) (nested : List Row) (st : St) :
    contMatched env (call.setFlip false) m.flipped read nested st =
      contMatched env (call.setFlip true) m read nested st := by
  have clear : (m.flipped.type != MType.clear) = (m.type != MType.clear) := by
    rw [Bool.eq_iff_iff, bne_iff_ne, bne_iff_ne, ne_eq, ne_eq, type_flipped (.inr (.inr rfl))]
  simp only [contMatched, contTakes_flipped, type_flipped (.inr (.inl rfl)), clear]

theorem contStep_flipped (toggles : m.type = .use → m.Toggles) (st : St) :
    contStep recur env (call.setFlip false) m.flipped st = contStep recur env (call.setFlip true) m st := by
  have line : ∀ st : St, st.setLine m.flipped = st.setLine m := fun _ => rfl
  have chained : ∀ st : St, st.isChained m.flipped = st.isChained m := fun _ => rfl
  have reln : m.flipped.reln = m.reln := rfl
  have flag : m.flipped.flag = m.flag := rfl
  have level : m.flipped.contLevel = m.contLevel := rfl
  simp only [contStep, contLine, contTest, contRead, line, chained, reln, flag, level, place_flipped,
    get_flipped toggles, check_flipped, contMatched_flipped]

theorem lineStep_flipped (toggles : m.type = .use → m.Toggles) (phase : Phase) (st : St) :
    lineStep recur env (call.setFlip false) m.flipped phase st =
      lineStep recur env (call.setFlip true) m phase st := by
  cases phase with
  | top => exact topStep_flipped toggles st
  | cont => exact contStep_flipped toggles st
  | flush => rfl

/-! ## Runs -/

/-- The row with the flipped line. -/
def Row.flipped (r : Row) : Row := { r with line := r.line.flipped }

/-- The trace with flipped lines. -/
def Result.flipped (r : Result) : Result := { r with rows := r.rows.map Row.flipped }

theorem walk_flipped {magic : List Magic} (toggles : ∀ m ∈ magic, m.type = .use → m.Toggles) (phase : Phase)
    (st : St) :
    walk recur env (call.setFlip false) (magic.map Magic.flipped) phase st =
      (walk recur env (call.setFlip true) magic phase st).flipped := by
  induction magic generalizing phase st with
  | nil => rfl
  | cons m magic ih =>
      have here := toggles m (List.mem_cons_self ..)
      have rest := ih fun m mem => toggles m (List.mem_cons_of_mem _ mem)
      have arrived : arrive env m.flipped phase st = arrive env m phase st := rfl
      rw [List.map_cons, walk, walk, arrived]
      rcases arrive env m phase st with _ | ⟨phase, st⟩
      · rfl
      · have row : rowOf recur env (call.setFlip false) m.flipped phase st =
            (rowOf recur env (call.setFlip true) m phase st).flipped := by
          simp only [rowOf, lineStep_flipped here]
          rfl
        dsimp only
        rw [row, lineStep_flipped here]
        rcases (lineStep recur env (call.setFlip true) m phase st).next with phase | rv
        · dsimp only
          rw [rest]
          rfl
        · rfl

/-- A call with `flip` set does what a call without it does with the flipped entries, and two
flips on the way to a named entry cancel out. -/
theorem matchN_flipped {magic : List Magic} (toggles : ∀ m ∈ magic, m.type = .use → m.Toggles) (n : Nat)
    (s : Scan) :
    (matchN env n (call.setFlip true) magic s).rv =
        (matchN env n (call.setFlip false) (magic.map Magic.flipped) s).rv ∧
      (matchN env n (call.setFlip true) magic s).scan =
        (matchN env n (call.setFlip false) (magic.map Magic.flipped) s).scan ∧
      (matchN env n (call.setFlip true) magic s).rows.map Row.flipped =
        (matchN env n (call.setFlip false) (magic.map Magic.flipped) s).rows ∧
      ∀ a b, (call.use true a).use true b = (call.use false a).use false b := by
  have same : matchN env n (call.setFlip false) (magic.map Magic.flipped) s =
      (matchN env n (call.setFlip true) magic s).flipped := by
    cases n with
    | zero => rfl
    | succ n =>
        rw [matchN, matchWith, matchWith]
        rcases St.open' env { toScan := s, bb := none, contLevel := 0 } with ⟨_ | _, st⟩
        · rfl
        · exact walk_flipped toggles .top st
  rw [same]
  refine ⟨rfl, rfl, rfl, ?_⟩
  intro a b
  simp [Call.use]

end

/-- `0 beshort x` and `0 use ^part`. -/
def flipLines : List Magic :=
  [{ plainLine with type := .beshort },
    { plainLine with type := .use, value := Value.zero.write 0 (asc "^part") }]

theorem matchN_flipped_lines :
    (∀ m ∈ flipLines, m.type = .use → m.Toggles) ∧
      (matchN (plainEnv [] []) 2 (plainCall.setFlip true) flipLines (plainScan (asc "ab"))).rv =
        (matchN (plainEnv [] []) 2 (plainCall.setFlip false) (flipLines.map Magic.flipped)
          (plainScan (asc "ab"))).rv := by
  have toggles : ∀ m ∈ flipLines, m.type = .use → m.Toggles := by
    intro m mem type
    simp only [flipLines, List.mem_cons, List.not_mem_nil, or_false] at mem
    rcases mem with rfl | rfl
    · cases type
    · exact ⟨by decide +kernel, by decide +kernel⟩
  exact ⟨toggles, (matchN_flipped toggles 2 _).1⟩

end Libmagic.Softmagic
