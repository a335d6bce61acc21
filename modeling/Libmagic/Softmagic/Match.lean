import Libmagic.Softmagic.Check
import Libmagic.Softmagic.Print

/-!
# `softmagic.c`: walking a list of entries

`match` calls `mget`, which calls `match` again on `use` and `indirect` entries.
The nested call is a parameter of `mget` and of the walk; `matchN` ties the knot
with a bound on the nesting, and `overrun` records that the bound was met.

A call of `match` also returns its trace: one `Row` for each line it came to.
-/
namespace Libmagic.Softmagic

/-! ## The level table -/

namespace Cont

/-- A change of `li[level]`. -/
def update (c : Cont) (level : Nat) (f : LevelInfo → LevelInfo) : Cont :=
  { c with li := fun k => if k = level then f (c.li k) else c.li k }

def setOff (c : Cont) (level : Nat) (off : Int) : Cont :=
  c.update level (fun l => { l with off })

def setGot (c : Cont) (level : Nat) (got : Bool) : Cont :=
  c.update level (fun l => { l with gotMatch := got })

def setLast (c : Cont) (level : Nat) (last : Bool) : Cont :=
  c.update level (fun l => { l with lastMatch := last })

/-- The fields that `file_check_mem` sets. -/
def reset (c : Cont) (level : Nat) : Cont :=
  c.update level (fun l => { l with gotMatch := false, lastMatch := false, lastCond := .none })

end Cont

/-- `file_check_mem`. The table keeps its entries when it grows; `len` is set
before the allocation is tried, and `20 + level` is an `unsigned int`. -/
def fileCheckMem (host : Host) (level : Nat) (c : Cont) (io : Io) : Bool × Cont × Io :=
  if level < c.len then (true, c.reset level, io)
  else
    let len := (20 + level) % 2 ^ 32
    let ok := host.malloc io.tick
    let io := { io with tick := io.tick + 1 }
    if ok then (true, { c with len, live := true }.reset level, io)
    else (false, { c with len, live := false }, fileOomem host (len * 16) io)

/-! ## Offsets -/

/-- `msetoffset`: the result with what it changes. -/
structure Placed where
  ok : Bool
  bb : Window
  b : Buffer
  offset : Nat
  eoffset : Nat
  io : Io

/-- The arguments of `match` that stay as they are. -/
structure Call where
  offset : Nat
  mode : Nat
  text : Bool
  flip : Bool
  deriving DecidableEq

/-- `msetoffset(ms, m, bb, b, o, cont_level)`. -/
def msetoffset (host : Host) (m : Magic) (o contLevel : Nat) (p : Placed) : Placed :=
  let failed (p : Placed) : Placed := { p with ok := false }
  let normal (offset : Int) : Placed :=
    { p with ok := true, bb := p.b.fbuf, offset := uN 32 offset, eoffset := 0 }
  if has m.flag OFFNEGATIVE then
    if contLevel > 0 ∧ has m.flag (OFFADD ||| INDIROFFADD) then normal (sN 32 (-m.offset))
    else
      let filled := bufferFill host p.b p.io
      let p := { p with b := filled.2.1, io := filled.2.2 }
      if !filled.1 then failed p
      else if o ≠ 0 then
        let io := fileMagerror host (asc "non zero offset %zu at level %u")
          [.uint o, .uint contLevel] p.io
        failed { p with io }
      else if p.b.file.isNone then
        if uN 64 m.offset > flen p.b.fbuf then failed p
        else
          let offset := uN 32 (flen p.b.fbuf - m.offset)
          { p with ok := true, offset, eoffset := offset }
      else if uN 64 m.offset > p.b.elen then failed p
      else
        let offset := uN 32 (p.b.elen - m.offset)
        { p with ok := true, bb := p.b.ebuf, offset, eoffset := offset }
  else if has m.flag OFFPOSITIVE ∨ contLevel = 0 then normal m.offset
  else { p with ok := true, offset := uN 32 (p.eoffset + m.offset) }

/-- `moffset`: the result with what it changes. -/
structure Recorded where
  ok : Bool
  /-- `*op` -/
  off : Option Int
  /-- `li[m->cont_level - 1].off`, which `der_offs` sets -/
  outer : Option Int
  value : Value
  io : Io

/-- `moffset(ms, m, nbytes, offset, op)`. -/
def moffset (host : Host) (m : Magic) (nbytes o offset : Nat) (search : Search) (v : Value) (io : Io) :
    Recorded :=
  let failed : Recorded := { ok := false, off := none, outer := none, value := v, io }
  let checked (outer : Option Int) (v : Value) (io : Io) (o : Int) : Recorded :=
    if uN 64 o > nbytes then { ok := false, off := none, outer, value := v, io }
    else { ok := true, off := some o, outer, value := v, io }
  let plain (o : Int) : Recorded := checked none v io o
  let width (n : Nat) : Recorded := plain (sN 32 (offset + n))
  match m.type with
  | .byte => width 1
  | .short | .beshort | .leshort | .msdosdate | .lemsdosdate | .bemsdosdate | .msdostime
  | .lemsdostime | .bemsdostime => width 2
  | .long | .belong | .lelong | .melong => width 4
  | .quad | .bequad | .lequad => width 8
  | .string | .pstring | .bestring16 | .lestring16 | .octal =>
      if m.reln = .eq ∨ m.reln = .ne then width m.vallen
      else
        let v := if m.value.get 0 = 0 then v.cutLine else v
        let o := sN 32 (offset + v.str.length)
        if m.type = .pstring then
          match filePstringLengthSize host m io with
          | (none, io) => { failed with value := v, io }
          | (some l, io) => checked none v io (sN 32 (o + l))
        else checked none v io o
  | .date | .bedate | .ledate | .medate | .ldate | .beldate | .leldate | .meldate => width 4
  | .qdate | .beqdate | .leqdate | .qldate | .beqldate | .leqldate => width 8
  | .float | .befloat | .lefloat => width 4
  | .double | .bedouble | .ledouble => width 8
  | .regex =>
      plain (sN 32 (search.offset +
        (if has m.strFlags REGEX_OFFSET_START then 0 else search.rmLen) - o))
  | .search =>
      plain (sN 32 (search.offset + (if has m.strFlags REGEX_OFFSET_START then 0 else m.vallen) - o))
  | .clear | .default | .indirect | .offset | .use => plain (sN 32 offset)
  | .der =>
      let r := derOffs m search offset nbytes
      if r.1 = -1 ∨ uN 64 r.1 > nbytes then
        { ok := false, off := some 0, outer := r.2, value := v, io }
      else checked r.2 v io r.1
  | .beguid | .leguid | .guid => width 16
  | .invalid | .qwdate | .leqwdate | .beqwdate | .name | .bevarint | .levarint | .beid3 | .leid3
  | .other _ => plain 0

/-! ## The state of a walk and its trace -/

/-- What a call of `match` shares with its caller. `overrun` is not in the source:
it says that the nesting went beyond the bound of `matchN`. -/
structure Scan extends Ms where
  b : Buffer
  indirCount : Nat
  nameCount : Nat
  printedSomething : Bool
  needSeparator : Bool
  firstline : Bool
  returnval : Bool
  foundMatch : Bool
  overrun : Bool

/-- With the local variables of `match`. -/
structure St extends Scan where
  bb : Window
  contLevel : Nat

/-- Where `match` is: at the head of its loop, in the loop over continuations, or
in the loop behind `flush`. -/
inductive Phase where
  | top | cont | flush
  deriving DecidableEq

/-- How `match` leaves a line. -/
inductive Event where
  /-- skipped behind `flush` -/
  | flushed
  /-- a top-level line of another mode -/
  | filtered
  /-- a continuation above the current level -/
  | above
  /-- `msetoffset` failed -/
  | unset
  /-- an `elif` or `else` that was not tested -/
  | chained
  /-- `mget` returned 0 -/
  | unread
  /-- `magiccheck` returned 0 -/
  | failed
  /-- a `default` behind a match -/
  | suppressed
  /-- a match: whether the data was read, and whether `moffset` returned 1 -/
  | matched (read offsetOk : Bool)
  /-- `match` returned -/
  | stopped
  deriving DecidableEq

/-- One line of a trace, with the trace of the nested calls. -/
structure Row where
  line : Magic
  phase : Phase
  event : Event
  before : St
  after : St
  nested : List Row

/-- A return value with the state and the trace of the nested calls; `none` is `-1`. -/
structure Result where
  rv : Option Bool
  scan : Scan
  rows : List Row

/-- A nested call of `match`. -/
abbrev Recur := Call → List Magic → Scan → Result

/-! ## `mget` -/

/-- `file_magicfind`. -/
def magicfindIn (name : Bytes) : List Magic → Option (List Magic)
  | [] => none
  | m :: magic =>
      if m.type = .name ∧ m.value.str = name then
        some (m :: magic.takeWhile (fun m => m.contLevel != 0))
      else magicfindIn name magic

def fileMagicfind (env : Env) (name : Bytes) : Option (List Magic) :=
  env.mlistNamed.findSome? (magicfindIn name)

/-- Whether the data is long enough for the type of `m`. -/
def enoughData (m : Magic) (nbytes offset : Nat) : Bool :=
  match m.type with
  | .byte => !offsetOob nbytes offset 1
  | .short | .beshort | .leshort => !offsetOob nbytes offset 2
  | .long | .belong | .lelong | .melong | .date | .bedate | .ledate | .medate | .ldate | .beldate
  | .leldate | .meldate | .float | .befloat | .lefloat => !offsetOob nbytes offset 4
  | .double | .bedouble | .ledouble => !offsetOob nbytes offset 8
  | .leguid | .beguid | .guid => !offsetOob nbytes offset 16
  | .string | .pstring | .search | .octal => !offsetOob nbytes offset m.vallen
  | .regex => decide (offset ≤ nbytes)
  | _ => true

/-- The offset that an indirect line reads, or `none` for `return 0`. -/
def indirectTarget (host : Host) (m : Magic) (bb : Window) (call : Call) (contLevel : Nat) (s : Scan) :
    Option Nat :=
  let nbytes := flen bb
  let off : Option Int :=
    if has m.inOp FILE_OPINDIRECT then
      indirectOff host m call.flip s.value (bb.getD []) nbytes s.offset
    else some m.inOffset
  match off.bind (indirectLhs host m call.flip s.value nbytes s.offset) with
  | none => none
  | some offset =>
      if !has m.flag INDIROFFADD then some offset
      else if contLevel = 0 then none
      else
        let offset := uN 32 (offset + (s.c.li (contLevel - 1)).off)
        if offset = 0 then none else some offset

/-- `mcopy` in `mget`. -/
def Scan.copy (env : Env) (m : Magic) (indir : Bool) (bb : Window) (offset nbytes : Nat) (s : Scan) : Scan :=
  let r := mcopy env.regexMax s.value s.search env.host m.type indir bb offset nbytes m
  { s with value := r.1, search := r.2 }

/-- `mget` up to the length check: the offset, or `none` for `return 0`. -/
def resolve (env : Env) (m : Magic) (bb : Window) (call : Call) (contLevel : Nat) (s : Scan) :
    Option Nat × Scan :=
  let indir := has m.flag INDIR
  let s := s.copy env m indir bb (uN 32 (s.offset + call.offset)) (uN 32 (flen bb))
  if !indir then (some s.offset, s)
  else match indirectTarget env.host m bb call contLevel s with
    | none => (none, s)
    | some offset => (some offset, { s.copy env m false bb offset (flen bb) with offset })

/-- The loop of `FILE_INDIRECT` over the lists; `returnval` and `found_match` are
the nested call's own. -/
def indirectLoop (recur : Recur) (call : Call) : List (List Magic) → Option Bool → Scan → Result
  | [], rv, s => ⟨rv, s, []⟩
  | magic :: mlist, _, s =>
      let r := recur call magic { s with returnval := false, foundMatch := false }
      if r.rv ≠ some false then r
      else
        let rest := indirectLoop recur call mlist r.rv r.scan
        { rest with rows := r.rows ++ rest.rows }

/-- The output of an `indirect` entry after its nested call. -/
def indirectPrint (env : Env) (m : Magic) (offset : Nat) (rbuf : Option Bytes) (io : Io) : Bool × Io :=
  let printed :=
    if has env.flags MAGIC_NODESC then (true, io)
    else
      let r := fileFmtcheck env.host m.desc (asc "%u") io
      filePrintf env.host r.1 [.uint offset] r.2
  match printed, rbuf with
  | (true, io), some text => filePrintf env.host (asc "%s") [.str text] io
  | r, _ => r

/-- The state in which the nested call of an `indirect` entry starts. -/
def indirectEnter (bb : Window) (offset : Nat) (s : Scan) : Scan :=
  { s with
    io := { s.io with buf := none, tick := s.io.tick + 1 }
    offset := 0
    indirCount := (s.indirCount + 1) % 2 ^ 16
    b := { s.b with fbuf := bb.map (·.drop offset), ebuf := none, elen := 0 } }

/-- What the caller of `match` has after the nested call of an `indirect` entry. -/
def indirectLeave (s : Scan) (r : Scan) : Scan :=
  { r with b := s.b, returnval := s.returnval, foundMatch := s.foundMatch }

/-- The offset of an `indirect` entry, when its nested call is made. -/
def indirectOffset (m : Magic) (call : Call) (nbytes offset : Nat) : Option Nat :=
  let offset := if has m.strFlags INDIRECT_RELATIVE then uN 32 (offset + call.offset) else offset
  if offset = 0 ∨ nbytes < offset then none else some offset

/-- The arguments of the nested call of an `indirect` entry. -/
def Call.indirect (call : Call) : Call := { offset := 0, mode := BINTEST, text := call.text, flip := false }

/-- The `FILE_INDIRECT` case. -/
def mgetIndirect (recur : Recur) (env : Env) (m : Magic) (bb : Window) (call : Call) (offset : Nat)
    (s : Scan) : Result :=
  match indirectOffset m call (flen bb) offset with
  | none => ⟨some false, s, []⟩
  | some offset =>
      -- `file_push_buffer`
      if s.io.hadErr then ⟨none, s, []⟩
      else if !env.host.malloc s.io.tick then
        ⟨none, { s with io := { s.io with tick := s.io.tick + 1 } }, []⟩
      else
        let r := indirectLoop recur call.indirect env.mlist none (indirectEnter bb offset s)
        let after := indirectLeave s r.scan
        -- `file_pop_buffer`
        if after.io.hadErr then ⟨none, after, r.rows⟩
        else
          let rbuf := after.io.buf
          let after := { after with io := { after.io with buf := s.io.buf }, offset := s.offset }
          if r.rv = some true then
            let p := indirectPrint env m offset rbuf after.io
            ⟨if p.1 then some true else none, { after with io := p.2 }, r.rows⟩
          else ⟨r.rv, after, r.rows⟩

/-- The name in a `use` entry, and whether it asks for the other byte order. -/
def useName (m : Magic) : Bytes × Bool :=
  match m.value.str with
  | 0x5e :: name => (name, true)
  | name => (name, false)

/-- The arguments of the nested call of a `use` entry. -/
def Call.use (call : Call) (flipped : Bool) (offset : Nat) : Call :=
  { call with offset := (offset + call.offset) % 2 ^ 64, flip := call.flip ^^ flipped }

/-- The state in which the nested call of a `use` entry starts. -/
def useEnter (m : Magic) (s : Scan) : Scan :=
  { s with
    io := { s.io with tick := s.io.tick + 1 }
    needSeparator := s.needSeparator && !has m.flag NOSPACE
    nameCount := (s.nameCount + 1) % 2 ^ 16
    foundMatch := false }

/-- What the caller of `match` has after the nested call of a `use` entry. -/
def useLeave (host : Host) (offset : Nat) (s : Scan) (rv : Option Bool) (r : Scan) : Scan :=
  { r with
    value := r.value.store host 8 (if r.foundMatch then 1 else 0)
    nameCount := (r.nameCount + (2 ^ 16 - 1)) % 2 ^ 16
    foundMatch := s.foundMatch || r.foundMatch
    c := s.c
    needSeparator := if rv = some true then r.needSeparator else s.needSeparator
    offset
    eoffset := s.eoffset }

/-- The `FILE_USE` case. -/
def mgetUse (recur : Recur) (env : Env) (m : Magic) (bb : Window) (call : Call) (offset : Nat)
    (s : Scan) : Result :=
  if flen bb < offset then ⟨some false, s, []⟩
  else
    let name := useName m
    match fileMagicfind env name.1 with
    | none =>
        let io := fileError env.host 0 (asc "cannot find entry `%s'") [.str name.1] s.io
        ⟨none, { s with io }, []⟩
    | some magic =>
        -- `save_cont`
        if !env.host.malloc s.io.tick then
          let io := { s.io with tick := s.io.tick + 1 }
          let io := fileError env.host ENOMEM (asc "can't allocate continuation") [] io
          ⟨none, { s with io }, []⟩
        else
          let r := recur (call.use name.2 offset) magic (useEnter m s)
          let after := useLeave env.host offset s r.rv r.scan
          ⟨if r.rv = some false then some after.foundMatch else r.rv, after, r.rows⟩

/-- `mget` behind the resolution of the offset. -/
def mgetAt (recur : Recur) (env : Env) (m : Magic) (bb : Window) (call : Call) (offset : Nat)
    (s : Scan) : Result :=
  match m.type with
  | .indirect => mgetIndirect recur env m bb call offset s
  | .use => mgetUse recur env m bb call offset s
  | .name =>
      if has env.flags MAGIC_NODESC then ⟨some true, s, []⟩
      else
        let p := filePrintf env.host (asc "%s") [.str m.desc] s.io
        ⟨if p.1 then some true else none, { s with io := p.2 }, []⟩
  | _ =>
      if !enoughData m (flen bb) offset then ⟨some false, s, []⟩
      else
        let r := mconvert env.host m call.flip s.value s.io
        ⟨some r.1, { s with value := r.2.1, io := r.2.2 }, []⟩

/-- `mget`. -/
def mget (recur : Recur) (env : Env) (m : Magic) (bb : Window) (call : Call) (contLevel : Nat)
    (s : Scan) : Result :=
  if s.indirCount ≥ env.indirMax then
    let io := fileError env.host 0 (asc "indirect count (%hu) exceeded") [.uint s.indirCount] s.io
    ⟨none, { s with io }, []⟩
  else if s.nameCount ≥ env.nameMax then
    let io := fileError env.host 0 (asc "name use count (%hu) exceeded") [.uint s.nameCount] s.io
    ⟨none, { s with io }, []⟩
  else match resolve env m bb call contLevel s with
    | (none, s) => ⟨some false, s, []⟩
    | (some offset, s) => mgetAt recur env m bb call offset s

/-! ## `match` -/

/-- What `match` does after a line. -/
inductive Next where
  | go (phase : Phase)
  | ret (rv : Option Bool)

/-- A line that was left. -/
structure Outcome where
  event : Event
  st : St
  next : Next
  nested : List Row

/-- `ms->line = m->lineno`. -/
def St.setLine (m : Magic) (st : St) : St := { st with io := { st.io with line := m.lineno } }

def St.setLevel (level : Nat) (st : St) : St := { st with contLevel := level }

def St.setCont (c : Cont) (st : St) : St := { st with c }

/-- `ms->offset += ms->c.li[cont_level - 1].off`. -/
def St.addOff (st : St) : St :=
  { st with offset := uN 32 (st.offset + (st.c.li (st.contLevel - 1)).off) }

/-- `match` returns at this line. -/
def St.stop (st : St) (rv : Option Bool) (nested : List Row) : Outcome :=
  ⟨.stopped, st, .ret rv, nested⟩

/-- `goto flush`. -/
def St.flushFrom (st : St) (event : Event) (nested : List Row) : Outcome :=
  ⟨event, st.setLevel 0, .go .flush, nested⟩

/-- `msetoffset` in `match`. -/
def St.place (env : Env) (call : Call) (m : Magic) (st : St) : Bool × St :=
  let p := msetoffset env.host m call.offset st.contLevel
    ⟨true, st.bb, st.b, st.offset, st.eoffset, st.io⟩
  (p.ok, { st with bb := p.bb, b := p.b, offset := p.offset, eoffset := p.eoffset, io := p.io })

/-- `mget` in `match`, with the change behind it for `FILE_INDIRECT`. -/
def St.get (recur : Recur) (env : Env) (call : Call) (m : Magic) (st : St) :
    Option Bool × St × List Row :=
  let r := mget recur env m st.bb call st.contLevel st.toScan
  let st := { st with toScan := r.scan }
  let st :=
    if r.rv = some true ∧ m.type = .indirect then { st with foundMatch := true, returnval := true }
    else st
  (r.rv, st, r.rows)

/-- `magiccheck` in `match`. -/
def St.check (env : Env) (m : Magic) (st : St) : Option Bool × St :=
  let r := magiccheck env.host env.flags m st.value st.search st.io
  (r.matched, { st with value := r.value, search := r.search, io := r.io })

/-- `handle_annotation` in `match`: the value that is returned at once, if any. -/
def St.annotate (env : Env) (m : Magic) (st : St) : Option (Option Bool) × St :=
  let r := handleAnnotation env m st.firstline st.io
  let st := { st with io := r.2 }
  if r.1 = some false then (none, st)
  else (some r.1, { st with
    foundMatch := true, needSeparator := true, printedSomething := true, returnval := true
    firstline := false })

/-- `mprint` in `match`. -/
def St.mprint (env : Env) (m : Magic) (st : St) : Bool × St :=
  let r := Softmagic.mprint env m st.value st.search st.io
  (r.1, { st with value := r.2.1, io := r.2.2 })

/-- `print` in `match`. -/
def Env.print (env : Env) : Bool := !has env.flags MAGIC_NODESC

/-- The description of a top-level line. -/
def St.describeTop (env : Env) (m : Magic) (st : St) : Bool × St :=
  if m.desc = [] then (true, st)
  else
    let st := { st with foundMatch := true }
    if !env.print then (true, st)
    else
      let st := { st with returnval := true, needSeparator := true, printedSomething := true }
      let sep := printSep env.host st.firstline st.io
      let st := { st with io := sep.2 }
      if !sep.1 then (false, st) else St.mprint env m st

/-- The description of a continuation. -/
def St.describeCont (env : Env) (m : Magic) (st : St) : Bool × St :=
  if m.desc = [] then (true, st)
  else
    let st := { st with foundMatch := true }
    if !env.print then (true, st)
    else
      let st := { st with returnval := true }
      let sep := if st.printedSomething then (true, st.io) else printSep env.host st.firstline st.io
      let st := { st with printedSomething := true, io := sep.2 }
      if !sep.1 then (false, st)
      else
        let space :=
          if st.needSeparator && !has m.flag NOSPACE then filePrintf env.host (asc " ") [] st.io
          else (true, st.io)
        let st := { st with io := space.2 }
        if !space.1 then (false, st)
        else
          let r := St.mprint env m st
          (r.1, { r.2 with needSeparator := r.1 || r.2.needSeparator })

/-- `moffset` in `match`, at `&ms->c.li[cont_level].off`. -/
def St.record (env : Env) (call : Call) (m : Magic) (st : St) : Bool × St :=
  let r := moffset env.host m (flen st.bb) call.offset st.offset st.search st.value st.io
  let c := match r.outer with
    | none => st.c
    | some off => st.c.setOff (m.contLevel - 1) off
  let c := match r.off with
    | none => c
    | some off => c.setOff st.contLevel off
  (r.ok, { st with c, value := r.value, io := r.io })

/-- `file_check_mem` in `match`, at the current level. -/
def St.open' (env : Env) (st : St) : Bool × St :=
  let r := fileCheckMem env.host st.contLevel st.c st.io
  (r.1, { st with c := r.2.1, io := r.2.2 })

/-- A top-level line that matched. -/
def topMatched (env : Env) (call : Call) (m : Magic) (read : Bool) (nested : List Row) (st : St) :
    Outcome :=
  match st.annotate env m with
  | (some rv, st) => st.stop rv nested
  | (none, st) =>
      match st.describeTop env m with
      | (false, st) => st.stop none nested
      | (true, st) =>
          match st.record env call m with
          | (false, st) => st.flushFrom (.matched read false) nested
          | (true, st) =>
              match (st.setLevel (st.contLevel + 1)).open' env with
              | (false, st) => st.stop none nested
              | (true, st) => ⟨.matched read true, st, .go .cont, nested⟩

/-- Whether a top-level line is of another mode. -/
def isFiltered (call : Call) (m : Magic) : Bool :=
  let test := m.strFlags &&& (STRING_BINTEST ||| STRING_TEXTTEST)
  m.type != .name &&
    ((m.type.isString &&
        ((call.text && test == STRING_BINTEST) || (!call.text && test == STRING_TEXTTEST))) ||
      m.flag &&& call.mode != call.mode)

/-- A top-level line that is tested. -/
def topRead (recur : Recur) (env : Env) (call : Call) (m : Magic) (st : St) : Outcome :=
  match st.get recur env call m with
  | (none, st, nested) => st.stop none nested
  | (some false, st, nested) =>
      if m.reln ≠ .ne then st.flushFrom .unread nested else topMatched env call m false nested st
  | (some true, st, nested) =>
      match st.check env m with
      | (none, st) => st.stop none nested
      | (some false, st) => st.flushFrom .failed nested
      | (some true, st) => topMatched env call m true nested st

/-- A line at the head of the loop of `match`. -/
def topStep (recur : Recur) (env : Env) (call : Call) (m : Magic) (st : St) : Outcome :=
  if isFiltered call m then st.flushFrom .filtered []
  else match st.place env call m with
    | (false, st) =>
        if st.b.elen = FILE_BADSIZE then ⟨.unset, st, .go .top, []⟩ else st.flushFrom .unset []
    | (true, st) => topRead recur env call m (st.setLine m)

/-- A continuation that takes effect. -/
def contTakes (env : Env) (call : Call) (m : Magic) (read : Bool) (nested : List Row) (st : St) :
    Outcome :=
  match st.annotate env m with
  | (some rv, st) => st.stop rv nested
  | (none, st) =>
      match st.describeCont env m with
      | (false, st) => st.stop none nested
      | (true, st) =>
          let r := st.record env call m
          let level := if r.1 then st.contLevel + 1 else st.contLevel
          match (r.2.setLevel level).open' env with
          | (false, st) => st.stop none nested
          | (true, st) => ⟨.matched read r.1, st, .go .cont, nested⟩

/-- A continuation whose test holds. -/
def contMatched (env : Env) (call : Call) (m : Magic) (read : Bool) (nested : List Row) (st : St) :
    Outcome :=
  let c := st.c.setLast st.contLevel true
  if m.type = .default ∧ (c.li st.contLevel).gotMatch then
    ⟨.suppressed, st.setCont c, .go .cont, nested⟩
  else contTakes env call m read nested
    (st.setCont (c.setGot st.contLevel (m.type != MType.clear)))

/-- A continuation that is tested. -/
def contRead (recur : Recur) (env : Env) (call : Call) (m : Magic) (st : St) : Outcome :=
  match st.get recur env call m with
  | (none, st, nested) => st.stop none nested
  | (some false, st, nested) =>
      if m.reln ≠ .ne then ⟨.unread, st, .go .cont, nested⟩
      else contMatched env call m false nested st
  | (some true, st, nested) =>
      match st.check env m with
      | (none, st) => st.stop none nested
      | (some false, st) =>
          ⟨.failed, st.setCont (st.c.setLast st.contLevel false), .go .cont, nested⟩
      | (some true, st) => contMatched env call m true nested st

/-- Whether a continuation is skipped for its condition. -/
def St.isChained (m : Magic) (st : St) : Bool :=
  (m.cond == .else' || m.cond == .elif) && (st.c.li st.contLevel).lastMatch

/-- A continuation whose offset is set. -/
def contTest (recur : Recur) (env : Env) (call : Call) (m : Magic) (st : St) : Outcome :=
  if st.isChained m then ⟨.chained, st, .go .cont, []⟩ else contRead recur env call m st

/-- A continuation at the current level. -/
def contLine (recur : Recur) (env : Env) (call : Call) (m : Magic) (st : St) : Outcome :=
  match st.place env call m with
  | (false, st) =>
      if st.b.elen = FILE_BADSIZE then ⟨.unset, st, .go .cont, []⟩ else st.flushFrom .unset []
  | (true, st) =>
      if !has m.flag OFFADD then contTest recur env call m st
      else if st.contLevel = 0 then st.stop (some false) []
      else contTest recur env call m st.addOff

/-- A line in the loop over continuations. -/
def contStep (recur : Recur) (env : Env) (call : Call) (m : Magic) (st : St) : Outcome :=
  let st := st.setLine m
  if st.contLevel < m.contLevel then ⟨.above, st, .go .cont, []⟩
  else contLine recur env call m (st.setLevel m.contLevel)

/-- One line, where `match` is. -/
def lineStep (recur : Recur) (env : Env) (call : Call) (m : Magic) (phase : Phase) (st : St) : Outcome :=
  match phase with
  | .top => topStep recur env call m st
  | .cont => contStep recur env call m st
  | .flush => ⟨.flushed, st, .go .flush, []⟩

/-- What `match` changes behind the loop over continuations. -/
def St.endEntry (env : Env) (st : St) : St :=
  let st := if st.printedSomething then { st with firstline := false } else st
  let st := { st with contLevel := 0 }
  if st.foundMatch && has env.flags MAGIC_CONTINUE then
    { st with printedSomething := false, firstline := false }
  else st

/-- Whether `match` returns behind the loop over continuations. -/
def St.isDone (env : Env) (st : St) : Bool := st.foundMatch && !has env.flags MAGIC_CONTINUE

/-- Where `match` is when it comes to `m`; `none` is a return before it. -/
def arrive (env : Env) (m : Magic) (phase : Phase) (st : St) : Option (Phase × St) :=
  match phase with
  | .top => some (.top, st)
  | .cont =>
      if m.contLevel ≠ 0 then some (.cont, st)
      else if st.isDone env then none
      else some (.top, st.endEntry env)
  | .flush => some (if m.contLevel ≠ 0 then .flush else .top, st)

/-- `return *returnval`. -/
def St.finish (env : Env) (phase : Phase) (st : St) : Result :=
  ⟨some st.returnval, (if phase = .cont then st.endEntry env else st).toScan, []⟩

/-- The row of the line `m`. -/
def rowOf (recur : Recur) (env : Env) (call : Call) (m : Magic) (phase : Phase) (st : St) : Row :=
  let o := lineStep recur env call m phase st
  ⟨m, phase, o.event, st, o.st, o.nested⟩

/-- The loops of `match`. -/
def walk (recur : Recur) (env : Env) (call : Call) : List Magic → Phase → St → Result
  | [], phase, st => st.finish env phase
  | m :: magic, phase, st =>
      match arrive env m phase st with
      | none => st.finish env phase
      | some (phase, st) =>
          let row := rowOf recur env call m phase st
          match (lineStep recur env call m phase st).next with
          | .ret rv => ⟨rv, row.after.toScan, [row]⟩
          | .go phase =>
              let r := walk recur env call magic phase row.after
              { r with rows := row :: r.rows }

/-- `match`, on a nested call. -/
def matchWith (recur : Recur) (env : Env) (call : Call) (magic : List Magic) (s : Scan) : Result :=
  match St.open' env { toScan := s, bb := none, contLevel := 0 } with
  | (false, st) => ⟨none, st.toScan, []⟩
  | (true, st) => walk recur env call magic .top st

/-- `match`, with at most `n` calls open at once. -/
def matchN (env : Env) : Nat → Recur
  | 0 => fun _ _ s => ⟨none, { s with overrun := true }, []⟩
  | n + 1 => matchWith (matchN env n) env

/-- `match`. The outermost call nests at most `indir_max + name_max` deep. -/
def matchMagic (env : Env) : Recur := matchN env (env.indirMax + env.nameMax + 1)

/-! ## `file_softmagic` -/

/-- The loop of `file_softmagic`, from the value `rv` so far. -/
def softmagicLoop (env : Env) (call : Call) : List (List Magic) → Bool → Scan → Option Bool × Scan
  | [], rv, s => (some rv, s)
  | magic :: mlist, rv, s =>
      let r := matchMagic env call magic { s with returnval := false, foundMatch := false }
      match r.rv with
      | none => (none, r.scan)
      | some false => softmagicLoop env call mlist rv r.scan
      | some true =>
          if has env.flags MAGIC_CONTINUE then softmagicLoop env call mlist true r.scan
          else (some true, r.scan)

/-- `file_softmagic`, with both counters given. -/
def fileSoftmagic (env : Env) (mode : Nat) (text : Bool) (s : Scan) : Option Bool × Scan :=
  softmagicLoop env { offset := 0, mode, text, flip := false } env.mlist false
    { s with printedSomething := false, needSeparator := false, firstline := true }

/-! ## A plain machine

Inputs for runs on concrete data: allocation succeeds, and formats are `%s` or text
without directives. -/

def plainHost : Host where
  bigendian := false
  haveMemmem := true
  malloc := fun _ => true
  vasprintf := fun fmt args =>
    match args with
    | [.str s] => if fmt = asc "%s" then some s else if fmt.contains 0x25 then none else some fmt
    | _ => if fmt.contains 0x25 then none else some fmt
  strerror := fun _ => []
  fmtcheck := fun _ _ => false
  regcomp := fun _ _ => none
  regexec := fun _ _ _ => .noMatch
  fmtdatetime := fun _ _ => []
  fmtdate := fun _ => []
  fmttime := fun _ => []

/-- `0 byte x`, as a binary test. -/
def plainLine : Magic where
  flag := BINTEST
  contLevel := 0
  reln := .any
  vallen := 0
  type := .byte
  inType := .invalid
  inOp := 0
  maskOp := 0
  cond := .none
  offset := 0
  inOffset := 0
  lineno := 0
  strRange := 0
  strFlags := 0
  value := .zero
  desc := []
  mimetype := []
  apple := []
  ext := []

def plainEnv (mlist mlistNamed : List (List Magic)) : Env where
  host := plainHost
  flags := 0
  mode := 0
  mlist := mlist
  mlistNamed := mlistNamed
  indirMax := 50
  nameMax := 150
  regexMax := 8192

/-- The call of `file_softmagic` for binary tests. -/
def plainCall : Call where
  offset := 0
  mode := BINTEST
  text := false
  flip := false

/-- The state before a buffer without a file is matched. -/
def plainScan (data : Bytes) : Scan where
  c := { len := 0, live := false, li := fun _ => ⟨0, false, false, .none⟩ }
  io := { buf := none, hadErr := false, error := 0, line := 0, tick := 0 }
  offset := 0
  eoffset := 0
  search := ⟨none, 0, 0, 0⟩
  value := .zero
  b := { file := none, fbuf := some data, ebuf := none, elen := 0 }
  indirCount := 0
  nameCount := 0
  printedSomething := false
  needSeparator := false
  firstline := true
  returnval := false
  foundMatch := false
  overrun := false

end Libmagic.Softmagic
