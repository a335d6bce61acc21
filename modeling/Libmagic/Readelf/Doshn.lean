import Libmagic.Readelf.Safety

/-!
# `readelf.c`: the sections

`doshn` looks for a section with debug information and for a symbol table. The name of a section is
read before its header, with the header that was read last.
-/
namespace Libmagic.Readelf

open Softmagic
open Run (Yields)

def SHT_SYMTAB : Nat := 2
def SHT_NOTE : Nat := 7
def SHT_SUNW_cap : Nat := 0x6ffffff5

def EM_SPARC : Nat := 2
def EM_386 : Nat := 3
def EM_SPARC32PLUS : Nat := 18
def EM_SPARCV9 : Nat := 43
def EM_IA_64 : Nat := 50
def EM_AMD64 : Nat := 62

def CA_SUNW_NULL : Nat := 0
def CA_SUNW_HW_1 : Nat := 1
def CA_SUNW_SF_1 : Nat := 2

def SF1_SUNW_FPKNWN : Nat := 0x01
def SF1_SUNW_FPUSED : Nat := 0x02
def SF1_SUNW_MASK : Nat := 0x03

def capDescSparc : List (Nat × String) :=
  [(0x0001, "MUL32"), (0x0002, "DIV32"), (0x0004, "FSMULD"), (0x0008, "V8PLUS"), (0x0010, "POPC"),
    (0x0020, "VIS"), (0x0040, "VIS2"), (0x0080, "ASI_BLK_INIT"), (0x0100, "FMAF"), (0x4000, "FJFMAU"),
    (0x8000, "IMA")]

def capDesc386 : List (Nat × String) :=
  [(0x00000001, "FPU"), (0x00000002, "TSC"), (0x00000004, "CX8"), (0x00000008, "SEP"),
    (0x00000010, "AMD_SYSC"), (0x00000020, "CMOV"), (0x00000040, "MMX"), (0x00000080, "AMD_MMX"),
    (0x00000100, "AMD_3DNow"), (0x00000200, "AMD_3DNowx"), (0x00000400, "FXSR"), (0x00000800, "SSE"),
    (0x00001000, "SSE2"), (0x00002000, "PAUSE"), (0x00004000, "SSE3"), (0x00008000, "MON"),
    (0x00010000, "CX16"), (0x00020000, "AHF"), (0x00040000, "TSCP"), (0x00080000, "AMD_SSE4A"),
    (0x00100000, "POPCNT"), (0x00200000, "AMD_LZCNT"), (0x00400000, "SSSE3"), (0x00800000, "SSE4.1"),
    (0x01000000, "SSE4.2")]

/-- What the section bodies carry along. -/
structure Caps where
  nbadcap : Nat
  capHw1 : Nat
  capSf1 : Nat
  notecount : UInt16

/-- The two reports. -/
inductive Report where
  | debugInfo | stripped | notStripped
  deriving DecidableEq, Repr

/-- What `doshn` is called with, and what the system has for it. -/
structure Doshn where
  e : Elf
  /-- What the memory for the notes has in it. -/
  behind : Nat → UInt8
  /-- `ms->elf_shsize_max`. -/
  elfShsizeMax : Nat
  fsize : Int
  mach : Nat
  /-- `lseek` to an offset succeeds. -/
  lseek : Int → Bool

namespace Doshn

variable (d : Doshn)

def shSizeof : Nat := match d.e.clazz with
  | .elf32 => 40
  | .elf64 => 64

def shName (sh : Bytes) : Nat := member d.e ⟨0, 4⟩ ⟨0, 4⟩ sh
def shType (sh : Bytes) : Nat := member d.e ⟨4, 4⟩ ⟨4, 4⟩ sh
def shOffset (sh : Bytes) : Int := sN 64 (member d.e ⟨16, 4⟩ ⟨24, 8⟩ sh)
def shSize (sh : Bytes) : Nat := member d.e ⟨20, 4⟩ ⟨32, 8⟩ sh

def capSizeof : Nat := match d.e.clazz with
  | .elf32 => 8
  | .elf64 => 16

/-- The capabilities of a section, with how many of them its size leaves room for. -/
def caps (pos : Int) : (left : Nat) → Caps → Prog (Option Int × Caps)
  | 0, c => pure (none, c)
  | left + 1, c =>
      match readAll d.e d.capSizeof pos with
      | none => do
          elfError d.e d.e.os.errno "error reading" []
          pure (some (-1), c)
      | some cbuf =>
          if cbuf.headD 0 = 0x41 then pure (none, c)
          else
            let tag := member d.e ⟨0, 4⟩ ⟨0, 8⟩ cbuf
            let val := member d.e ⟨4, 4⟩ ⟨8, 8⟩ cbuf
            if tag = CA_SUNW_NULL then caps (pos + d.capSizeof) left c
            else if tag = CA_SUNW_HW_1 then caps (pos + d.capSizeof) left { c with capHw1 := c.capHw1 ||| val }
            else if tag = CA_SUNW_SF_1 then caps (pos + d.capSizeof) left { c with capSf1 := c.capSf1 ||| val }
            else do
              let ok ← elfPrintf d.e ", with unknown capability %#llx = %#llx" [.uint tag, .uint val]
              if !ok then pure (some (-1), c)
              else if c.nbadcap > 2 then pure (none, { c with nbadcap := c.nbadcap + 1 })
              else caps (pos + d.capSizeof) left { c with nbadcap := c.nbadcap + 1 }

/-- The `SHT_SUNW_cap` case. -/
def capSection (sh : Bytes) (c : Caps) : Prog (Option Int × Caps) :=
  if !([EM_SPARC, EM_SPARCV9, EM_IA_64, EM_386, EM_AMD64].contains d.mach) then pure (none, c)
  else if c.nbadcap > 5 then pure (none, c)
  else if !d.lseek (d.shOffset sh) then do
    elfError d.e d.e.os.errno "error seeking" []
    pure (some (-1), c)
  else caps d (d.shOffset sh) ((sN 64 (d.shSize sh)).toNat / d.capSizeof) c

/-- The `SHT_NOTE` case. -/
def noteSection (sh : Bytes) (c : Caps) : Prog (Option Int × Caps) := do
  let r ← doshnNote d.e d.behind d.elfShsizeMax (d.shSize sh) (d.shOffset sh) d.fsize c.notecount
  pure (r.1, { c with notecount := r.2 })

/-- What is done with a section behind the look at its type: what `doshn` returns there, if it does. -/
def body (sh : Bytes) (c : Caps) : Prog (Option Int × Caps) :=
  if d.shType sh ≠ SHT_SYMTAB ∧ d.fsize ≠ SIZE_UNKNOWN ∧ d.shOffset sh > d.fsize then pure (none, c)
  else if d.shType sh = SHT_NOTE then noteSection d sh c
  else if d.shType sh = SHT_SUNW_cap then capSection d sh c
  else pure (none, c)

def printReport : Report → Prog Bool
  | .debugInfo => elfPrintf d.e ", with debug_info" []
  | .stripped => elfPrintf d.e ", %sstripped" [.str (asc "")]
  | .notStripped => elfPrintf d.e ", %sstripped" [.str (asc "not ")]

/-- `while (cdp->cd_name) ...`, and what follows. -/
def printDesc (rest : Nat → Prog Int) : (cdp : List (Nat × String)) → (capHw1 : Nat) → Prog Int
  | [], capHw1 => rest capHw1
  | (mask, name) :: cdp, capHw1 =>
      if has capHw1 mask then
        printThen d.e " %s" [.str (asc name)] (printDesc rest cdp (capHw1 ^^^ (capHw1 &&& mask)))
      else printDesc rest cdp capHw1

/-- The software capabilities. -/
def printSf1 (capSf1 : Nat) : Prog Int :=
  let left := capSf1 ^^^ (capSf1 &&& SF1_SUNW_MASK)
  let unknown : Prog Int :=
    if left ≠ 0 then printThen d.e ", with unknown software capability %#llx" [.uint left] (pure 0) else pure 0
  if capSf1 = 0 then pure 0
  else if has capSf1 SF1_SUNW_FPUSED then
    printThen d.e
      (if has capSf1 SF1_SUNW_FPKNWN then ", uses frame pointer" else ", not known to use frame pointer") [] unknown
  else unknown

/-- The hardware capabilities, and behind them the others. -/
def printCaps (c : Caps) : Prog Int :=
  let others := printSf1 d c.capSf1
  let unknown (capHw1 : Nat) : Prog Int :=
    if capHw1 ≠ 0 then printThen d.e " unknown hardware capability %#llx" [.uint capHw1] others else others
  if c.capHw1 = 0 then others
  else
    printThen d.e ", uses" [] <|
      if [EM_SPARC, EM_SPARC32PLUS, EM_SPARCV9].contains d.mach then printDesc d unknown capDescSparc c.capHw1
      else if [EM_386, EM_IA_64, EM_AMD64].contains d.mach then printDesc d unknown capDesc386 c.capHw1
      else printThen d.e " hardware capability %#llx" [.uint c.capHw1] others

/-- What comes behind the report on symbols. -/
def printBehind (ok : Bool) (c : Caps) : Prog Int := if ok then printCaps d c else pure (-1)

/-- The report on symbols and what comes behind it. -/
def reportStripped (stripped : Bool) (c : Caps) (before : List Report) : Prog (Int × List Report) := do
  let report := if stripped then Report.stripped else Report.notStripped
  let ok ← printReport d report
  let rv ← printBehind d ok c
  pure (rv, before ++ [report])

/-- `doshn` behind its loop, with the reports it makes. -/
def finish (stripped hasDebugInfo : Bool) (c : Caps) : Prog (Int × List Report) :=
  if hasDebugInfo then do
    let ok ← printReport d .debugInfo
    if ok then reportStripped d stripped c [.debugInfo] else pure (-1, [.debugInfo])
  else reportStripped d stripped c []

/-- A message behind which `doshn` returns 0. -/
def quit (fmt : String) (args : List Arg) : Prog (Int × List Report) := do
  let rv ← printThen d.e fmt args (pure 0)
  pure (rv, [])

/-- `name` is `.debug_info`. -/
def isDebugInfo (name : Bytes) : Bool := cstring name == asc ".debug_info"

/-- The loop: `sh` is the header that was read last. -/
def sections (nameOff : Int) (size : Nat) :
    (num : Nat) → (off : Int) → (sh : Bytes) → (stripped hasDebugInfo : Bool) → Caps → Prog (Int × List Report)
  | 0, _, _, stripped, hasDebugInfo, c => finish d stripped hasDebugInfo c
  | num + 1, off, sh, stripped, hasDebugInfo, c =>
      match d.e.os.pread (nameOff + d.shName sh) 49 with
      | none => quit d ", can't read name of elf section at %jd" [.int (nameOff + d.shName sh)]
      | some name =>
          let hasDebugInfo := if isDebugInfo name then true else hasDebugInfo
          let stripped := if isDebugInfo name then false else stripped
          match readAll d.e d.shSizeof off with
          | none => quit d ", can't read elf section at %jd" [.int off]
          | some sh => do
              let stripped := if d.shType sh = SHT_SYMTAB then false else stripped
              let r ← body d sh c
              match r.1 with
              | some rv => pure (rv, [])
              | none => sections nameOff size num (sN 64 (off + size)) sh stripped hasDebugInfo r.2

/-- `doshn`: what it returns and the reports it makes. -/
def doshn (off : Int) (num size strtab : Nat) (notecount : UInt16) : Prog (Int × List Report) :=
  if has d.e.magicFlags MAGIC_MIME then pure (0, [])
  else if num = 0 then quit d ", no section header" []
  else if size ≠ d.shSizeof then quit d ", corrupted section header size" []
  else
    let offs := sN 64 (off + size * strtab)
    match readAll d.e d.shSizeof offs with
    | none => quit d ", missing section headers at %jd" [.int offs]
    | some sh =>
        let nameOff := d.shOffset sh
        if d.fsize ≠ SIZE_UNKNOWN ∧ d.fsize < nameOff then
          quit d ", too large section header offset %jd" [.int nameOff]
        else sections d nameOff size num off sh true false ⟨0, 0, 0, notecount⟩

/-! ## The routines come to an end -/

theorem safe_caps (pos : Int) (left : Nat) (c : Caps) : Safe (caps d pos left c) := by
  induction left generalizing pos c with
  | zero => exact safe_pure _
  | succ left ih =>
      rw [caps]
      split
      · exact (safe_elfError d.e _ _ _).bind (fun _ => safe_pure _)
      · refine Run.Yields.ite (fun _ => safe_pure _) (fun _ => Run.Yields.ite (fun _ => ih _ _) (fun _ =>
          Run.Yields.ite (fun _ => ih _ _) (fun _ => Run.Yields.ite (fun _ => ih _ _) (fun _ => ?_))))
        apply (safe_elfPrintf d.e _ _).bind
        intro ok
        exact Run.Yields.ite (fun _ => safe_pure _)
          (fun _ => Run.Yields.ite (fun _ => safe_pure _) (fun _ => ih _ _))

theorem safe_body (sh : Bytes) (c : Caps) : Safe (body d sh c) := by
  refine Run.Yields.ite (fun _ => safe_pure _) (fun _ => Run.Yields.ite (fun _ => ?_) (fun _ =>
    Run.Yields.ite (fun _ => ?_) (fun _ => safe_pure _)))
  · exact (safe_doshnNote d.e d.behind _ _ _ _ _).bind (fun _ => safe_pure _)
  · refine Run.Yields.ite (fun _ => safe_pure _) (fun _ => Run.Yields.ite (fun _ => safe_pure _) (fun _ =>
      Run.Yields.ite (fun _ => ?_) (fun _ => safe_caps d _ _ c)))
    exact (safe_elfError d.e _ _ _).bind (fun _ => safe_pure _)

theorem safe_printReport (report : Report) : Safe (printReport d report) := by
  cases report <;> exact safe_elfPrintf d.e _ _

theorem safe_printDesc {rest : Nat → Prog Int} (hrest : ∀ n, Safe (rest n)) (cdp : List (Nat × String))
    (capHw1 : Nat) : Safe (printDesc d rest cdp capHw1) := by
  induction cdp generalizing capHw1 with
  | nil => exact hrest capHw1
  | cons desc cdp ih => exact Run.Yields.ite (fun _ => safe_printThen d.e _ _ (ih _)) (fun _ => ih _)

theorem safe_printCaps (c : Caps) : Safe (printCaps d c) := by
  have others : Safe (printSf1 d c.capSf1) := by
    have unknown (p : Prop) [Decidable p] (fmt : String) (args : List Arg) :
        Safe (if p then printThen d.e fmt args (pure 0) else pure 0) :=
      Run.Yields.ite (fun _ => safe_print d.e _ _ 0) (fun _ => safe_pure 0)
    exact Run.Yields.ite (fun _ => safe_pure 0) (fun _ =>
      Run.Yields.ite (fun _ => safe_printThen d.e _ _ (unknown _ _ _)) (fun _ => unknown _ _ _))
  have unknown (capHw1 : Nat) : Safe (if capHw1 ≠ 0 then
      printThen d.e " unknown hardware capability %#llx" [.uint capHw1] (printSf1 d c.capSf1)
      else printSf1 d c.capSf1) :=
    Run.Yields.ite (fun _ => safe_printThen d.e _ _ others) (fun _ => others)
  refine Run.Yields.ite (fun _ => others) (fun _ => safe_printThen d.e _ _ ?_)
  exact Run.Yields.ite (fun _ => safe_printDesc d unknown _ _) (fun _ =>
    Run.Yields.ite (fun _ => safe_printDesc d unknown _ _) (fun _ => safe_printThen d.e _ _ others))

theorem value_of_safe {α : Type} {x : Prog α} (safe : Safe x) (ms : Ms) : ∃ r, (x ms).value = some r :=
  Option.isSome_iff_exists.mp (safe.walked ms).1

theorem value_bind {α β : Type} {x : Prog α} {ms : Ms} {r : α × Ms} (value : (x ms).value = some r)
    (f : α → Prog β) : ((x >>= f) ms).value = (f r.1 r.2).value := by
  have step : (x >>= f) ms = (x ms >>= fun r => f r.1 r.2) := rfl
  rw [step, Run.value_bind, value]
  rfl

/-! ## The reports -/

/-- The reports of a routine that comes to its end. -/
def reports (x : Prog (Int × List Report)) (ms : Ms) : Option (List Report) := (x ms).value.map (·.1.2)

theorem quit_reports (fmt : String) (args : List Arg) (ms : Ms) : reports (quit d fmt args) ms = some [] := by
  obtain ⟨r, value⟩ := value_of_safe (safe_print d.e fmt args 0) ms
  rw [reports, quit, value_bind value]
  rfl

theorem reportStripped_reports (stripped : Bool) (c : Caps) (before : List Report) (ms : Ms) :
    reports (reportStripped d stripped c before) ms =
      some (before ++ [if stripped then .stripped else .notStripped]) := by
  obtain ⟨r, value⟩ := value_of_safe (safe_printReport d (if stripped then .stripped else .notStripped)) ms
  have rest : Safe (printBehind d r.1 c) :=
    Run.Yields.ite (fun _ => safe_printCaps d c) (fun _ => safe_pure _)
  obtain ⟨r', value'⟩ := value_of_safe rest r.2
  rw [reports, reportStripped, value_bind value, value_bind value']
  rfl

/-- The reports behind the loop. -/
theorem finish_reports {stripped hasDebugInfo : Bool} (one : hasDebugInfo = true → stripped = false) (c : Caps)
    (ms : Ms) :
    ∃ said, reports (finish d stripped hasDebugInfo c) ms = some said ∧
      (.debugInfo ∈ said ↔ hasDebugInfo = true) ∧ (.stripped ∈ said ↔ stripped = true) := by
  cases hasDebugInfo with
  | false =>
      refine ⟨_, reportStripped_reports d stripped c [] ms, ?_⟩
      cases stripped <;> decide
  | true =>
      obtain rfl := one rfl
      obtain ⟨r, value⟩ := value_of_safe (safe_printReport d .debugInfo) ms
      have step : reports (finish d false true c) ms =
          reports (if r.1 then reportStripped d false c [.debugInfo] else pure (-1, [.debugInfo])) r.2 := by
        rw [reports, finish, if_pos rfl, value_bind value]
        rfl
      rw [step]
      by_cases ok : r.1 = true
      · rw [if_pos ok]
        exact ⟨_, reportStripped_reports d false c [.debugInfo] r.2, by decide⟩
      · rw [if_neg ok]
        have said : reports (pure (-1, [.debugInfo])) r.2 = some [.debugInfo] := rfl
        exact ⟨[.debugInfo], said, by decide⟩

/-! ## The names -/

/-- The name of a section. -/
def nameOf (nameOff : Int) (sh : Bytes) : Option Bytes := d.e.os.pread (nameOff + d.shName sh) 49

/-- The name is `.debug_info`. -/
def Named (nameOff : Int) (sh : Bytes) : Prop := ∃ name ∈ d.nameOf nameOff sh, isDebugInfo name

/-- The headers of the table from an offset on. -/
def Table (size : Nat) : List Bytes → (off : Int) → Prop
  | [], _ => True
  | sh :: entries, off => readAll d.e d.shSizeof off = some sh ∧ Table size entries (sN 64 (off + size))

/-- No body of a section makes `doshn` return. -/
def Ends : List Bytes → Caps → Ms → Prop
  | [], _, _ => True
  | sh :: entries, c, ms =>
      ∃ r, (body d sh c ms).value = some r ∧ r.1.1 = none ∧ Ends entries r.1.2 r.2

section Loop

variable (nameOff : Int) (size : Nat)

/-- The step of the loop: the name is that of the header that was read before. -/
theorem sections_step {n : Nat} {off : Int} {sh sh' name : Bytes} (named : d.nameOf nameOff sh = some name)
    (header : readAll d.e d.shSizeof off = some sh') (stripped hasDebugInfo : Bool) (c : Caps) {ms : Ms}
    {r : (Option Int × Caps) × Ms} (value : (body d sh' c ms).value = some r) :
    reports (sections d nameOff size (n + 1) off sh stripped hasDebugInfo c) ms =
      match r.1.1 with
      | some _ => some []
      | none => reports (sections d nameOff size n (sN 64 (off + size)) sh'
          (stripped && !isDebugInfo name && d.shType sh' != SHT_SYMTAB) (hasDebugInfo || isDebugInfo name) r.1.2) r.2 := by
  have debug : (if isDebugInfo name then true else hasDebugInfo) = (hasDebugInfo || isDebugInfo name) := by
    cases isDebugInfo name <;> cases hasDebugInfo <;> rfl
  have symbols : (if d.shType sh' = SHT_SYMTAB then false else if isDebugInfo name then false else stripped) =
      (stripped && !isDebugInfo name && d.shType sh' != SHT_SYMTAB) := by
    by_cases table : d.shType sh' = SHT_SYMTAB
    · rw [if_pos table, table, bne_self_eq_false, Bool.and_false]
    · rw [if_neg table, bne_iff_ne.mpr table, Bool.and_true]
      cases isDebugInfo name <;> cases stripped <;> rfl
  have read : d.e.os.pread (nameOff + d.shName sh) 49 = some name := named
  rw [reports, sections, read, header]
  dsimp only
  rw [value_bind value, symbols, debug]
  cases stop : r.1.1 with
  | none => rfl
  | some rv => rfl

/-- The whole loop: the last header that is read names no section. -/
theorem sections_reports (entries : List Bytes) (off : Int) (sh : Bytes) (stripped hasDebugInfo : Bool)
    (one : hasDebugInfo = true → stripped = false) (c : Caps) (ms : Ms) (table : Table d size entries off)
    (text : ∀ sh' ∈ sh :: entries, d.nameOf nameOff sh' ≠ none) :
    (Ends d entries c ms → ∃ said,
      reports (sections d nameOff size entries.length off sh stripped hasDebugInfo c) ms = some said ∧
      (.debugInfo ∈ said ↔ hasDebugInfo = true ∨ ∃ sh' ∈ (sh :: entries).dropLast, d.Named nameOff sh') ∧
      (.stripped ∈ said ↔ stripped = true ∧ (∀ sh' ∈ (sh :: entries).dropLast, ¬ d.Named nameOff sh') ∧
        ∀ sh' ∈ entries, d.shType sh' ≠ SHT_SYMTAB)) ∧
    (¬ Ends d entries c ms →
      reports (sections d nameOff size entries.length off sh stripped hasDebugInfo c) ms = some []) := by
  induction entries generalizing off sh stripped hasDebugInfo c ms with
  | nil =>
      refine ⟨fun _ => ?_, fun stops => absurd trivial stops⟩
      obtain ⟨said, value, debug, symbols⟩ := finish_reports d one c ms
      refine ⟨said, value, ?_, ?_⟩
      · rw [debug]
        simp
      · rw [symbols]
        simp
  | cons sh' entries ih =>
      obtain ⟨header, rest⟩ := table
      cases known : d.nameOf nameOff sh with
      | none => exact absurd known (text sh List.mem_cons_self)
      | some name =>
          obtain ⟨r, value⟩ := value_of_safe (safe_body d sh' c) ms
          have named : d.Named nameOff sh ↔ isDebugInfo name = true := by
            rw [Named, known]
            simp
          have step := sections_step d nameOff size known header stripped hasDebugInfo c value (n := entries.length)
          have one' : (hasDebugInfo || isDebugInfo name) = true →
              (stripped && !isDebugInfo name && d.shType sh' != SHT_SYMTAB) = false := by
            intro found
            cases here : isDebugInfo name with
            | true => rw [Bool.not_true, Bool.and_false, Bool.false_and]
            | false =>
                rw [here, Bool.or_false] at found
                rw [one found, Bool.false_and, Bool.false_and]
          have more := ih (sN 64 (off + size)) sh' (stripped && !isDebugInfo name && d.shType sh' != SHT_SYMTAB)
            (hasDebugInfo || isDebugInfo name) one' r.1.2 r.2 rest
            (fun s member => text s (List.mem_cons_of_mem sh member))
          rw [List.length_cons, step]
          cases stop : r.1.1 with
          | some rv =>
              refine ⟨fun ends => ?_, fun _ => rfl⟩
              obtain ⟨r', value', next, -⟩ := ends
              rw [value] at value'
              rw [← Option.some.inj value', stop] at next
              cases next
          | none =>
              have ends : Ends d (sh' :: entries) c ms ↔ Ends d entries r.1.2 r.2 := by
                constructor
                · rintro ⟨r', value', -, next⟩
                  rw [value] at value'
                  exact Option.some.inj value' ▸ next
                · exact fun next => ⟨r, value, stop, next⟩
              rw [ends]
              refine ⟨fun passes => ?_, more.2⟩
              obtain ⟨said, value, debug, symbols⟩ := more.1 passes
              refine ⟨said, value, ?_, ?_⟩
              · rw [debug, List.dropLast_cons_of_ne_nil (List.cons_ne_nil _ _), Bool.or_eq_true, List.exists_mem_cons_iff,
                  named, or_assoc]
              · rw [symbols, List.dropLast_cons_of_ne_nil (List.cons_ne_nil _ _), List.forall_mem_cons,
                  List.forall_mem_cons, named, Bool.and_eq_true, Bool.and_eq_true, Bool.not_eq_true',
                  bne_iff_ne, Bool.not_eq_true]
                constructor
                · rintro ⟨⟨⟨before, other⟩, type⟩, none, types⟩
                  exact ⟨before, ⟨other, none⟩, type, types⟩
                · rintro ⟨before, ⟨other, none⟩, type, types⟩
                  exact ⟨⟨⟨before, other⟩, type⟩, none, types⟩

end Loop

/-! ## `doshn` -/

/-- A table of section headers that can be read, with a section of names that can be read. -/
structure Readable (off : Int) (num size strtab : Nat) (strhdr : Bytes) (entries : List Bytes) : Prop where
  count : entries.length = num
  width : size = d.shSizeof
  table : Table d size entries off
  names : readAll d.e d.shSizeof (sN 64 (off + size * strtab)) = some strhdr
  inside : ¬ (d.fsize ≠ SIZE_UNKNOWN ∧ d.fsize < d.shOffset strhdr)
  text : ∀ sh ∈ strhdr :: entries, d.nameOf (d.shOffset strhdr) sh ≠ none

/-- The reports are those that the entries ask for. -/
def Right (nameOff : Int) (entries : List Bytes) (said : List Report) : Prop :=
  (.debugInfo ∈ said ↔ ∃ sh ∈ entries, d.Named nameOff sh) ∧
    (.stripped ∈ said ↔ (∀ sh ∈ entries, ¬ d.Named nameOff sh) ∧ ∀ sh ∈ entries, d.shType sh ≠ SHT_SYMTAB)

/-- `doshn` comes to its reports. -/
def Reaches (entries : List Bytes) (notecount : UInt16) (ms : Ms) : Prop :=
  has d.e.magicFlags MAGIC_MIME = false ∧ entries ≠ [] ∧ Ends d entries ⟨0, 0, 0, notecount⟩ ms

/-- The reports of a run that makes none. -/
theorem right_nil (nameOff : Int) (entries : List Bytes) :
    Right d nameOff entries [] ↔
      (∀ sh ∈ entries, ¬ d.Named nameOff sh) ∧ ∃ sh ∈ entries, d.shType sh = SHT_SYMTAB := by
  have nothing (report : Report) : report ∈ ([] : List Report) ↔ False := List.mem_nil_iff report
  rw [Right, nothing, nothing, false_iff, false_iff]
  constructor
  · rintro ⟨none, symbols⟩
    have none (sh : Bytes) (member : sh ∈ entries) : ¬ d.Named nameOff sh := fun h => none ⟨sh, member, h⟩
    refine ⟨none, ?_⟩
    by_contra other
    exact symbols ⟨none, fun sh member table => other ⟨sh, member, table⟩⟩
  · rintro ⟨none, sh, member, table⟩
    exact ⟨fun ⟨sh, member, named⟩ => none sh member named, fun other => other.2 sh member table⟩

variable {d} in
theorem Readable.sections_eq {off : Int} {size strtab : Nat} {strhdr : Bytes} {entries : List Bytes}
    (readable : Readable d off entries.length size strtab strhdr entries) (mime : has d.e.magicFlags MAGIC_MIME = false)
    (some : entries ≠ []) (notecount : UInt16) :
    doshn d off entries.length size strtab notecount =
      sections d (d.shOffset strhdr) size entries.length off strhdr true false ⟨0, 0, 0, notecount⟩ := by
  have count : entries.length ≠ 0 := fun none => some (List.length_eq_zero_iff.mp none)
  rw [doshn, mime, if_neg Bool.false_ne_true, if_neg count, if_neg (not_not_intro readable.width)]
  dsimp only
  rw [readable.names]
  dsimp only
  rw [if_neg readable.inside]

/-- Sections that have no notes and no capabilities do not make `doshn` return. -/
theorem ends_of_plain {entries : List Bytes}
    (plain : ∀ sh ∈ entries, d.shType sh ≠ SHT_NOTE ∧ d.shType sh ≠ SHT_SUNW_cap) (c : Caps) (ms : Ms) :
    Ends d entries c ms := by
  induction entries generalizing c ms with
  | nil => trivial
  | cons sh entries ih =>
      obtain ⟨noNote, noCap⟩ := plain sh List.mem_cons_self
      refine ⟨((none, c), ms), ?_, rfl, ih (fun sh' member => plain sh' (List.mem_cons_of_mem sh member)) c ms⟩
      rw [body, if_neg noNote, if_neg noCap, ite_self]
      rfl

/-- Nor do notes that are inside the file, not too large and can be read. -/
theorem body_note {sh bs : Bytes} (c : Caps) (ms : Ms) (note : d.shType sh = SHT_NOTE)
    (inside : ¬ uN 64 (d.shSize sh + d.shOffset sh) > uN 64 d.fsize) (small : ¬ d.shSize sh > d.elfShsizeMax)
    (room : d.e.os.malloc (d.shSize sh) = true) (read : readAll d.e (d.shSize sh) (d.shOffset sh) = some bs) :
    ∃ r, (body d sh c ms).value = some r ∧ r.1.1 = none := by
  obtain ⟨r, value⟩ := value_of_safe (@safe_sectionNotes d.e d.behind bs _ c.notecount (d.e.os.malloc_lt _ room)) ms
  have whole : doshnNote d.e d.behind d.elfShsizeMax (d.shSize sh) (d.shOffset sh) d.fsize c.notecount =
      (do
        let notecount ← noteLoop (fun noff => decide (sN 64 noff ≥ sN 64 (d.shSize sh)))
          (donote d.e 0 0 0 (memory bs d.behind) (d.shSize sh) 4) c.notecount
        pure (none, notecount)) := by
    rw [doshnNote, if_neg inside, if_neg small, if_pos room, read]
  have noted : (doshnNote d.e d.behind d.elfShsizeMax (d.shSize sh) (d.shOffset sh) d.fsize c.notecount ms).value =
      some ((none, r.1), r.2) := by
    rw [whole, value_bind value]
    rfl
  rw [body]
  by_cases outside : d.shType sh ≠ SHT_SYMTAB ∧ d.fsize ≠ SIZE_UNKNOWN ∧ d.shOffset sh > d.fsize
  · rw [if_pos outside]
    exact ⟨((none, c), ms), rfl, rfl⟩
  · rw [if_neg outside, if_pos note, noteSection, value_bind noted]
    exact ⟨((none, { c with notecount := r.1 }), r.2), rfl, rfl⟩

/-! ### A small file -/

/-- A machine with a file in memory. -/
def small (file : Bytes) : Doshn where
  e :=
    { host :=
        { bigendian := false, haveMemmem := true, malloc := fun _ => true, vasprintf := fun _ _ => none
          strerror := fun _ => [], fmtcheck := fun _ _ => false, regcomp := fun _ _ => none
          regexec := fun _ _ _ => .noMatch, fmtdatetime := fun _ _ => [], fmtdate := fun _ => []
          fmttime := fun _ => [] }
      magicFlags := 0
      os := { (default : Os) with
        pread := fun off len => some ((file.drop off.toNat).take len)
        pread_length := by
          rintro _ len _ ⟨⟩
          exact List.length_take_le _ _ }
      clazz := .elf32
      swap := false }
  behind := fun _ => 0
  elfShsizeMax := 0x8000000
  fsize := SIZE_UNKNOWN
  mach := EM_386
  lseek := fun _ => true

/-- A section header: its name, its type and where the section is. -/
def header (name type offset : Nat) : Bytes :=
  Order.little.store 4 name ++ Order.little.store 4 type ++ List.replicate 8 0 ++ Order.little.store 4 offset ++
    List.replicate 20 0

/-- The names: one that is empty, and `.debug_info`. -/
def names : Bytes := [0] ++ asc ".debug_info" ++ [0]

end Doshn

end Libmagic.Readelf
