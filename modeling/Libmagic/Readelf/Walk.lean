import Libmagic.Readelf.Note

/-!
# `readelf.c`: the walk over the notes

`donote` and the three loops that call it.
-/
namespace Libmagic.Readelf

open Softmagic

/-- `ELF_ALIGN(a)`. -/
def elfAlign (align a : Nat) : Nat := sz (sz (a + align + (2 ^ 64 - 1)) / align * align)

def NT_NETBSD_EMULATION : Nat := 2
def NT_NETBSD_MARCH : Nat := 5
def NT_NETBSD_CMODEL : Nat := 6

section Donote

variable (e : Elf)

/-- The handlers, each with the flag that says it has done its work. -/
def handlers (phOff : Int) (phNum : Nat) (fsize : Int) (n : Note) : List (Nat × Prog Int) :=
  [(FLAGS_DID_OS_NOTE, doOsNote e n), (FLAGS_DID_BUILD_ID, doBidNote e n),
    (FLAGS_DID_NETBSD_PAX, doPaxNote e n), (FLAGS_DID_ANDROID_MEMTAG, doMemtagNote e n),
    (FLAGS_DID_CORE, doCoreNote e n), (FLAGS_DID_AUXV, doAuxvNote e n phOff phNum fsize)]

/-- The handlers in turn, up to the first that does not return 0. -/
def callHandlers (n : Note) : List (Nat × Prog Int) → Prog Bool
  | [] => pure false
  | (flag, handler) :: rest => do
      let flags ← getFlags
      if has flags flag then callHandlers n rest
      else do
        Run.once (.handler n.size n.noff n.namesz n.doff n.descsz) ()
        let rv ← handler
        if rv ≠ 0 then pure true else callHandlers n rest

/-- A NetBSD note that is printed as a string. -/
def netbsdString (n : Note) (flag : Nat) (tag : String) : Prog Unit := do
  let flags ← getFlags
  if has flags flag then pure ()
  else do
    setFlags flag
    let str ← n.copystr (min n.descsz 100) n.doff
    let _ ← elfPrintf e ", %s: %s" [.str (asc tag), str]
    pure ()

/-- The NetBSD notes at the end of `donote`. -/
def netbsdNote (n : Note) : Prog Unit := do
  let netbsd ← n.nameEquals "NetBSD"
  if netbsd then
    if n.type = NT_NETBSD_VERSION then pure ()
    else if n.type = NT_NETBSD_MARCH then netbsdString e n FLAGS_DID_NETBSD_MARCH "compiled for"
    else if n.type = NT_NETBSD_CMODEL then netbsdString e n FLAGS_DID_NETBSD_CMODEL "compiler model"
    else if n.type = NT_NETBSD_EMULATION then
      netbsdString e n FLAGS_DID_NETBSD_EMULATION "emulation:"
    else do
      let flags ← getFlags
      if has flags FLAGS_DID_NETBSD_UNKNOWN then pure ()
      else do
        setFlags FLAGS_DID_NETBSD_UNKNOWN
        let _ ← elfPrintf e ", note=%u" [.uint n.type]
        pure ()
  else pure ()

/-- What `donote` does with a note that is inside the buffer. -/
def handleNote (phOff : Int) (phNum : Nat) (fsize : Int) (n : Note) : Prog Unit := do
  let done ← callHandlers n (handlers e phOff phNum fsize n)
  if done then pure () else netbsdNote e n

/-- `donote` behind the header of the note, which is at `noff`. -/
def noteBody (phOff : Int) (phNum : Nat) (fsize : Int) (nbuf : Nat → UInt8) (size align : Nat)
    (nh : Bytes) (noff : Nat) : Prog Nat :=
  let namesz := getu e 4 ((⟨0, 4⟩ : Field).get nh)
  let descsz := getu e 4 ((⟨4, 4⟩ : Field).get nh)
  let type := getu e 4 ((⟨8, 4⟩ : Field).get nh)
  if namesz = 0 ∧ descsz = 0 then pure (if noff ≥ size then noff else size)
  else if has namesz 0x80000000 then do
    let _ ← elfPrintf e ", bad note name size %#lx" [.uint namesz]
    pure 0
  else if has descsz 0x80000000 then do
    let _ ← elfPrintf e ", bad note description size %#lx" [.uint descsz]
    pure 0
  else
    let doff := elfAlign align (sz (noff + namesz))
    if sz (noff + namesz) > size then pure doff
    else
      let offset := elfAlign align (sz (doff + descsz))
      if sz (doff + descsz) > size then pure (if offset ≥ size then offset else size)
      else do
        handleNote e phOff phNum fsize ⟨nbuf, size, type, namesz, descsz, noff, doff⟩
        pure offset

/-- `donote`: what it returns, and `*notecount`. -/
def donote (phOff : Int) (phNum : Nat) (fsize : Int) (nbuf : Nat → UInt8) (size align offset : Nat)
    (notecount : UInt16) : Prog (Nat × UInt16) :=
  if notecount = 0 then pure (0, notecount)
  else do
    Run.once (.decrement notecount) ()
    if sz (12 + offset) > size then pure (sz (12 + offset), notecount - 1)
    else do
      let nh ← Run.once (.read size offset 12) ((List.range 12).map (fun i => nbuf (offset + i)))
      let next ← noteBody e phOff phNum fsize nbuf size align nh (sz (offset + 12))
      pure (next, notecount - 1)

end Donote

/-! ## The loops -/

/-- One round of `for (;;) { if (past(offset)) break; offset = donote(...); if (offset == 0)
break; }`. -/
def noteRound (past : Nat → Bool) (note : Nat → UInt16 → Prog (Nat × UInt16))
    (t : Nat × UInt16 × Ms) : Run Event ((Nat × UInt16 × Ms) ⊕ UInt16 × Ms) :=
  if past t.1 then pure (.inr t.2)
  else do
    let r ← note t.1 t.2.1 t.2.2
    if r.1.1 = 0 then pure (.inr (r.1.2, r.2)) else pure (.inl (r.1.1, r.1.2, r.2))

/-- The loop from `offset = 0` on, with one round more than there are notes left. -/
def noteLoop (past : Nat → Bool) (note : Nat → UInt16 → Prog (Nat × UInt16)) (notecount : UInt16) :
    Prog UInt16 :=
  fun ms => Run.loop (noteRound past note) (notecount.toNat + 1) (0, notecount, ms)

/-- A buffer with what was read into it; behind that it has what it had. -/
def memory (bs : Bytes) (behind : Nat → UInt8) : Nat → UInt8 := fun i => bs.getD i (behind i)

def NBUFSIZE : Nat := 2024

def PT_DYNAMIC : Nat := 2
def PT_INTERP : Nat := 3
def PT_NOTE : Nat := 4

section Drivers

variable (e : Elf) (behind : Nat → UInt8)

/-- `xph_filesz < sizeof(nbuf) ? xph_filesz : sizeof(nbuf)`. -/
def nbufLen (ph : Bytes) : Nat := if phFilesz e ph < NBUFSIZE then phFilesz e ph else NBUFSIZE

/-- A message behind which a routine returns 0. -/
def giveUp (fmt : String) (args : List Arg) (notecount : UInt16) : Prog (Int × UInt16) := do
  let rv ← printThen e fmt args (pure 0)
  pure (rv, notecount)

/-- The loop of `dophn_core` over the program headers. -/
def coreHeaders (phOff : Int) (phNum : Nat) (size : Nat) (fsize : Int) :
    (num : Nat) → (off : Int) → UInt16 → Prog (Int × UInt16)
  | 0, _, notecount => pure (0, notecount)
  | num + 1, off, notecount =>
      match readAll e (phSizeof e) off with
      | none => giveUp e ", can't read elf program headers at %jd" [.int off] notecount
      | some ph =>
          if fsize ≠ SIZE_UNKNOWN ∧ phOffset e ph > fsize then
            coreHeaders phOff phNum size fsize num (off + size) notecount
          else if phType e ph ≠ PT_NOTE then
            coreHeaders phOff phNum size fsize num (off + size) notecount
          else match e.os.pread (phOffset e ph) (nbufLen e ph) with
            | none => giveUp e " can't read note section at %jd" [.int (phOffset e ph)] notecount
            | some bs => do
                let notecount ← noteLoop (fun offset => decide (offset ≥ bs.length))
                  (donote e phOff phNum fsize (memory bs behind) bs.length 4) notecount
                coreHeaders phOff phNum size fsize num (off + size) notecount

/-- `dophn_core`. -/
def dophnCore (off : Int) (num size : Nat) (fsize : Int) (notecount : UInt16) : Prog (Int × UInt16) :=
  if has e.magicFlags MAGIC_MIME then pure (0, notecount)
  else if num = 0 then giveUp e ", no program header" [] notecount
  else if size ≠ phSizeof e then giveUp e ", corrupted program header size" [] notecount
  else coreHeaders e behind off num size fsize num off notecount

/-- What `dophn_exec` keeps from one header to the next. -/
structure Linked where
  dynamic : Bool
  pie : Bool
  need : Nat
  interp : Bytes

def DT_NEEDED : Nat := 1
def DT_FLAGS_1 : Nat := 0x6ffffffb
def DF_1_PIE : Nat := 0x08000000

/-- `sizeof` an element of the dynamic section. -/
def dhSizeof : Nat := match e.clazz with
  | .elf32 => 8
  | .elf64 => 16

/-- `ms->mode &= ~0111`. -/
def notExecutable : Prog Unit := fun ms =>
  pure ((), { ms with mode := ms.mode ^^^ (ms.mode &&& 0o111) })

def executable : Prog Unit := fun ms => pure ((), { ms with mode := ms.mode ||| 0o111 })

/-- `dodynamic`. -/
def dodynamic (dbuf : Nat → UInt8) (offset size : Nat) (l : Linked) : Prog (Nat × Linked) :=
  if sz (dhSizeof e + offset) > size then pure (sz (dhSizeof e + offset), l)
  else do
    let dh ← Run.once (.read size offset (dhSizeof e))
      ((List.range (dhSizeof e)).map (fun i => dbuf (offset + i)))
    let tag := member e ⟨0, 4⟩ ⟨0, 8⟩ dh
    let val := member e ⟨4, 4⟩ ⟨8, 8⟩ dh
    if tag = DT_FLAGS_1 then
      if has val DF_1_PIE then do
        executable
        pure (sz (offset + dhSizeof e), { l with pie := true })
      else do
        notExecutable
        pure (sz (offset + dhSizeof e), l)
    else if tag = DT_NEEDED then pure (sz (offset + dhSizeof e), { l with need := sz (l.need + 1) })
    else pure (sz (offset + dhSizeof e), l)

def dynamicRound (dbuf : Nat → UInt8) (size : Nat) (t : Nat × Linked × Ms) :
    Run Event ((Nat × Linked × Ms) ⊕ Linked × Ms) :=
  if t.1 ≥ size then pure (.inr t.2)
  else do
    let r ← dodynamic e dbuf t.1 size t.2.1 t.2.2
    if r.1.1 = 0 then pure (.inr (r.1.2, r.2)) else pure (.inl (r.1.1, r.1.2, r.2))

/-- The loop over the dynamic section, with one round more than there are bytes. -/
def dynamicLoop (dbuf : Nat → UInt8) (size : Nat) (l : Linked) : Prog Linked :=
  fun ms => Run.loop (dynamicRound e dbuf size) (size + 1) (0, l, ms)

/-- `PT_INTERP`: the string of the buffer, whose last byte is set to 0. -/
def interpreter (bs : Bytes) : Bytes :=
  if bs.headD 0 = 0 then asc "*empty*" else cstring bs.dropLast

/-- `(align = xph_align) & 0x80000000UL) != 0 || align < 4`. -/
def badAlign (align : Nat) : Bool := has align 0x80000000 || decide (align < 4)

/-- What `dophn_exec` prints behind the headers. -/
def printLinked (l : Linked) : Prog Int :=
  if has e.magicFlags MAGIC_MIME then pure 0
  else
    let str := if l.dynamic then (if l.pie ∧ l.need = 0 then "static-pie" else "dynamically")
      else "statically"
    printThen e ", %s linked" [.str (asc str)] <|
      if l.interp = [] then pure 0
      else
        printThen e ", interpreter %s"
          [.str (filePrintable (has e.magicFlags MAGIC_RAW) (NBUFSIZE - 1) l.interp)] (pure 0)

/-- The second `switch` of `dophn_exec`: what was read from one of the three kinds of section. -/
def sectionRead (align : Nat) (ph bs : Bytes) (l : Linked) (notecount : UInt16)
    (next : Linked → UInt16 → Prog (Int × UInt16)) : Prog (Int × UInt16) :=
  if phType e ph = PT_DYNAMIC then do
    notExecutable
    let l ← dynamicLoop e (memory bs behind) bs.length { l with dynamic := true }
    next l notecount
  else if phType e ph = PT_INTERP then
    let l := { l with need := sz (l.need + 1) }
    if has e.magicFlags MAGIC_MIME then next l notecount
    else next { l with interp := interpreter bs } notecount
  else if has e.magicFlags MAGIC_MIME then pure (0, notecount)
  else do
    let notecount ← noteLoop (fun offset => decide (offset ≥ bs.length))
      (donote e 0 0 0 (memory bs behind) bs.length align) notecount
    next l notecount

/-- The read of `dophn_exec`, and what follows. -/
def readSection (align : Nat) (ph : Bytes) (l : Linked) (notecount : UInt16)
    (next : Linked → UInt16 → Prog (Int × UInt16)) : Prog (Int × UInt16) :=
  match e.os.pread (phOffset e ph) (nbufLen e ph) with
  | none => giveUp e ", can't read section at %jd" [.int (phOffset e ph)] notecount
  | some bs => sectionRead e behind align ph bs l notecount next

/-- The loop of `dophn_exec` over the program headers. -/
def execHeaders (size shNum : Nat) :
    (num : Nat) → (off : Int) → Linked → UInt16 → Prog (Int × UInt16)
  | 0, _, l, notecount => do
      let rv ← printLinked e l
      pure (rv, notecount)
  | num + 1, off, l, notecount =>
      match readAll e (phSizeof e) off with
      | none => giveUp e ", can't read elf program headers at %jd" [.int off] notecount
      | some ph =>
          let next (l : Linked) (notecount : UInt16) : Prog (Int × UInt16) :=
            execHeaders size shNum num (off + size) l notecount
          if phType e ph = PT_NOTE then
            if shNum ≠ 0 then next l notecount
            else if badAlign (phAlign e ph) then do
              let ok ← elfPrintf e ", invalid note alignment %#lx" [.uint (phAlign e ph)]
              if ok then readSection e behind 4 ph l notecount next else pure (-1, notecount)
            else readSection e behind (phAlign e ph) ph l notecount next
          else if phType e ph = PT_DYNAMIC ∨ phType e ph = PT_INTERP then
            readSection e behind 4 ph l notecount next
          else next l notecount

/-- `dophn_exec`. -/
def dophnExec (off : Int) (num size shNum : Nat) (notecount : UInt16) : Prog (Int × UInt16) :=
  if num = 0 then giveUp e ", no program header" [] notecount
  else if size ≠ phSizeof e then giveUp e ", corrupted program header size" [] notecount
  else execHeaders e behind size shNum num off ⟨false, false, 0, []⟩ notecount

/-- The `SHT_NOTE` case of `doshn`; the result is `none` where the loop goes on. -/
def doshnNote (shsizeMax shSize : Nat) (shOffset fsize : Int) (notecount : UInt16) :
    Prog (Option Int × UInt16) :=
  if uN 64 (shSize + shOffset) > uN 64 fsize then do
    let rv ← printThen e ", note offset/size %#jx+%#jx exceeds file size %#jx"
      [.uint (uN 64 shOffset), .uint shSize, .uint (uN 64 fsize)] (pure 0)
    pure (some rv, notecount)
  else if shSize > shsizeMax then do
    elfError e e.os.errno "Note section size too big (%ju > %zu)" [.uint shSize, .uint shsizeMax]
    pure (some (-1), notecount)
  else if e.os.malloc shSize then
    match readAll e shSize shOffset with
    | none => do
        let rv ← printThen e ", can't read elf note at %jd" [.int shOffset] (pure 0)
        pure (some rv, notecount)
    | some bs => do
        -- `noff` is an `off_t`
        let notecount ← noteLoop (fun noff => decide (sN 64 noff ≥ sN 64 shSize))
          (donote e 0 0 0 (memory bs behind) shSize 4) notecount
        pure (none, notecount)
  else do
    elfError e e.os.errno "Cannot allocate memory for note" []
    pure (some (-1), notecount)

end Drivers

end Libmagic.Readelf
