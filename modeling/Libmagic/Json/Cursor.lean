import Libmagic.Run
import Libmagic.Json.Parse

/-!
# `is_json.c`, pointer by pointer

The routines of `is_json.c` once more, with `uc`, `*ucp` and `ue` as addresses. The memory
goes on behind `ue` with whatever is there, and every byte that is read and every value
that a pointer into the buffer takes is an event of the run. A loop has one round more
than there are bytes left to it.
-/
namespace Libmagic.Json.Cursor

inductive Access where
  | read (p : Nat)
  | move (p : Nat)
  deriving DecidableEq, Repr

/-- An assignment to `uc` or `*ucp`. -/
def setTo (p : Nat) : Run Access Nat := .event (.move p) p

section Routines

variable (mem : Nat → UInt8) (ue : Nat)

/-- `*p`. -/
def deref (p : Nat) : Run Access UInt8 := .event (.read p) (mem p)

def skipSpaceStep (uc : Nat) : Run Access (Nat ⊕ Nat) :=
  if uc < ue then do
    let c ← deref mem uc
    if jsonIsspace c then do
      let uc ← setTo (uc + 1)
      pure (.inl uc)
    else pure (.inr uc)
  else pure (.inr uc)

/-- `json_skip_space`. -/
def jsonSkipSpace (uc : Nat) : Run Access Nat :=
  .call (.loop (skipSpaceStep mem ue) (ue - uc + 1) uc)

/-- The last rounds of `for (i = 0; i < 4; i++) if (!json_isxdigit(*uc++)) goto out`. -/
def hexDigits : Nat → Nat → Run Access (Bool × Nat)
  | 0, uc => pure (true, uc)
  | rounds + 1, uc => do
      let c ← deref mem uc
      let uc ← setTo (uc + 1)
      if jsonIsxdigit c then hexDigits rounds uc else pure (false, uc)

def stringStep (uc : Nat) : Run Access (Nat ⊕ Bool × Nat) :=
  if uc < ue then do
    let c ← deref mem uc
    let uc ← setTo (uc + 1)
    if c = 0 then pure (.inr (false, uc))
    else if c = 0x5c then
      if uc = ue then pure (.inr (false, uc))
      else do
        let e ← deref mem uc
        let uc ← setTo (uc + 1)
        if e = 0 then pure (.inr (false, uc))
        else if jsonEscape e then pure (.inl uc)
        else if e = 0x75 then
          if ue - uc < 4 then do
            let uc ← setTo ue
            pure (.inr (false, uc))
          else do
            let hex ← hexDigits mem 4 uc
            if hex.1 then pure (.inl hex.2) else pure (.inr (false, hex.2))
        else pure (.inr (false, uc))
    else if c = 0x22 then pure (.inr (true, uc))
    else pure (.inl uc)
  else pure (.inr (false, uc))

/-- `json_parse_string`, with its return value and what `*ucp` is set to. -/
def jsonParseString (ucp : Nat) : Run Access (Bool × Nat) :=
  .call do
    let r ← .loop (stringStep mem ue) (ue - ucp + 1) ucp
    let uc ← setTo r.2
    pure (r.1, uc)

def digitsStep (s : Bool × Nat) : Run Access ((Bool × Nat) ⊕ Bool × Nat) :=
  if s.2 < ue then do
    let c ← deref mem s.2
    if jsonIsdigit c then do
      let uc ← setTo (s.2 + 1)
      pure (.inl (true, uc))
    else pure (.inr s)
  else pure (.inr s)

/-- `for (; uc < ue; uc++) { if (!json_isdigit(*uc)) break; got = 1; }`. -/
def digits (got : Bool) (uc : Nat) : Run Access (Bool × Nat) :=
  .loop (digitsStep mem ue) (ue - uc + 1) (got, uc)

/-- `if (*uc == c) uc++`. -/
def skipChar (c : UInt8) (uc : Nat) : Run Access Nat := do
  let d ← deref mem uc
  if d = c then setTo (uc + 1) else pure uc

/-- The exponent part of `json_parse_number`, behind the letter. -/
def exponent (uc : Nat) : Run Access (Bool × Nat) :=
  if uc = ue then pure (false, uc)
  else do
    let d ← deref mem uc
    let uc ← if d = 0x2b ∨ d = 0x2d then setTo (uc + 1) else pure uc
    digits mem ue false uc

/-- `json_parse_number` up to the label `out`. -/
def numberBody (ucp : Nat) : Run Access (Bool × Nat) := do
  let uc ← skipChar mem 0x2d ucp
  let whole ← digits mem ue false uc
  if whole.2 = ue then pure whole
  else do
    let uc ← skipChar mem 0x2e whole.2
    let frac ← digits mem ue whole.1 uc
    if frac.2 = ue then pure frac
    else if frac.1 then do
      let d ← deref mem frac.2
      if d = 0x65 ∨ d = 0x45 then do
        let uc ← setTo (frac.2 + 1)
        exponent mem ue uc
      else pure frac
    else pure frac

/-- `json_parse_number`. -/
def jsonParseNumber (ucp : Nat) : Run Access (Bool × Nat) :=
  .call <|
    if ucp = ue then pure (false, ucp)
    else do
      let r ← numberBody mem ue ucp
      let uc ← setTo r.2
      pure (r.1, uc)

/-- `for (; uc < ue && --len;) if (*uc++ != *++str) return 0`. -/
def constLoop : List UInt8 → Nat → Run Access Bool
  | [], _ => pure true
  | s :: str, uc =>
      if uc < ue then do
        let c ← deref mem uc
        let uc ← setTo (uc + 1)
        if c ≠ s then pure false else constLoop str uc
      else pure true

/-- `if (*ucp > ue) *ucp = ue`. -/
def clamp (p : Nat) : Run Access Nat := if p > ue then setTo ue else pure p

/-- `json_parse_const(ucp, ue, str, sizeof(str), lvl)`. -/
def jsonParseConst (str : List UInt8) (ucp : Nat) : Run Access (Bool × Nat) :=
  .call do
    -- `*ucp += --len - 1`, before anything is compared with `ue`
    let moved ← setTo (ucp + (str.length - 1))
    let moved ← clamp ue moved
    let rv ← constLoop mem ue str.tail ucp
    pure (rv, moved)

/-- A return value, with `*ucp` and `st` as they are left. -/
structure Left where
  rv : Nat
  uc : Nat
  st : Stats
  deriving DecidableEq, Repr

/-- One round of the loop of `json_parse_array`, with `json_parse` at the level below as
`value`. -/
def arrayStep (value : Nat → Stats → Run Access Left) (s : Nat × Stats) :
    Run Access ((Nat × Stats) ⊕ Left) :=
  if s.1 < ue then do
    let uc ← jsonSkipSpace mem ue s.1
    let uc ← setTo uc
    if uc = ue then pure (.inr ⟨0, uc, s.2⟩)
    else do
      let c ← deref mem uc
      if c = 0x5d then pure (.inr ⟨1, uc + 1, { s.2 with arrayn := s.2.arrayn + 1 }⟩)
      else do
        let r ← value uc s.2
        if r.rv = 0 then pure (.inr ⟨0, r.uc, r.st⟩)
        else if r.uc = ue then pure (.inr ⟨0, r.uc, r.st⟩)
        else do
          let d ← deref mem r.uc
          if d = 0x2c then do
            let uc ← setTo (r.uc + 1)
            pure (.inl (uc, r.st))
          else if d = 0x5d then
            pure (.inr ⟨1, r.uc + 1, { r.st with arrayn := r.st.arrayn + 1 }⟩)
          else pure (.inr ⟨0, r.uc, r.st⟩)
  else pure (.inr ⟨0, s.1, s.2⟩)

/-- `json_parse_array`. -/
def jsonParseArray (value : Nat → Stats → Run Access Left) (ucp : Nat) (st : Stats) :
    Run Access Left :=
  .call do
    let r ← .loop (arrayStep mem ue value) (ue - ucp + 1) (ucp, st)
    let uc ← setTo r.uc
    pure { r with uc := uc }

/-- What `json_parse_object` does behind a value that was parsed. -/
def objectMore (r : Left) : Run Access ((Nat × Stats) ⊕ Left) :=
  if r.uc = ue then pure (.inr ⟨0, r.uc, r.st⟩)
  else do
    let d ← deref mem r.uc
    let uc ← setTo (r.uc + 1)
    if d = 0x2c then pure (.inl (uc, r.st))
    else if d = 0x7d then pure (.inr ⟨1, uc, r.st⟩)
    else do
      -- `*ucp = uc - 1; goto out`, where `*ucp` is set again
      let _ ← setTo (uc - 1)
      pure (.inr ⟨0, uc, r.st⟩)

/-- What `json_parse_object` does behind the key. -/
def objectField (value : Nat → Stats → Run Access Left) (key : Nat) (st : Stats) :
    Run Access ((Nat × Stats) ⊕ Left) := do
  let uc ← jsonSkipSpace mem ue key
  let uc ← setTo uc
  if uc = ue then pure (.inr ⟨0, uc, st⟩)
  else do
    let c ← deref mem uc
    let uc ← setTo (uc + 1)
    if c ≠ 0x3a then pure (.inr ⟨0, uc, st⟩)
    else do
      let r ← value uc st
      if r.rv = 0 then pure (.inr ⟨0, r.uc, r.st⟩) else objectMore mem ue r

/-- One round of the loop of `json_parse_object`. -/
def objectStep (value : Nat → Stats → Run Access Left) (s : Nat × Stats) :
    Run Access ((Nat × Stats) ⊕ Left) :=
  if s.1 < ue then do
    let uc ← jsonSkipSpace mem ue s.1
    let uc ← setTo uc
    if uc = ue then pure (.inr ⟨0, uc, s.2⟩)
    else do
      let c ← deref mem uc
      let uc ← setTo (uc + 1)
      if c = 0x7d then pure (.inr ⟨1, uc, s.2⟩)
      else if c ≠ 0x22 then pure (.inr ⟨0, uc, s.2⟩)
      else do
        let key ← jsonParseString mem ue uc
        if key.1 = false then pure (.inr ⟨0, key.2, s.2⟩)
        else objectField mem ue value key.2 s.2
  else pure (.inr ⟨0, s.1, s.2⟩)

/-- `json_parse_object`. -/
def jsonParseObject (value : Nat → Stats → Run Access Left) (ucp : Nat) (st : Stats) :
    Run Access Left :=
  .call do
    let r ← .loop (objectStep mem ue value) (ue - ucp + 1) (ucp, st)
    let uc ← setTo r.uc
    pure { r with uc := uc }

/-- A routine without counters of its own. -/
def Left.of (r : Bool × Nat) (st : Stats) : Left := ⟨r.1.toNat, r.2, st⟩

/-- The `switch` of `json_parse` at the byte `c`, with `uc` behind it, and `t`. -/
def jsonSwitch (value : Nat → Stats → Run Access Left) (c : UInt8) (uc : Nat) (st : Stats) :
    Run Access (Left × Kind) :=
  if c = 0x22 then do
    let r ← jsonParseString mem ue uc
    pure (.of r st, .string)
  else if c = 0x5b then do
    let r ← jsonParseArray mem ue value uc st
    pure (r, .array)
  else if c = 0x7b then do
    let r ← jsonParseObject mem ue value uc st
    pure (r, .object)
  else if c = 0x74 then do
    let r ← jsonParseConst mem ue [0x74, 0x72, 0x75, 0x65] uc
    pure (.of r st, .constant)
  else if c = 0x66 then do
    let r ← jsonParseConst mem ue [0x66, 0x61, 0x6c, 0x73, 0x65] uc
    pure (.of r st, .constant)
  else if c = 0x6e then do
    let r ← jsonParseConst mem ue [0x6e, 0x75, 0x6c, 0x6c] uc
    pure (.of r st, .constant)
  else do
    let uc ← setTo (uc - 1)
    let r ← jsonParseNumber mem ue uc
    pure (.of r st, .number)

/-- The end of `json_parse` at level 0, with `second` for its call at level 1. -/
def jsonTop (second : Nat → Stats → Run Access Left) (rv ouc uc : Nat) (st : Stats) :
    Run Access Left :=
  if rv = 0 then pure ⟨0, uc, st⟩
  else if uc = ue then pure ⟨st.container.toNat, uc, st⟩
  else do
    let first ← deref mem ouc
    let next ← deref mem uc
    if first = next then do
      -- the call moves the local `uc`; `*ucp` stays
      let r ← second uc st
      if r.rv ≠ 0 then pure ⟨if r.st.container then 2 else 0, uc, r.st⟩
      else pure ⟨0, uc, r.st⟩
    else pure ⟨0, uc, st⟩

/-- `json_parse(ucp, ue, st, lvl)`. -/
def jsonParse (lvl ucp : Nat) (st : Stats) : Run Access Left :=
  .call do
    let ouc ← jsonSkipSpace mem ue ucp
    let ouc ← setTo ouc
    if ouc = ue then do
      let uc ← setTo ouc
      pure ⟨0, uc, st⟩
    else if lvl > 500 then pure ⟨0, ucp, st⟩
    else do
      let c ← deref mem ouc
      let uc ← setTo (ouc + 1)
      let r ← jsonSwitch mem ue (fun uc st => jsonParse (lvl + 2) uc st) c uc st
      let st := if r.1.rv ≠ 0 then r.1.st.bump r.2 else r.1.st
      let uc ← jsonSkipSpace mem ue r.1.uc
      let uc ← setTo uc
      if lvl = 0 then jsonTop mem ue (fun uc st => jsonParse 1 uc st) r.1.rv ouc uc st
      else pure ⟨r.1.rv, uc, st⟩
  termination_by 501 - lvl
  decreasing_by all_goals omega

end Routines

end Libmagic.Json.Cursor
