import Mathlib.Data.List.Basic

/-!
# `is_json.c`

A pointer `uc` into the buffer is the list of bytes from `uc` up to `ue`, so
`uc == ue` is the empty list. `JSON_COUNT` is 0, as the source has it.
-/
namespace Libmagic.Json

def jsonIsspace (uc : UInt8) : Bool :=
  match uc with
  | 0x20 | 0x0a | 0x0d | 0x09 => true
  | _ => false

def jsonIsdigit (uc : UInt8) : Bool :=
  match uc with
  | 0x30 | 0x31 | 0x32 | 0x33 | 0x34 | 0x35 | 0x36 | 0x37 | 0x38 | 0x39 => true
  | _ => false

def jsonIsxdigit (uc : UInt8) : Bool :=
  if jsonIsdigit uc then true
  else match uc with
    | 0x61 | 0x62 | 0x63 | 0x64 | 0x65 | 0x66 => true
    | 0x41 | 0x42 | 0x43 | 0x44 | 0x45 | 0x46 => true
    | _ => false

/-- `json_skip_space`. -/
def jsonSkipSpace : List UInt8 → List UInt8
  | c :: uc => if jsonIsspace c then jsonSkipSpace uc else c :: uc
  | [] => []

/-- The cases of the inner `switch` of `json_parse_string` that only `continue`. -/
def jsonEscape (uc : UInt8) : Bool :=
  match uc with
  | 0x22 | 0x5c | 0x2f | 0x62 | 0x66 | 0x6e | 0x72 | 0x74 => true
  | _ => false

/-- `json_parse_string`, from behind the opening quotation mark. The flag is the
return value, the list what `*ucp` is set to. -/
def jsonParseString : List UInt8 → Bool × List UInt8
  | [] => (false, [])
  | c :: uc =>
      if c = 0 then (false, uc)
      else if c = 0x5c then
        match uc with
        | [] => (false, [])
        | e :: uc =>
            if e = 0 then (false, uc)
            else if jsonEscape e then jsonParseString uc
            else if e = 0x75 then
              match uc with
              | x1 :: x2 :: x3 :: x4 :: uc =>
                  if jsonIsxdigit x1 = false then (false, x2 :: x3 :: x4 :: uc)
                  else if jsonIsxdigit x2 = false then (false, x3 :: x4 :: uc)
                  else if jsonIsxdigit x3 = false then (false, x4 :: uc)
                  else if jsonIsxdigit x4 = false then (false, uc)
                  else jsonParseString uc
              | _ => (false, [])
            else (false, uc)
      else if c = 0x22 then (true, uc)
      else jsonParseString uc

/-- `for (; uc < ue; uc++) { if (!json_isdigit(*uc)) break; got = 1; }`. -/
def jsonDigits : Bool → List UInt8 → Bool × List UInt8
  | got, c :: uc => if jsonIsdigit c then jsonDigits true uc else (got, c :: uc)
  | got, [] => (got, [])

/-- `if (*uc == c) uc++`. -/
def jsonSkipChar (c : UInt8) (uc : List UInt8) : List UInt8 :=
  if uc.head? = some c then uc.tail else uc

/-- The exponent part of `json_parse_number`, behind the letter. -/
def jsonExponent (uc : List UInt8) : Bool × List UInt8 :=
  if uc = [] then (false, uc)
  else jsonDigits false
    (if uc.head? = some 0x2b ∨ uc.head? = some 0x2d then uc.tail else uc)

/-- `json_parse_number`. -/
def jsonParseNumber (uc : List UInt8) : Bool × List UInt8 :=
  if uc = [] then (false, uc)
  else
    let whole := jsonDigits false (jsonSkipChar 0x2d uc)
    if whole.2 = [] then whole
    else
      let frac := jsonDigits whole.1 (jsonSkipChar 0x2e whole.2)
      if frac.2 = [] then frac
      else if frac.1 = true ∧ (frac.2.head? = some 0x65 ∨ frac.2.head? = some 0x45) then
        jsonExponent frac.2.tail
      else frac

/-- `for (; uc < ue && --len;) if (*uc++ != *++str) return 0`. -/
def jsonConstLoop : List UInt8 → List UInt8 → Bool
  | s :: str, c :: uc => if c ≠ s then false else jsonConstLoop str uc
  | _, _ => true

/-- `json_parse_const(ucp, ue, str, sizeof(str), lvl)`, from behind the first letter
of `str`. The pointer is moved whether or not the letters agree. -/
def jsonParseConst (str uc : List UInt8) : Bool × List UInt8 :=
  (jsonConstLoop str.tail uc, uc.drop (str.length - 1))

/-- The array `st[JSON_MAX]`. -/
structure Stats where
  array : Nat := 0
  constant : Nat := 0
  number : Nat := 0
  object : Nat := 0
  string : Nat := 0
  arrayn : Nat := 0
  deriving DecidableEq, Repr

/-- The indices of `st` that `json_parse` counts a value under. -/
inductive Kind where
  | array | constant | number | object | string
  deriving DecidableEq, Repr

/-- `st[t]++`. -/
def Stats.bump (st : Stats) : Kind → Stats
  | .array => { st with array := st.array + 1 }
  | .constant => { st with constant := st.constant + 1 }
  | .number => { st with number := st.number + 1 }
  | .object => { st with object := st.object + 1 }
  | .string => { st with string := st.string + 1 }

/-- `st[JSON_ARRAYN] || st[JSON_OBJECT]`. -/
def Stats.container (st : Stats) : Bool := st.arrayn != 0 || st.object != 0

/-- A return value, with `*ucp` and `st` as they are left. -/
structure Parsed where
  rv : Nat
  uc : List UInt8
  st : Stats
  deriving DecidableEq, Repr

/-- The loop of `json_parse_array`, with `json_parse` at the level below as
`value`. Every round that comes back here has used up a comma, so the number of
bytes bounds the rounds. -/
def jsonParseArray (value : List UInt8 → Stats → Parsed) :
    Nat → List UInt8 → Stats → Parsed
  | 0, uc, st => ⟨0, uc, st⟩
  | k + 1, uc, st =>
      match uc with
      | [] => ⟨0, [], st⟩
      | _ :: _ =>
          match jsonSkipSpace uc with
          | [] => ⟨0, [], st⟩
          | c :: uc =>
              if c = 0x5d then ⟨1, uc, { st with arrayn := st.arrayn + 1 }⟩
              else
                let r := value (c :: uc) st
                if r.rv = 0 then ⟨0, r.uc, r.st⟩
                else match r.uc with
                  | [] => ⟨0, [], r.st⟩
                  | d :: uc =>
                      if d = 0x2c then jsonParseArray value k uc r.st
                      else if d = 0x5d then ⟨1, uc, { r.st with arrayn := r.st.arrayn + 1 }⟩
                      else ⟨0, d :: uc, r.st⟩

/-- The loop of `json_parse_object`. -/
def jsonParseObject (value : List UInt8 → Stats → Parsed) :
    Nat → List UInt8 → Stats → Parsed
  | 0, uc, st => ⟨0, uc, st⟩
  | k + 1, uc, st =>
      match uc with
      | [] => ⟨0, [], st⟩
      | _ :: _ =>
          match jsonSkipSpace uc with
          | [] => ⟨0, [], st⟩
          | c :: uc =>
              if c = 0x7d then ⟨1, uc, st⟩
              else if c ≠ 0x22 then ⟨0, uc, st⟩
              else
                let key := jsonParseString uc
                if key.1 = false then ⟨0, key.2, st⟩
                else match jsonSkipSpace key.2 with
                  | [] => ⟨0, [], st⟩
                  | c :: uc =>
                      if c ≠ 0x3a then ⟨0, uc, st⟩
                      else
                        let r := value uc st
                        if r.rv = 0 then ⟨0, r.uc, r.st⟩
                        else match r.uc with
                          | [] => ⟨0, [], r.st⟩
                          | d :: uc =>
                              if d = 0x2c then jsonParseObject value k uc r.st
                              else if d = 0x7d then ⟨1, uc, r.st⟩
                              else ⟨0, uc, r.st⟩

/-- A routine without counters of its own. -/
def Parsed.of (r : Bool × List UInt8) (st : Stats) : Parsed := ⟨r.1.toNat, r.2, st⟩

/-- The `switch` of `json_parse` at the byte `c`, with `t`. -/
def jsonSwitch (value : List UInt8 → Stats → Parsed) (c : UInt8) (uc : List UInt8) (st : Stats) :
    Parsed × Kind :=
  if c = 0x22 then (.of (jsonParseString uc) st, .string)
  else if c = 0x5b then (jsonParseArray value uc.length uc st, .array)
  else if c = 0x7b then (jsonParseObject value uc.length uc st, .object)
  else if c = 0x74 then (.of (jsonParseConst [0x74, 0x72, 0x75, 0x65] uc) st, .constant)
  else if c = 0x66 then (.of (jsonParseConst [0x66, 0x61, 0x6c, 0x73, 0x65] uc) st, .constant)
  else if c = 0x6e then (.of (jsonParseConst [0x6e, 0x75, 0x6c, 0x6c] uc) st, .constant)
  else (.of (jsonParseNumber (c :: uc)) st, .number)

/-- `json_parse(ucp, ue, st, lvl)`. -/
def jsonParse (lvl : Nat) (ucp : List UInt8) (st : Stats) : Parsed :=
  match jsonSkipSpace ucp with
  | [] => ⟨0, [], st⟩
  | c :: uc =>
      if lvl > 500 then ⟨0, ucp, st⟩
      else
        -- the array and object routines run at `lvl + 1` and pass `lvl + 2` on
        let r := jsonSwitch (fun uc st => jsonParse (lvl + 2) uc st) c uc st
        let st := if r.1.rv ≠ 0 then r.1.st.bump r.2 else r.1.st
        let uc := jsonSkipSpace r.1.uc
        if lvl = 0 then
          if r.1.rv = 0 then ⟨0, uc, st⟩
          else match uc with
            | [] => ⟨st.container.toNat, [], st⟩
            | d :: _ =>
                if c = d then
                  let second := jsonParse 1 uc st
                  if second.rv ≠ 0 then ⟨if second.st.container then 2 else 0, uc, second.st⟩
                  else ⟨0, uc, second.st⟩
                else ⟨0, uc, st⟩
        else ⟨r.1.rv, uc, st⟩
  termination_by 501 - lvl

end Libmagic.Json
