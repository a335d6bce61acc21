import Libmagic.Funcs.Buffer
import Libmagic.Softmagic.Printf

/-!
# `funcs.c`: `file_replace`

The loop ends when the pattern is no longer found. The rounds are bounded here, and a bound that was too small is told
apart.
-/
namespace Libmagic.Funcs

open Softmagic

/-- The loop of `file_replace` from `nm` on: no result beyond the rounds, nor without a buffer. -/
def replaceLoop (host : Host) (n : Nat) (pat rep : Bytes) : (rounds nm : Nat) → Output → Option (Nat × Output)
  | 0, _, _ => none
  | rounds + 1, nm, o =>
      match o.buf with
      | none => none
      | some b =>
          match host.regexec pat false (cstring b) with
          | .found so eo =>
              let r := filePrintf host n (asc "%s%s") (replaceArgs rep b so eo) (o.cut b so)
              if r.1 then replaceLoop host n pat rep rounds (nm + 1) r.2 else some (nm, r.2)
          | _ => some (nm, o)

/-- `file_replace`. -/
def fileReplace (host : Host) (n flags rounds : Nat) (pat rep : Bytes) (o : Output) : Option (Int × Output) :=
  let r := replaceRegcomp host n flags pat o
  if !r.1 then some (-1, r.2) else (replaceLoop host n pat rep rounds 0 r.2).map fun r => (↑r.1, r.2)

/-- The output as matching has it, with its length. -/
def Output.ofIo (io : Io) : Output :=
  { buf := io.buf, blen := Softmagic.blen io, hadErr := io.hadErr, error := io.error, line := io.line, tick := io.tick }

/-- A loop with a result is one that comes to its end. -/
theorem replaceLoop_replaced {host : Host} {n rounds nm nm' : Nat} {pat rep : Bytes} {o o' : Output}
    (result : replaceLoop host n pat rep rounds nm o = some (nm', o')) : Replaced host n pat rep o o' := by
  induction rounds generalizing nm o with
  | zero => cases result
  | succ rounds ih =>
      rw [replaceLoop] at result
      split at result
      · cases result
      next b buf =>
        split at result
        next so eo found =>
          dsimp only at result
          split at result
          next printed => exact .round buf found (Prod.ext printed rfl) (ih result)
          next failed =>
            obtain ⟨rfl, rfl⟩ := Prod.mk.inj (Option.some.inj result)
            exact .failed buf found (Prod.ext (Bool.eq_false_of_not_eq_true failed) rfl)
        next missing =>
          obtain ⟨rfl, rfl⟩ := Prod.mk.inj (Option.some.inj result)
          exact .done buf missing

/-! ## A text at the end -/

/-- `regcomp` and `regexec` of a plain text with a `$` behind it. -/
structure EndPattern (host : Host) (text : Bytes) : Prop where
  regcomp : host.regcomp (text ++ asc "$") false = none
  found : ∀ front, host.regexec (text ++ asc "$") false (front ++ text) = .found front.length (front.length + text.length)
  missing : ∀ s, ¬ text <:+ s → ∀ so eo, host.regexec (text ++ asc "$") false s ≠ .found so eo

section

variable {host : Host} {text rep : Bytes} {n flags rounds : Nat} {io : Io}

theorem replaceRegcomp_endPattern (pattern : EndPattern host text) (checked : checkRegex (text ++ asc "$") = true)
    (o : Output) : replaceRegcomp host n flags (text ++ asc "$") o = (true, o) := by
  rw [replaceRegcomp, checked, pattern.regcomp]
  rfl

/-- Without the text at its end, the output stays. -/
theorem fileReplace_missing (pattern : EndPattern host text) (checked : checkRegex (text ++ asc "$") = true)
    {b : Bytes} (buf : io.buf = some b) (clean : 0 ∉ b) (other : ¬ text <:+ b) :
    fileReplace host n flags (rounds + 1) (text ++ asc "$") rep (.ofIo io) = some (0, .ofIo io) := by
  have stays : replaceLoop host n (text ++ asc "$") rep (rounds + 1) 0 (.ofIo io) = some (0, .ofIo io) := by
    rw [replaceLoop, Output.ofIo, buf]
    dsimp only
    rw [cstring_self clean]
    split
    next so eo found => exact absurd found (pattern.missing b other so eo)
    · rfl
  rw [fileReplace, replaceRegcomp_endPattern pattern checked]
  dsimp only
  rw [if_neg (by decide), stays]
  rfl

/-- What `file_printf` of the replacement leaves, where the length still counts the text that was cut. -/
theorem filePrintf_replaceArgs (standard : Standard host) {front : Bytes} (some' : text ≠ []) (clean : 0 ∉ front ++ text)
    (cleanRep : 0 ∉ rep) (err : io.hadErr = false) (short : rep.length ≤ 1024)
    (room : rep.length + blen io ≤ 1024 * 1024) :
    filePrintf host n (asc "%s%s") (replaceArgs rep (front ++ text) front.length (front.length + text.length))
        ((Output.ofIo io).cut (front ++ text) front.length) =
      (true, .ofIo { io with buf := some (front ++ rep), tick := io.tick + 2 }) := by
  have checked : fileCheckfmt (asc "%s%s") = none := by decide
  have args : replaceArgs rep (front ++ text) front.length (front.length + text.length) = [.str rep, .str []] := by
    have behind : (front.length + text.length : Int) ≠ 0 := by
      have pos := List.length_pos_iff.mpr some'
      omega
    have all : ((front ++ text).set front.length 0).drop (front.length + text.length) = [] := by
      apply List.drop_eq_nil_of_le
      rw [List.length_set, List.length_append]
    rw [replaceArgs, if_pos behind, Int.toNat_natCast, ← Int.natCast_add, Int.toNat_natCast, all]
    rfl
  have text' : host.vasprintf (asc "%s%s") [.str rep, .str []] = some rep := by
    apply standard.vasprintf
    change some (cstring rep ++ (cstring [] ++ [])) = some rep
    rw [cstring_self cleanRep]
    simp [cstring]
  have old : cstring ((front ++ text).set front.length 0) = front := by
    rw [cstring_set, cstring_self clean, List.take_left]
  have calm : ¬ io.hadErr = true := Bool.not_eq_true _ ▸ err
  rw [args, filePrintf, fileVprintf, Output.cut, Output.ofIo]
  dsimp only
  rw [if_neg calm, checked]
  dsimp only
  rw [text']
  dsimp only
  rw [if_neg (by omega), if_pos (standard.malloc _), Int.toNat_natCast, old, cstring_self cleanRep]
  rfl

/-- The text at the end is replaced once. -/
theorem fileReplace_found (pattern : EndPattern host text) (checked : checkRegex (text ++ asc "$") = true)
    (standard : Standard host) {front : Bytes} (buf : io.buf = some (front ++ text)) (some' : text ≠ [])
    (clean : 0 ∉ front ++ text) (cleanRep : 0 ∉ rep) (err : io.hadErr = false) (short : rep.length ≤ 1024)
    (room : rep.length + blen io ≤ 1024 * 1024) (gone : ¬ text <:+ front ++ rep) :
    fileReplace host n flags (rounds + 2) (text ++ asc "$") rep (.ofIo io) =
      some (1, .ofIo { io with buf := some (front ++ rep), tick := io.tick + 2 }) := by
  have cleanNew : 0 ∉ front ++ rep := by
    rw [List.mem_append] at clean ⊢
    exact fun mem => mem.elim (fun h => clean (.inl h)) cleanRep
  have printed := @filePrintf_replaceArgs host text rep n io standard front some' clean cleanRep err short room
  have loop : replaceLoop host n (text ++ asc "$") rep (rounds + 2) 0 (.ofIo io) =
      some (1, .ofIo { io with buf := some (front ++ rep), tick := io.tick + 2 }) := by
    have here : (Output.ofIo io).buf = some (front ++ text) := buf
    rw [replaceLoop, here]
    dsimp only
    rw [cstring_self clean, pattern.found]
    dsimp only
    rw [printed]
    dsimp only
    rw [if_pos rfl, replaceLoop, Output.ofIo]
    dsimp only
    rw [cstring_self cleanNew]
    split
    next so eo found => exact absurd found (pattern.missing _ gone so eo)
    · rfl
  rw [fileReplace, replaceRegcomp_endPattern pattern checked]
  dsimp only
  rw [if_neg (by decide), loop]
  rfl

end

end Libmagic.Funcs
