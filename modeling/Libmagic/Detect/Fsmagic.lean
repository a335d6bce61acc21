import Libmagic.Detect.FileBuffer
import Libmagic.Softmagic.Printf

/-!
# `fsmagic.c`: `file_fsmagic`

What the file system says of a name, in the build for Linux. The answer is 1 when that is all there is to say of the
file, and 0 when it is to be looked into.
-/
namespace Libmagic.Detect

open Softmagic
open Encoding (MAGIC_MIME)

def MAGIC_SYMLINK : Nat := 0x2
def MAGIC_DEVICES : Nat := 0x8
def MAGIC_ERROR : Nat := 0x200

def S_IFMT : Nat := 0o170000
def S_IFIFO : Nat := 0o010000
def S_IFCHR : Nat := 0o020000
def S_IFDIR : Nat := 0o040000
def S_IFBLK : Nat := 0o060000
def S_IFREG : Nat := 0o100000
def S_IFLNK : Nat := 0o120000
def S_IFSOCK : Nat := 0o140000

/-- `struct stat`. -/
structure Stat where
  mode : Nat
  size : Nat
  major : Nat
  minor : Nat
  atime : Int
  mtime : Int

/-- What a name is: an error is the `errno`. A link has a target, which is empty when `readlink` fails, the `errno` behind
that, and the error of `stat` if there is one. -/
structure Path where
  lstat : Except Nat Stat
  stat : Except Nat Stat
  target : Bytes
  unread : Nat
  broken : Option Nat

/-- Calls of `file_printf`. -/
abbrev Printfs := List (Bytes × List Arg)

def sugid : List (Nat × Bytes) := [(0o4000, asc "setuid"), (0o2000, asc "setgid"), (0o1000, asc "sticky")]

/-- `COMMA`. -/
def comma (did : Bool) : Bytes := if did then asc ", " else []

/-- `pr_flags`, and whether something was printed. -/
def prFlags (flag : Nat) : List (Nat × Bytes) → (did : Bool) → Printfs × Bool
  | [], did => ([], did)
  | (v, s) :: nvlist, did =>
      if flag &&& v = 0 then prFlags flag nvlist did
      else
        let r := prFlags flag nvlist true
        ((asc "%s%s", [.str s, .str (comma did)]) :: r.1, r.2)

/-- `handle_mime`. -/
def handleMime (flags : Nat) (str : Bytes) : Printfs :=
  (if has flags MAGIC_MIME_TYPE then
    (asc "inode/%s", [.str str]) :: if has flags MAGIC_MIME_ENCODING then [(asc "; charset=", [])] else []
  else []) ++ if has flags MAGIC_MIME_ENCODING then [(asc "binary", [])] else []

def silent (flags : Nat) : Bool := has flags (MAGIC_APPLE ||| MAGIC_EXTENSION)

/-- What is printed of a file that is not looked into. -/
def inode (flags : Nat) (mime : Bytes) (text : Bytes × List Arg) : Printfs :=
  if has flags MAGIC_MIME then handleMime flags mime else if silent flags then [] else [text]

/-- What the `switch` over the kinds of files does. -/
inductive Judged where
  | said (printfs : Printfs)
  | passed
  | failed (errno : Nat) (fmt : Bytes) (args : List Arg)
  | broken (printfs : Printfs)
  | followed (target : Bytes)

/-- `bad_link`. -/
def badLink (flags err : Nat) (target : Bytes) : Judged :=
  if has flags MAGIC_MIME_TYPE then .broken [(asc "inode/symlink", [])]
  else if has flags MAGIC_MIME then .broken []
  else if has flags MAGIC_ERROR then .failed err (asc "broken symbolic link to %s") [.str target]
  else .broken [(asc "broken symbolic link to %s", [.str target])]

/-- The case of a link. -/
def judgeLink (flags : Nat) (fn : Bytes) (strerror : Nat → Bytes) (p : Path) (did : Bool) : Judged :=
  if p.target = [] then
    if has flags MAGIC_ERROR then .failed p.unread (asc "unreadable symlink `%s'") [.str fn]
    else .said (inode flags (asc "symlink")
      (asc "%sunreadable symlink `%s' (%s)", [.str (comma did), .str fn, .str (strerror p.unread)]))
  else match p.broken with
    | some err => badLink flags err p.target
    | none =>
        if has flags MAGIC_SYMLINK then .followed p.target
        else .said (inode flags (asc "symlink") (asc "%ssymbolic link to %s", [.str (comma did), .str p.target]))

/-- A device, which is looked into on demand. -/
def judgeDevice (flags : Nat) (mime fmt : Bytes) (st : Stat) (did : Bool) : Judged :=
  if has flags MAGIC_DEVICES then .passed
  else .said (inode flags mime (fmt, [.str (comma did), .int st.major, .int st.minor]))

/-- The `switch`. -/
def judge (flags : Nat) (fn : Bytes) (strerror : Nat → Bytes) (p : Path) (st : Stat) (did : Bool) : Judged :=
  let kind := st.mode &&& S_IFMT
  if kind = S_IFDIR then .said (inode flags (asc "directory") (asc "%sdirectory", [.str (comma did)]))
  else if kind = S_IFCHR then judgeDevice flags (asc "chardevice") (asc "%scharacter special (%ld/%ld)") st did
  else if kind = S_IFBLK then judgeDevice flags (asc "blockdevice") (asc "%sblock special (%ld/%ld)") st did
  else if kind = S_IFIFO then
    -- with MAGIC_DEVICES nothing is said, and the file is not looked into
    if has flags MAGIC_DEVICES then .said []
    else .said (inode flags (asc "fifo") (asc "%sfifo (named pipe)", [.str (comma did)]))
  else if kind = S_IFLNK then judgeLink flags fn strerror p did
  else if kind = S_IFSOCK then .said (inode flags (asc "socket") (asc "%ssocket", [.str (comma did)]))
  else if kind = S_IFREG then
    if !has flags MAGIC_DEVICES && st.size == 0 then
      .said (inode flags (asc "x-empty") (asc "%sempty", [.str (comma did)]))
    else .passed
  else .failed 0 (asc "invalid mode 0%o") [.uint st.mode]

/-- A call of `magic_file` on the target of a link: whether it answers. -/
abbrev Follow := Bytes → State → Option (Bool × State)

/-- The answer behind some calls of `file_printf`. -/
def say (host : Host) (printfs : Printfs) (answer : Int) (s : State) : Int × State :=
  let r := prints host printfs s.ms.io
  (if r.1 then answer else -1, s.withIo r.2)

/-- What `file_fsmagic` does behind the `switch`. -/
def answer (host : Host) (follow : Follow) (did : Bool) (s : State) : Judged → Option (Int × State)
  | .said printfs => some (say host printfs (if silent s.flags then 0 else 1) s)
  | .passed => some (say host (if did then [(asc " ", [])] else []) 0 s)
  | .failed errno fmt args => some (-1, s.withIo (fileError host errno fmt args s.ms.io))
  | .broken printfs => some (say host printfs 1 s)
  | .followed target =>
      (follow target { s with flags := s.flags &&& MAGIC_SYMLINK }).map fun r =>
        (if !r.1 then -1 else if silent s.flags then 0 else 1, { r.2 with flags := r.2.flags ||| MAGIC_SYMLINK })

/-- `file_fsmagic`, behind `stat`. -/
def behindStat (host : Host) (follow : Follow) (fn : Bytes) (p : Path) (st : Stat) (s : State) : Option (Int × State) :=
  let bits := if has s.flags MAGIC_MIME || silent s.flags then ([], false) else prFlags st.mode sugid false
  let r := prints host bits.1 s.ms.io
  if r.1 then answer host follow bits.2 (s.withIo r.2) (judge s.flags fn host.strerror p st bits.2)
  else some (-1, s.withIo r.2)

/-- `file_fsmagic`. -/
def fileFsmagic (host : Host) (follow : Follow) (fn : Option Bytes) (p : Path) (s : State) : Option (Int × State) :=
  match fn with
  | none => some (0, s)
  | some fn =>
      match if has s.flags MAGIC_SYMLINK then p.stat else p.lstat with
      | .error errno =>
          if has s.flags MAGIC_ERROR then
            some (-1, s.withIo (fileError host errno (asc "cannot stat `%s'") [.str fn] s.ms.io))
          else some (say host [(asc "cannot open `%s' (%s)", [.str fn, .str (host.strerror errno)])] 0 s)
      | .ok st => behindStat host follow fn p st s

/-- `stat` goes through links. -/
def Path.Resolved (p : Path) : Prop := ∀ st, p.stat = .ok st → st.mode &&& S_IFMT ≠ S_IFLNK

/-! ## Links that are followed -/

section

variable {host : Host} {flags : Nat} {fn : Bytes} {strerror : Nat → Bytes} {p : Path} {st : Stat} {did : Bool}

theorem badLink_broken (err : Nat) (target other : Bytes) : badLink flags err target ≠ .followed other := by
  intro followed
  unfold badLink at followed
  by_cases type : has flags MAGIC_MIME_TYPE = true
  · rw [if_pos type] at followed
    cases followed
  rw [if_neg type] at followed
  by_cases mime : has flags MAGIC_MIME = true
  · rw [if_pos mime] at followed
    cases followed
  rw [if_neg mime] at followed
  by_cases error : has flags MAGIC_ERROR = true
  · rw [if_pos error] at followed
    cases followed
  rw [if_neg error] at followed
  cases followed

theorem judgeLink_followed {target : Bytes} (followed : judgeLink flags fn strerror p did = .followed target) :
    has flags MAGIC_SYMLINK = true := by
  unfold judgeLink at followed
  by_cases unread : p.target = []
  · rw [if_pos unread] at followed
    by_cases error : has flags MAGIC_ERROR = true
    · rw [if_pos error] at followed
      cases followed
    rw [if_neg error] at followed
    cases followed
  rw [if_neg unread] at followed
  cases broken : p.broken with
  | some err =>
      rw [broken] at followed
      exact absurd followed (badLink_broken err p.target target)
  | none =>
      rw [broken] at followed
      dsimp only at followed
      by_contra other
      rw [if_neg other] at followed
      cases followed

theorem judgeDevice_looks (mime fmt : Bytes) (target : Bytes) : judgeDevice flags mime fmt st did ≠ .followed target := by
  intro followed
  unfold judgeDevice at followed
  by_cases devices : has flags MAGIC_DEVICES = true
  · rw [if_pos devices] at followed
    cases followed
  rw [if_neg devices] at followed
  cases followed

/-- A link is followed where `stat` has found one. -/
theorem judge_followed {target : Bytes} (followed : judge flags fn strerror p st did = .followed target) :
    has flags MAGIC_SYMLINK = true ∧ st.mode &&& S_IFMT = S_IFLNK := by
  unfold judge at followed
  dsimp only at followed
  by_cases dir : st.mode &&& S_IFMT = S_IFDIR
  · rw [if_pos dir] at followed
    cases followed
  by_cases chr : st.mode &&& S_IFMT = S_IFCHR
  · rw [if_neg dir, if_pos chr] at followed
    exact absurd followed (judgeDevice_looks _ _ target)
  by_cases blk : st.mode &&& S_IFMT = S_IFBLK
  · rw [if_neg dir, if_neg chr, if_pos blk] at followed
    exact absurd followed (judgeDevice_looks _ _ target)
  by_cases fifo : st.mode &&& S_IFMT = S_IFIFO
  · rw [if_neg dir, if_neg chr, if_neg blk, if_pos fifo] at followed
    by_cases devices : has flags MAGIC_DEVICES = true
    · rw [if_pos devices] at followed
      cases followed
    rw [if_neg devices] at followed
    cases followed
  rw [if_neg dir, if_neg chr, if_neg blk, if_neg fifo] at followed
  by_cases link : st.mode &&& S_IFMT = S_IFLNK
  · rw [if_pos link] at followed
    exact ⟨judgeLink_followed followed, link⟩
  rw [if_neg link] at followed
  by_cases sock : st.mode &&& S_IFMT = S_IFSOCK
  · rw [if_pos sock] at followed
    cases followed
  rw [if_neg sock] at followed
  by_cases regular : st.mode &&& S_IFMT = S_IFREG
  · rw [if_pos regular] at followed
    by_cases empty : (!has flags MAGIC_DEVICES && st.size == 0) = true
    · rw [if_pos empty] at followed
      cases followed
    rw [if_neg empty] at followed
    cases followed
  rw [if_neg regular] at followed
  cases followed

/-- Nothing is followed, so that the flags stay as they are. -/
theorem fileFsmagic_answers (resolved : p.Resolved) (fn : Option Bytes) (s : State) :
    ∃ rv s', (∀ follow : Follow, fileFsmagic host follow fn p s = some (rv, s')) ∧ s'.flags = s.flags := by
  unfold fileFsmagic
  cases fn with
  | none => exact ⟨0, s, fun _ => rfl, rfl⟩
  | some fn =>
      dsimp only
      cases found : (if has s.flags MAGIC_SYMLINK then p.stat else p.lstat) with
      | error errno =>
          by_cases error : has s.flags MAGIC_ERROR = true
          · exact ⟨_, _, fun _ => if_pos error, rfl⟩
          · exact ⟨_, _, fun _ => if_neg error, rfl⟩
      | ok st =>
          dsimp only
          unfold behindStat
          dsimp only
          generalize (if (has s.flags MAGIC_MIME || silent s.flags) = true then ([], false)
            else prFlags st.mode sugid false) = bits
          by_cases printed : (prints host bits.1 s.ms.io).1 = true
          · cases judged : judge s.flags fn host.strerror p st bits.2 with
            | followed target =>
                obtain ⟨symlink, link⟩ := judge_followed judged
                rw [if_pos symlink] at found
                exact absurd link (resolved st found)
            | said | passed | failed | broken => exact ⟨_, _, fun _ => if_pos printed, rfl⟩
          · exact ⟨_, _, fun _ => if_neg printed, rfl⟩

end

/-! ## Plain files -/

/-- A file of which the name says nothing. -/
structure Stat.Plain (st : Stat) (flags : Nat) : Prop where
  regular : st.mode &&& S_IFMT = S_IFREG
  bits : ∀ b ∈ sugid, st.mode &&& b.1 = 0
  some : st.size ≠ 0 ∨ has flags MAGIC_DEVICES = true

theorem prFlags_none {flag : Nat} {nvlist : List (Nat × Bytes)} (none : ∀ b ∈ nvlist, flag &&& b.1 = 0) (did : Bool) :
    prFlags flag nvlist did = ([], did) := by
  induction nvlist with
  | nil => rfl
  | cons b nvlist ih =>
      rw [prFlags, if_pos (none b List.mem_cons_self), ih fun b mem => none b (List.mem_cons_of_mem _ mem)]

theorem fileFsmagic_plain {host : Host} {follow : Follow} {p : Path} {st : Stat} {s : State} (plain : st.Plain s.flags)
    (found : (if has s.flags MAGIC_SYMLINK then p.stat else p.lstat) = .ok st) (fn : Bytes) :
    fileFsmagic host follow (some fn) p s = some (0, s) := by
  have nothing : (if has s.flags MAGIC_MIME || silent s.flags then ([], false) else prFlags st.mode sugid false) =
      (([], false) : Printfs × Bool) := by
    split
    · rfl
    · exact prFlags_none plain.bits false
  have empty : (!has s.flags MAGIC_DEVICES && st.size == 0) = false := by
    cases plain.some with
    | inl some => rw [beq_false_of_ne some, Bool.and_false]
    | inr devices => rw [devices, Bool.not_true, Bool.false_and]
  have passes : judge s.flags fn host.strerror p st false = .passed := by
    unfold judge
    dsimp only
    rw [plain.regular, if_neg (by decide), if_neg (by decide), if_neg (by decide), if_neg (by decide), if_neg (by decide),
      if_neg (by decide), if_pos rfl, empty, if_neg Bool.false_ne_true]
  unfold fileFsmagic
  dsimp only
  rw [found]
  dsimp only
  unfold behindStat
  rw [nothing]
  change answer host follow false s (judge s.flags fn host.strerror p st false) = _
  rw [passes]
  rfl

end Libmagic.Detect
