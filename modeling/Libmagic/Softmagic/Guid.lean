import Libmagic.Softmagic.Match
import Libmagic.Softmagic.Numeric
import Libmagic.Unicode.Utf8

/-!
# `funcs.c`: GUIDs

`file_parse_guid` leaves the first three fields with their lowest byte first, on every host.
`file_print_leguid` prints them in the order of the host and `file_print_beguid` in the other one, and
the comparison of two GUIDs is one of bytes.
-/
namespace Libmagic.Softmagic

/-! ## The routines -/

def XDIGIT : Bytes := asc "0123456789abcdef"

/-- `atox`; `none` is `-1`. -/
def atox (c : UInt8) : Option Nat :=
  let d := if isupper c then tolower c else c
  if d = 0 then none else XDIGIT.idxOf? d

/-- `getxvalue` of `n` digits; what is behind the end of the text counts as its NUL. -/
def getxvalue (s : Bytes) : Nat → Option Nat
  | 0 => some 0
  | n + 1 => do
      let v ← getxvalue s n
      let x ← atox (s.getD n 0)
      some (v * 16 + x)

/-- Bytes of two digits each. -/
def getxbytes (s : Bytes) : Nat → Option Bytes
  | 0 => some []
  | n + 1 => do
      let b ← getxvalue s 2
      let bs ← getxbytes (s.drop 2) n
      some (UInt8.ofNat b :: bs)

/-- `file_bigendian`. -/
def hostOrder (big : Bool) : Order := if big then .big else .little

/-- A field of `n` bytes in memory, with the swap on a host with `file_bigendian`. -/
def guidField (big : Bool) (n x : Nat) : Bytes :=
  (hostOrder big).store n (if big then Order.swap n x else x)

/-- `file_parse_guid`: the 16 bytes of a `struct guid`, or `none` for `-1`. -/
def fileParseGuid (big : Bool) (s : Bytes) : Option Bytes := do
  let data1 ← getxvalue s 8
  guard (s.getD 8 0 = 0x2d)
  let s := s.drop 9
  let data2 ← getxvalue s 4
  guard (s.getD 4 0 = 0x2d)
  let s := s.drop 5
  let data3 ← getxvalue s 4
  guard (s.getD 4 0 = 0x2d)
  let s := s.drop 5
  let front ← getxbytes s 2
  guard (s.getD 4 0 = 0x2d)
  let s := s.drop 5
  let back ← getxbytes s 6
  some (guidField big 4 data1 ++ guidField big 2 data2 ++ guidField big 2 data3 ++ front ++ back)

def FILE_GUID_SIZE : Nat := 37

/-- The GUID types in `getvalue`: the line with its value, and the rest of the text. -/
def getvalueGuid (host : Host) (m : Magic) (p : Bytes) : Option (Magic × Bytes) :=
  (fileParseGuid host.bigendian p).map (fun g =>
    ({ m with value := m.value.write 0 g }, p.drop (FILE_GUID_SIZE - 1)))

/-- What `mprint` prints for the 16 bytes of an entry of a GUID type. -/
def printedGuid (host : Host) (type : MType) (g : Bytes) : Bytes :=
  filePrintGuid (if type = .beguid then !host.bigendian else host.bigendian) g

def isGuidType (type : MType) : Prop := type = .guid ∨ type = .leguid ∨ type = .beguid

/-! ## Texts -/

/-- The text `t` stands in `s` at `k`, but for the case of its letters. -/
def At (s : Bytes) (k : Nat) (t : Bytes) : Prop := ((s.drop k).take t.length).map toupper = t

theorem at_append {s t u : Bytes} {k : Nat} : At s k (t ++ u) ↔ At s k t ∧ At s (k + t.length) u := by
  have split : ((s.drop k).take (t ++ u).length).map toupper =
      ((s.drop k).take t.length).map toupper ++ ((s.drop (k + t.length)).take u.length).map toupper := by
    rw [List.length_append, List.take_add, List.map_append, List.drop_drop]
  unfold At
  rw [split]
  constructor
  · intro same
    have total := congrArg List.length same
    simp only [List.length_append, List.length_map, List.length_take] at total
    apply List.append_inj same
    rw [List.length_map, List.length_take]
    omega
  · rintro ⟨first, second⟩
    rw [first, second]

theorem at_drop {s t : Bytes} {j k : Nat} : At (s.drop j) k t ↔ At s (j + k) t := by
  rw [At, At, List.drop_drop]

theorem atox_lt : ∀ c : UInt8, (atox c).all (· < 16) = true := by
  intro c
  have size : XDIGIT.length = 16 := by decide
  cases digit : atox c with
  | none => rfl
  | some i =>
      simp only [atox] at digit
      generalize (if isupper c then tolower c else c) = d at digit
      by_cases zero : d = 0
      · rw [if_pos zero] at digit
        cases digit
      · rw [if_neg zero] at digit
        obtain ⟨lt, -⟩ := List.idxOf?_eq_some_iff.mp digit
        exact decide_eq_true (size ▸ lt)

theorem toupper_tolower : ∀ c : UInt8, toupper (tolower c) = toupper c :=
  Unicode.forall_byte (by decide +kernel)

theorem tolower_toupper : ∀ c : UInt8, tolower (toupper c) = tolower c :=
  Unicode.forall_byte (by decide +kernel)

theorem atox_digit : ∀ c : UInt8, ∀ d : Fin 16, atox c = some d.val ↔ toupper c = hexDigit true d := by
  have digit : ∀ d : Fin 16, tolower (hexDigit true d) ≠ 0 ∧ XDIGIT.idxOf? (tolower (hexDigit true d)) = some d.val := by
    decide
  have upper : XDIGIT.map toupper = (List.range 16).map (hexDigit true) := by decide
  intro c d
  have lower : atox c = if tolower c = 0 then none else XDIGIT.idxOf? (tolower c) := by
    simp only [atox, tolower]
    split_ifs <;> rfl
  rw [lower]
  constructor
  · intro here
    split_ifs at here
    obtain ⟨inside, at', -⟩ := List.idxOf?_eq_some_iff.mp here
    rw [← toupper_tolower, ← at']
    have same := congrArg (·[d.val]?) upper
    simpa [inside] using same
  · intro same
    rw [← tolower_toupper, same, if_neg (digit d).1]
    exact (digit d).2
theorem atox_iff {c : UInt8} {d : Nat} : atox c = some d ↔ d < 16 ∧ toupper c = hexDigit true d := by
  constructor
  · intro digit
    have lt := atox_lt c
    rw [digit, Option.all_some, decide_eq_true_iff] at lt
    exact ⟨lt, (atox_digit c ⟨d, lt⟩).mp digit⟩
  · rintro ⟨lt, upper⟩
    exact (atox_digit c ⟨d, lt⟩).mpr upper

/-- What stands behind the end of a text is no character. -/
theorem at_singleton {s : Bytes} {k : Nat} {c : UInt8} (nonzero : c ≠ 0) :
    At s k [c] ↔ toupper (s.getD k 0) = c := by
  have first : (s.drop k).take 1 = (s[k]?).toList := by
    rw [List.take_one, List.head?_drop]
  rw [At, List.length_singleton, first, List.getD_eq_getElem?_getD]
  cases s[k]? with
  | none =>
      constructor
      · intro same
        cases same
      · intro same
        exact absurd same.symm nonzero
  | some b =>
      constructor
      · intro same
        exact List.head_eq_of_cons_eq same
      · intro same
        exact congrArg (fun b => [b]) same

theorem getxvalue_iff {s : Bytes} {n x : Nat} :
    getxvalue s n = some x ↔ x < 16 ^ n ∧ At s 0 (hexPadded true n x) := by
  induction n generalizing x with
  | zero =>
      have empty : At s 0 (hexPadded true 0 x) := rfl
      rw [getxvalue, Nat.pow_zero, Nat.lt_one_iff, Option.some_inj, and_iff_left empty, eq_comm]
  | succ n ih =>
      have low : x % 16 < 16 := Nat.mod_lt x (by decide)
      have length : (hexPadded true n (x / 16)).length = n := hexPadded_length true n (x / 16)
      rw [getxvalue, hexPadded, at_append, length, Nat.zero_add, at_singleton (hexDigit_ne_zero true low)]
      constructor
      · intro read
        obtain ⟨v, front, read⟩ := Option.bind_eq_some_iff.mp read
        obtain ⟨d, last, total⟩ := Option.bind_eq_some_iff.mp read
        obtain ⟨small, digits⟩ := ih.mp front
        obtain ⟨lt, digit⟩ := atox_iff.mp last
        have total := Option.some.inj total
        have quotient : x / 16 = v := by omega
        have remainder : x % 16 = d := by omega
        rw [Nat.pow_succ, quotient]
        refine ⟨by omega, digits, ?_⟩
        rw [digit]
        exact congrArg (hexDigit true) remainder.symm
      · rintro ⟨lt, front, last⟩
        have digits := ih.mpr ⟨by rw [Nat.pow_succ] at lt; omega, front⟩
        have digit := atox_iff.mpr ⟨low, last⟩
        rw [digits, Option.bind_eq_bind, Option.bind_some, digit, Option.bind_some]
        congr 1
        omega

theorem getxbytes_iff {s : Bytes} {n : Nat} {bs : Bytes} :
    getxbytes s n = some bs ↔ bs.length = n ∧ At s 0 (bs.flatMap (fun b => hexPadded true 2 b.toNat)) := by
  induction n generalizing s bs with
  | zero =>
      rw [getxbytes, Option.some_inj, List.length_eq_zero_iff, eq_comm]
      refine ⟨fun none => ⟨none, ?_⟩, And.left⟩
      rw [none]
      rfl
  | succ n ih =>
      constructor
      · intro read
        obtain ⟨b, first, read⟩ := Option.bind_eq_some_iff.mp read
        obtain ⟨rest, others, all⟩ := Option.bind_eq_some_iff.mp read
        obtain rfl := Option.some.inj all
        obtain ⟨lt, here⟩ := getxvalue_iff.mp first
        obtain ⟨length, behind⟩ := ih.mp others
        refine ⟨congrArg (· + 1) length, ?_⟩
        have byte : (UInt8.ofNat b).toNat = b := UInt8.toNat_ofNat_of_lt' lt
        rw [List.flatMap_cons, at_append, byte, hexPadded_length]
        exact ⟨here, at_drop.mp behind⟩
      · rintro ⟨length, here⟩
        cases bs with
        | nil => cases length
        | cons b bs =>
            rw [List.flatMap_cons, at_append, hexPadded_length] at here
            have first := getxvalue_iff.mpr ⟨b.toNat_lt, here.1⟩
            have others := ih.mpr ⟨Nat.succ.inj length, at_drop.mpr here.2⟩
            rw [getxbytes, first, others]
            exact congrArg (fun b => some (b :: bs)) UInt8.ofNat_toNat

theorem toupper_dash : ∀ c : UInt8, toupper c = 0x2d ↔ c = 0x2d :=
  Unicode.forall_byte (by decide +kernel)

theorem at_dash {s : Bytes} {k : Nat} : At s k (asc "-") ↔ s.getD k 0 = 0x2d :=
  (at_singleton (c := 0x2d) (by decide)).trans (toupper_dash _)

/-- The swap is one that a host of the other order undoes. -/
theorem guidField_eq (big : Bool) (n x : Nat) : guidField big n x = Order.little.store n x := by
  cases big with
  | false => rfl
  | true => exact Order.store_load .big (Order.store_length .little n x)

/-- The text of a GUID, field by field. -/
theorem filePrintGuid_append {a b c front back : Bytes} (ha : a.length = 4) (hb : b.length = 2) (hc : c.length = 2)
    (two : front.length = 2) (six : back.length = 6) :
    filePrintGuid false (a ++ (b ++ (c ++ (front ++ back)))) =
      hexPadded true 8 (leNat a) ++ (asc "-" ++ (hexPadded true 4 (leNat b) ++ (asc "-" ++
        (hexPadded true 4 (leNat c) ++ (asc "-" ++ (front.flatMap (fun b => hexPadded true 2 b.toNat) ++ (asc "-" ++
          back.flatMap (fun b => hexPadded true 2 b.toNat)))))))) := by
  obtain ⟨a0, a1, a2, a3, rfl⟩ := List.length_eq_four.mp ha
  obtain ⟨b0, b1, rfl⟩ := List.length_eq_two.mp hb
  obtain ⟨c0, c1, rfl⟩ := List.length_eq_two.mp hc
  obtain ⟨d0, d1, rfl⟩ := List.length_eq_two.mp two
  have whole : back.take 6 = back := List.take_of_length_le (Nat.le_of_eq six)
  simp [filePrintGuid, whole]

theorem guid_fields {g : Bytes} (length : g.length = 16) : ∃ a b c front back : Bytes,
    g = a ++ (b ++ (c ++ (front ++ back))) ∧ a.length = 4 ∧ b.length = 2 ∧ c.length = 2 ∧ front.length = 2 ∧
      back.length = 6 := by
  refine ⟨g.take 4, (g.drop 4).take 2, (g.drop 6).take 2, (g.drop 8).take 2, g.drop 10, ?_⟩
  have split (k n : Nat) : (g.drop k).take n ++ g.drop (k + n) = g.drop k := by
    rw [← List.drop_drop, List.take_append_drop]
  refine ⟨?_, ?_⟩
  · rw [split 8 2, split 6 2, split 4 2]
    exact (List.take_append_drop 4 g).symm
  · simp [length]

theorem leNat_store {n x : Nat} (lt : x < 256 ^ n) : leNat (Order.little.store n x) = x := by
  rw [leNat_eq_load, Order.load_store, Nat.mod_eq_of_lt lt]

theorem pairs_length (bs : Bytes) : (bs.flatMap (fun b => hexPadded true 2 b.toNat)).length = 2 * bs.length := by
  induction bs with
  | nil => rfl
  | cons b bs ih =>
      rw [List.flatMap_cons, List.length_append, ih, hexPadded_length, List.length_cons]
      omega

/-- `file_parse_guid` accepts the texts that are printed, in either case, on both kinds of hosts. -/
theorem fileParseGuid_iff {big : Bool} {s g : Bytes} :
    fileParseGuid big s = some g ↔ g.length = 16 ∧ At s 0 (filePrintGuid false g) := by
  simp only [fileParseGuid, Option.bind_eq_bind, Option.bind_eq_some_iff, Option.guard_eq_some', exists_const, guidField_eq,
    getxvalue_iff, getxbytes_iff, ← at_dash, at_drop, List.append_assoc, Option.some_inj]
  constructor
  · rintro ⟨data1, ⟨lt1, first⟩, dash1, data2, ⟨lt2, second⟩, dash2, data3, ⟨lt3, third⟩, dash3, front,
      ⟨two, fourth⟩, dash4, back, ⟨six, fifth⟩, rfl⟩
    constructor
    · rw [List.length_append, List.length_append, List.length_append, List.length_append, Order.store_length,
        Order.store_length, Order.store_length, two, six]
    · rw [filePrintGuid_append (Order.store_length _ _ _) (Order.store_length _ _ _) (Order.store_length _ _ _) two six,
        leNat_store lt1, leNat_store lt2, leNat_store lt3]
      simp only [at_append, hexPadded_length, pairs_length, two]
      exact ⟨first, dash1, second, dash2, third, dash3, fourth, dash4, fifth⟩
  · rintro ⟨length, here⟩
    obtain ⟨a, b, c, front, back, rfl, ha, hb, hc, two, six⟩ := guid_fields length
    rw [filePrintGuid_append ha hb hc two six] at here
    simp only [at_append, hexPadded_length, pairs_length, two] at here
    obtain ⟨first, dash1, second, dash2, third, dash3, fourth, dash4, fifth⟩ := here
    have field {n : Nat} {bs : Bytes} (size : bs.length = n) : leNat bs < 256 ^ n ∧ Order.little.store n (leNat bs) = bs := by
      rw [leNat_eq_load]
      exact ⟨size ▸ Order.load_lt .little bs, Order.store_load .little size⟩
    refine ⟨leNat a, ⟨(field ha).1, first⟩, dash1, leNat b, ⟨(field hb).1, second⟩, dash2, leNat c,
      ⟨(field hc).1, third⟩, dash3, front, ⟨two, fourth⟩, dash4, back, ⟨six, fifth⟩, ?_⟩
    rw [(field ha).2, (field hb).2, (field hc).2]

/-! ## Both byte orders -/

/-- The GUID with the bytes of its first three fields turned around. -/
def swapGuid (g : Bytes) : Bytes :=
  (g.take 4).reverse ++ (((g.drop 4).take 2).reverse ++ (((g.drop 6).take 2).reverse ++ g.drop 8))

theorem swapGuid_append {a b c d : Bytes} (ha : a.length = 4) (hb : b.length = 2) (hc : c.length = 2) :
    swapGuid (a ++ (b ++ (c ++ d))) = a.reverse ++ (b.reverse ++ (c.reverse ++ d)) := by
  obtain ⟨a0, a1, a2, a3, rfl⟩ := List.length_eq_four.mp ha
  obtain ⟨b0, b1, rfl⟩ := List.length_eq_two.mp hb
  obtain ⟨c0, c1, rfl⟩ := List.length_eq_two.mp hc
  rfl

theorem swapGuid_swapGuid {g : Bytes} (length : g.length = 16) : swapGuid (swapGuid g) = g := by
  obtain ⟨a, b, c, front, back, rfl, ha, hb, hc, -, -⟩ := guid_fields length
  rw [swapGuid_append ha hb hc, swapGuid_append (by rwa [List.length_reverse]) (by rwa [List.length_reverse])
    (by rwa [List.length_reverse]), List.reverse_reverse, List.reverse_reverse, List.reverse_reverse]

theorem swapGuid_length {g : Bytes} (length : g.length = 16) : (swapGuid g).length = 16 := by
  simp [swapGuid, length]

/-- A host of the other order prints the GUID with its fields turned around. -/
theorem filePrintGuid_true {g : Bytes} (length : g.length = 16) :
    filePrintGuid true g = filePrintGuid false (swapGuid g) := by
  obtain ⟨a, b, c, front, back, rfl, ha, hb, hc, two, six⟩ := guid_fields length
  rw [swapGuid_append ha hb hc]
  obtain ⟨a0, a1, a2, a3, rfl⟩ := List.length_eq_four.mp ha
  obtain ⟨b0, b1, rfl⟩ := List.length_eq_two.mp hb
  obtain ⟨c0, c1, rfl⟩ := List.length_eq_two.mp hc
  rfl

theorem toupper_hexDigit : ∀ d : Fin 16, toupper (hexDigit true d) = hexDigit true d := by
  decide

theorem map_toupper_hexPadded (n x : Nat) : (hexPadded true n x).map toupper = hexPadded true n x := by
  induction n generalizing x with
  | zero => rfl
  | succ n ih =>
      have digit := toupper_hexDigit ⟨x % 16, Nat.mod_lt x (by decide)⟩
      rw [hexPadded, List.map_append, ih, List.map_singleton, digit]

theorem map_toupper_pairs (bs : Bytes) :
    (bs.flatMap (fun b => hexPadded true 2 b.toNat)).map toupper = bs.flatMap (fun b => hexPadded true 2 b.toNat) := by
  induction bs with
  | nil => rfl
  | cons b bs ih => rw [List.flatMap_cons, List.map_append, map_toupper_hexPadded, ih]

theorem filePrintGuid_length {g : Bytes} (length : g.length = 16) : (filePrintGuid false g).length = 36 := by
  obtain ⟨a, b, c, front, back, rfl, ha, hb, hc, two, six⟩ := guid_fields length
  rw [filePrintGuid_append ha hb hc two six]
  simp [hexPadded_length, two, six, asc]

theorem at_print {s g : Bytes} (length : g.length = 16) :
    At s 0 (filePrintGuid false g) ↔ (s.take 36).map toupper = filePrintGuid false g := by
  rw [At, filePrintGuid_length length, List.drop_zero]

/-- What is printed is read again. -/
theorem fileParseGuid_print {g : Bytes} (big : Bool) (length : g.length = 16) :
    fileParseGuid big (filePrintGuid false g) = some g := by
  refine fileParseGuid_iff.mpr ⟨length, (at_print length).mpr ?_⟩
  rw [List.take_of_length_le (Nat.le_of_eq (filePrintGuid_length length))]
  obtain ⟨a, b, c, front, back, rfl, ha, hb, hc, two, six⟩ := guid_fields length
  rw [filePrintGuid_append ha hb hc two six]
  simp only [List.map_append, map_toupper_hexPadded, map_toupper_pairs]
  rfl

theorem filePrintGuid_inj {g g' : Bytes} (length : g.length = 16) (length' : g'.length = 16) :
    filePrintGuid false g = filePrintGuid false g' ↔ g = g' := by
  constructor
  · intro same
    have read := fileParseGuid_print false length
    rw [same, fileParseGuid_print false length'] at read
    exact (Option.some.inj read).symm
  · exact congrArg _

theorem filePrintGuid_take (big : Bool) (bs : Bytes) : filePrintGuid big (bs.take 16) = filePrintGuid big bs := by
  simp [filePrintGuid, List.drop_take, List.take_take]

/-! ## Tests -/

theorem memcmp_eq_zero {a b : Bytes} (size : a.length = b.length) : uN 64 (memcmp a b) = 0 ↔ a = b := by
  induction a generalizing b with
  | nil =>
      cases b with
      | nil => exact iff_of_true rfl rfl
      | cons b bs => cases size
  | cons a as ih =>
      cases b with
      | nil => cases size
      | cons b bs =>
          rw [memcmp]
          split
          next same => rw [ih (Nat.succ.inj size), same, List.cons_inj_right]
          next differ =>
            have ne : a.toNat ≠ b.toNat := fun same => differ (UInt8.toNat_inj.mp same)
            have lt := a.toNat_lt
            have lt' := b.toNat_lt
            refine iff_of_false ?_ (fun same => differ (List.head_eq_of_cons_eq same))
            rw [uN]
            omega

/-- Whether a GUID of an entry is printed with its fields turned around. -/
def turned (host : Host) (type : MType) : Bool := if type = .beguid then !host.bigendian else host.bigendian

theorem printedGuid_eq {host : Host} {type : MType} {g : Bytes} (length : g.length = 16) :
    printedGuid host type g = filePrintGuid false (if turned host type then swapGuid g else g) := by
  have same : printedGuid host type g = filePrintGuid (turned host type) g := rfl
  rw [same]
  cases turned host type with
  | false => rfl
  | true => exact filePrintGuid_true length

theorem magiccheck_guid {host : Host} {flags : Nat} {m : Magic} {v : Value} {search : Search} {io : Io}
    (guid : isGuidType m.type) (equal : m.reln = .eq) :
    (magiccheck host flags m v search io).matched = some true ↔ m.value.bytes.take 16 = v.bytes.take 16 := by
  have size : (m.value.bytes.take 16).length = (v.bytes.take 16).length := by
    rw [List.length_take, List.length_take, m.value.size, v.size]
  rw [← memcmp_eq_zero size]
  rcases guid with type | type | type <;>
    simp [magiccheck, type, compareInt, equal, fileSignextend]

/-- The printed text of the bytes is the literal. -/
theorem printed_iff {host : Host} {type : MType} {s g v : Bytes}
    (parsed : fileParseGuid host.bigendian s = some g) (length : v.length = 16) :
    printedGuid host type v = (s.take 36).map toupper ↔ (if turned host type then swapGuid v else v) = g := by
  obtain ⟨size, here⟩ := fileParseGuid_iff.mp parsed
  rw [printedGuid_eq length, (at_print size).mp here, filePrintGuid_inj _ size]
  split
  · exact swapGuid_length length
  · exact length

theorem swapGuid_eq_iff {g g' : Bytes} (length : g.length = 16) (length' : g'.length = 16) :
    swapGuid g = g' ↔ g = swapGuid g' := by
  constructor
  · rintro rfl
    exact (swapGuid_swapGuid length).symm
  · rintro rfl
    exact swapGuid_swapGuid length'

/-- Where the fields are turned around, the two tests agree on a GUID that is the same turned around, and on
data that are equal to it neither way. -/
theorem turned_iff {g w : Bytes} (length : g.length = 16) (length' : w.length = 16) :
    (g = w ↔ swapGuid w = g) ↔ swapGuid g = g ∨ (w ≠ g ∧ w ≠ swapGuid g) := by
  rw [swapGuid_eq_iff length' length]
  by_cases equal : w = g
  · subst equal
    simp [eq_comm]
  · by_cases other : w = swapGuid g
    · have ne : swapGuid g ≠ g := fun same => equal (other.trans same)
      simp [other, ne, Ne.symm ne]
    · simp [equal, other, Ne.symm equal]

theorem mprint_guid {env : Env} {m : Magic} (guid : isGuidType m.type) (v : Value) (search : Search) (io : Io) :
    mprint env m v search io =
      (fun r => (r.1, v, r.2)) (printDesc env.host ((varexpand env.mode 512 m.desc).getD m.desc) (asc "%s")
        (.str (printedGuid env.host m.type (v.bytes.take 16))) io) := by
  rw [printedGuid, filePrintGuid_take]
  rcases guid with type | type | type <;>
    simp [mprint, type]

/-- For the text of a GUID: its value is printed as that text and read again, exactly on a host that prints
it in the order of the text, or if the order of its fields does not matter. A test for equality matches
exactly what is printed as the literal, on such a host or for such a literal; else for the data that are
neither the literal nor what is printed as it. -/
theorem guids_agree_iff (host : Host) (s g : Bytes) (parsed : fileParseGuid host.bigendian s = some g) :
    ((printedGuid host .leguid g = (s.take 36).map toupper ∧
        fileParseGuid host.bigendian (printedGuid host .leguid g) = some g) ↔
      host.bigendian = false ∨ swapGuid g = g) ∧
    ∀ m m' rest, isGuidType m.type → m.reln = .eq → getvalueGuid host m s = some (m', rest) →
      ∀ flags v search io,
        ((magiccheck host flags m' v search io).matched = some true ↔
            printedGuid host m'.type (v.bytes.take 16) = (s.take 36).map toupper) ↔
          turned host m'.type = false ∨ swapGuid g = g ∨
            (v.bytes.take 16 ≠ g ∧ v.bytes.take 16 ≠ swapGuid g) := by
  obtain ⟨size, here⟩ := fileParseGuid_iff.mp parsed
  constructor
  · rw [printed_iff parsed size]
    have little : turned host .leguid = host.bigendian := rfl
    rw [printedGuid_eq size, little]
    cases big : host.bigendian with
    | false => simp [fileParseGuid_print false size]
    | true => simp [fileParseGuid_print true (swapGuid_length size)]
  · intro m m' rest guid equal read flags v search io
    have length : (v.bytes.take 16).length = 16 := by
      rw [List.length_take, v.size]
      rfl
    rw [getvalueGuid, parsed, Option.map_some] at read
    have entry : { m with value := m.value.write 0 g } = m' := (Prod.mk.inj (Option.some.inj read)).1
    have type : m'.type = m.type := entry ▸ rfl
    have reln : m'.reln = .eq := entry ▸ equal
    have value : m'.value.bytes.take 16 = g := by
      have stored := write_take m.value (Nat.le_trans (Nat.le_of_eq size) (by decide))
      rw [size] at stored
      exact entry ▸ stored
    rw [magiccheck_guid (type ▸ guid) reln, printed_iff parsed length, value]
    cases turned host m'.type with
    | false => simp [eq_comm]
    | true =>
        rw [if_pos rfl, turned_iff size length]
        simp

/-- The line `0 beguid 00112233-4455-6677-8899-aabbccddeeff`. -/
def beguidLine : Magic := { plainLine with type := .beguid, reln := .eq }

def guidText : Bytes := asc "00112233-4455-6677-8899-aabbccddeeff"

/-- Its value. -/
def guidBytes : Bytes :=
  [0x33, 0x22, 0x11, 0x00, 0x55, 0x44, 0x77, 0x66, 0x88, 0x99, 0xaa, 0xbb, 0xcc, 0xdd, 0xee, 0xff]

theorem guids_agree_leguid :
    printedGuid plainHost .leguid guidBytes = guidText.map toupper := by
  have parsed : fileParseGuid plainHost.bigendian guidText = some guidBytes := by decide +kernel
  exact ((guids_agree_iff plainHost guidText guidBytes parsed).1.mpr (.inl rfl)).1

def beguidEntry : Magic := { beguidLine with value := Value.zero.write 0 guidBytes }

/-- The bytes that the line matches are printed as another GUID. -/
theorem beguid_differs :
    getvalueGuid plainHost beguidLine guidText = some (beguidEntry, []) ∧
    ¬ ((magiccheck plainHost 0 beguidEntry (Value.zero.write 0 guidBytes) ⟨none, 0, 0, 0⟩
          ⟨none, false, 0, 0, 0⟩).matched = some true ↔
        printedGuid plainHost .beguid guidBytes = guidText.map toupper) := by
  constructor
  · have parsed : fileParseGuid plainHost.bigendian guidText = some guidBytes := by decide +kernel
    rw [getvalueGuid, parsed]
    rfl
  · have matched := (@magiccheck_guid plainHost 0 beguidEntry (Value.zero.write 0 guidBytes) ⟨none, 0, 0, 0⟩
      ⟨none, false, 0, 0, 0⟩ (.inr (.inr rfl)) rfl).mpr rfl
    have printed : printedGuid plainHost .beguid guidBytes ≠ guidText.map toupper := by decide +kernel
    exact fun same => printed (same.mp matched)

end Libmagic.Softmagic
