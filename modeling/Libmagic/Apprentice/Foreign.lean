import Libmagic.Apprentice.Delimited

/-!
# A database from a machine of the other byte order

`check_buffer` swaps such a database in place. What an entry means is read off its
members as the code reads them: numbers in the order of the machine, texts, DER values
and GUIDs byte by byte.
-/
namespace Libmagic.Apprentice

open Softmagic (Bytes)

def isFloat : Bytes → Bool := typeIn [.float, .befloat, .lefloat]
def isGuid : Bytes → Bool := typeIn [.guid, .leguid, .beguid]
def isDer : Bytes → Bool := typeIn [.der]

/-- The members that are numbers in every entry. -/
def numbers : List Field := [Member.flag, Member.offset, Member.inOffset, Member.lineno]

/-- The members that are bytes or texts in every entry. -/
def plain : List Field :=
  [Member.contLevel, Member.factor, Member.reln, Member.vallen, Member.type, Member.inType,
    Member.inOp, Member.maskOp, Member.cond, Member.factorOp, Member.desc, Member.mimetype,
    Member.apple, Member.ext]

/-- The bits of two numbers of type `float` with the same value; both zeros are one. -/
def sameFloat (x y : Nat) : Prop := x = y ∨ x % 2 ^ 31 = 0 ∧ y % 2 ^ 31 = 0

instance (x y : Nat) : Decidable (sameFloat x y) := inferInstanceAs (Decidable (_ ∨ _))

/-- `m` on a machine of order `w` and `m'` on one of order `r` have this number. -/
def sameNumber (w r : Order) (m m' : Bytes) (f : Field) : Prop := w.load (f.get m) = r.load (f.get m')

/-- The value of a test, as `magiccheck` takes it. -/
def sameValue (w r : Order) (m m' : Bytes) : Prop :=
  if isString m || isDer m then Member.value.get m = Member.value.get m'
  else if isGuid m then Member.valueGuid.get m = Member.valueGuid.get m'
  else if isFloat m then
    sameFloat (w.load (Member.valueF.get m)) (r.load (Member.valueF.get m'))
  else sameNumber w r m m' Member.valueQ

/-- The entry `m` of a machine of order `w` and `m'` of one of order `r` mean the same. -/
structure SameMeaning (w r : Order) (m m' : Bytes) : Prop where
  numbers : ∀ f ∈ numbers, sameNumber w r m m' f
  plain : ∀ f ∈ plain, f.get m = f.get m'
  modifiers : if isString m then
      sameNumber w r m m' Member.strRange ∧ sameNumber w r m m' Member.strFlags
    else sameNumber w r m m' Member.numMask
  value : sameValue w r m m'

/-- The bytes behind `value.f`, which `value.q` takes in as well. -/
def behindF : Field := ⟨36, 4⟩

/-- What the entries have to be like for `bs1` to get their values right. -/
def Portable (w : Order) (m : Bytes) : Prop :=
  ((isDer m || isGuid m) = true → (Member.valueQ.get m).reverse = Member.valueQ.get m) ∧
    (isFloat m = true → sameFloat (w.load (Member.valueF.get m)) (w.load (behindF.get m)))

/-! ## `bs1`, member by member -/

section Swapping

variable (o : Order) {f g : Field} {m : Bytes} {fs : List Field}

theorem swapMember_eq (inside : f.off + f.size ≤ m.length) :
    swapMember o f m = f.set m (f.get m).reverse := by
  rw [swapMember, Order.store_swap_load o (Field.get_length inside)]

@[simp] theorem swapMember_length : (swapMember o f m).length = m.length :=
  Field.set_length f m _

theorem get_swapMember_self (inside : f.off + f.size ≤ m.length) :
    f.get (swapMember o f m) = (f.get m).reverse := by
  rw [swapMember_eq o inside]
  exact Field.get_set_self inside (by rw [List.length_reverse, Field.get_length inside])

theorem get_swapMember_disjoint (disjoint : f.Disjoint g) :
    f.get (swapMember o g m) = f.get m :=
  Field.get_set_disjoint disjoint (Order.store_length o _ _)

/-- A member after another is swapped. -/
def swapAll (o : Order) (fs : List Field) (m : Bytes) : Bytes :=
  fs.foldl (fun m f => swapMember o f m) m

theorem get_swapAll_disjoint (disjoint : ∀ g ∈ fs, f.Disjoint g) :
    f.get (swapAll o fs m) = f.get m := by
  induction fs generalizing m with
  | nil => rfl
  | cons g fs ih =>
      rw [List.forall_mem_cons] at disjoint
      rw [swapAll, List.foldl_cons]
      exact (ih disjoint.2).trans (get_swapMember_disjoint o disjoint.1)

theorem get_swapAll_mem (apart : fs.Pairwise Field.Disjoint)
    (inside : ∀ g ∈ fs, g.off + g.size ≤ m.length) (mem : f ∈ fs) :
    f.get (swapAll o fs m) = (f.get m).reverse := by
  induction fs generalizing m with
  | nil => exact absurd mem List.not_mem_nil
  | cons g fs ih =>
      rw [List.pairwise_cons] at apart
      rw [List.forall_mem_cons] at inside
      rw [swapAll, List.foldl_cons]
      rcases List.mem_cons.mp mem with rfl | later
      · exact (get_swapAll_disjoint o apart.1).trans (get_swapMember_self o inside.1)
      · have kept : f.get (swapMember o g m) = f.get m :=
          get_swapMember_disjoint o ((apart.1 f later).symm)
        rw [← kept]
        exact ih apart.2 (by simpa using inside.2) later

/-- The members that `bs1` swaps. -/
def swapped (m : Bytes) : List Field :=
  if isString m then
    [Member.flag, Member.offset, Member.inOffset, Member.lineno, Member.strRange, Member.strFlags]
  else [Member.flag, Member.offset, Member.inOffset, Member.lineno, Member.valueQ, Member.numMask]

theorem bs1_eq : bs1 o m = swapAll o (swapped m) m := by
  have type : isString (swapAll o numbers m) = isString m := by
    have kept : Member.type.get (swapAll o numbers m) = Member.type.get m :=
      get_swapAll_disjoint o (by decide)
    unfold isString typeIn typeCode
    rw [kept]
  unfold swapped
  split
  · rename_i str
    rw [← type] at str
    exact if_pos str
  · rename_i num
    rw [← type] at num
    exact if_neg num

theorem swapAll_length : (swapAll o fs m).length = m.length := by
  induction fs generalizing m with
  | nil => rfl
  | cons g fs ih =>
      rw [swapAll, List.foldl_cons]
      exact ih.trans (swapMember_length o)

theorem bs1_length : (bs1 o m).length = m.length := by
  rw [bs1_eq, swapAll_length]

theorem swapped_apart : (swapped m).Pairwise Field.Disjoint := by
  unfold swapped
  split <;> decide

theorem swapped_inside (size : m.length = FILE_MAGICSIZE) :
    ∀ g ∈ swapped m, g.off + g.size ≤ m.length := by
  rw [size]
  unfold swapped
  split <;> decide

/-- A number that `bs1` swaps is the same number in the other order. -/
theorem bs1_number {w : Order} (size : m.length = FILE_MAGICSIZE) (mem : f ∈ swapped m) :
    sameNumber w w.flip m (bs1 w.flip m) f := by
  rw [sameNumber, bs1_eq, get_swapAll_mem w.flip swapped_apart (swapped_inside size) mem,
    Order.load_reverse, Order.flip_flip]

theorem bs1_kept (disjoint : ∀ g ∈ swapped m, f.Disjoint g) : f.get (bs1 o m) = f.get m := by
  rw [bs1_eq, get_swapAll_disjoint o disjoint]

end Swapping

/-! ## The value -/

theorem typeIn_apart {types types' : List Softmagic.MType} {m : Bytes}
    (apart : ∀ c ∈ types.map Softmagic.MType.code, c ∉ types'.map Softmagic.MType.code)
    (one : typeIn types m = true) : typeIn types' m = false := by
  unfold typeIn at one ⊢
  rw [List.contains_iff_mem] at one
  rw [Bool.eq_false_iff, ne_eq, List.contains_iff_mem]
  exact apart _ one

section Value

variable {m : Bytes} {w : Order}

/-- The first 8 bytes of an entry that is no string are turned around. -/
theorem bs1_valueQ (size : m.length = FILE_MAGICSIZE) (num : isString m = false) (o : Order) :
    Member.valueQ.get (bs1 o m) = (Member.valueQ.get m).reverse := by
  have mem : Member.valueQ ∈ swapped m := by
    rw [swapped, num]
    decide
  rw [bs1_eq, get_swapAll_mem o swapped_apart (swapped_inside size) mem]

theorem swapped_le : ∀ g ∈ swapped m, g.off + g.size ≤ 40 := by
  unfold swapped
  split <;> decide

theorem bs1_behind (o : Order) (n : Nat) :
    (⟨40, n⟩ : Field).get (bs1 o m) = (⟨40, n⟩ : Field).get m := by
  apply bs1_kept
  intro g hg
  exact .inr (swapped_le g hg)

/-- Bytes from the start of the value on come through if the first 8 read the same both
ways. -/
theorem bs1_bytes_iff (size : m.length = FILE_MAGICSIZE) (num : isString m = false) (o : Order)
    (n : Nat) :
    (⟨32, 8 + n⟩ : Field).get m = (⟨32, 8 + n⟩ : Field).get (bs1 o m) ↔
      (Member.valueQ.get m).reverse = Member.valueQ.get m := by
  have front := bs1_valueQ size num o
  have length : (Member.valueQ.get m).length = (Member.valueQ.get m).reverse.length := by
    rw [List.length_reverse]
  rw [Field.get_split, Field.get_split, bs1_behind]
  show Member.valueQ.get m ++ _ = Member.valueQ.get (bs1 o m) ++ _ ↔ _
  rw [front]
  constructor
  · intro same
    exact (List.append_inj_left same length).symm
  · intro same
    rw [same]

/-- The first 4 bytes after the swap are the next 4 before it. -/
theorem bs1_valueF (size : m.length = FILE_MAGICSIZE) (num : isString m = false) (o : Order) :
    o.load (Member.valueF.get (bs1 o m)) = o.flip.load (behindF.get m) := by
  have inside : behindF.off + behindF.size ≤ m.length := by
    rw [size]
    decide
  have inside' : Member.valueF.off + Member.valueF.size ≤ (bs1 o m).length := by
    rw [bs1_length, size]
    decide
  have halves := bs1_valueQ size num o
  have split : ∀ m, Member.valueQ.get m = Member.valueF.get m ++ behindF.get m :=
    fun m => Field.get_split 32 4 4 m
  rw [split, split, List.reverse_append] at halves
  have front := List.append_inj_left halves (by
    rw [List.length_reverse, Field.get_length inside, Field.get_length inside']
    rfl)
  rw [front, Order.load_reverse]

theorem sameValue_iff (size : m.length = FILE_MAGICSIZE) :
    sameValue w w.flip m (bs1 w.flip m) ↔ Portable w m := by
  unfold sameValue Portable
  cases str : isString m with
  | true =>
      have notDer : isDer m = false := typeIn_apart (by decide) str
      have notGuid : isGuid m = false := typeIn_apart (by decide) str
      have notFloat : isFloat m = false := typeIn_apart (by decide) str
      have kept : Member.value.get (bs1 w.flip m) = Member.value.get m := by
        apply bs1_kept
        rw [swapped, if_pos str]
        decide
      simp [notDer, notGuid, notFloat, kept]
  | false =>
      cases der : isDer m with
      | true =>
          have notFloat : isFloat m = false := typeIn_apart (by decide) der
          simpa [notFloat, Member.value] using bs1_bytes_iff size str w.flip 120
      | false =>
          cases guid : isGuid m with
          | true =>
              have notFloat : isFloat m = false := typeIn_apart (by decide) guid
              simpa [notFloat, Member.valueGuid] using bs1_bytes_iff size str w.flip 8
          | false =>
              cases isFloat m with
              | true => simp [bs1_valueF size str]
              | false =>
                  have mem : Member.valueQ ∈ swapped m := by
                    rw [swapped, str]
                    decide
                  simpa using bs1_number size mem

end Value

/-- `bs1` carries the meaning of an entry over to the other order exactly if it is
`Portable`. -/
theorem bs1_sameMeaning_iff {w : Order} {m : Bytes} (size : m.length = FILE_MAGICSIZE) :
    SameMeaning w w.flip m (bs1 w.flip m) ↔ Portable w m := by
  rw [← sameValue_iff size]
  constructor
  · intro same
    exact same.value
  · intro value
    refine ⟨?_, ?_, ?_, value⟩
    · intro f hf
      apply bs1_number size
      have common : ∀ f ∈ numbers, f ∈ swapped m := by
        unfold swapped
        split <;> decide
      exact common f hf
    · intro f hf
      symm
      apply bs1_kept
      have apart : ∀ f ∈ plain, ∀ g ∈ swapped m, f.Disjoint g := by
        unfold swapped
        split <;> decide
      exact apart f hf
    · split
      · rename_i str
        have mem : Member.strRange ∈ swapped m ∧ Member.strFlags ∈ swapped m := by
          rw [swapped, if_pos str]
          decide
        exact ⟨bs1_number size mem.1, bs1_number size mem.2⟩
      · rename_i num
        have mem : Member.numMask ∈ swapped m := by
          rw [swapped, if_neg num]
          decide
        exact bs1_number size mem

/-! ## The whole map -/

theorem slot_disjoint {j k : Nat} (ne : k ≠ j) : (slot k).Disjoint (slot j) := by
  show FILE_MAGICSIZE * k + FILE_MAGICSIZE ≤ FILE_MAGICSIZE * j ∨
    FILE_MAGICSIZE * j + FILE_MAGICSIZE ≤ FILE_MAGICSIZE * k
  unfold FILE_MAGICSIZE
  omega

/-- `byteswap` swaps the entries it is given, and no other. -/
theorem byteswap_slot (o : Order) {p : Bytes} {start n : Nat} (k : Nat)
    (inside : FILE_MAGICSIZE * (start + n) ≤ p.length) :
    (slot k).get (byteswap o p start n) =
      if start ≤ k ∧ k < start + n then bs1 o ((slot k).get p) else (slot k).get p := by
  induction n generalizing p start with
  | zero => rw [byteswap, if_neg (by omega)]
  | succ n ih =>
      have held : (slot start).off + (slot start).size ≤ p.length := by
        show FILE_MAGICSIZE * start + FILE_MAGICSIZE ≤ p.length
        unfold FILE_MAGICSIZE at inside ⊢
        omega
      have size : (bs1 o ((slot start).get p)).length = (slot start).size := by
        rw [bs1_length, Field.get_length held]
      have rest : FILE_MAGICSIZE * (start + 1 + n) ≤
          ((slot start).set p (bs1 o ((slot start).get p))).length := by
        rw [Field.set_length, Nat.add_assoc, Nat.add_comm 1 n]
        exact inside
      rw [byteswap, ih rest]
      by_cases here : k = start
      · subst here
        rw [if_neg (by omega), if_pos (by omega), Field.get_set_self held size]
      · rw [Field.get_set_disjoint (slot_disjoint here) size]
        congr 1
        apply propext
        omega

theorem swapSets_entries {o : Order} {p : Bytes} {n0 n1 : Nat}
    (inside : FILE_MAGICSIZE * (1 + n0 + n1) ≤ p.length) :
    (∀ j, j < n0 → (swapSets o ⟨p, 1, n0, 1 + n0, n1⟩).entry0 j = bs1 o ((slot (1 + j)).get p)) ∧
      ∀ j, j < n1 →
        (swapSets o ⟨p, 1, n0, 1 + n0, n1⟩).entry1 j = bs1 o ((slot (1 + n0 + j)).get p) := by
  have first : FILE_MAGICSIZE * (1 + n0) ≤ p.length :=
    Nat.le_trans (Nat.mul_le_mul_left _ (Nat.le_add_right _ n1)) inside
  have second : FILE_MAGICSIZE * (1 + n0 + n1) ≤ (byteswap o p 1 n0).length := by
    rw [byteswap_length]
    exact inside
  constructor
  · intro j lt
    show (slot (1 + j)).get (byteswap o (byteswap o p 1 n0) (1 + n0) n1) = _
    rw [byteswap_slot o _ second, if_neg (by omega), byteswap_slot o _ first, if_pos (by omega)]
  · intro j lt
    show (slot (1 + n0 + j)).get (byteswap o (byteswap o p 1 n0) (1 + n0) n1) = _
    rw [byteswap_slot o _ second, if_pos (by omega), byteswap_slot o _ first, if_neg (by omega)]

/-- What a machine of the other order loads: the counters, and every entry through
`bs1`. -/
theorem compile_foreign (w : Order) {me0 me1 : List (List Entry)} {set0 set1 : List Entry}
    (coalesced0 : coalesceEntries me0 = some set0) (coalesced1 : coalesceEntries me1 = some set1)
    (some_entry : 0 < set0.length + set1.length) :
    ∃ map, checkBuffer w.flip (apprenticeCompile w set0 set1) = .ok map ∧
      map.nmagic0 = set0.length ∧ map.nmagic1 = set1.length ∧
      (∀ (j : Nat) (lt : j < set0.length), map.entry0 j = bs1 w.flip (set0[j]).bytes) ∧
      (∀ (j : Nat) (lt : j < set1.length), map.entry1 j = bs1 w.flip (set1[j]).bytes) := by
  obtain ⟨accepted, laid⟩ := compile_accepted w coalesced0 coalesced1 some_entry
  have inside : FILE_MAGICSIZE * (1 + set0.length + set1.length) ≤
      (apprenticeCompile w set0 set1).length := by
    rw [compile_length]
    apply Nat.le_of_eq
    congr 1
    omega
  obtain ⟨first, second⟩ := @swapSets_entries w.flip _ _ _ inside
  refine ⟨swapSets w.flip (layout w (apprenticeCompile w set0 set1)),
    checkBuffer_ok_iff.mpr (.inr ?_), ?_⟩
  · rw [Order.flip_flip]
    exact ⟨accepted, rfl⟩
  · rw [laid]
    refine ⟨rfl, rfl, ?_, ?_⟩
    · intro j lt
      rw [first j lt, compile_entry0 w set0 set1 lt]
    · intro j lt
      rw [second j lt, compile_entry1 w set0 set1 lt]

/-- A database is loaded on a machine of the other byte order, and there its entries mean
what they mean to the writer exactly if every one of them is `Portable`. -/
theorem compile_load_foreign_iff (w : Order) (me0 me1 : List (List Entry)) (set0 set1 : List Entry)
    (coalesced0 : coalesceEntries me0 = some set0) (coalesced1 : coalesceEntries me1 = some set1)
    (some_entry : 0 < set0.length + set1.length) :
    ∃ map, checkBuffer w.flip (apprenticeCompile w set0 set1) = .ok map ∧
      map.nmagic0 = set0.length ∧ map.nmagic1 = set1.length ∧
      (((∀ (j : Nat) (lt : j < set0.length),
            SameMeaning w w.flip (set0[j]).bytes (map.entry0 j)) ∧
          ∀ (j : Nat) (lt : j < set1.length),
            SameMeaning w w.flip (set1[j]).bytes (map.entry1 j)) ↔
        ∀ m ∈ set0 ++ set1, Portable w m.bytes) := by
  obtain ⟨map, ok, count0, count1, first, second⟩ :=
    compile_foreign w coalesced0 coalesced1 some_entry
  refine ⟨map, ok, count0, count1, ?_⟩
  rw [List.forall_mem_append, List.forall_mem_iff_getElem, List.forall_mem_iff_getElem]
  apply and_congr
  · apply forall₂_congr
    intro j lt
    rw [first j lt, bs1_sameMeaning_iff (set0[j]).size]
  · apply forall₂_congr
    intro j lt
    rw [second j lt, bs1_sameMeaning_iff (set1[j]).size]

theorem compile_load_foreign_blank :
    ∃ map, checkBuffer .big (apprenticeCompile .little [blank] []) = .ok map ∧
      map.nmagic0 = [blank].length ∧ map.nmagic1 = ([] : List Entry).length ∧
      (((∀ (j : Nat) (lt : j < [blank].length),
            SameMeaning .little .big ([blank][j]).bytes (map.entry0 j)) ∧
          ∀ (j : Nat) (lt : j < ([] : List Entry).length),
            SameMeaning .little .big (([] : List Entry)[j]).bytes (map.entry1 j)) ↔
        ∀ m ∈ [blank] ++ [], Portable .little m.bytes) :=
  compile_load_foreign_iff .little [[blank]] [] [blank] [] rfl rfl (by decide)

/-- `0 float 1.0`, on a little-endian machine. -/
def floatOne : Entry :=
  ⟨Member.valueF.set (Member.reln.set (Member.type.set blank.bytes [33]) [0x3d]) [0, 0, 0x80, 0x3f],
    by rw [Field.set_length, Field.set_length, Field.set_length]; exact blank.size⟩

/-- A big-endian machine loads the entry, with the value 0. -/
theorem compile_load_foreign_fails :
    ∃ map, checkBuffer .big (apprenticeCompile .little [floatOne] []) = .ok map ∧
      Order.big.load (Member.valueF.get (map.entry0 0)) = 0 ∧
      ¬ SameMeaning .little .big floatOne.bytes (map.entry0 0) := by
  obtain ⟨map, ok, -, -, first, -⟩ :=
    @compile_foreign .little [[floatOne]] [] [floatOne] [] rfl rfl (by decide)
  have loaded : map.entry0 0 = bs1 .big floatOne.bytes := first 0 Nat.one_pos
  refine ⟨map, ok, ?_, ?_⟩
  · rw [loaded]
    decide +kernel
  · rw [loaded]
    intro same
    have portable := (bs1_sameMeaning_iff floatOne.size).mp same
    exact absurd (portable.2 (by decide +kernel)) (by decide +kernel)

end Libmagic.Apprentice
