import Refk.Clib.Str
import Refk.Klib.Kmem

/-!
# The comparators of the AVL trees

A comparator gets two pointers. For `avl_ptrcmp` the pointers are the keys; the others read them: a
string up to its terminator, an `int`, an `unsigned long`. `OrdersAt` is what a tree needs of
one, at two keys.

`avl_ulongcmp` is `avl_intcmp` with other variables: it still reads the keys as `int`s. Two keys
that differ in their upper halves only are the same to it.
-/

namespace Refk

open Lib

variable {mem : Word → Byte}

/-! ## The code -/

/-- `*(int *)key` -/
def readInt (mem : Word → Byte) (key : Word) : BitVec 32 :=
  BitVec.ofNat 32 (ofLe (load (fun i => mem (key + BitVec.ofNat 64 i)) 0 4))

/-- `*(unsigned long *)key` -/
def readUlong (mem : Word → Byte) (key : Word) : Word :=
  BitVec.ofNat 64 (ofLe (load (fun i => mem (key + BitVec.ofNat 64 i)) 0 8))

/-- `avl_intcmp` -/
def avlIntcmp (mem : Word → Byte) (key1 key2 : Word) : Int :=
  let val1 := (readInt mem key1).toInt
  let val2 := (readInt mem key2).toInt
  if val1 < val2 then -1 else if val1 > val2 then 1 else 0

/-- `avl_ulongcmp`; an `int` becomes an `unsigned long` with its sign extended. -/
def avlUlongcmp (mem : Word → Byte) (key1 key2 : Word) : Int :=
  let val1 : Word := (readInt mem key1).signExtend 64
  let val2 : Word := (readInt mem key2).signExtend 64
  if val1 < val2 then -1 else if val1 > val2 then 1 else 0

/-- `str_ncmp` on strings in memory, with the places it has read, as `s1` and `s2` stood. -/
def strNcmp (mem : Word → Byte) (s1 s2 maxlen : Word) : Int × List (Word × Word) :=
  if maxlen = 0 then (0, [])
  else if mem s1 = 0 ∧ mem s2 = 0 then (0, [(s1, s2)])
  else if (mem s1).toInt < (mem s2).toInt then (-1, [(s1, s2)])
  else if (mem s1).toInt > (mem s2).toInt then (1, [(s1, s2)])
  else
    let rest := strNcmp mem (s1 + 1) (s2 + 1) (maxlen - 1)
    (rest.1, (s1, s2) :: rest.2)
termination_by maxlen.toNat
decreasing_by bv_omega

/-- `str_cmp` on strings in memory; `-1u` has 32 bits. -/
def strCmpAt (mem : Word → Byte) (s1 s2 : Word) : Int × List (Word × Word) :=
  strNcmp mem s1 s2 0xffffffff

/-! ## What a tree needs of a comparator -/

/-- At the keys `a` and `b` the comparator is a total order on what the pointers stand for: equal
    keys and no others share an entry. -/
structure OrdersAt {κ α : Type} (cmp : κ → κ → Int) (key : κ → α) (a b : κ) : Prop where
  zero : cmp a b = 0 ↔ key a = key b
  swap : cmp b a = -cmp a b
  trans : ∀ c, cmp a b ≤ 0 → cmp b c ≤ 0 → cmp a c ≤ 0
  entry : ∀ (entries : List (κ × Word)) (data : Word),
    Assoc.find cmp a entries = some (b, data) → key a = key b

/-- A NUL-terminated string at `ptr`. -/
structure CStringAt (mem : Word → Byte) (ptr : Word) (chars : List Byte) : Prop where
  nonzero : ∀ c ∈ chars, c ≠ 0
  holds : ∀ i (h : i < chars.length), mem (ptr + BitVec.ofNat 64 i) = chars[i]
  terminated : mem (ptr + BitVec.ofNat 64 chars.length) = 0

/-- A pointer to a string of less than 2³² bytes. -/
structure StringKey (mem : Word → Byte) where
  ptr : Word
  chars : List Byte
  stored : CStringAt mem ptr chars
  short : chars.length < 2 ^ 32

/-! ## Integers and pointers -/

section
variable {κ α β : Type} [LinearOrder β] {cmp : κ → κ → Int} {key : κ → α} {a b : κ}

theorem avlPtrcmp_neg (p q : β) : avlPtrcmp q p = -avlPtrcmp p q := by
  unfold avlPtrcmp
  rcases lt_trichotomy p q with h | rfl | h
  · simp [h, h.not_gt]
  · simp
  · simp [h, h.not_gt]

/-- **A comparator that compares images** under `f` in a linear order is right about two keys
    exactly if `f` tells them apart when they differ. -/
theorem ordersAt_image {f : κ → β} (hcmp : ∀ x y, cmp x y = avlPtrcmp (f x) (f y))
    (hkey : ∀ x y, key x = key y → f x = f y) :
    OrdersAt cmp key a b ↔ (f a = f b → key a = key b) := by
  have hzero : cmp a b = 0 ↔ f a = f b := by
    rw [hcmp]
    exact AvlMap.avlPtrcmp_eq_zero
  constructor
  · intro h hf
    exact h.zero.mp (hzero.mpr hf)
  · intro h
    refine ⟨hzero.trans ⟨h, hkey a b⟩, ?_, ?_, ?_⟩
    · rw [hcmp, hcmp, avlPtrcmp_neg]
    · intro c
      rw [hcmp, hcmp, hcmp]
      exact avlPtrcmp_total.trans _ _ _
    · intro entries data hfind
      exact h (hzero.mp (Assoc.mem_of_find hfind).2)

end

/-- An `int` is the lower half of the `unsigned long` at its address. -/
theorem readInt_eq (key : Word) : readInt mem key = (readUlong mem key).setWidth 32 := by
  rw [readInt, readUlong, ← BitVec.toNat_inj, BitVec.toNat_setWidth, BitVec.toNat_ofNat,
    BitVec.toNat_ofNat]
  simp only [load, List.range_succ, List.range_zero, List.nil_append, List.cons_append,
    List.map_cons, List.map_nil, ofLe, Nat.zero_add]
  omega

theorem signExtend_inj {x y : BitVec 32} (h : x.signExtend 64 = y.signExtend 64) : x = y := by
  have hint := congrArg BitVec.toInt h
  rw [BitVec.toInt_signExtend_of_le (by omega), BitVec.toInt_signExtend_of_le (by omega)] at hint
  exact BitVec.toInt_inj.mp hint

theorem avlIntcmp_eq (mem : Word → Byte) (key1 key2 : Word) :
    avlIntcmp mem key1 key2 = avlPtrcmp (readInt mem key1).toInt (readInt mem key2).toInt := rfl

theorem avlUlongcmp_eq (mem : Word → Byte) (key1 key2 : Word) : avlUlongcmp mem key1 key2 =
    avlPtrcmp ((readInt mem key1).signExtend 64).toNat ((readInt mem key2).signExtend 64).toNat :=
  rfl

/-! ## Strings -/

section
variable {p q : Word} {a b : Byte} {s t : List Byte} {n : Nat}

theorem CStringAt.head (h : CStringAt mem p (a :: s)) : mem p = a ∧ a ≠ 0 := by
  have hread := h.holds 0 (by simp)
  simp only [BitVec.add_zero, List.getElem_cons_zero] at hread
  exact ⟨hread, h.nonzero a (by simp)⟩

theorem CStringAt.end (h : CStringAt mem p []) : mem p = 0 := by
  have hread := h.terminated
  simp only [List.length_nil, BitVec.add_zero] at hread
  exact hread

theorem add_one_add (p : Word) (i : Nat) :
    p + 1 + BitVec.ofNat 64 i = p + BitVec.ofNat 64 (i + 1) := by bv_omega

theorem CStringAt.tail (h : CStringAt mem p (a :: s)) : CStringAt mem (p + 1) s := by
  constructor
  · intro c hc
    exact h.nonzero c (by simp [hc])
  · intro i hi
    rw [add_one_add]
    exact h.holds (i + 1) (by simpa using hi)
  · rw [add_one_add]
    exact h.terminated

/-- Neither pointer has been read behind its string's terminator. -/
def StaysIn (p q : Word) (s t : List Byte) (reads : List (Word × Word)) : Prop :=
  ∀ r ∈ reads, ∃ i ≤ s.length, i ≤ t.length ∧
    r = (p + BitVec.ofNat 64 i, q + BitVec.ofNat 64 i)

theorem staysIn_one : StaysIn p q s t [(p, q)] := by
  intro r hr
  rw [List.mem_singleton] at hr
  exact ⟨0, Nat.zero_le _, Nat.zero_le _, by simp [hr]⟩

theorem StaysIn.cons {reads : List (Word × Word)} (h : StaysIn (p + 1) (q + 1) s t reads) :
    StaysIn p q (a :: s) (b :: t) ((p, q) :: reads) := by
  intro r hr
  cases List.mem_cons.mp hr with
  | inl hr => exact staysIn_one r (by simp [hr])
  | inr hr =>
    obtain ⟨i, hs, ht, rfl⟩ := h r hr
    refine ⟨i + 1, by simpa using hs, by simpa using ht, ?_⟩
    rw [add_one_add, add_one_add]

/-! One round of the loop. -/

theorem strNcmp_both {maxlen : Word} (hn : maxlen ≠ 0) (hp : mem p = 0) (hq : mem q = 0) :
    strNcmp mem p q maxlen = (0, [(p, q)]) := by
  rw [strNcmp, if_neg hn, if_pos ⟨hp, hq⟩]

theorem strNcmp_ne {maxlen : Word} (hn : maxlen ≠ 0) (hne : mem p ≠ mem q) :
    strNcmp mem p q maxlen =
      (if (mem p).toInt < (mem q).toInt then -1 else 1, [(p, q)]) := by
  have hboth : ¬ (mem p = 0 ∧ mem q = 0) := by
    intro h
    exact hne (h.1.trans h.2.symm)
  have hint : (mem p).toInt ≠ (mem q).toInt := by
    intro h
    exact hne (BitVec.toInt_inj.mp h)
  rw [strNcmp, if_neg hn, if_neg hboth]
  by_cases hlt : (mem p).toInt < (mem q).toInt
  · rw [if_pos hlt, if_pos hlt]
  · rw [if_neg hlt, if_neg hlt, if_pos (by omega)]

theorem strNcmp_eq {maxlen : Word} (hn : maxlen ≠ 0) (heq : mem p = mem q) (hp : mem p ≠ 0) :
    strNcmp mem p q maxlen = ((strNcmp mem (p + 1) (q + 1) (maxlen - 1)).1,
      (p, q) :: (strNcmp mem (p + 1) (q + 1) (maxlen - 1)).2) := by
  rw [strNcmp, if_neg hn, if_neg (fun h => hp h.1), heq, if_neg (lt_irrefl _),
    if_neg (lt_irrefl _)]

theorem strCmp_cons_ne (hne : a ≠ b) :
    strCmp (a :: s) (b :: t) = if a.toInt < b.toInt then -1 else 1 := by
  have hboth : ¬ (a = 0 ∧ b = 0) := by
    intro h
    exact hne (h.1.trans h.2.symm)
  have hint : a.toInt ≠ b.toInt := by
    intro h
    exact hne (BitVec.toInt_inj.mp h)
  rw [strCmp, if_neg hboth]
  split_ifs <;> first | rfl | omega

theorem strCmp_cons_self (ha : a ≠ 0) : strCmp (a :: s) (a :: t) = strCmp s t := by
  rw [strCmp, if_neg (fun h => ha h.1), if_neg (lt_irrefl _), if_neg (lt_irrefl _)]

/-- **The loop compares the strings**, up to the terminator of the shorter one, as long as the
    bound is not below it. -/
theorem strNcmp_spec (hs : CStringAt mem p s) (ht : CStringAt mem q t) (hn : s.length ≤ n)
    (hn' : t.length ≤ n) (hlt : n < 2 ^ 64) :
    (strNcmp mem p q (BitVec.ofNat 64 n)).1 = strCmp s t ∧
      StaysIn p q s t (strNcmp mem p q (BitVec.ofNat 64 n)).2 := by
  induction s generalizing p q t n with
  | nil =>
    have hp := hs.end
    cases t with
    | nil =>
      by_cases hzero : BitVec.ofNat 64 n = 0
      · rw [strNcmp, if_pos hzero]
        exact ⟨rfl, by simp [StaysIn]⟩
      · rw [strNcmp_both hzero hp ht.end]
        exact ⟨rfl, staysIn_one⟩
    | cons b t =>
      obtain ⟨hq, hb⟩ := ht.head
      simp only [List.length_cons] at hn'
      rw [strNcmp_ne (by bv_omega) (by rw [hp, hq]; exact hb.symm), hp, hq, strCmp, if_neg hb]
      exact ⟨rfl, staysIn_one⟩
  | cons a s ih =>
    obtain ⟨hp, ha⟩ := hs.head
    simp only [List.length_cons] at hn
    have hzero : BitVec.ofNat 64 n ≠ 0 := by bv_omega
    cases t with
    | nil =>
      have hq := ht.end
      rw [strNcmp_ne hzero (by rw [hp, hq]; exact ha), hp, hq, strCmp, if_neg ha]
      exact ⟨rfl, staysIn_one⟩
    | cons b t =>
      obtain ⟨hq, hb⟩ := ht.head
      by_cases hab : a = b
      · subst hab
        simp only [List.length_cons] at hn'
        have hpred : BitVec.ofNat 64 n - 1 = BitVec.ofNat 64 (n - 1) := by bv_omega
        obtain ⟨hcmp, hreads⟩ := ih hs.tail ht.tail (n := n - 1) (by omega) (by omega) (by omega)
        rw [strNcmp_eq hzero (hp.trans hq.symm) (by rw [hp]; exact ha), hpred,
          strCmp_cons_self ha]
        exact ⟨hcmp, hreads.cons⟩
      · rw [strNcmp_ne hzero (by rw [hp, hq]; exact hab), hp, hq, strCmp_cons_ne hab]
        exact ⟨rfl, staysIn_one⟩

/-- Without a terminator inside, nothing of a string is lost. -/
theorem cString_of_nonzero (h : ∀ c ∈ s, c ≠ 0) : cString s = s.map BitVec.toInt ++ [0] := by
  induction s with
  | nil => rfl
  | cons a s ih =>
    rw [cString, if_neg (h a (by simp)), ih (fun c hc => h c (by simp [hc]))]
    rfl

theorem cString_inj (hs : ∀ c ∈ s, c ≠ 0) (ht : ∀ c ∈ t, c ≠ 0) :
    cString s = cString t ↔ s = t := by
  rw [cString_of_nonzero hs, cString_of_nonzero ht, List.append_left_inj]
  exact (List.map_injective_iff.mpr fun x y h => BitVec.toInt_inj.mp h).eq_iff

end

/-- `str_cmp` compares the whole strings: its bound is not below the length of any. -/
theorem strCmpAt_spec (a b : StringKey mem) :
    (strCmpAt mem a.ptr b.ptr).1 = avlPtrcmp (cString a.chars) (cString b.chars) ∧
      StaysIn a.ptr b.ptr a.chars b.chars (strCmpAt mem a.ptr b.ptr).2 := by
  have ha := a.short
  have hb := b.short
  rw [← strCmp_eq]
  exact strNcmp_spec (n := 0xffffffff) a.stored b.stored (by omega) (by omega) (by omega)

/-- **The comparators** are total orders on their keys, and `str_cmp` stays within its strings;
    but for `avl_ulongcmp` on two different keys with the same lower half. -/
theorem comparators_order (mem : Word → Byte) :
    (∀ a b : StringKey mem,
      OrdersAt (fun a b => (strCmpAt mem a.ptr b.ptr).1) StringKey.chars a b ∧
        StaysIn a.ptr b.ptr a.chars b.chars (strCmpAt mem a.ptr b.ptr).2) ∧
      (∀ (α : Type) [LinearOrder α] (a b : α), OrdersAt avlPtrcmp id a b) ∧
      (∀ a b : Word, OrdersAt (avlIntcmp mem) (readInt mem) a b) ∧
      ∀ a b : Word, OrdersAt (avlUlongcmp mem) (readUlong mem) a b ↔
        ((readUlong mem a).setWidth 32 = (readUlong mem b).setWidth 32 →
          readUlong mem a = readUlong mem b) := by
  refine ⟨?_, ?_, ?_, ?_⟩
  · intro a b
    refine ⟨?_, (strCmpAt_spec a b).2⟩
    apply (ordersAt_image (f := fun a : StringKey mem => cString a.chars)
      (fun x y => (strCmpAt_spec x y).1) (fun x y h => congrArg cString h)).mpr
    exact (cString_inj a.stored.nonzero b.stored.nonzero).mp
  · intro α _ a b
    exact (ordersAt_image (f := id) (fun _ _ => rfl) (fun _ _ h => h)).mpr id
  · intro a b
    apply (ordersAt_image (avlIntcmp_eq mem) (fun x y h => congrArg BitVec.toInt h)).mpr
    exact BitVec.toInt_inj.mp
  · intro a b
    rw [ordersAt_image (avlUlongcmp_eq mem)
      (fun x y h => by rw [readInt_eq, readInt_eq, h])]
    rw [BitVec.toNat_inj, ← readInt_eq, ← readInt_eq]
    constructor
    · intro h heq
      exact h (congrArg _ heq)
    · intro h heq
      exact h (signExtend_inj heq)

/-- The keys `0` and `2 ^ 32`, at 0x1000 and 0x2000. -/
theorem ulongcmp_reads_int :
    let mem : Word → Byte := fun a => if a = 0x2004 then 1 else 0
    readUlong mem 0x1000 = 0 ∧ readUlong mem 0x2000 = 0x100000000 ∧
      avlUlongcmp mem 0x1000 0x2000 = 0 ∧
      ¬ OrdersAt (avlUlongcmp mem) (readUlong mem) 0x1000 0x2000 := by
  intro mem
  have hcmp : avlUlongcmp mem 0x1000 0x2000 = 0 := by decide
  have hne : readUlong mem 0x1000 ≠ readUlong mem 0x2000 := by decide
  refine ⟨by decide, by decide, hcmp, ?_⟩
  intro h
  exact hne (h.zero.mp hcmp)

end Refk
