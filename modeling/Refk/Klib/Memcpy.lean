import Refk.Klib.Paging
import Refk.Lib.Bytes

/-!
# `klib/kmem.c` — copying into another address space

`kmem_memcpy` and `kmem_memclr` are one loop, page by page through the tables of the other root,
over physical memory as bytes. The loop stops where a page has no last-level table. It does not ask
whether the entry in the table is present: behind an absent one it goes on in the frame that the
entry's other bits spell. `StopsAtAbsent` is when this does no harm.
-/

namespace Refk

open Lib

/-- Physical memory by bytes, and the addresses that have been written to; the latter are
    bookkeeping that no function reads. -/
structure PhyBytes where
  bytes : Word → Byte
  touched : List Word

namespace PhyBytes

/-- What `phy_read64` reads. -/
def words (m : PhyBytes) : Phys := fun address =>
  BitVec.ofNat 64 (ofLe (load (fun i => m.bytes (address + BitVec.ofNat 64 i)) 0 8))

/-- `mem_copy` of `data` to `address`, in the physical memory map. -/
def put (m : PhyBytes) (address : Word) (data : List Byte) : PhyBytes where
  bytes a := data.getD (a - address).toNat (m.bytes a)
  touched := (List.range data.length).map (fun i => address + BitVec.ofNat 64 i) ++ m.touched

end PhyBytes

/-- The loop of `kmem_memcpy` and `kmem_memclr`; `source` has the bytes to write, and `pos` is how
    many of them are done. -/
def fillLoop (root : Word) (source : Nat → Byte) :
    Nat → PhyBytes → Nat → Word → Word → PhyBytes
  | 0, m, _, _, _ => m
  | fuel + 1, m, pos, vaddr, size =>
    if size = 0 then m
    else
      let pg := vaddr &&& pageMask
      let pgOff := vaddr &&& 0xfff
      match kmemPagingAddr m.words root pg 3 with
      | none => m
      | some entry =>
        let phyAddr := phyRead64 m.words entry &&& kmemFrameMask
        let wsize := if 0x1000 - pgOff > size then size else 0x1000 - pgOff
        fillLoop root source fuel (m.put (phyAddr + pgOff) (load source pos wsize.toNat))
          (pos + wsize.toNat) (vaddr + wsize) (size - wsize)

/-- `kmem_memcpy` -/
def kmemMemcpy (m : Word → Byte) (root vaddr : Word) (data : Nat → Byte) (size : Word) :
    PhyBytes := fillLoop root data size.toNat ⟨m, []⟩ 0 vaddr size

/-- `kmem_memclr` -/
def kmemMemclr (m : Word → Byte) (root vaddr size : Word) : PhyBytes :=
  fillLoop root (fun _ => 0) size.toNat ⟨m, []⟩ 0 vaddr size

/-! ## What they are for -/

/-- The address of the byte `k` places behind `vaddr`. -/
def nthByte (vaddr : Word) (k : Nat) : Word := vaddr + BitVec.ofNat 64 k

/-- The physical address of the byte at `va`. -/
def location (m : Phys) (root va : Word) : Option Word :=
  (mapping m root va).map fun entry => (entry &&& kmemFrameMask) + (va &&& 0xfff)

/-- **The copy is exact**: if everything is mapped, the range shows the bytes of `source` and no
    other byte has changed; and if some byte is not, only frames of bytes before it are touched. -/
structure CopiesExactly (m : Phys) (bytes : Word → Byte) (root vaddr : Word) (source : Nat → Byte)
    (size : Nat) (m' : PhyBytes) : Prop where
  shown : (∀ k < size, mapping m root (nthByte vaddr k) ≠ none) →
    ∀ k < size, (location m'.words root (nthByte vaddr k)).map m'.bytes = some (source k)
  others : (∀ k < size, mapping m root (nthByte vaddr k) ≠ none) →
    ∀ a, (∀ k < size, location m root (nthByte vaddr k) ≠ some a) → m'.bytes a = bytes a
  stops : ∀ i < size, mapping m root (nthByte vaddr i) = none →
    ∀ a ∈ m'.touched, ∃ j < i, ∃ entry, mapping m root (nthByte vaddr j) = some entry ∧
      a &&& pageMask = entry &&& kmemFrameMask

/-- The range is in 4 KB pages, different ones on different frames, none of which is one of the
    tables for the range. -/
structure PlainRange (m : Phys) (root vaddr : Word) (size : Nat) : Prop where
  root_aligned : PageAligned root
  walks : ∀ k < size, WalksTables m root (nthByte vaddr k)
  distinct : ∀ j < size, ∀ k < size, ∀ e e', mapping m root (nthByte vaddr j) = some e →
    mapping m root (nthByte vaddr k) = some e' → e &&& kmemFrameMask = e' &&& kmemFrameMask →
      nthByte vaddr j &&& pageMask = nthByte vaddr k &&& pageMask
  apart : ∀ j < size, ∀ e, mapping m root (nthByte vaddr j) = some e →
    ∀ k < size, ∀ d t, tableAt m root (nthByte vaddr k) d = some t → t ≠ e &&& kmemFrameMask

/-- Behind a page that is not mapped there is, up to the first page without a last-level table, no
    entry with the bits of a frame other than those of the pages before it. -/
def StopsAtAbsent (m : Phys) (root vaddr : Word) (size : Nat) : Prop :=
  ∀ i < size, mapping m root (nthByte vaddr i) = none →
    ∀ k < size, i ≤ k → (∀ k' ≤ k, leafEntry m root (nthByte vaddr k') ≠ none) →
      ∀ e, leafEntry m root (nthByte vaddr k) = some e →
        ∃ j < i, ∃ entry, mapping m root (nthByte vaddr j) = some entry ∧
          e &&& kmemFrameMask = entry &&& kmemFrameMask

/-! ## Bytes of a page -/

section
variable {m m' : PhyBytes} {root vaddr va f t a entry : Word} {source : Nat → Byte}
  {data : List Byte} {size : Word} {d i k n p w : Nat}

theorem toNat_page_add (hf : PageAligned f) (hi : i < 0x1000) :
    (f + BitVec.ofNat 64 i).toNat = f.toNat + i := by
  unfold PageAligned at hf
  bv_omega

/-- A byte of a page is in it. -/
theorem page_add (hf : PageAligned f) (hi : i < 0x1000) :
    (f + BitVec.ofNat 64 i) &&& pageMask = f := by
  rw [← BitVec.toNat_inj, toNat_and_pageMask, toNat_page_add hf hi]
  unfold PageAligned at hf
  omega

theorem page_add_inj (hf : PageAligned f) (hi : i < 0x1000) (hk : k < 0x1000)
    (h : f + BitVec.ofNat 64 i = f + BitVec.ofNat 64 k) : i = k := by
  have hnat := congrArg BitVec.toNat h
  rw [toNat_page_add hf hi, toNat_page_add hf hk] at hnat
  omega

/-- A byte of an entry is in its table. -/
theorem cell_page (ht : PageAligned t) (hi : i < 8) :
    (cell t va d + BitVec.ofNat 64 i) &&& pageMask = t := by
  have hlt := pagingIndex_lt va d
  have hadd : cell t va d + BitVec.ofNat 64 i =
      t + BitVec.ofNat 64 ((pagingIndex va d).toNat * 8 + i) := by
    rw [cell]
    bv_omega
  rw [hadd]
  exact page_add ht (by omega)

theorem and_fff_eq (va : Word) : va &&& 0xfff = BitVec.ofNat 64 (va.toNat % 0x1000) := by
  rw [← BitVec.toNat_inj, toNat_and_fff, BitVec.toNat_ofNat]
  omega

/-- The bytes behind one, up to the end of its page. -/
theorem nthByte_page (hi : (nthByte vaddr p).toNat % 0x1000 + i < 0x1000) :
    nthByte vaddr (p + i) &&& pageMask = nthByte vaddr p &&& pageMask ∧
      (nthByte vaddr (p + i)).toNat % 0x1000 = (nthByte vaddr p).toNat % 0x1000 + i := by
  have hadd : nthByte vaddr (p + i) = nthByte vaddr p + BitVec.ofNat 64 i := by
    rw [nthByte, nthByte, BitVec.ofNat_add, BitVec.add_assoc]
  have hnat : (nthByte vaddr (p + i)).toNat = (nthByte vaddr p).toNat + i := by
    rw [hadd, BitVec.toNat_add, BitVec.toNat_ofNat]
    omega
  constructor
  · rw [← BitVec.toNat_inj, toNat_and_pageMask, toNat_and_pageMask, hnat]
    omega
  · rw [hnat]
    omega

theorem nthByte_inj (hi : i < 2 ^ 64) (hk : k < 2 ^ 64)
    (hpage : nthByte vaddr i &&& pageMask = nthByte vaddr k &&& pageMask)
    (hoff : (nthByte vaddr i).toNat % 0x1000 = (nthByte vaddr k).toNat % 0x1000) : i = k := by
  rw [← BitVec.toNat_inj, toNat_and_pageMask, toNat_and_pageMask] at hpage
  have hnat : (nthByte vaddr i).toNat = (nthByte vaddr k).toNat := by omega
  rw [nthByte, nthByte] at hnat
  bv_omega

/-! ## Writing -/

theorem mem_touched_put : a ∈ (m.put f data).touched ↔
    (∃ i < data.length, f + BitVec.ofNat 64 i = a) ∨ a ∈ m.touched := by
  simp [PhyBytes.put]

theorem put_inside (hi : i < data.length) (hlt : i < 2 ^ 64) :
    (m.put f data).bytes (f + BitVec.ofNat 64 i) = data[i] := by
  have hsub : (f + BitVec.ofNat 64 i - f).toNat = i := by
    bv_omega
  show data.getD (f + BitVec.ofNat 64 i - f).toNat _ = data[i]
  rw [hsub, List.getD_eq_getElem?_getD, List.getElem?_eq_getElem hi, Option.getD_some]

theorem put_outside (h : ∀ i < data.length, f + BitVec.ofNat 64 i ≠ a) :
    (m.put f data).bytes a = m.bytes a := by
  have hle : data.length ≤ (a - f).toNat := by
    by_contra hlt
    apply h (a - f).toNat (by omega)
    bv_omega
  show data.getD (a - f).toNat _ = m.bytes a
  rw [List.getD_eq_getElem?_getD, List.getElem?_eq_none hle, Option.getD_none]

/-- A word depends on its eight bytes. -/
theorem words_congr (h : ∀ i < 8, m'.bytes (a + BitVec.ofNat 64 i) = m.bytes (a + BitVec.ofNat 64 i)) :
    m'.words a = m.words a := by
  have hload : load (fun i => m'.bytes (a + BitVec.ofNat 64 i)) 0 8 =
      load (fun i => m.bytes (a + BitVec.ofNat 64 i)) 0 8 := by
    apply List.map_congr_left
    intro i hi
    rw [Nat.zero_add]
    exact h i (List.mem_range.mp hi)
  rw [PhyBytes.words, hload, PhyBytes.words]

/-! ## The loop -/

/-- Where the loop takes the byte at `va` to be. -/
def spot (m : Phys) (root va : Word) : Option Word :=
  (leafEntry m root va).map fun entry => (entry &&& kmemFrameMask) + (va &&& 0xfff)

/-- The frame of the entry is no table for the range. -/
def Spares (m : Phys) (root vaddr : Word) (size : Nat) (entry : Word) : Prop :=
  ∀ k < size, ∀ d t, tableAt m root (nthByte vaddr k) d = some t → t ≠ entry &&& kmemFrameMask

/-- What the loop has done when `p` bytes are done, as long as it has spared the tables. -/
structure Filled (m : PhyBytes) (root vaddr : Word) (source : Nat → Byte) (size : Nat)
    (m' : PhyBytes) (p : Nat) : Prop where
  walks : ∀ k < size, ∀ d t, tableAt m.words root (nthByte vaddr k) d = some t →
    m'.words (cell t (nthByte vaddr k) d) = m.words (cell t (nthByte vaddr k) d)
  tables : ∀ k < p, leafEntry m.words root (nthByte vaddr k) ≠ none
  touched : ∀ a, a ∈ m'.touched ↔ ∃ k < p, spot m.words root (nthByte vaddr k) = some a
  others : ∀ a, a ∉ m'.touched → m'.bytes a = m.bytes a
  shown : (∀ k < size, mapping m.words root (nthByte vaddr k) ≠ none) →
    ∀ k < p, ∀ a, spot m.words root (nthByte vaddr k) = some a → m'.bytes a = source k

/-- A byte of the stretch that a turn writes. -/
theorem spot_add (hleaf : leafEntry m.words root (nthByte vaddr p) = some entry)
    (hi : (nthByte vaddr p).toNat % 0x1000 + i < 0x1000) :
    leafEntry m.words root (nthByte vaddr (p + i)) = some entry ∧
    spot m.words root (nthByte vaddr (p + i)) = some ((entry &&& kmemFrameMask) +
      (nthByte vaddr p &&& 0xfff) + BitVec.ofNat 64 i) := by
  obtain ⟨hpage, hoff⟩ := nthByte_page hi
  have hsame : leafEntry m.words root (nthByte vaddr (p + i)) = some entry := by
    rw [leafEntry, hpage, ← leafEntry, hleaf]
  refine ⟨hsame, ?_⟩
  rw [spot, hsame, Option.map_some, and_fff_eq, hoff, and_fff_eq, BitVec.ofNat_add,
    BitVec.add_assoc]

/-- Two bytes of a mapped range are in two places. -/
theorem PlainRange.spot_inj (h : PlainRange m.words root vaddr n) (hn : n < 2 ^ 64)
    (hall : ∀ k < n, mapping m.words root (nthByte vaddr k) ≠ none) (hi : i < n) (hk : k < n)
    (hspot : spot m.words root (nthByte vaddr i) = some a)
    (hspot' : spot m.words root (nthByte vaddr k) = some a) : i = k := by
  obtain ⟨e, he⟩ := Option.ne_none_iff_exists'.mp (hall i hi)
  obtain ⟨e', he'⟩ := Option.ne_none_iff_exists'.mp (hall k hk)
  rw [spot, ((h.walks i hi).mapping_iff.mp he).1, Option.map_some, Option.some.injEq,
    and_fff_eq] at hspot
  rw [spot, ((h.walks k hk).mapping_iff.mp he').1, Option.map_some, Option.some.injEq,
    and_fff_eq] at hspot'
  have hlt : ∀ va : Word, va.toNat % 0x1000 < 0x1000 := fun va => Nat.mod_lt _ (by decide)
  have hframe : e &&& kmemFrameMask = e' &&& kmemFrameMask := by
    rw [← page_add (isFrame_and e).aligned (hlt (nthByte vaddr i)), hspot, ← hspot',
      page_add (isFrame_and e').aligned (hlt _)]
  apply nthByte_inj (hi.trans hn) (hk.trans hn) (h.distinct i hi k hk e e' he he' hframe)
  rw [hframe, ← hspot'] at hspot
  exact page_add_inj (isFrame_and e').aligned (hlt _) (hlt _) hspot

/-- **A turn of the loop**, in a frame that is no table. -/
theorem Filled.turn (hplain : PlainRange m.words root vaddr n) (hn : n < 2 ^ 64)
    (h : Filled m root vaddr source n m' p)
    (hleaf : leafEntry m.words root (nthByte vaddr p) = some entry)
    (hspares : Spares m.words root vaddr n entry) (hw : p + w ≤ n)
    (hpage : (nthByte vaddr p).toNat % 0x1000 + w ≤ 0x1000) :
    Filled m root vaddr source n (m'.put ((entry &&& kmemFrameMask) + (nthByte vaddr p &&& 0xfff))
      (load source p w)) (p + w) := by
  have hadd := fun i (hi : i < w) => spot_add (m := m) (i := i) hleaf (by omega)
  have hbyte : ∀ i < w, ∀ a, (entry &&& kmemFrameMask) + (nthByte vaddr p &&& 0xfff) +
      BitVec.ofNat 64 i = a → a &&& pageMask = entry &&& kmemFrameMask := by
    rintro i hi _ rfl
    rw [and_fff_eq, BitVec.add_assoc, ← BitVec.ofNat_add]
    exact page_add (isFrame_and entry).aligned (by omega)
  have htouched : ∀ a, a ∈ (m'.put ((entry &&& kmemFrameMask) + (nthByte vaddr p &&& 0xfff))
      (load source p w)).touched ↔ ∃ k < p + w, spot m.words root (nthByte vaddr k) = some a := by
    intro a
    rw [mem_touched_put, h.touched, length_load]
    constructor
    · rintro (⟨i, hi, rfl⟩ | ⟨k, hk, hspot⟩)
      · exact ⟨p + i, by omega, (hadd i hi).2⟩
      · exact ⟨k, by omega, hspot⟩
    · rintro ⟨k, hk, hspot⟩
      rcases Nat.lt_or_ge k p with hlt | hge
      · exact .inr ⟨k, hlt, hspot⟩
      · obtain ⟨i, rfl⟩ := Nat.exists_eq_add_of_le hge
        have hi : i < w := by omega
        rw [(hadd i hi).2, Option.some.injEq] at hspot
        exact .inl ⟨i, hi, hspot⟩
  refine ⟨fun k hk d t ht => ?_, fun k hk => ?_, htouched, fun a ha => ?_, fun hall k hk a hspot => ?_⟩
  · -- the bytes of an entry are in its table
    have htal := tableAt_aligned hplain.root_aligned ht
    rw [← h.walks k hk d t ht]
    apply words_congr
    intro i hi
    apply put_outside
    intro j hj heq
    rw [length_load] at hj
    exact hspares k hk d t ht ((cell_page htal hi).symm.trans (hbyte j hj _ heq))
  · rcases Nat.lt_or_ge k p with hlt | hge
    · exact h.tables k hlt
    · obtain ⟨i, rfl⟩ := Nat.exists_eq_add_of_le hge
      rw [(hadd i (by omega)).1]
      exact Option.some_ne_none _
  · rw [mem_touched_put, not_or] at ha
    rw [put_outside fun i hi heq => ha.1 ⟨i, hi, heq⟩]
    exact h.others a ha.2
  · rcases Nat.lt_or_ge k p with hlt | hge
    · rw [put_outside]
      · exact h.shown hall k hlt a hspot
      · intro i hi heq
        rw [length_load] at hi
        have hsame := hplain.spot_inj hn hall (by omega) (by omega) hspot
          ((hadd i hi).2.trans (congrArg some heq))
        omega
    · obtain ⟨i, rfl⟩ := Nat.exists_eq_add_of_le hge
      have hi : i < w := by omega
      rw [(hadd i hi).2, Option.some.injEq] at hspot
      rw [← hspot, put_inside (by rwa [length_load]) (by omega), getElem_load]

theorem Filled.start (m : Word → Byte) (root vaddr : Word) (source : Nat → Byte) (n : Nat) :
    Filled ⟨m, []⟩ root vaddr source n ⟨m, []⟩ 0 := by
  refine ⟨fun _ _ _ _ _ => rfl, fun k hk => absurd hk (Nat.not_lt_zero k), fun a => ?_,
    fun _ _ => rfl, fun _ k hk => absurd hk (Nat.not_lt_zero k)⟩
  simp

/-- What is touched stays so. -/
theorem fillLoop_touched (root : Word) (source : Nat → Byte) (fuel : Nat) (m : PhyBytes) (pos : Nat)
    (vaddr size : Word) (h : a ∈ m.touched) :
    a ∈ (fillLoop root source fuel m pos vaddr size).touched := by
  induction fuel generalizing m pos vaddr size with
  | zero => exact h
  | succ fuel ih =>
    rw [fillLoop]
    split_ifs
    · exact h
    · simp only []
      cases kmemPagingAddr m.words root (vaddr &&& pageMask) 3 with
      | none => exact h
      | some entry => exact ih _ _ _ _ (mem_touched_put.mpr (.inr h))

/-- How much a turn writes: something, no more than is left, and up to the end of the page. -/
theorem wsize_spec (va : Word) (hsize : size ≠ 0) :
    0 < (if 0x1000 - (va &&& 0xfff) > size then size else 0x1000 - (va &&& 0xfff)).toNat ∧
    (if 0x1000 - (va &&& 0xfff) > size then size else 0x1000 - (va &&& 0xfff)).toNat ≤ size.toNat ∧
    va.toNat % 0x1000 +
      (if 0x1000 - (va &&& 0xfff) > size then size else 0x1000 - (va &&& 0xfff)).toNat ≤ 0x1000 := by
  have hoff := toNat_and_fff va
  have hlt : va.toNat % 0x1000 < 0x1000 := Nat.mod_lt _ (by decide)
  have hrest : (0x1000 - (va &&& 0xfff)).toNat = 0x1000 - va.toNat % 0x1000 := by
    generalize va &&& 0xfff = off at hoff
    bv_omega
  have hpos : size.toNat ≠ 0 := fun h => hsize (BitVec.eq_of_toNat_eq h)
  split_ifs with h
  · have hlt' : size.toNat < (0x1000 - (va &&& 0xfff)).toNat := h
    omega
  · have hle : (0x1000 - (va &&& 0xfff)).toNat ≤ size.toNat := Nat.le_of_not_lt h
    omega

/-- **A run of the loop** gets to the end, or to a page without a last-level table; or it gets to
    an entry with the bits of a table, and writes there. -/
theorem fillLoop_run (hplain : PlainRange m.words root vaddr size.toNat) (fuel : Nat) :
    ∀ m' p, p ≤ size.toNat → size.toNat - p ≤ fuel →
      Filled m root vaddr source size.toNat m' p →
      ∃ q ≤ size.toNat,
        (Filled m root vaddr source size.toNat (fillLoop root source fuel m' p (nthByte vaddr p)
            (size - BitVec.ofNat 64 p)) q ∧
          (q = size.toNat ∨ leafEntry m.words root (nthByte vaddr q) = none)) ∨
        (q < size.toNat ∧ (∀ k < q, leafEntry m.words root (nthByte vaddr k) ≠ none) ∧
          ∃ entry, leafEntry m.words root (nthByte vaddr q) = some entry ∧
            ¬ Spares m.words root vaddr size.toNat entry ∧
            ∃ a ∈ (fillLoop root source fuel m' p (nthByte vaddr p)
              (size - BitVec.ofNat 64 p)).touched, a &&& pageMask = entry &&& kmemFrameMask) := by
  induction fuel with
  | zero =>
    intro m' p hp hfuel h
    exact ⟨p, hp, .inl ⟨h, .inl (by omega)⟩⟩
  | succ fuel ih =>
    intro m' p hp hfuel h
    have hlt := size.isLt
    have hleft : (size - BitVec.ofNat 64 p).toNat = size.toNat - p := by bv_omega
    rw [fillLoop]
    by_cases hdone : size - BitVec.ofNat 64 p = 0
    · rw [if_pos hdone]
      rw [hdone] at hleft
      have hzero : (0 : Word).toNat = 0 := rfl
      exact ⟨p, hp, .inl ⟨h, .inl (by omega)⟩⟩
    · rw [if_neg hdone]
      obtain ⟨hpos, hle, hend⟩ := wsize_spec (nthByte vaddr p) hdone
      simp only []
      generalize (if 0x1000 - (nthByte vaddr p &&& 0xfff) > size - BitVec.ofNat 64 p then
        size - BitVec.ofNat 64 p else 0x1000 - (nthByte vaddr p &&& 0xfff)) = w at hpos hle hend
      have hlast : p < size.toNat := by omega
      -- the tables are as they were, and so is the entry
      have hleaf := ((hplain.walks p hlast).congr (h.walks p hlast)).2
      rw [leafEntry] at hleaf
      cases hwalk : kmemPagingAddr m'.words root (nthByte vaddr p &&& pageMask) 3 with
      | none =>
        rw [hwalk, Option.map_none] at hleaf
        exact ⟨p, hp, .inl ⟨h, .inr hleaf.symm⟩⟩
      | some eaddr =>
        rw [hwalk, Option.map_some] at hleaf
        have hnext : nthByte vaddr p + w = nthByte vaddr (p + w.toNat) := by
          rw [nthByte, nthByte, BitVec.ofNat_add, BitVec.ofNat_toNat, BitVec.setWidth_eq,
            BitVec.add_assoc]
        have hrest : size - BitVec.ofNat 64 p - w = size - BitVec.ofNat 64 (p + w.toNat) := by
          rw [BitVec.ofNat_add, BitVec.ofNat_toNat, BitVec.setWidth_eq]
          bv_omega
        simp only [hnext, hrest]
        generalize phyRead64 m'.words eaddr = entry at hleaf
        by_cases hspares : Spares m.words root vaddr size.toNat entry
        · exact ih _ _ (by omega) (by omega)
            (h.turn hplain hlt hleaf.symm hspares (by omega) hend)
        · refine ⟨p, hp, .inr ⟨hlast, h.tables, entry, hleaf.symm, hspares, _,
            fillLoop_touched _ _ _ _ _ _ _ (mem_touched_put.mpr (.inl ⟨0, ?_, rfl⟩)), ?_⟩⟩
          · rw [length_load]
            exact hpos
          · rw [and_fff_eq, BitVec.add_assoc, ← BitVec.ofNat_add]
            exact page_add (isFrame_and entry).aligned (by omega)

/-! ## The copy -/

theorem spot_of_mapping (hwalk : WalksTables m.words root va)
    (hmap : mapping m.words root va = some entry) : spot m.words root va = location m.words root va := by
  rw [spot, (hwalk.mapping_iff.mp hmap).1, location, hmap]

theorem spot_page (h : spot m.words root va = some a) : ∃ entry,
    leafEntry m.words root va = some entry ∧ a &&& pageMask = entry &&& kmemFrameMask := by
  rw [spot, Option.map_eq_some_iff] at h
  obtain ⟨entry, hleaf, rfl⟩ := h
  refine ⟨entry, hleaf, ?_⟩
  rw [and_fff_eq]
  exact page_add (isFrame_and entry).aligned (Nat.mod_lt _ (by decide))

/-- If the loop has spared the tables, its copy is exact, as far as it stops at what is absent. -/
theorem Filled.exact (hplain : PlainRange m.words root vaddr n) {m' : PhyBytes} {q : Nat}
    (hq : q ≤ n) (h : Filled m root vaddr source n m' q)
    (hend : q = n ∨ leafEntry m.words root (nthByte vaddr q) = none)
    (hstops : StopsAtAbsent m.words root vaddr n) :
    CopiesExactly m.words m.bytes root vaddr source n m' := by
  have hall : (∀ k < n, mapping m.words root (nthByte vaddr k) ≠ none) → q = n := by
    intro hmapped
    by_contra hne
    obtain ⟨e, he⟩ := Option.ne_none_iff_exists'.mp (hmapped q (by omega))
    have hleaf := ((hplain.walks q (by omega)).mapping_iff.mp he).1
    rw [hend.resolve_left hne] at hleaf
    cases hleaf
  refine ⟨fun hmapped k hk => ?_, fun hmapped a ha => ?_, fun i hi hnone a ha => ?_⟩
  · obtain rfl := hall hmapped
    obtain ⟨e, he⟩ := Option.ne_none_iff_exists'.mp (hmapped k hk)
    have hspot := spot_of_mapping (hplain.walks k hk) he
    have hsame : location m'.words root (nthByte vaddr k) =
        location m.words root (nthByte vaddr k) := by
      rw [location, mapping, (translate_of_agree (h.walks k hk)).2, ← mapping, location]
    rw [hsame]
    rw [location, he, Option.map_some] at hspot ⊢
    rw [Option.map_some, h.shown hmapped k hk _ hspot]
  · obtain rfl := hall hmapped
    apply h.others
    rw [h.touched]
    rintro ⟨k, hk, hspot⟩
    obtain ⟨e, he⟩ := Option.ne_none_iff_exists'.mp (hmapped k hk)
    exact ha k hk ((spot_of_mapping (hplain.walks k hk) he).symm.trans hspot)
  · obtain ⟨k, hk, hspot⟩ := (h.touched a).mp ha
    obtain ⟨e, hleaf, hpage⟩ := spot_page hspot
    rcases Nat.lt_or_ge k i with hlt | hge
    · by_cases hp : Present e
      · exact ⟨k, hlt, e, mapping_of_leafEntry (hplain.walks k (by omega)) hleaf hp, hpage⟩
      · -- `k` is not mapped itself
        have hnone' : mapping m.words root (nthByte vaddr k) = none := by
          rw [Option.eq_none_iff_forall_ne_some]
          intro e' he'
          obtain ⟨hleaf', hp'⟩ := (hplain.walks k (by omega)).mapping_iff.mp he'
          rw [hleaf, Option.some.injEq] at hleaf'
          exact hp (hleaf' ▸ hp')
        obtain ⟨j, hj, entry, hmap, heq⟩ := hstops k (by omega) hnone' k (by omega) le_rfl
          (fun k' hk' => h.tables k' (by omega)) e hleaf
        exact ⟨j, by omega, entry, hmap, hpage.trans heq⟩
    · obtain ⟨j, hj, entry, hmap, heq⟩ := hstops i hi hnone k (by omega) hge
        (fun k' hk' => h.tables k' (by omega)) e hleaf
      exact ⟨j, hj, entry, hmap, hpage.trans heq⟩

/-- **The loop copies exactly**, exactly if it stops at what is absent. -/
theorem fillLoop_exact {bytes : Word → Byte} (source : Nat → Byte)
    (hplain : PlainRange (PhyBytes.mk bytes []).words root vaddr size.toNat) :
    CopiesExactly (PhyBytes.mk bytes []).words bytes root vaddr source size.toNat
        (fillLoop root source size.toNat ⟨bytes, []⟩ 0 vaddr size) ↔
      StopsAtAbsent (PhyBytes.mk bytes []).words root vaddr size.toNat := by
  have hrun := fillLoop_run hplain size.toNat ⟨bytes, []⟩ 0 (Nat.zero_le _) le_rfl
    (Filled.start bytes root vaddr source size.toNat)
  have hstart : nthByte vaddr 0 = vaddr := by simp [nthByte]
  have hwhole : size - BitVec.ofNat 64 0 = size := by simp
  rw [hstart, hwhole] at hrun
  obtain ⟨q, hq, ⟨hfilled, hend⟩ | ⟨hlt, htables, entry, hleaf, hunspared, a, ha, hpage⟩⟩ := hrun
  · constructor
    · intro hexact i hi hnone k hk hik htables e hleaf
      -- the byte has been touched: the loop has not stopped before it
      have hkq : k < q := by
        by_contra hge
        rcases hend with rfl | hstop
        · omega
        · exact htables q (by omega) hstop
      have hspot : spot (PhyBytes.mk bytes []).words root (nthByte vaddr k) =
          some ((e &&& kmemFrameMask) + (nthByte vaddr k &&& 0xfff)) := by
        rw [spot, hleaf, Option.map_some]
      obtain ⟨j, hj, entry, hmap, hpage⟩ := hexact.stops i hi hnone _
        ((hfilled.touched _).mpr ⟨k, hkq, hspot⟩)
      obtain ⟨e', hleaf', hpage'⟩ := spot_page hspot
      rw [hleaf, Option.some.injEq] at hleaf'
      exact ⟨j, hj, entry, hmap, hleaf' ▸ hpage'.symm.trans hpage⟩
    · exact hfilled.exact hplain hq hend
  · -- a table was written to: its bits were those of an absent entry
    have hunmapped : ∀ j < size.toNat, ∀ e,
        mapping (PhyBytes.mk bytes []).words root (nthByte vaddr j) = some e →
        entry &&& kmemFrameMask ≠ e &&& kmemFrameMask := by
      intro j hj e he heq
      apply hunspared
      intro k hk d t ht
      rw [heq]
      exact hplain.apart j hj e he k hk d t ht
    have hnone : mapping (PhyBytes.mk bytes []).words root (nthByte vaddr q) = none := by
      rw [Option.eq_none_iff_forall_ne_some]
      intro e he
      have hleaf' := ((hplain.walks q hlt).mapping_iff.mp he).1
      rw [hleaf, Option.some.injEq] at hleaf'
      exact hunmapped q hlt e he (congrArg (· &&& kmemFrameMask) hleaf')
    refine iff_of_false (fun hexact => ?_) fun hstops => ?_
    · obtain ⟨j, hj, e, he, hpage'⟩ := hexact.stops q hlt hnone a ha
      exact hunmapped j (by omega) e he (hpage.symm.trans hpage')
    · have htables' : ∀ k ≤ q,
          leafEntry (PhyBytes.mk bytes []).words root (nthByte vaddr k) ≠ none := by
        intro k hk
        rcases Nat.lt_or_eq_of_le hk with hk | rfl
        · exact htables k hk
        · rw [hleaf]
          exact Option.some_ne_none _
      obtain ⟨j, hj, e, he, heq⟩ := hstops q hlt hnone q hlt le_rfl htables' entry hleaf
      exact hunmapped j (by omega) e he heq

end

/-- **`kmem_memcpy` and `kmem_memclr` are exact** if and only if no entry behind a page that is not
    present spells a frame of its own. -/
theorem memcpy_exact (bytes : Word → Byte) (root vaddr : Word) (data : Nat → Byte) (size : Word)
    (hplain : PlainRange (PhyBytes.mk bytes []).words root vaddr size.toNat) :
    (CopiesExactly (PhyBytes.mk bytes []).words bytes root vaddr data size.toNat
        (kmemMemcpy bytes root vaddr data size) ↔
      StopsAtAbsent (PhyBytes.mk bytes []).words root vaddr size.toNat) ∧
    (CopiesExactly (PhyBytes.mk bytes []).words bytes root vaddr (fun _ => 0) size.toNat
        (kmemMemclr bytes root vaddr size) ↔
      StopsAtAbsent (PhyBytes.mk bytes []).words root vaddr size.toNat) :=
  ⟨fillLoop_exact data hplain, fillLoop_exact (fun _ => 0) hplain⟩

/-- A root at `0x10000` that maps its first page to `0x14000`, and no other. -/
def onePageWords : List (Word × Word) :=
  [(0x10000, 0x11007), (0x11000, 0x12007), (0x12000, 0x13007), (0x13000, 0x8000000000014003)]

def onePageBytes : Word → Byte := fun a =>
  (((onePageWords.lookup (a &&& ~~~7)).getD 0) >>> (8 * (a &&& 7).toNat)).setWidth 8

theorem onePage_mapping {vaddr : Word} {k : Nat} (hv : vaddr = 0xffc ∨ vaddr = 0xffe) (hk : k < 4) :
    mapping (PhyBytes.mk onePageBytes []).words 0x10000 (nthByte vaddr k) =
      if nthByte vaddr k < 0x1000 then some 0x8000000000014003 else none := by
  rcases hv with rfl | rfl
  · interval_cases k <;> decide +kernel
  · interval_cases k <;> decide +kernel

theorem onePage_tables {vaddr : Word} {k d : Nat} {t : Word} (hv : vaddr = 0xffc ∨ vaddr = 0xffe)
    (hk : k < 4)
    (ht : tableAt (PhyBytes.mk onePageBytes []).words 0x10000 (nthByte vaddr k) d = some t) :
    d ≤ 3 ∧ t = 0x10000 + BitVec.ofNat 64 d * 0x1000 := by
  have hle := tableAt_le_three ht
  refine ⟨hle, ?_⟩
  have hwalk : tableAt (PhyBytes.mk onePageBytes []).words 0x10000 (nthByte vaddr k) d =
      some (0x10000 + BitVec.ofNat 64 d * 0x1000) := by
    rcases hv with rfl | rfl
    · interval_cases k <;> interval_cases d <;> decide +kernel
    · interval_cases k <;> interval_cases d <;> decide +kernel
  exact Option.some.inj (ht.symm.trans hwalk)

theorem onePage_plain {vaddr : Word} (hv : vaddr = 0xffc ∨ vaddr = 0xffe) :
    PlainRange (PhyBytes.mk onePageBytes []).words 0x10000 vaddr 4 where
  root_aligned := by rfl
  walks := by
    intro k hk d hd t ht _
    obtain ⟨-, rfl⟩ := onePage_tables hv hk ht
    rcases hv with rfl | rfl
    · interval_cases k <;> interval_cases d <;> decide +kernel
    · interval_cases k <;> interval_cases d <;> decide +kernel
  distinct := by
    intro j hj k hk e e' he he' _
    rw [onePage_mapping hv hj, Option.ite_none_right_eq_some] at he
    rw [onePage_mapping hv hk, Option.ite_none_right_eq_some] at he'
    have hpage : ∀ va : Word, va < 0x1000 → va &&& pageMask = 0 := by
      intro va hva
      rw [← BitVec.toNat_inj, toNat_and_pageMask]
      have hlt : va.toNat < 0x1000 := hva
      rw [Nat.div_eq_of_lt hlt]
      rfl
    rw [hpage _ he.1, hpage _ he'.1]
  apart := by
    intro j hj e he k hk d t ht
    rw [onePage_mapping hv hj, Option.ite_none_right_eq_some, Option.some.injEq] at he
    obtain ⟨hd, rfl⟩ := onePage_tables hv hk ht
    rw [← he.2]
    interval_cases d <;> decide

/-- Four bytes at the end of the page. -/
theorem memcpy_exact_of_onePage :
    CopiesExactly (PhyBytes.mk onePageBytes []).words onePageBytes 0x10000 0xffc
      (fun k => BitVec.ofNat 8 (65 + k)) (4 : Word).toNat
      (kmemMemcpy onePageBytes 0x10000 0xffc (fun k => BitVec.ofNat 8 (65 + k)) 4) := by
  apply (memcpy_exact onePageBytes 0x10000 0xffc _ 4 (onePage_plain (.inl rfl))).1.mpr
  intro i hi hnone
  rw [onePage_mapping (.inl rfl) hi, if_pos] at hnone
  · cases hnone
  · have hlt : i < 4 := hi
    interval_cases i <;> decide

/-- Four bytes across the end of the page: the next one is not mapped, and the two bytes that would
    be in it are written to the first page of memory. -/
theorem memcpy_past_absent :
    PlainRange (PhyBytes.mk onePageBytes []).words 0x10000 0xffe 4 ∧
    mapping (PhyBytes.mk onePageBytes []).words 0x10000 (nthByte 0xffe 2) = none ∧
    (kmemMemcpy onePageBytes 0x10000 0xffe (fun _ => 65) 4).bytes 1 = 65 ∧
    ¬ CopiesExactly (PhyBytes.mk onePageBytes []).words onePageBytes 0x10000 0xffe (fun _ => 65)
      (4 : Word).toNat (kmemMemcpy onePageBytes 0x10000 0xffe (fun _ => 65) 4) := by
  have hnone : mapping (PhyBytes.mk onePageBytes []).words 0x10000 (nthByte 0xffe 2) = none := by
    decide +kernel
  refine ⟨onePage_plain (.inr rfl), hnone, by decide +kernel, fun hexact => ?_⟩
  have htouched : (1 : Word) ∈ (kmemMemcpy onePageBytes 0x10000 0xffe (fun _ => 65) 4).touched := by
    decide +kernel
  obtain ⟨j, hj, entry, hmap, hpage⟩ := hexact.stops 2 (by decide) hnone 1 htouched
  rw [onePage_mapping (.inr rfl) (by omega), Option.ite_none_right_eq_some,
    Option.some.injEq] at hmap
  rw [← hmap.2] at hpage
  exact absurd hpage (by decide)

end Refk
