import Refk.Kernel.Multiboot
import Refk.Klib.Create
import Refk.Klib.Paging

/-!
# `kernel/kmem.c` — the first free list

`kmem_init` rounds the available regions inwards, in place, releases their pages, and moves the
head of the list to a page of its own at `KMEM_BASE_ADDR`. The pairs of zeros that ends the regions
is also what a region shorter than a page at address `0` is rounded to; the last page of the address
space cannot be rounded up to; and what the comment says of the first 2 MB is compared with
`0x20000`. The theorem says which memory maps none of this matters for.

The regions are in the kernel image, and no page of the image is released: the loops read what the
first pass has left.
-/

namespace Refk

open Lib

/-- `kernel_pbase` -/
def kernelPbase : Word := 0x1000000

/-- `KMEM_MAP_DEFAULT` -/
def kmemMapDefault : Word := 0x7

/-- The body of the first loop. -/
def roundRegion (region : Word × Word) : Word × Word :=
  let start := region.1
  let stop := region.1 + region.2
  let start := (start + 0xfff) &&& pageMask
  let stop := stop &&& pageMask
  (start, stop - start)

/-- The first loop, over the pairs in the buffer. -/
def roundRegions : List (Word × Word) → List (Word × Word)
  | [] => []
  | region :: rest =>
    if region.1 ≠ 0 ∨ region.2 ≠ 0 then roundRegion region :: roundRegions rest
    else region :: rest

/-- `kmem_unuse`, at boot: `setup_paging` maps 64 GB of physical memory, and an access beyond is
    none to physical memory. -/
def bootUnuse (k : Kmem) (page : Word) : Option Kmem :=
  if page < 0x1000000000 then some (kmemUnuse k page) else none

/-- The body of the loop over the pages of a region. -/
def unusePage (kernelEnd : Word) (k : Kmem) (p : Word) : Option Kmem :=
  -- don't mark kernel load pages as unused
  if p ≥ kernelPbase ∧ p ≤ kernelEnd then some k
  -- don't use first 2MB
  else if p ≤ 0x20000 then some k
  else bootUnuse k p

/-- `for(uint64_t p = start; p < stop; p += 0x1000)`; both are multiples of a page. -/
def pagesBetween (start stop : Word) : List Word :=
  if start < stop then
    (List.range ((stop - start).toNat / 0x1000)).map fun i => start + BitVec.ofNat 64 i * 0x1000
  else []

/-- The second loop. -/
def unuseRegions (kernelEnd : Word) : List (Word × Word) → Kmem → Option Kmem
  | [], k => some k
  | region :: rest, k =>
    if region.1 ≠ 0 ∨ region.2 ≠ 0 then do
      let stop := region.1 + region.2
      let k ← (pagesBetween region.1 stop).foldlM (unusePage kernelEnd) k
      unuseRegions kernelEnd rest k
    else some k

/-- The end of `kmem_init`: the head of the list, in `temp_last` so far, is from now on the first
    word of a page of its own. -/
def swapHead (bootCr3 : Word) (k : Kmem) : Kmem :=
  let (k, page) := kmemGetpage k
  let k := kmemMap k bootCr3 kmemBaseAddr page kmemMapDefault
  let (k, t) := kmemGetpage k
  let k := kmemUnuse k t
  { k with phys := phyWrite64 k.phys page t, lastUnused := t }

/-- `kmem_init` -/
def kmemInit (kernelEnd bootCr3 : Word) (regions : List (Word × Word)) (k : Kmem) : Option Kmem := do
  let k ← unuseRegions kernelEnd (roundRegions regions) k
  return swapHead bootCr3 k

/-! ## What it is for -/

/-- A page that lies in a region as a whole. -/
def WholePage (region : Word × Word) (p : Word) : Prop :=
  PageAligned p ∧ region.1.toNat ≤ p.toNat ∧ p.toNat + 0x1000 ≤ region.1.toNat + region.2.toNat

/-- No byte of the page is in the kernel image. -/
def OutsideKernel (kernelEnd p : Word) : Prop :=
  p.toNat + 0x1000 ≤ kernelPbase.toNat ∨ kernelEnd.toNat < p.toNat

/-- A page that belongs on the list. -/
def UsablePage (kernelEnd : Word) (regions : List (Word × Word)) (p : Word) : Prop :=
  (∃ region ∈ regions, WholePage region p) ∧ OutsideKernel kernelEnd p ∧ 0x200000 ≤ p.toNat

/-- The regions do not wrap, and no two have a byte in common. -/
structure Regions (regions : List (Word × Word)) : Prop where
  bounded : ∀ r ∈ regions, r.1.toNat + r.2.toNat < 2 ^ 64
  disjoint : regions.Pairwise fun r r' =>
    r.1.toNat + r.2.toNat ≤ r'.1.toNat ∨ r'.1.toNat + r'.2.toNat ≤ r.1.toNat

/-- The tables that `setup_paging` leaves: they are in the kernel image, and the one that the kernel
    itself is mapped through has nothing for `KMEM_BASE_ADDR`. -/
structure BootTables (kernelEnd p4 p3 : Word) (m : Phys) : Prop where
  image : kernelEnd.toNat < 2 ^ 31
  root : IsFrame p4 ∧ ¬ OutsideKernel kernelEnd p4
  high : IsFrame p3 ∧ ¬ OutsideKernel kernelEnd p3
  ne : p4 ≠ p3
  entry : m (cell p4 kmemBaseAddr 0) = p3 ||| 3
  absent : m (cell p3 kmemBaseAddr 1) = 0

/-- **The list is what it should be**: after the loops the usable pages, each once, and in the end
    the same without the three that the head's new place has taken. -/
def ListsExactly (kernelEnd bootCr3 : Word) (regions buffer : List (Word × Word)) (k : Kmem) : Prop :=
  ∃ k₁ L, unuseRegions kernelEnd (roundRegions buffer) k = some k₁ ∧ FreePages k₁ L ∧ L.Nodup ∧
    (∀ p, p ∈ L ↔ UsablePage kernelEnd regions p) ∧
    ∃ k₂ page p₁ p₂ rest, kmemInit kernelEnd bootCr3 buffer k = some k₂ ∧
      L = page :: p₁ :: p₂ :: rest ∧ FreePages k₂ rest ∧
      tableAt k₂.phys bootCr3 kmemBaseAddr 3 = some p₂ ∧
      k₂.phys (cell p₂ kmemBaseAddr 3) = page ||| kmemMapDefault ∧ k₂.phys page = k₂.lastUnused

/-! ## When it is -/

/-- A region that is rounded to a pair of zeros. -/
def Vanishes (region : Word × Word) : Prop := region.1 = 0 ∧ region.2.toNat < 0x1000

instance (region : Word × Word) : Decidable (Vanishes region) :=
  inferInstanceAs (Decidable (_ ∧ _))

/-- The regions before the first that vanishes. -/
def seenRegions (regions : List (Word × Word)) : List (Word × Word) :=
  regions.takeWhile fun r => ¬ Vanishes r

/-- A page that is neither in the image nor in the first 128 KB. -/
def KeptPage (kernelEnd p : Word) : Prop := OutsideKernel kernelEnd p ∧ 0x20000 < p.toNat

/-- **What the memory map must be like**: no region starts in the last page of the address space;
    what is available is below 64 GB and, off the image, not between 128 KB and 2 MB; no usable page
    comes after a region that vanishes; and there are three usable pages. -/
structure PlainMap (kernelEnd : Word) (regions : List (Word × Word)) : Prop where
  start : ∀ r ∈ seenRegions regions, r.1.toNat ≤ 2 ^ 64 - 0x1000
  reach : ∀ r ∈ seenRegions regions, ∀ p, WholePage r p → KeptPage kernelEnd p → p.toNat < 2 ^ 36
  low : ∀ r ∈ seenRegions regions, ∀ p, WholePage r p → KeptPage kernelEnd p → 0x200000 ≤ p.toNat
  seen : ∀ p, UsablePage kernelEnd regions p → ∃ r ∈ seenRegions regions, WholePage r p
  enough : 3 ≤ {p | UsablePage kernelEnd regions p}.ncard

/-- The pages that the second loop releases, in order. -/
def releasedPages (kernelEnd : Word) (regions : List (Word × Word)) : List Word :=
  ((regions.takeWhile fun r => r.1 ≠ 0 ∨ r.2 ≠ 0).flatMap fun r =>
    pagesBetween r.1 (r.1 + r.2)).filter fun p =>
      ¬ (p ≥ kernelPbase ∧ p ≤ kernelEnd) ∧ ¬ p ≤ 0x20000

section
variable {kernelEnd p4 p3 root va t p : Word} {k k' : Kmem} {regions rest : List (Word × Word)}
  {r r' : Word × Word} {ps L : List Word} {d : Nat}

/-! ## The loops -/

theorem unusePages_iff : ps.foldlM (unusePage kernelEnd) k = some k' ↔
    (∀ p ∈ ps.filter fun p => ¬ (p ≥ kernelPbase ∧ p ≤ kernelEnd) ∧ ¬ p ≤ 0x20000,
      p < 0x1000000000) ∧
    k' = (ps.filter fun p => ¬ (p ≥ kernelPbase ∧ p ≤ kernelEnd) ∧ ¬ p ≤ 0x20000).foldl
      kmemUnuse k := by
  induction ps generalizing k with
  | nil => exact ⟨fun h => ⟨by simp, (Option.some.inj h).symm⟩, fun h => congrArg some h.2.symm⟩
  | cons p ps ih =>
    rw [List.foldlM_cons]
    by_cases himage : p ≥ kernelPbase ∧ p ≤ kernelEnd
    · rw [unusePage, if_pos himage, List.filter_cons_of_neg (by simp [himage])]
      exact ih
    by_cases hlow : p ≤ 0x20000
    · rw [unusePage, if_neg himage, if_pos hlow, List.filter_cons_of_neg (by simpa using fun _ => hlow)]
      exact ih
    rw [unusePage, if_neg himage, if_neg hlow, bootUnuse,
      List.filter_cons_of_pos (by simp only [himage, hlow]; rfl)]
    by_cases hreach : p < 0x1000000000
    · rw [if_pos hreach, List.foldl_cons, List.forall_mem_cons]
      exact ih.trans (and_congr_left fun _ => (and_iff_right hreach).symm)
    · rw [if_neg hreach, List.forall_mem_cons]
      exact ⟨fun h => (nomatch h), fun h => absurd h.1.1 hreach⟩

/-- **The second loop** releases the pages, if it can reach them. -/
theorem unuseRegions_iff : unuseRegions kernelEnd regions k = some k' ↔
    (∀ p ∈ releasedPages kernelEnd regions, p < 0x1000000000) ∧
      k' = (releasedPages kernelEnd regions).foldl kmemUnuse k := by
  induction regions generalizing k with
  | nil => exact ⟨fun h => ⟨fun _ hp => (nomatch hp), (Option.some.inj h).symm⟩,
      fun h => congrArg some h.2.symm⟩
  | cons r rs ih =>
    rw [unuseRegions]
    by_cases hmore : r.1 ≠ 0 ∨ r.2 ≠ 0
    · have hsplit : releasedPages kernelEnd (r :: rs) =
          ((pagesBetween r.1 (r.1 + r.2)).filter fun p =>
            ¬ (p ≥ kernelPbase ∧ p ≤ kernelEnd) ∧ ¬ p ≤ 0x20000) ++ releasedPages kernelEnd rs := by
        rw [releasedPages, List.takeWhile_cons_of_pos (by simpa using hmore), List.flatMap_cons,
          List.filter_append, ← releasedPages]
      rw [if_pos hmore, hsplit]
      simp only [Option.bind_eq_bind, Option.bind_eq_some_iff, unusePages_iff, ih,
        List.forall_mem_append, List.foldl_append]
      constructor
      · rintro ⟨_, ⟨hfirst, rfl⟩, hrest, rfl⟩
        exact ⟨⟨hfirst, hrest⟩, rfl⟩
      · rintro ⟨⟨hfirst, hrest⟩, rfl⟩
        exact ⟨_, ⟨hfirst, rfl⟩, hrest, rfl⟩
    · have hnone : releasedPages kernelEnd (r :: rs) = [] := by
        rw [releasedPages, List.takeWhile_cons_of_neg (by simpa using hmore)]
        rfl
      rw [if_neg hmore, hnone]
      exact ⟨fun h => ⟨fun _ hp => (nomatch hp), (Option.some.inj h).symm⟩,
        fun h => congrArg some h.2.symm⟩

/-! ## Rounding -/

/-- Only a short region at `0` is rounded to a pair of zeros. -/
theorem roundRegion_zero (h : r.1.toNat + r.2.toNat < 2 ^ 64) :
    ((roundRegion r).1 ≠ 0 ∨ (roundRegion r).2 ≠ 0) ↔ ¬ Vanishes r := by
  have hstart : ((r.1 + 0xfff) &&& pageMask).toNat =
      (r.1.toNat + 0xfff) % 2 ^ 64 / 0x1000 * 0x1000 := by
    rw [toNat_and_pageMask, BitVec.toNat_add]
    rfl
  have hstop : ((r.1 + r.2) &&& pageMask).toNat = (r.1.toNat + r.2.toNat) / 0x1000 * 0x1000 := by
    rw [toNat_and_pageMask, BitVec.toNat_add, Nat.mod_eq_of_lt h]
  rw [← not_and_or, not_iff_not]
  change (r.1 + 0xfff) &&& pageMask = 0 ∧
    ((r.1 + r.2) &&& pageMask) - ((r.1 + 0xfff) &&& pageMask) = 0 ↔ _
  generalize (r.1 + 0xfff) &&& pageMask = a at hstart
  generalize (r.1 + r.2) &&& pageMask = b at hstop
  unfold Vanishes
  bv_omega

/-- **What the loops see**: the regions before the first that vanishes. -/
theorem seen_of_round (h : ∀ r ∈ regions, r.1.toNat + r.2.toNat < 2 ^ 64) :
    (roundRegions (regions ++ (0, 0) :: rest)).takeWhile (fun r => r.1 ≠ 0 ∨ r.2 ≠ 0) =
      (seenRegions regions).map roundRegion := by
  induction regions with
  | nil => simp [roundRegions, seenRegions]
  | cons r rs ih =>
    have hrest := ih fun r' hr' => h r' (by simp [hr'])
    have hround := roundRegion_zero (h r (by simp))
    rw [List.cons_append, roundRegions]
    by_cases hvanish : Vanishes r
    · have hseen : seenRegions (r :: rs) = [] :=
        List.takeWhile_cons_of_neg (by simpa using hvanish)
      rw [hseen]
      by_cases hmore : r.1 ≠ 0 ∨ r.2 ≠ 0
      · rw [if_pos hmore, List.takeWhile_cons_of_neg (by simpa using fun h => hround.mp h hvanish)]
        rfl
      · rw [if_neg hmore, List.takeWhile_cons_of_neg (by simpa using hmore)]
        rfl
    · have hseen : seenRegions (r :: rs) = r :: seenRegions rs :=
        List.takeWhile_cons_of_pos (by simpa using hvanish)
      have hmore : r.1 ≠ 0 ∨ r.2 ≠ 0 := by
        by_contra hzero
        rw [not_or, not_not, not_not] at hzero
        exact hvanish ⟨hzero.1, by rw [hzero.2]; decide⟩
      rw [if_pos hmore, List.takeWhile_cons_of_pos (by simpa using hround.mpr hvanish), hrest,
        hseen, List.map_cons]

/-! ## Pages -/

theorem mem_pagesBetween {start stop : Word} (hs : PageAligned start) (he : PageAligned stop) :
    p ∈ pagesBetween start stop ↔
      PageAligned p ∧ start.toNat ≤ p.toNat ∧ p.toNat + 0x1000 ≤ stop.toNat := by
  unfold PageAligned at hs he ⊢
  have hlt := stop.isLt
  unfold pagesBetween
  split_ifs with hless
  · have hless := BitVec.lt_def.mp hless
    rw [List.mem_map]
    constructor
    · rintro ⟨i, hi, rfl⟩
      rw [List.mem_range, BitVec.toNat_sub_of_le (BitVec.le_def.mpr hless.le)] at hi
      have hnum : (start + BitVec.ofNat 64 i * 0x1000).toNat = start.toNat + i * 0x1000 := by
        rw [BitVec.toNat_add, BitVec.toNat_mul, BitVec.toNat_ofNat,
          show (0x1000 : Word).toNat = 0x1000 from rfl]
        omega
      rw [hnum]
      omega
    · rintro ⟨hal, hge, hle⟩
      refine ⟨(p.toNat - start.toNat) / 0x1000, ?_, ?_⟩
      · rw [List.mem_range, BitVec.toNat_sub_of_le (BitVec.le_def.mpr hless.le)]
        omega
      · rw [← BitVec.toNat_inj, BitVec.toNat_add, BitVec.toNat_mul, BitVec.toNat_ofNat,
          show (0x1000 : Word).toNat = 0x1000 from rfl]
        omega
  · have hge := Nat.le_of_not_lt fun h => hless (BitVec.lt_def.mpr h)
    constructor
    · exact fun h => (nomatch h)
    · rintro ⟨-, hge', hle⟩
      omega

theorem nodup_pagesBetween (start stop : Word) : (pagesBetween start stop).Nodup := by
  unfold pagesBetween
  split_ifs
  · refine List.Nodup.map_on (fun i hi j hj heq => ?_) List.nodup_range
    have hlt := (stop - start).isLt
    rw [List.mem_range] at hi hj
    rw [← BitVec.toNat_inj, BitVec.toNat_add, BitVec.toNat_add, BitVec.toNat_mul, BitVec.toNat_mul,
      BitVec.toNat_ofNat, BitVec.toNat_ofNat, show (0x1000 : Word).toNat = 0x1000 from rfl] at heq
    omega
  · exact List.nodup_nil

/-- The bounds of the loop over a rounded region. -/
theorem roundRegion_bounds (r : Word × Word) :
    pagesBetween (roundRegion r).1 ((roundRegion r).1 + (roundRegion r).2) =
      pagesBetween ((r.1 + 0xfff) &&& pageMask) ((r.1 + r.2) &&& pageMask) := by
  have hcancel : ∀ a b : Word, a + (b - a) = b := fun a b => by bv_omega
  exact congrArg (pagesBetween _) (hcancel _ _)

/-- **Rounding**: what is left of a region are its whole pages. -/
theorem mem_roundRegion (h : r.1.toNat + r.2.toNat < 2 ^ 64) (hstart : r.1.toNat ≤ 2 ^ 64 - 0x1000) :
    p ∈ pagesBetween (roundRegion r).1 ((roundRegion r).1 + (roundRegion r).2) ↔ WholePage r p := by
  rw [roundRegion_bounds, mem_pagesBetween (pageAligned_and _) (pageAligned_and _),
    toNat_and_pageMask, toNat_and_pageMask, BitVec.toNat_add, BitVec.toNat_add,
    Nat.mod_eq_of_lt h, show (0xfff : Word).toNat = 0xfff from rfl, WholePage]
  unfold PageAligned
  have hmod : (r.1.toNat + 0xfff) % 2 ^ 64 = r.1.toNat + 0xfff := Nat.mod_eq_of_lt (by omega)
  rw [hmod]
  constructor
  · rintro ⟨hal, hge, hle⟩
    omega
  · rintro ⟨hal, hge, hle⟩
    omega

/-- A region that starts in the last page is rounded to nearly everything. -/
theorem mem_roundRegion_of_wrap (h : r.1.toNat + r.2.toNat < 2 ^ 64)
    (hstart : 2 ^ 64 - 0x1000 < r.1.toNat) :
    0x1000000000 ∈ pagesBetween (roundRegion r).1 ((roundRegion r).1 + (roundRegion r).2) := by
  rw [roundRegion_bounds, mem_pagesBetween (pageAligned_and _) (pageAligned_and _),
    toNat_and_pageMask, toNat_and_pageMask, BitVec.toNat_add, BitVec.toNat_add,
    Nat.mod_eq_of_lt h, show (0xfff : Word).toNat = 0xfff from rfl,
    show (0x1000000000 : Word).toNat = 0x1000000000 from rfl]
  have hlt := r.1.isLt
  refine ⟨by rw [PageAligned]; decide, ?_, ?_⟩
  · omega
  · omega

theorem keptPage_iff (h : PageAligned p) :
    (¬ (p ≥ kernelPbase ∧ p ≤ kernelEnd) ∧ ¬ p ≤ 0x20000) ↔ KeptPage kernelEnd p := by
  have hbase : kernelPbase.toNat = 0x1000000 := rfl
  have hlow : (0x20000 : Word).toNat = 0x20000 := rfl
  unfold PageAligned at h
  rw [KeptPage, OutsideKernel, ge_iff_le, BitVec.le_def, BitVec.le_def, BitVec.le_def, hbase, hlow]
  omega

/-- A page is released if a region that is seen has it as a whole. -/
theorem mem_releasedPages (hregions : Regions regions)
    (hstart : ∀ r ∈ seenRegions regions, r.1.toNat ≤ 2 ^ 64 - 0x1000) :
    p ∈ releasedPages kernelEnd (roundRegions (regions ++ (0, 0) :: rest)) ↔
      (∃ r ∈ seenRegions regions, WholePage r p) ∧ KeptPage kernelEnd p := by
  have hseen : ∀ r ∈ seenRegions regions, r ∈ regions := fun r hr => List.takeWhile_subset _ hr
  rw [releasedPages, seen_of_round hregions.bounded, List.mem_filter, List.mem_flatMap]
  simp only [List.mem_map, exists_exists_and_eq_and, decide_eq_true_eq]
  have hwhole : (∃ r ∈ seenRegions regions,
      p ∈ pagesBetween (roundRegion r).1 ((roundRegion r).1 + (roundRegion r).2)) ↔
      ∃ r ∈ seenRegions regions, WholePage r p :=
    exists_congr fun r => and_congr_right fun hr =>
      mem_roundRegion (hregions.bounded r (hseen r hr)) (hstart r hr)
  rw [hwhole]
  exact and_congr_right fun ⟨r, _, hp⟩ => keptPage_iff hp.1

theorem nodup_releasedPages (hregions : Regions regions)
    (hstart : ∀ r ∈ seenRegions regions, r.1.toNat ≤ 2 ^ 64 - 0x1000) :
    (releasedPages kernelEnd (roundRegions (regions ++ (0, 0) :: rest))).Nodup := by
  have hseen : ∀ r ∈ seenRegions regions, r ∈ regions := fun r hr => List.takeWhile_subset _ hr
  rw [releasedPages, seen_of_round hregions.bounded]
  refine List.Nodup.filter _ (List.nodup_flatMap.mpr ⟨fun _ _ => nodup_pagesBetween _ _, ?_⟩)
  rw [List.pairwise_map]
  refine (hregions.disjoint.sublist (List.takeWhile_sublist _)).imp_of_mem ?_
  intro r r' hr hr' hdisj p hp hp'
  have hp := (mem_roundRegion (hregions.bounded r (hseen r hr)) (hstart r hr)).mp hp
  have hp' := (mem_roundRegion (hregions.bounded r' (hseen r' hr')) (hstart r' hr')).mp hp'
  obtain ⟨-, hge, hle⟩ := hp
  obtain ⟨-, hge', hle'⟩ := hp'
  omega

/-! ## The list -/

/-- Pages released one after the other. -/
theorem FreePages.release (h : FreePages k L) (h₀ : ∀ p ∈ ps, p ≠ 0) (hL : ∀ p ∈ ps, p ∉ L)
    (hnd : ps.Nodup) : FreePages (ps.foldl kmemUnuse k) (ps.reverse ++ L) := by
  induction ps generalizing k L with
  | nil => exact h
  | cons p ps ih =>
    obtain ⟨hp, hnd⟩ := List.nodup_cons.mp hnd
    rw [List.foldl_cons, List.reverse_cons, List.append_assoc]
    refine ih (h.unuse (h₀ p (by simp)) (hL p (by simp))) (fun q hq => h₀ q (by simp [hq]))
      (fun q hq hmem => ?_) hnd
    rcases List.mem_cons.mp hmem with rfl | hmem
    · exact hp hq
    · exact hL q (by simp [hq]) hmem

theorem phys_release {a : Word} (h : a ∉ ps) : (ps.foldl kmemUnuse k).phys a = k.phys a := by
  induction ps generalizing k with
  | nil => rfl
  | cons p ps ih =>
    rw [List.mem_cons, not_or] at h
    obtain ⟨hne, hrest⟩ := h
    rw [List.foldl_cons, ih hrest]
    exact Function.update_of_ne hne _ _

/-! ## The head -/

/-- `kmem_paging_addr_create` for the last level, where two tables are missing. -/
theorem kmemPagingAddrCreate_two {p₁ p₂ : Word} (ht : tableAt k.phys root va 1 = some t)
    (habs : ¬ Present (k.phys (cell t va 1)))
    (hfirst : kmemPagingAddr (k.newTable (cell t va 1)).1.phys root va 2 = some (cell p₁ va 2))
    (hnone : kmemPagingAddr (k.newTable (cell t va 1)).1.phys root va 3 = none)
    (hsecond : kmemPagingAddr ((k.newTable (cell t va 1)).1.newTable (cell p₁ va 2)).1.phys root va 3 =
      some (cell p₂ va 3)) :
    kmemPagingAddrCreate k root va 3 =
      (((k.newTable (cell t va 1)).1.newTable (cell p₁ va 2)).1, cell p₂ va 3) := by
  have h₀ : kmemPagingAddr k.phys root va 0 = some (cell root va 0) := rfl
  have h₁ := kmemPagingAddr_of_table ht
  have h₂ := kmemPagingAddr_of_absent ht habs
  have h₃ : kmemPagingAddr k.phys root va 3 = none := by
    rw [kmemPagingAddr, h₂]
    rfl
  simp only [kmemPagingAddrCreate, pagingAddrCreate, h₃, List.range_succ, List.range_zero,
    List.nil_append, List.cons_append, List.foldl_cons, List.foldl_nil, createLevel, h₀, h₁, h₂,
    hfirst, hnone, hsecond, Option.getD_some]

/-- **The head moves**: three pages are taken, and no other is lost. -/
theorem swapHead_spec {page p₁ p₂ : Word} {rest : List Word} (hp4 : PageAligned p4)
    (hp3 : IsFrame p3) (hne : p4 ≠ p3) (hentry : k.phys (cell p4 kmemBaseAddr 0) = p3 ||| 3)
    (habs : k.phys (cell p3 kmemBaseAddr 1) = 0) (hfree : FreePages k (page :: p₁ :: p₂ :: rest))
    (hal : ∀ q ∈ page :: p₁ :: p₂ :: rest, PageAligned q)
    (hnd : (page :: p₁ :: p₂ :: rest).Nodup) (hp4L : p4 ∉ page :: p₁ :: p₂ :: rest)
    (hp3L : p3 ∉ page :: p₁ :: p₂ :: rest) :
    FreePages (swapHead p4 k) rest ∧ tableAt (swapHead p4 k).phys p4 kmemBaseAddr 3 = some p₂ ∧
    (swapHead p4 k).phys (cell p₂ kmemBaseAddr 3) = page ||| kmemMapDefault ∧
    (swapHead p4 k).phys page = (swapHead p4 k).lastUnused := by
  have hpage := hfree.getpage_eq
  have hfree₀ := hfree.getpage
  obtain ⟨hpageL, hnd₀⟩ := List.nodup_cons.mp hnd
  obtain ⟨hp₁L, hnd₁⟩ := List.nodup_cons.mp hnd₀
  obtain ⟨hp₂L, -⟩ := List.nodup_cons.mp hnd₁
  have hal₀ : ∀ q ∈ p₁ :: p₂ :: rest, PageAligned q := fun q hq => hal q (List.mem_cons_of_mem _ hq)
  have hal₁ : ∀ q ∈ p₂ :: rest, PageAligned q := fun q hq => hal₀ q (List.mem_cons_of_mem _ hq)
  have hpal := hal page (by simp)
  have hp₁al := hal₀ p₁ (by simp)
  have hp₂al := hal₁ p₂ (by simp)
  have hp3al := hp3.aligned
  generalize hk₀ : (kmemGetpage k).1 = k₀ at hfree₀
  have hphys : k₀.phys = k.phys := hk₀ ▸ rfl
  rw [← hphys] at hentry habs
  -- the walk ends at the second table
  have ht0 : tableAt k₀.phys p4 kmemBaseAddr 0 = some p4 := rfl
  have ht1 : tableAt k₀.phys p4 kmemBaseAddr 1 = some p3 := by
    refine tableAt_succ_iff.mpr ⟨p4, ht0, ?_⟩
    rw [hentry]
    refine ⟨?_, fun h => by omega, or_and_mask (pageAligned_iff.mp hp3al) (by decide)⟩
    rw [Present, hp3al.or_and (by decide)]
    decide
  have habs₁ : ¬ Present (k₀.phys (cell p3 kmemBaseAddr 1)) := by
    rw [habs]
    decide
  obtain ⟨hfree₁, hsame₁, ht2, habs₂, hfirst⟩ := newTable_tableAt hfree₀ hal₀ hnd₀ (by omega) ht1
    (by
      intro j hj t' ht'
      interval_cases j
      · obtain rfl := Option.some.inj ht'
        exact ⟨hp4, fun h => hp4L (List.mem_cons_of_mem _ h), fun _ => hne⟩
      · obtain rfl := Option.some.inj (ht1.symm.trans ht')
        exact ⟨hp3al, fun h => hp3L (List.mem_cons_of_mem _ h), fun h => absurd h (by omega)⟩)
  obtain ⟨hfree₂, hsame₂, ht3, habs₃, hsecond⟩ := newTable_tableAt hfree₁ hal₁ hnd₁ (by omega) ht2
    (by
      intro j hj t' ht'
      interval_cases j
      · obtain rfl := Option.some.inj ht'
        exact ⟨hp4, fun h => hp4L (by simp [List.mem_cons.mp h]), fun _ h => hp4L (by simp [h])⟩
      · obtain rfl := Option.some.inj (((hsame₁ 1 le_rfl).trans ht1).symm.trans ht')
        exact ⟨hp3al, fun h => hp3L (by simp [List.mem_cons.mp h]), fun _ h => hp3L (by simp [h])⟩
      · obtain rfl := Option.some.inj (ht2.symm.trans ht')
        exact ⟨hp₁al, hp₁L, fun h => absurd h (by omega)⟩)
  have hcreate := kmemPagingAddrCreate_two ht1 habs₁ hfirst (kmemPagingAddr_of_absent ht2 habs₂)
    hsecond
  generalize ((k₀.newTable (cell p3 kmemBaseAddr 1)).1.newTable (cell p₁ kmemBaseAddr 2)).1 = k₂
    at hfree₂ hsame₂ ht3 hcreate
  have hget : kmemGetpage k = (k₀, page) := Prod.ext hk₀ hpage
  obtain ⟨hlast, hend⟩ : (swapHead p4 k).lastUnused = k₂.lastUnused ∧
      (swapHead p4 k).phys = Function.update (Function.update k₂.phys
        (cell p₂ kmemBaseAddr 3) (page ||| kmemMapDefault)) page k₂.lastUnused := by
    rw [swapHead, hget]
    simp only [kmemMap, hcreate, kmemGetpage, kmemUnuse, phyWrite64, phyRead64,
      Function.update_eq_self, and_self]
  have hpage_mem : ∀ q, q ∈ p₁ :: p₂ :: rest → q ≠ page := fun q hq heq => hpageL (heq ▸ hq)
  have hcell_ne : cell p₂ kmemBaseAddr 3 ≠ page := fun heq =>
    hpage_mem p₂ (by simp) (cell_eq_page hp₂al hpal heq)
  -- the tables of the walk are as they were linked
  have htables : ∀ j < 3, ∀ t', tableAt k₂.phys p4 kmemBaseAddr j = some t' →
      PageAligned t' ∧ t' ≠ page ∧ t' ≠ p₂ := by
    intro j hj t' ht'
    rw [hsame₂ j (by omega)] at ht'
    interval_cases j
    · obtain rfl := Option.some.inj ht'
      exact ⟨hp4, fun h => hp4L (by simp [h]), fun h => hp4L (by simp [h])⟩
    · obtain rfl := Option.some.inj (((hsame₁ 1 le_rfl).trans ht1).symm.trans ht')
      exact ⟨hp3al, fun h => hp3L (by simp [h]), fun h => hp3L (by simp [h])⟩
    · obtain rfl := Option.some.inj (ht2.symm.trans ht')
      exact ⟨hp₁al, hpage_mem p₁ (by simp), fun h => hp₁L (by simp [h])⟩
  refine ⟨?_, ?_, ?_, ?_⟩
  · rw [FreePages, hlast, hend]
    refine (hfree₂.update_of_not_mem fun hmem => hp₂L ?_).update_of_not_mem fun hmem => ?_
    · have := cell_eq_page hp₂al (hal₁ _ (List.mem_cons_of_mem _ hmem)) rfl
      exact this ▸ hmem
    · exact hpageL (by simp [hmem])
  · rw [tableAt_congr fun j hj t' ht' => ?_]
    · exact ht3
    · obtain ⟨hal', hne', hne₂⟩ := htables j hj t' ht'
      rw [hend, Function.update_of_ne fun heq => hne' (cell_eq_page hal' hpal heq),
        Function.update_of_ne fun heq => hne₂ ((cell_inj hal' hp₂al).mp heq).1]
  · rw [hend, Function.update_of_ne hcell_ne, Function.update_self]
  · rw [hend, hlast, Function.update_self]

/-! ## The list is what it should be -/

theorem not_mem_of_image (h : ¬ OutsideKernel kernelEnd t)
    (hL : ∀ p ∈ L, OutsideKernel kernelEnd p) : t ∉ L := fun hmem => h (hL t hmem)

/-- What the loops leave, where they reach every page. -/
theorem unuseRegions_lists (hregions : Regions regions)
    (hstart : ∀ r ∈ seenRegions regions, r.1.toNat ≤ 2 ^ 64 - 0x1000) (hempty : k.lastUnused = 0)
    (hk' : unuseRegions kernelEnd (roundRegions (regions ++ (0, 0) :: rest)) k = some k') :
    ∃ L, FreePages k' L ∧ L.Nodup ∧
      (∀ p, p ∈ L ↔ (∃ r ∈ seenRegions regions, WholePage r p) ∧ KeptPage kernelEnd p) ∧
      (∀ p ∈ L, p.toNat < 2 ^ 36) ∧ ∀ a, a ∉ L → k'.phys a = k.phys a := by
  obtain ⟨hreach, rfl⟩ := unuseRegions_iff.mp hk'
  have hmem := fun p => @mem_releasedPages kernelEnd p regions rest hregions hstart
  have hnd := @nodup_releasedPages kernelEnd regions rest hregions hstart
  generalize releasedPages kernelEnd (roundRegions (regions ++ (0, 0) :: rest)) = ps
    at hreach hmem hnd
  have hnil : FreePages k [] := hempty
  have hfree := hnil.release (fun p hp h₀ => by
    obtain ⟨-, -, hlow⟩ := (hmem p).mp hp
    rw [h₀] at hlow
    exact absurd hlow (by decide)) (fun p _ => List.not_mem_nil) hnd
  rw [List.append_nil] at hfree
  refine ⟨ps.reverse, hfree, List.nodup_reverse.mpr hnd, fun p => ?_, fun p hp => ?_, fun a ha => ?_⟩
  · rw [List.mem_reverse, hmem]
  · exact BitVec.lt_def.mp (hreach p (List.mem_reverse.mp hp))
  · exact phys_release fun h => ha (List.mem_reverse.mpr h)

/-- A region in the last page is out of reach. -/
theorem start_of_unuse (hregions : Regions regions) (himage : kernelEnd.toNat < 2 ^ 31)
    (hk' : unuseRegions kernelEnd (roundRegions (regions ++ (0, 0) :: rest)) k = some k') :
    ∀ r ∈ seenRegions regions, r.1.toNat ≤ 2 ^ 64 - 0x1000 := by
  intro r hr
  by_contra hwrap
  have hbound := hregions.bounded r (List.takeWhile_subset _ hr)
  have hmem : (0x1000000000 : Word) ∈
      releasedPages kernelEnd (roundRegions (regions ++ (0, 0) :: rest)) := by
    rw [releasedPages, seen_of_round hregions.bounded, List.mem_filter, List.mem_flatMap]
    refine ⟨⟨_, List.mem_map_of_mem hr, mem_roundRegion_of_wrap hbound (by omega)⟩, ?_⟩
    rw [decide_eq_true_eq]
    refine ⟨fun h => ?_, by decide⟩
    have := BitVec.le_def.mp h.2
    rw [show (0x1000000000 : Word).toNat = 0x1000000000 from rfl] at this
    omega
  exact absurd ((unuseRegions_iff.mp hk').1 _ hmem) (by decide)

/-- **`kmem_init` puts the usable pages on the list** exactly for the maps that are plain. -/
theorem listsExactly_iff (hregions : Regions regions) (hempty : k.lastUnused = 0)
    (htables : BootTables kernelEnd p4 p3 k.phys) :
    ListsExactly kernelEnd p4 regions (regions ++ (0, 0) :: rest) k ↔
      PlainMap kernelEnd regions := by
  have himage := htables.image
  constructor
  · rintro ⟨k₁, L, hrun, hfree, hnd, hmem, k₂, page, p₁, p₂, tail, -, rfl, -⟩
    have hstart := start_of_unuse hregions himage hrun
    obtain ⟨L', hfree', -, hmem', hreach, -⟩ := unuseRegions_lists hregions hstart hempty hrun
    -- the list is the one that the loops made
    obtain rfl := hfree'.unique hfree
    have hboth := fun p => (hmem' p).symm.trans (hmem p)
    refine ⟨hstart, fun r hr p hp hkept => ?_, fun r hr p hp hkept => ?_, fun p hp => ?_, ?_⟩
    · exact hreach p ((hmem' p).mpr ⟨⟨r, hr, hp⟩, hkept⟩)
    · exact ((hboth p).mp ⟨⟨r, hr, hp⟩, hkept⟩).2.2
    · exact ((hboth p).mpr hp).1
    · have hset : {p | UsablePage kernelEnd regions p} =
          ((page :: p₁ :: p₂ :: tail).toFinset : Set Word) := by
        ext p
        rw [Set.mem_ofPred_eq, ← hmem p]
        simp
      rw [hset, Set.ncard_coe_finset, List.toFinset_card_of_nodup hnd]
      simp
  · intro hplain
    have hreach : ∀ p ∈ releasedPages kernelEnd (roundRegions (regions ++ (0, 0) :: rest)),
        p < 0x1000000000 := fun p hp => by
      obtain ⟨⟨r, hr, hwhole⟩, hkept⟩ := (mem_releasedPages hregions hplain.start).mp hp
      exact BitVec.lt_def.mpr (hplain.reach r hr p hwhole hkept)
    obtain ⟨k₁, hrun⟩ : ∃ k₁, unuseRegions kernelEnd (roundRegions (regions ++ (0, 0) :: rest)) k =
        some k₁ := ⟨_, unuseRegions_iff.mpr ⟨hreach, rfl⟩⟩
    obtain ⟨L, hfree, hnd, hmem, -, hsame⟩ := unuseRegions_lists hregions hplain.start hempty hrun
    have husable : ∀ p, p ∈ L ↔ UsablePage kernelEnd regions p := by
      intro p
      rw [hmem]
      constructor
      · rintro ⟨⟨r, hr, hwhole⟩, hkept⟩
        exact ⟨⟨r, List.takeWhile_subset _ hr, hwhole⟩, hkept.1, hplain.low r hr p hwhole hkept⟩
      · intro hp
        have hlow := hp.2.2
        exact ⟨hplain.seen p hp, hp.2.1, by omega⟩
    have hlength : 3 ≤ L.length := by
      have hset : {p | UsablePage kernelEnd regions p} = (L.toFinset : Set Word) := by
        ext p
        rw [Set.mem_ofPred_eq, ← husable p]
        simp
      have henough := hplain.enough
      rwa [hset, Set.ncard_coe_finset, List.toFinset_card_of_nodup hnd] at henough
    have hal : ∀ p ∈ L, PageAligned p := fun p hp => by
      obtain ⟨⟨r, -, hwhole⟩, -⟩ := (husable p).mp hp
      exact hwhole.1
    have hout : ∀ p ∈ L, OutsideKernel kernelEnd p := fun p hp => ((husable p).mp hp).2.1
    match L, hlength with
    | page :: p₁ :: p₂ :: tail, _ =>
      obtain ⟨hp4, hp4image⟩ := htables.root
      obtain ⟨hp3, hp3image⟩ := htables.high
      have hp4L := not_mem_of_image hp4image hout
      have hp3L := not_mem_of_image hp3image hout
      have hcell : ∀ t, PageAligned t → t ∉ page :: p₁ :: p₂ :: tail → ∀ d,
          k₁.phys (cell t kmemBaseAddr d) = k.phys (cell t kmemBaseAddr d) := fun t ht htL d =>
        hsame _ fun hmem => htL (by
          have := cell_eq_page ht (hal _ hmem) rfl
          exact this ▸ hmem)
      obtain ⟨hrest, htable, hleaf, hhead⟩ := swapHead_spec hp4.aligned hp3 htables.ne
        ((hcell p4 hp4.aligned hp4L 0).trans htables.entry)
        ((hcell p3 hp3.aligned hp3L 1).trans htables.absent) hfree hal hnd hp4L hp3L
      refine ⟨k₁, _, hrun, hfree, hnd, husable, swapHead p4 k₁, page, p₁, p₂, tail, ?_, rfl, hrest,
        htable, hleaf, hhead⟩
      rw [kmemInit, hrun]
      rfl

end

/-- **From the boot loader's memory map to the free list**: for every map that tiles its buffer and
    fits `bootstrap_map`, the list is what it should be exactly if the map is plain. -/
theorem boot_list_exact {m : Nat → Byte} {bootstrapMap ebx : BitVec 32} {fuel stop : Nat}
    {es : List MapEntry} {kernelEnd p4 p3 : Word} {k : Kmem}
    (hstop : (readDword m (ebx + 48)).toNat + (readDword m (ebx + 44)).toNat = stop)
    (hlt : stop < 2 ^ 32) (hmap : MapAt m (readDword m (ebx + 48)).toNat es stop)
    (hfuel : es.length < fuel) (hfits : (availableRegions es).length < 128)
    (hroom : bootstrapMap.toNat + 2048 < 2 ^ 32)
    (hoff : bootstrapMap.toNat + 2048 ≤ (readDword m (ebx + 48)).toNat ∨
      stop ≤ bootstrapMap.toNat)
    (hregions : Regions (availableRegions es)) (hempty : k.lastUnused = 0)
    (htables : BootTables kernelEnd p4 p3 k.phys) :
    ∃ m', headerExtract bootstrapMap ebx fuel m = some m' ∧
      (ListsExactly kernelEnd p4 (availableRegions es) (regionsFrom m' bootstrapMap.toNat 128) k ↔
        PlainMap kernelEnd (availableRegions es)) := by
  obtain ⟨m', hrun, hread⟩ := headerExtract_spec hstop hlt hmap hfuel (by omega) hroom hoff
  refine ⟨m', hrun, ?_⟩
  obtain ⟨rest, hbuffer⟩ := hread (127 - (availableRegions es).length)
  rw [show 128 = (availableRegions es).length + 1 + (127 - (availableRegions es).length) by omega,
    hbuffer]
  exact listsExactly_iff hregions hempty htables

/-- A memory with a map of one entry. -/
def oneEntry (base length : Word) : Nat → Byte :=
  store (store (fun _ => 0) 0x12c (toLe 4 24 ++ toLe 4 0x200)) 0x200
    (toLe 4 20 ++ (toLe 8 base.toNat ++ toLe 8 length.toNat) ++ toLe 4 1)

/-- A free list that is empty, and the boot tables at the start of the image. -/
def bootKmem : Kmem :=
  ⟨fun a => if a = cell 0x1001000 kmemBaseAddr 0 then 0x1002003 else 0, 0, []⟩

theorem bootKmem_tables : BootTables 0x1200000 0x1001000 0x1002000 bootKmem.phys where
  image := by decide
  root := ⟨by rw [IsFrame]; decide, by rw [OutsideKernel]; decide⟩
  high := ⟨by rw [IsFrame]; decide, by rw [OutsideKernel]; decide⟩
  ne := by decide
  entry := by decide
  absent := by decide

theorem regions_one (base length : Word) (h : base.toNat + length.toNat < 2 ^ 64) :
    Regions [(base, length)] :=
  ⟨by simpa using h, List.pairwise_singleton _ _⟩

theorem oneEntry_map (base length : Word) :
    MapAt (oneEntry base length) 0x200 [⟨base, length, 1⟩] 0x218 :=
  ⟨20, le_rfl, load_store_self, rfl⟩

/-- 4 MB from 2 MB on are all for use. -/
theorem plainMap_one : PlainMap 0x1200000 [(0x200000, 0x400000)] := by
  have hseen : ∀ r, r ∈ seenRegions [(0x200000, 0x400000)] ↔ r = (0x200000, 0x400000) := by
    intro r
    rw [show seenRegions [(0x200000, 0x400000)] = [(0x200000, 0x400000)] from by decide,
      List.mem_singleton]
  refine ⟨fun r hr => ?_, fun r hr p hp _ => ?_, fun r hr p hp _ => ?_, fun p hp => ?_, ?_⟩
  · cases (hseen r).mp hr
    decide
  · cases (hseen r).mp hr
    have hend : p.toNat + 0x1000 ≤ 0x200000 + 0x400000 := hp.2.2
    omega
  · cases (hseen r).mp hr
    exact hp.2.1
  · obtain ⟨⟨r, hr, hwhole⟩, -⟩ := hp
    exact ⟨r, (hseen r).mpr (List.mem_singleton.mp hr), hwhole⟩
  · have hpages : (({0x200000, 0x201000, 0x202000} : Finset Word) : Set Word) ⊆
        {p | UsablePage 0x1200000 [(0x200000, 0x400000)] p} := by
      intro p hp
      have hmem : p ∈ ({0x200000, 0x201000, 0x202000} : Finset Word) := hp
      have hin : PageAligned p ∧ 0x200000 ≤ p.toNat ∧ p.toNat ≤ 0x202000 := by
        fin_cases hmem <;> exact ⟨rfl, by decide, by decide⟩
      refine ⟨⟨_, List.mem_singleton_self _, hin.1, hin.2.1, ?_⟩, .inl ?_, hin.2.1⟩
      · change p.toNat + 0x1000 ≤ 0x200000 + 0x400000
        omega
      · change p.toNat + 0x1000 ≤ 0x1000000
        omega
    have : Finite Word := Finite.of_injective BitVec.toFin fun _ _ => BitVec.eq_of_toFin_eq
    have hcard := Set.ncard_le_ncard hpages (Set.toFinite _)
    rwa [Set.ncard_coe_finset] at hcard

theorem boot_list_exact_of_one : ∃ m',
    headerExtract 0x1000 0x100 2 (oneEntry 0x200000 0x400000) = some m' ∧
    ListsExactly 0x1200000 0x1001000 [(0x200000, 0x400000)] (regionsFrom m' 0x1000 128)
      bootKmem := by
  obtain ⟨m', hrun, hlists⟩ := @boot_list_exact (oneEntry 0x200000 0x400000) 0x1000 0x100 2 0x218
    [⟨0x200000, 0x400000, 1⟩] _ _ _ bootKmem (by decide) (by decide) (oneEntry_map _ _) (by decide)
    (by decide) (by decide) (by decide) (regions_one _ _ (by decide)) rfl bootKmem_tables
  exact ⟨m', hrun, hlists.mpr plainMap_one⟩

/-- **The second half of the first 2 MB** goes on the list. -/
theorem boot_list_has_low_pages : ¬ ∀ (m : Nat → Byte) (fuel stop : Nat) (es : List MapEntry)
    (kernelEnd p4 p3 : Word) (k : Kmem),
    (readDword m 0x130).toNat + (readDword m 0x12c).toNat = stop → stop < 2 ^ 32 →
    MapAt m (readDword m 0x130).toNat es stop → es.length < fuel →
    (availableRegions es).length < 128 → stop ≤ 0x1000 → Regions (availableRegions es) →
    k.lastUnused = 0 → BootTables kernelEnd p4 p3 k.phys →
    ∃ m', headerExtract 0x1000 0x100 fuel m = some m' ∧
      ListsExactly kernelEnd p4 (availableRegions es) (regionsFrom m' 0x1000 128) k := by
  intro hall
  obtain ⟨m', hrun, hlists⟩ := hall (oneEntry 0x100000 0x100000) 2 0x218
    [⟨0x100000, 0x100000, 1⟩] 0x1200000 0x1001000 0x1002000 bootKmem (by decide) (by decide)
    (oneEntry_map _ _) (by decide) (by decide) (by decide)
    (regions_one _ _ (by decide)) rfl bootKmem_tables
  obtain ⟨m'', hrun', hread⟩ := @headerExtract_spec (oneEntry 0x100000 0x100000) 2048 0x218
    [⟨0x100000, 0x100000, 1⟩] 0x1000 0x100 2 (by decide) (by decide) (oneEntry_map _ _)
    (by decide) (by decide) (by decide) (by decide)
  obtain rfl := Option.some.inj (hrun.symm.trans hrun')
  obtain ⟨rest, hbuffer⟩ := hread 126
  rw [show (0x1000 : Nat) = (0x1000 : BitVec 32).toNat from rfl] at hlists
  rw [show 128 = (availableRegions [⟨0x100000, 0x100000, 1⟩]).length + 1 + 126 from rfl, hbuffer]
    at hlists
  have hplain := (listsExactly_iff (regions_one 0x100000 0x100000 (by decide)) rfl
    bootKmem_tables).mp hlists
  have hlow := hplain.low (0x100000, 0x100000) (by decide) 0x100000
    ⟨by rw [PageAligned]; decide, by decide, by decide⟩ ⟨.inl (by decide), by decide⟩
  exact absurd hlow (by decide)

end Refk
