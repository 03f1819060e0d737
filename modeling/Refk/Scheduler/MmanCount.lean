import Refk.Scheduler.MmanExact
import Refk.Scheduler.MmanRefs

/-!
# Every operation counts

From the turns of the page loops to the operations: `mman_anonymous`, `mman_physical`,
`mman_mirror` and `mman_unmap` keep `Counted`. The three that map pages write the entries of
their range and so decide which of them are loose; what is lost on the way is nothing at all
if none of the pages was mapped before.
-/

namespace Refk

open Lib

/-- The entries at `loose` after those for the first `n` pages from `address` on were written. -/
def looseAfter (m : Phys) (root address : Word) (n : Nat) (b : Bool) (loose : Word → Bool) (c : Word) :
    Bool :=
  if ∃ j < n, kmemPagingAddr m root (nthPage address j) 3 = some c then b else loose c

/-- None of the first `n` pages from `address` on is mapped. -/
def Unmapped (m : Phys) (root address : Word) (n : Nat) : Prop :=
  ∀ j < n, ¬ Mapped m root (nthPage address j)

section
variable {s : Mman} {loose : Word → Bool} {R L : List Word} {slack : Word → Nat} {K : Set Word}
  {root address size : Word} {b : Bool}

/-- A range off the physical memory map does not wrap: it would meet every index. -/
theorem Owned.distinct {m : Phys} (hown : Owned m R root (pagesOf address size) 3) :
    ∀ i < size.toNat / 0x1000, ∀ j < size.toNat / 0x1000,
      SamePrefix 4 (nthPage address i) (nthPage address j) → i = j := by
  have hsize : size.toNat / 0x1000 ≤ 2 ^ 36 := by
    by_contra hbig
    -- the page of the range with the number `384 * 2 ^ 27`
    have hi : (384 * 2 ^ 27 + (2 ^ 36 - pageNumber address)) % 2 ^ 36 < size.toNat / 0x1000 := by
      omega
    refine hown.low _ (mem_pagesOf hi) ?_
    have hnum := pageNumber_nthPage address
      ((384 * 2 ^ 27 + (2 ^ 36 - pageNumber address)) % 2 ^ 36)
    have hlt : pageNumber address < 2 ^ 36 := Nat.mod_lt _ (by decide)
    generalize nthPage address _ = va at hnum ⊢
    have h384 : pageNumber va = 384 * 2 ^ 27 := by omega
    rw [← BitVec.toNat_inj, toNat_pagingIndex]
    unfold pageNumber at h384
    show va.toNat / 2 ^ 39 % 512 = 384
    omega
  intro i hi j hj hsame
  rw [samePrefix_four_iff, pageNumber_nthPage, pageNumber_nthPage] at hsame
  omega

/-- What a mapping loop has done after `n` pages. -/
structure Mapping (R : List Word) (root address size : Word) (K : Set Word) (L : List Word)
    (slack : Word → Nat) (loose : Word → Bool) (b : Bool) (s s' : Mman) (n : Nat) : Prop where
  taken : s.kmem.taken ≤ s'.kmem.taken
  counted : ∃ slack', Counted s' (looseAfter s'.phys root address n b loose) R slack' K
      (L.drop (s'.kmem.taken - s.kmem.taken)) ∧
    (Unmapped s.phys root address (size.toNat / 0x1000) → slack' = slack)
  owned : Owned s'.phys R root (pagesOf address size) 3
  walks : ∀ j < n, ∃ t, tableAt s'.phys root (nthPage address j) 3 = some t
  unmapped : Unmapped s.phys root address (size.toNat / 0x1000) →
    ∀ j < size.toNat / 0x1000, n ≤ j → ¬ Mapped s'.phys root (nthPage address j)
  kept : Unmapped s.phys root address (size.toNat / 0x1000) → Kept R s.phys s'.phys
  roots : SameRoots s s'
  handed : ∀ p ∈ s.kmem.handedOut, p ∈ s'.kmem.handedOut
  count_le : ∀ p, s.pageCount p ≤ s'.pageCount p

/-- **The mapping loops count.** -/
theorem mapping_loop (body : Mman → Word → Mman) (h : Counted s loose R slack K L)
    (hown : Owned s.phys R root (pagesOf address size) 3)
    (hmono : ∀ s off, s.kmem.taken ≤ (body s off).kmem.taken)
    (hturn : ∀ i s' L' slack' loose', i < size.toNat / 0x1000 →
      Mapping R root address size K L slack loose b s s' i → Counted s' loose' R slack' K L' →
      (body s' (BitVec.ofNat 64 i * 0x1000)).kmem.taken ≤ s'.kmem.taken + L'.length →
      Turn R root (pagesOf address size) K L' slack' loose' s' (body s' (BitVec.ofNat 64 i * 0x1000))
        (nthPage address i) b)
    (henough : (forPages size body s).kmem.taken ≤ s.kmem.taken + L.length) :
    Mapping R root address size K L slack loose b s (forPages size body s) (size.toNat / 0x1000) := by
  refine forPages_rule size body s (fun n s' => Mapping R root address size K L slack loose b s s' n)
    (fun s' => s'.kmem.taken ≤ s.kmem.taken + L.length) ?_ (fun s' off h => (hmono s' off).trans h)
    (fun i s' hi hM hgood => ?_) henough
  · refine ⟨le_rfl, ⟨slack, ?_, fun _ => rfl⟩, hown, fun j hj => absurd hj (by omega),
      fun hun j hj _ => hun j hj, fun _ => Kept.refl R _, SameRoots.refl s, fun _ hp => hp,
      fun _ => le_rfl⟩
    have hnone : looseAfter s.phys root address 0 b loose = loose := by
      funext c
      simp [looseAfter]
    simpa [hnone] using h
  · obtain ⟨slack', hcounted, hslack⟩ := hM.counted
    have hT := hturn i s' _ slack' _ hi hM hcounted (by
      have := hM.taken
      have := hmono s' (BitVec.ofNat 64 i * 0x1000)
      rw [List.length_drop]
      omega)
    have hva : nthPage address i ∈ pagesOf address size := mem_pagesOf hi
    obtain ⟨t, slack'', ht, hcounted', hslack'⟩ := hT.counted
    have hlow := hM.owned.low
    have hr := hM.owned.root_mem
    refine ⟨hM.taken.trans hT.taken, ⟨slack'', ?_, fun hun => ?_⟩, hT.owned, fun j hj => ?_,
      fun hun j hj hij hmap => ?_, fun hun => ?_, hM.roots.trans hT.roots,
      fun p hp => hT.handed p (hM.handed p hp), fun p => (hM.count_le p).trans (hT.count_le p)⟩
    · have hdrop : (L.drop (s'.kmem.taken - s.kmem.taken)).drop
          ((body s' (BitVec.ofNat 64 i * 0x1000)).kmem.taken - s'.kmem.taken) =
          L.drop ((body s' (BitVec.ofNat 64 i * 0x1000)).kmem.taken - s.kmem.taken) := by
        have := hM.taken
        have := hT.taken
        rw [List.drop_drop]
        congr 1
        omega
      rw [hdrop] at hcounted'
      convert hcounted' using 1
      -- the entries written so far are still where they were
      funext c
      have hsame : ∀ j < i, kmemPagingAddr (body s' (BitVec.ofNat 64 i * 0x1000)).phys root
          (nthPage address j) 3 = kmemPagingAddr s'.phys root (nthPage address j) 3 := by
        intro j hj
        obtain ⟨t', ht'⟩ := hM.walks j hj
        rw [kmemPagingAddr_of_table ht', kmemPagingAddr_of_table
          (hT.walks root hr _ (hlow _ (mem_pagesOf (by omega))) 3 t' ht')]
      have hlast := kmemPagingAddr_of_table ht
      by_cases hc : c = cell t (nthPage address i) 3
      · subst hc
        rw [Function.update_self, looseAfter, if_pos ⟨i, by omega, hlast⟩]
      · rw [Function.update_of_ne hc, looseAfter, looseAfter]
        refine if_congr ⟨?_, ?_⟩ rfl rfl
        · rintro ⟨j, hj, haddr⟩
          rcases Nat.lt_succ_iff_lt_or_eq.mp hj with hlt | rfl
          · exact ⟨j, hlt, hsame j hlt ▸ haddr⟩
          · rw [hlast, Option.some.injEq] at haddr
            exact absurd haddr.symm hc
        · rintro ⟨j, hj, haddr⟩
          exact ⟨j, by omega, (hsame j hj).trans haddr⟩
    · exact (hslack' (hM.unmapped hun i hi le_rfl)).trans (hslack hun)
    · rcases Nat.lt_succ_iff_lt_or_eq.mp hj with hlt | rfl
      · obtain ⟨t', ht'⟩ := hM.walks j hlt
        exact ⟨t', hT.walks root hr _ (hlow _ (mem_pagesOf (by omega))) 3 t' ht'⟩
      · exact ⟨t, ht⟩
    · refine hM.unmapped hun j hj (by omega) (hT.others _ (mem_pagesOf hj) (fun hpre => ?_) hmap)
      have := hown.distinct j hj i hi hpre
      omega
    · exact (hM.kept hun).trans (hT.kept (hM.unmapped hun i hi le_rfl))

/-! ## The operations -/

/-- **`mman_anonymous` counts.** -/
theorem mmanAnonymous_counts {id : Nat} (h : Counted s loose R slack K L)
    (hroot : s.rootAddress id = root) (h₀ : root ≠ 0) (hal : address &&& 0xfff = 0)
    (hsize : size &&& 0xfff = 0) (hown : Owned s.phys R root (pagesOf address size) 3)
    (henough : (mmanAnonymous s id address size).1.kmem.taken ≤ s.kmem.taken + L.length) :
    Mapping R root address size K L slack loose false s (mmanAnonymous s id address size).1
      (size.toNat / 0x1000) := by
  have hrun : mmanAnonymous s id address size =
      (forPages size (fun s off => anonymousPage root s (address + off)) s, 0) := by
    simp only [mmanAnonymous, hroot, h₀, hal, hsize, if_false, ne_eq, not_true]
  rw [hrun] at henough ⊢
  exact mapping_loop _ h hown (fun s off => anonymousPage_taken root s (address + off))
    (fun i s' L' slack' loose' hi hM hcounted hgood =>
      hcounted.anonymous hM.owned (mem_pagesOf hi) hgood) henough

/-- **`mman_physical` counts**: what it maps is loose. -/
theorem mmanPhysical_counts {id : Nat} {paddress : Word} (h : Counted s loose R slack K L)
    (hroot : s.rootAddress id = root) (h₀ : root ≠ 0) (hal : address &&& 0xfff = 0)
    (hpal : paddress &&& 0xfff = 0) (hsize : size &&& 0xfff = 0)
    (hown : Owned s.phys R root (pagesOf address size) 3)
    (henough : (mmanPhysical s id address paddress size).1.kmem.taken ≤ s.kmem.taken + L.length) :
    Mapping R root address size K L slack loose true s (mmanPhysical s id address paddress size).1
      (size.toNat / 0x1000) := by
  have hrun : mmanPhysical s id address paddress size =
      (forPages size (fun s off => physicalPage root s (address + off) (paddress + off)) s, 0) := by
    simp only [mmanPhysical, hroot, h₀, hal, hpal, hsize, if_false, ne_eq, not_true]
  rw [hrun] at henough ⊢
  exact mapping_loop _ h hown
    (fun s off => physicalPage_taken root s (address + off) (paddress + off))
    (fun i s' L' slack' loose' hi hM hcounted hgood =>
      hcounted.physical hM.owned (mem_pagesOf hi) hgood) henough

/-- In well-formed tables, off the physical memory map, `isMapped` says what is mapped. -/
theorem Layout.isMapped_iff {k : Kmem} {r va : Word} (h : Layout k loose R L) (hr : r ∈ R)
    (hva : pagingIndex va 0 ≠ 384) : isMapped k.phys r va = true ↔ Mapped k.phys r va :=
  Refk.isMapped_iff fun _ hd _ ht hpres => not_isPage_of_sane h.sane hr hva hd ht hpres

/-- **`mman_mirror` counts**, if the pages of the source are counted. -/
theorem mmanMirror_counts {id srootId : Nat} {sroot saddress : Word}
    (h : Counted s loose R slack K L) (hroot : s.rootAddress id = root)
    (hsroot : s.rootAddress srootId = sroot) (hsmem : sroot ∈ R)
    (hown : Owned s.phys R root (pagesOf address size) 3)
    (hslow : ∀ va ∈ pagesOf saddress size, pagingIndex va 0 ≠ 384)
    (hsource : ∀ va ∈ pagesOf saddress size, ∀ t, tableAt s.phys sroot va 3 = some t →
      Present (s.phys (cell t va 3)) → s.pageCount (frameOf (s.phys (cell t va 3))) ≠ 0)
    (hret : (mmanMirror s id address srootId saddress size).2 = 0)
    (henough : (mmanMirror s id address srootId saddress size).1.kmem.taken ≤
      s.kmem.taken + L.length) :
    Mapping R root address size K L slack loose false s
      (mmanMirror s id address srootId saddress size).1 (size.toNat / 0x1000) ∧
    Unmapped s.phys root address (size.toNat / 0x1000) := by
  obtain ⟨hany, hall, hrun⟩ := mmanMirror_success hret
  rw [hrun, hroot, hsroot] at henough ⊢
  have hun : Unmapped s.phys root address (size.toNat / 0x1000) := fun j hj hmap =>
    isMapped_of_checkAny hroot hany j hj
      ((h.layout.isMapped_iff hown.root_mem (hown.low _ (mem_pagesOf hj))).mpr hmap)
  refine ⟨?_, hun⟩
  refine mapping_loop _ h hown
    (fun s off => mirrorPage_taken root sroot s (address + off) (saddress + off))
    (fun i s' L' slack' loose' hi hM hcounted hgood => ?_) henough
  have hsva : nthPage saddress i ∈ pagesOf saddress size := mem_pagesOf hi
  obtain ⟨t, ht, hpres⟩ := (h.layout.isMapped_iff hsmem (hslow _ hsva)).mp
    (isMapped_of_checkAll hsroot hall i hi)
  obtain ⟨ht', hread⟩ := (hM.kept hun).mapped h.layout.sane hsmem (hslow _ hsva) ht hpres
  refine hcounted.mirror hM.owned (mem_pagesOf hi) hsmem (hslow _ hsva) ht' ?_ ?_ hgood
  · exact (congrArg Present hread).mpr hpres
  · have hcount := hsource _ hsva t ht hpres
    have hle := hM.count_le (frameOf (s.phys (cell t (nthPage saddress i) 3)))
    show s'.pageCount (frameOf (s'.phys (cell t (nthPage saddress i) 3))) ≠ 0
    rw [hread]
    intro hzero
    exact hcount (Nat.eq_zero_of_le_zero (hle.trans hzero.le))

/-- **`mman_unmap` counts**, if what is loose in the range is not counted. -/
theorem mmanUnmap_counts {id : Nat} (h : Counted s loose R slack K L)
    (hroot : s.rootAddress id = root) (h₀ : root ≠ 0) (hal : address &&& 0xfff = 0)
    (hsize : size &&& 0xfff = 0) (hown : Owned s.phys R root (pagesOf address size) 3)
    (hloose : ∀ va ∈ pagesOf address size, ∀ t, tableAt s.phys root va 3 = some t →
      Present (s.phys (cell t va 3)) → loose (cell t va 3) →
      s.pageCount (frameOf (s.phys (cell t va 3))) = 0) :
    Dropped R root (pagesOf address size) K L slack loose s (mmanUnmap s id address size).1 := by
  have hrun : mmanUnmap s id address size =
      (forPages size (fun s off => onEntry root unmapEntry s (address + off)) s, 0) := by
    simp only [mmanUnmap, onEntries, hroot, h₀, hal, hsize, if_false, ne_eq, not_true]
  rw [hrun]
  refine forPages_rule size (fun s off => onEntry root unmapEntry s (address + off)) s
    (fun _ s' => Dropped R root (pagesOf address size) K L slack loose s s')
    (fun _ => True) (Dropped.refl h hown) (fun _ _ _ => trivial) (fun i s' hi hD _ => ?_) trivial
  obtain ⟨L', hcounted, hsub, hgone⟩ := hD.counted
  have hva : nthPage address i ∈ pagesOf address size := mem_pagesOf hi
  have hturn := hcounted.unmap hD.owned hva fun t ht hpres hl => by
    obtain ⟨ht', hread⟩ := hD.entry _ hva t ht
    have hpres₀ := hpres
    rw [hread hpres] at hpres₀ ⊢
    exact Nat.eq_zero_of_le_zero ((hD.count_le _).trans (hloose _ hva t ht' hpres₀ hl).le)
  obtain ⟨L'', hcounted', hsub', hgone'⟩ := hturn.counted
  refine ⟨⟨L'', hcounted', List.Subset.trans hsub hsub', fun p hp hp' => ?_⟩, hturn.owned, fun va' hva' t ht => ?_,
    fun q => (hturn.count_le q).trans (hD.count_le q), hD.roots.trans hturn.roots,
    hturn.handed.trans hD.handed⟩
  · by_cases hmid : s'.pageCount p = 0
    · exact hsub' (hgone p hp hmid)
    · exact hgone' p hmid hp'
  obtain ⟨ht', hread'⟩ := hturn.entry va' hva' t ht
  obtain ⟨ht'', hread''⟩ := hD.entry va' hva' t ht'
  refine ⟨ht'', fun hpres => ?_⟩
  have heq := hread' hpres
  exact heq.trans (hread'' (heq ▸ hpres))

end

end Refk
