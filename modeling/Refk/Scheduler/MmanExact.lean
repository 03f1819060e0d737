import Refk.Scheduler.MmanMapping

/-!
# Mapping operations change exactly what they say

`mman_anonymous`, `mman_physical`, `mman_mirror` and `mman_unmap` as maps from translations to
translations: `mman_maps_exactly` says what each page of the range translates to afterwards,
and that everything else translates as before, in every root.

What is assumed of the tables is `Target`, what is assumed of the free list is `Free`, and
"enough pages" is that the call takes no more than the list has; four for every page of the
range always do (`mmanAnonymous_taken_le`).
-/

namespace Refk

open Lib

/-! ## The operations -/

/-- The addresses of the pages of a range. -/
def pagesOf (address size : Word) : Set Word :=
  {va | ∃ i < size.toNat / 0x1000, va = nthPage address i}

/-- A known root, a page-aligned range that does not wrap around the 48-bit address space, and
    tables that the operation can work on. -/
structure Target (s : Mman) (R : Set Word) (id : Nat) (root address size : Word) : Prop where
  known : s.rootAddress id = root
  root_ne_zero : root ≠ 0
  address_aligned : address &&& 0xfff = 0
  size_aligned : size &&& 0xfff = 0
  no_wrap : pageNumber address + size.toNat / 0x1000 ≤ 2 ^ 36
  tables : Tables s.phys R root (pagesOf address size)

section
variable {s : Mman} {R : Set Word} {id : Nat} {root address size : Word} {L : List Word}

theorem Target.distinct (h : Target s R id root address size) :
    ∀ i < size.toNat / 0x1000, ∀ j < size.toNat / 0x1000,
      SamePrefix 4 (nthPage address i) (nthPage address j) → i = j := by
  intro i hi j hj hsame
  rw [samePrefix_four_iff, pageNumber_nthPage, pageNumber_nthPage] at hsame
  have := h.no_wrap
  omega

theorem mem_pagesOf {i : Nat} (hi : i < size.toNat / 0x1000) :
    nthPage address i ∈ pagesOf address size := ⟨i, hi, rfl⟩

theorem mmanAnonymous_maps (h : Target s R id root address size) (hfree : Free s.kmem R L)
    (henough : (mmanAnonymous s id address size).1.kmem.taken ≤ s.kmem.taken + L.length) :
    (mmanAnonymous s id address size).2 = 0 ∧
    SameOutside R root address (size.toNat / 0x1000) s.phys
      (mmanAnonymous s id address size).1.phys ∧
    ∃ frame : Nat → Word, (∀ j < size.toNat / 0x1000, frame j ∈ L ∧
        TranslatesTo (mmanAnonymous s id address size).1.phys root (nthPage address j) (frame j)
          kmemMapData) ∧
      ∀ i < size.toNat / 0x1000, ∀ j < size.toNat / 0x1000, frame i = frame j → i = j := by
  have hrun : mmanAnonymous s id address size =
      (forPages size (fun s off => anonymousPage root s (address + off)) s, 0) := by
    simp only [mmanAnonymous, h.known, h.root_ne_zero, h.address_aligned, h.size_aligned,
      if_false, ne_eq, not_true]
  rw [hrun] at henough ⊢
  obtain ⟨e, pos, hdone, hsame⟩ := map_loop
    (fun s off => anonymousPage root s (address + off))
    (fun _ a b entry => ∃ f, f ∈ L.drop a ∧ f ∉ L.drop b ∧ entry = f ||| kmemMapData)
    h.tables hfree h.distinct
    (fun s off => anonymousPage_taken root s (address + off))
    (by
      intro i s' hi htab' hfree' hle _ _ hgood
      obtain ⟨f, hf, hnot, hP⟩ := anonymousPage_spec htab' hfree' (mem_pagesOf hi) (by
        rw [List.length_drop]
        have hgood : (anonymousPage root s' (nthPage address i)).kmem.taken ≤ _ := hgood
        have hmono := anonymousPage_taken root s' (nthPage address i)
        omega)
      refine ⟨_, ⟨f, hf, ?_, rfl⟩, hP⟩
      have hle' := hP.taken
      rw [List.drop_drop] at hnot
      rwa [show (anonymousPage root s' (address + BitVec.ofNat 64 i * 0x1000)).kmem.taken -
          s.kmem.taken = s'.kmem.taken - s.kmem.taken +
            ((anonymousPage root s' (nthPage address i)).kmem.taken - s'.kmem.taken) by
        show (anonymousPage root s' (nthPage address i)).kmem.taken - s.kmem.taken = _
        omega])
    henough
  choose! frame hframe using fun j hj => (hdone j hj).2.1
  refine ⟨rfl, hsame, frame, fun j hj => ?_, ?_⟩
  · obtain ⟨hmem, -, hentry⟩ := hframe j hj
    have hin : frame j ∈ L := List.mem_of_mem_drop hmem
    have hdata := hfree.frames _ hin
    exact ⟨hin, e j, (hdone j hj).1, hentry ▸ data_frame hdata, hentry ▸ data_flags hdata⟩
  · -- a frame is gone from the list after its page, and later pages take from what is left
    have hmono : ∀ i j, i ≤ j → j ≤ size.toNat / 0x1000 → pos i ≤ pos j := by
      intro i j hij
      induction j, hij using Nat.le_induction with
      | base => exact fun _ => le_rfl
      | succ j _ ih => exact fun hj => (ih (by omega)).trans (hdone j (by omega)).2.2
    have hlt : ∀ i j, i < j → j < size.toNat / 0x1000 → frame i ≠ frame j := by
      intro i j hij hj heq
      have hpos := hmono (i + 1) j hij hj.le
      refine (hframe i (by omega)).2.1 (heq ▸ ?_)
      exact List.mem_of_mem_drop (i := pos j - pos (i + 1))
        (by rw [List.drop_drop, show pos (i + 1) + (pos j - pos (i + 1)) = pos j by omega]
            exact (hframe j hj).1)
    intro i hi j hj heq
    rcases Nat.lt_trichotomy i j with h | h | h
    · exact absurd heq (hlt i j h hj)
    · exact h
    · exact absurd heq.symm (hlt j i h hi)

/-- Pages of a range of frames below `2^52` are frames, and do not wrap. -/
theorem isFrame_nthPage {paddress : Word} {i : Nat} (hal : paddress &&& 0xfff = 0)
    (hlt : paddress.toNat + size.toNat ≤ 2 ^ 52) (hi : i < size.toNat / 0x1000) :
    IsFrame (nthPage paddress i) := by
  have hal' := and_fff_eq_zero.mp hal
  have hnat : (nthPage paddress i).toNat = paddress.toNat + i * 0x1000 := by
    rw [nthPage, BitVec.toNat_add, BitVec.toNat_mul, BitVec.toNat_ofNat,
      show (0x1000 : Word).toNat = 0x1000 from rfl]
    omega
  unfold PageAligned at hal'
  exact isFrame_of_lt (by unfold PageAligned; omega) (by omega)

theorem mmanPhysical_maps {paddress : Word} (h : Target s R id root address size)
    (hfree : Free s.kmem R L) (hal : paddress &&& 0xfff = 0)
    (hlt : paddress.toNat + size.toNat ≤ 2 ^ 52)
    (henough : (mmanPhysical s id address paddress size).1.kmem.taken ≤
      s.kmem.taken + L.length) :
    (mmanPhysical s id address paddress size).2 = 0 ∧
    SameOutside R root address (size.toNat / 0x1000) s.phys
      (mmanPhysical s id address paddress size).1.phys ∧
    ∀ j < size.toNat / 0x1000, TranslatesTo (mmanPhysical s id address paddress size).1.phys root
      (nthPage address j) (nthPage paddress j) kmemMapData := by
  have hrun : mmanPhysical s id address paddress size =
      (forPages size (fun s off => physicalPage root s (address + off) (paddress + off)) s, 0) := by
    simp only [mmanPhysical, h.known, h.root_ne_zero, h.address_aligned, h.size_aligned, hal,
      if_false, ne_eq, not_true]
  rw [hrun] at henough ⊢
  obtain ⟨e, pos, hdone, hsame⟩ := map_loop
    (fun s off => physicalPage root s (address + off) (paddress + off))
    (fun i _ _ entry => entry = nthPage paddress i ||| kmemMapData) h.tables hfree h.distinct
    (fun s off => physicalPage_taken root s (address + off) (paddress + off))
    (by
      intro i s' hi htab' hfree' hle _ _ hgood
      refine ⟨_, rfl, physicalPage_spec htab' hfree' (mem_pagesOf hi)
        (isFrame_nthPage hal hlt hi) ?_⟩
      rw [List.length_drop]
      have hgood : (physicalPage root s' (nthPage address i) (nthPage paddress i)).kmem.taken ≤ _ :=
        hgood
      have hmono := physicalPage_taken root s' (nthPage address i) (nthPage paddress i)
      omega)
    henough
  refine ⟨rfl, hsame, fun j hj => ?_⟩
  obtain ⟨hmap, hentry, -⟩ := hdone j hj
  have hdata := isFrame_nthPage hal hlt hj
  exact ⟨e j, hmap, hentry ▸ data_frame hdata, hentry ▸ data_flags hdata⟩

/-- `isMapped` is the hardware's answer on a walk that meets no large page. -/
theorem isMapped_iff {m : Phys} {r va : Word} (hsmall : ∀ d < 3, ∀ t, tableAt m r va d = some t →
    Present (m (cell t va d)) → ¬ IsPage d (m (cell t va d))) :
    isMapped m r va = true ↔
      ∃ t, tableAt m r va 3 = some t ∧ Present (m (cell t va 3)) := by
  unfold isMapped
  rw [kmemPagingAddr_eq hsmall]
  cases tableAt m r va 3 with
  | none => simp
  | some t => simp [Present]

theorem isMapped_of_checkAny (hknown : s.rootAddress id = root)
    (hret : mmanCheckAnyMapped s id address size = 0) :
    ∀ j < size.toNat / 0x1000, ¬ isMapped s.phys root (nthPage address j) = true := by
  intro j hj hmapped
  have hany : ((pageOffsets size).any fun off => isMapped s.phys root (address + off)) = true :=
    List.any_eq_true.mpr ⟨_, List.mem_map.mpr ⟨j, List.mem_range.mpr hj, rfl⟩, hmapped⟩
  simp only [mmanCheckAnyMapped, hknown, hany, if_true] at hret
  split_ifs at hret
  omega

theorem isMapped_of_checkAll (hknown : s.rootAddress id = root)
    (hret : mmanCheckAllMapped s id address size = 1) :
    ∀ j < size.toNat / 0x1000, isMapped s.phys root (nthPage address j) = true := by
  intro j hj
  have hall : ((pageOffsets size).all fun off => isMapped s.phys root (address + off)) = true := by
    by_contra hnot
    simp only [mmanCheckAllMapped, hknown, if_neg hnot] at hret
    split_ifs at hret
    omega
  exact List.all_eq_true.mp hall _ (List.mem_map.mpr ⟨j, List.mem_range.mpr hj, rfl⟩)

/-- A successful `mman_mirror` has found nothing mapped in the range and everything in the
    source. -/
theorem mmanMirror_success {srootId : Nat} {saddress : Word}
    (hret : (mmanMirror s id address srootId saddress size).2 = 0) :
    mmanCheckAnyMapped s id address size = 0 ∧ mmanCheckAllMapped s srootId saddress size = 1 ∧
    mmanMirror s id address srootId saddress size =
      (forPages size (fun s' off => mirrorPage (s.rootAddress id) (s.rootAddress srootId) s'
        (address + off) (saddress + off)) s, 0) := by
  unfold mmanMirror at hret ⊢
  by_cases h₀ : s.rootAddress id = 0
  · simp only [if_pos h₀] at hret
    exact absurd hret (by decide)
  · by_cases h₁ : s.rootAddress srootId = 0
    · simp only [if_neg h₀, if_pos h₁] at hret
      exact absurd hret (by decide)
    · by_cases h₂ : mmanCheckAnyMapped s id address size = 0
      · by_cases h₃ : mmanCheckAllMapped s srootId saddress size = 1
        · simp only [if_neg h₀, if_neg h₁, h₂, h₃, ne_eq, not_true, if_false]
          exact ⟨trivial, trivial, trivial⟩
        · simp only [if_neg h₀, if_neg h₁, h₂, ne_eq, not_true, if_false, if_pos h₃] at hret
          exact absurd hret (by decide)
      · simp only [if_neg h₀, if_neg h₁, ne_eq, if_pos h₂] at hret
        exact absurd hret (by decide)

/-- `mman_mirror` succeeds for known roots only. -/
theorem mmanMirror_known {srootId : Nat} {saddress : Word}
    (h : (mmanMirror s id address srootId saddress size).2 = 0) :
    s.rootAddress id ≠ 0 ∧ s.rootAddress srootId ≠ 0 := by
  constructor
  · intro h₀
    simp only [mmanMirror, h₀, if_true] at h
    exact absurd h (show ¬ (-1 : Int) = 0 by decide)
  · intro h₀
    simp only [mmanMirror, h₀, if_true] at h
    split_ifs at h <;> exact absurd h (show ¬ (-1 : Int) = 0 by decide)

theorem mmanMirror_maps {srootId : Nat} {sroot saddress : Word}
    (h : Target s R id root address size) (hfree : Free s.kmem R L)
    (hsknown : s.rootAddress srootId = sroot) (hsroot : sroot ∈ R)
    (hsmall : ∀ va ∈ pagesOf saddress size, ∀ d < 3, ∀ t, tableAt s.phys sroot va d = some t →
      Present (s.phys (cell t va d)) → ¬ IsPage d (s.phys (cell t va d)))
    (hret : (mmanMirror s id address srootId saddress size).2 = 0)
    (henough : (mmanMirror s id address srootId saddress size).1.kmem.taken ≤
      s.kmem.taken + L.length) :
    SameOutside R root address (size.toNat / 0x1000) s.phys
      (mmanMirror s id address srootId saddress size).1.phys ∧
    ∀ j < size.toNat / 0x1000, ∃ entry, mapping s.phys sroot (nthPage saddress j) = some entry ∧
      mapping (mmanMirror s id address srootId saddress size).1.phys root (nthPage address j) =
        some entry := by
  obtain ⟨hany, hall, hrun⟩ := mmanMirror_success hret
  rw [hrun, h.known, hsknown] at henough ⊢
  have hnone := isMapped_of_checkAny h.known hany
  have hsource : ∀ j < size.toNat / 0x1000, ∃ t,
      tableAt s.phys sroot (nthPage saddress j) 3 = some t ∧
      Present (s.phys (cell t (nthPage saddress j) 3)) := fun j hj =>
    (isMapped_iff (hsmall _ (mem_pagesOf hj))).mp (isMapped_of_checkAll hsknown hall j hj)
  obtain ⟨e, pos, hdone, hsame⟩ := map_loop
    (fun s off => mirrorPage root sroot s (address + off) (saddress + off))
    (fun i _ _ entry => mapping s.phys sroot (nthPage saddress i) = some entry) h.tables hfree
    h.distinct
    (fun s off => mirrorPage_taken root sroot s (address + off) (saddress + off))
    (by
      intro i s' hi htab' hfree' hle hsame hgrown hgood
      obtain ⟨t, ht, hpres⟩ := hsource i hi
      have hmap := mapping_of_table ht hpres
      -- the source page is none of the pages mapped so far: those were not mapped before
      have hsame' : translate s'.phys sroot (nthPage saddress i) =
          translate s.phys sroot (nthPage saddress i) := by
        refine hsame sroot hsroot _ fun hrr j hj hpre => hnone j (by omega) ?_
        rw [isMapped_iff (h.tables.small _ (mem_pagesOf (by omega))), ← hrr]
        refine ⟨t, ?_, ?_⟩
        · rw [← tableAt_samePrefix (samePrefix_succ.mp hpre).1, ht]
        · rwa [show cell t (nthPage address j) 3 = cell t (nthPage saddress i) 3 by
            rw [cell, cell, (samePrefix_succ.mp hpre).2]]
      have hmap' : mapping s'.phys sroot (nthPage saddress i) =
          some (s.phys (cell t (nthPage saddress i) 3)) := by
        rw [mapping, hsame', ← mapping, hmap]
      refine ⟨_, hmap, mirrorPage_spec htab' hfree' (mem_pagesOf hi) hsroot
        (hgrown sroot hsroot _ 3 t ht) hmap' ?_⟩
      rw [List.length_drop]
      have hgood : (mirrorPage root sroot s' (nthPage address i)
        (nthPage saddress i)).kmem.taken ≤ _ := hgood
      have hmono := mirrorPage_taken root sroot s' (nthPage address i) (nthPage saddress i)
      omega)
    henough
  exact ⟨hsame, fun j hj => ⟨e j, (hdone j hj).2.1, (hdone j hj).1⟩⟩

theorem mmanUnmap_unmaps (h : Target s R id root address size)
    (hdata : ∀ va ∈ pagesOf address size, ∀ entry, mapping s.phys root va = some entry →
      ∀ r ∈ R, ∀ va' d, tableAt s.phys r va' d ≠ some (entry &&& kmemFrameMask)) :
    (mmanUnmap s id address size).2 = 0 ∧
    SameOutside R root address (size.toNat / 0x1000) s.phys (mmanUnmap s id address size).1.phys ∧
    ∀ j < size.toNat / 0x1000,
      translate (mmanUnmap s id address size).1.phys root (nthPage address j) = none := by
  have hrun : mmanUnmap s id address size =
      (forPages size (fun s off => onEntry root unmapEntry s (address + off)) s, 0) := by
    simp only [mmanUnmap, onEntries, h.known, h.root_ne_zero, h.address_aligned, h.size_aligned,
      if_false, ne_eq, not_true]
  rw [hrun]
  obtain ⟨-, -, hsame, hnone⟩ := forPages_rule size
    (fun s off => onEntry root unmapEntry s (address + off)) s
    (fun i s' => Tables s'.phys R root (pagesOf address size) ∧
      (∀ r ∈ R, ∀ va d, tableAt s'.phys r va d = tableAt s.phys r va d) ∧
      SameOutside R root address i s.phys s'.phys ∧
      ∀ j < i, translate s'.phys root (nthPage address j) = none)
    (fun _ => True)
    ⟨h.tables, fun _ _ _ _ => rfl, fun _ _ _ _ => rfl, fun j hj => absurd hj (by omega)⟩
    (fun _ _ _ => trivial)
    (by
      rintro i s' hi ⟨htab', htables, hsame, hnone⟩ -
      have hmem : nthPage address i ∈ pagesOf address size := mem_pagesOf hi
      have hpage : translate s'.phys root (nthPage address i) =
          translate s.phys root (nthPage address i) :=
        hsame root htab'.root_mem _ fun _ j hj hpre =>
          absurd (h.distinct i hi j (by omega) hpre) (by omega)
      obtain ⟨htab'', htables', hnone', hothers⟩ := unmapPage_spec htab' hmem
        (fun entry hentry r hr va' d => by
          rw [htables r hr]
          refine hdata _ hmem entry ?_ r hr va' d
          rw [mapping, ← hpage, ← mapping, hentry])
      refine ⟨htab'', fun r hr va d => (htables' r hr va d).trans (htables r hr va d), ?_, ?_⟩
      · intro r hr va hnot
        refine (hothers r hr va fun hh => hnot hh.1 i (by omega) hh.2).trans ?_
        exact hsame r hr va fun hrr j hj => hnot hrr j (by omega)
      · intro j hj
        rcases Nat.lt_succ_iff_lt_or_eq.mp hj with hlt | rfl
        · refine (hothers root htab'.root_mem _ fun hh => ?_).trans (hnone j hlt)
          exact absurd (h.distinct j (by omega) i hi hh.2) (by omega)
        · exact hnone')
    trivial
  exact ⟨rfl, hsame, hnone⟩

/-- **The mapping operations change exactly what they say in their root.** -/
theorem mman_maps_exactly (hfree : Free s.kmem R L) (h : Target s R id root address size) :
    -- `mman_anonymous`: every page gets a frame of its own from the free list
    ((mmanAnonymous s id address size).1.kmem.taken ≤ s.kmem.taken + L.length →
      (mmanAnonymous s id address size).2 = 0 ∧
      SameOutside R root address (size.toNat / 0x1000) s.phys
        (mmanAnonymous s id address size).1.phys ∧
      ∃ frame : Nat → Word, (∀ j < size.toNat / 0x1000, frame j ∈ L ∧
          TranslatesTo (mmanAnonymous s id address size).1.phys root (nthPage address j) (frame j)
            kmemMapData) ∧
        ∀ i < size.toNat / 0x1000, ∀ j < size.toNat / 0x1000, frame i = frame j → i = j) ∧
    -- `mman_physical`: page `j` gets the frame at `paddress + j * 0x1000`
    (∀ paddress : Word, paddress &&& 0xfff = 0 → paddress.toNat + size.toNat ≤ 2 ^ 52 →
      (mmanPhysical s id address paddress size).1.kmem.taken ≤ s.kmem.taken + L.length →
      (mmanPhysical s id address paddress size).2 = 0 ∧
      SameOutside R root address (size.toNat / 0x1000) s.phys
        (mmanPhysical s id address paddress size).1.phys ∧
      ∀ j < size.toNat / 0x1000,
        TranslatesTo (mmanPhysical s id address paddress size).1.phys root (nthPage address j)
          (nthPage paddress j) kmemMapData) ∧
    -- `mman_mirror`: page `j` gets the entry of page `j` of the source
    (∀ (srootId : Nat) (sroot saddress : Word), s.rootAddress srootId = sroot → sroot ∈ R →
      (∀ va ∈ pagesOf saddress size, ∀ d < 3, ∀ t, tableAt s.phys sroot va d = some t →
        Present (s.phys (cell t va d)) → ¬ IsPage d (s.phys (cell t va d))) →
      (mmanMirror s id address srootId saddress size).2 = 0 →
      (mmanMirror s id address srootId saddress size).1.kmem.taken ≤ s.kmem.taken + L.length →
      SameOutside R root address (size.toNat / 0x1000) s.phys
        (mmanMirror s id address srootId saddress size).1.phys ∧
      ∀ j < size.toNat / 0x1000, ∃ entry,
        mapping s.phys sroot (nthPage saddress j) = some entry ∧
        mapping (mmanMirror s id address srootId saddress size).1.phys root (nthPage address j) =
          some entry) ∧
    -- `mman_unmap`: nothing is left in the range
    ((∀ va ∈ pagesOf address size, ∀ entry, mapping s.phys root va = some entry →
        ∀ r ∈ R, ∀ va' d, tableAt s.phys r va' d ≠ some (entry &&& kmemFrameMask)) →
      (mmanUnmap s id address size).2 = 0 ∧
      SameOutside R root address (size.toNat / 0x1000) s.phys
        (mmanUnmap s id address size).1.phys ∧
      ∀ j < size.toNat / 0x1000,
        translate (mmanUnmap s id address size).1.phys root (nthPage address j) = none) :=
  ⟨mmanAnonymous_maps h hfree, fun _ hal hlt => mmanPhysical_maps h hfree hal hlt,
    fun _ _ _ hknown hsroot hsmall => mmanMirror_maps h hfree hknown hsroot hsmall,
    mmanUnmap_unmaps h⟩

end

/-! ## How many pages are enough -/

section
variable {s : Mman} {root va : Word}

/-- A creation takes at most a page for every level but the first. -/
theorem create_taken_le (level : Nat) :
    (mmanPagingAddrCreate s root va level).1.kmem.taken ≤ s.kmem.taken + level := by
  have hloop : ∀ n, ((List.range (n + 1)).foldl (createLevel Mman.phys Mman.newTable root va)
      (s, -1)).1.kmem.taken ≤ s.kmem.taken + n := by
    intro n
    induction n with
    | zero => exact le_rfl
    | succ n ih =>
      rw [List.range_succ, List.foldl_append]
      generalize (List.range (n + 1)).foldl (createLevel Mman.phys Mman.newTable root va)
        (s, -1) = st at ih
      simp only [List.foldl_cons, List.foldl_nil, createLevel]
      cases kmemPagingAddr (Mman.phys st.1) root va (n + 1) with
      | some a => exact ih.trans (Nat.le_succ _)
      | none => exact Nat.succ_le_succ ih
  unfold mmanPagingAddrCreate pagingAddrCreate
  cases kmemPagingAddr s.phys root va level with
  | some a => exact Nat.le_add_right _ _
  | none => exact hloop level

theorem forPages_taken_le {size : Word} {body : Mman → Word → Mman} {c : Nat}
    (h : ∀ s off, (body s off).kmem.taken ≤ s.kmem.taken + c) :
    (forPages size body s).kmem.taken ≤ s.kmem.taken + c * (size.toNat / 0x1000) :=
  forPages_rule size body s (fun i (s' : Mman) => s'.kmem.taken ≤ s.kmem.taken + c * i) (fun _ => True) le_rfl
    (fun _ _ _ => trivial)
    (fun i s' _ hi _ => by
      have := h s' (BitVec.ofNat 64 i * 0x1000)
      rw [Nat.mul_succ]
      omega) trivial

/-- Four pages for every page of the range are enough for `mman_anonymous`. -/
theorem mmanAnonymous_taken_le (id : Nat) (address size : Word) :
    (mmanAnonymous s id address size).1.kmem.taken ≤
      s.kmem.taken + 4 * (size.toNat / 0x1000) := by
  unfold mmanAnonymous
  simp only []
  split_ifs
  · exact Nat.le_add_right _ _
  · exact Nat.le_add_right _ _
  · exact Nat.le_add_right _ _
  · exact forPages_taken_le fun s' off => Nat.succ_le_succ (create_taken_le 3)

theorem mmanPhysical_taken_le (id : Nat) (address paddress size : Word) :
    (mmanPhysical s id address paddress size).1.kmem.taken ≤
      s.kmem.taken + 3 * (size.toNat / 0x1000) := by
  unfold mmanPhysical
  simp only []
  split_ifs
  · exact Nat.le_add_right _ _
  · exact Nat.le_add_right _ _
  · exact Nat.le_add_right _ _
  · exact Nat.le_add_right _ _
  · exact forPages_taken_le fun s' off => create_taken_le 3

theorem mmanMirror_taken_le (id srootId : Nat) (address saddress size : Word) :
    (mmanMirror s id address srootId saddress size).1.kmem.taken ≤
      s.kmem.taken + 6 * (size.toNat / 0x1000) := by
  unfold mmanMirror
  simp only []
  split_ifs
  · exact Nat.le_add_right _ _
  · exact Nat.le_add_right _ _
  · exact Nat.le_add_right _ _
  · exact Nat.le_add_right _ _
  · exact forPages_taken_le fun s' off =>
      (create_taken_le (s := (mmanPagingAddrCreate s' _ _ 3).1) 3).trans
        (Nat.add_le_add_right (create_taken_le 3) 3)

end

/-! ## An instance -/

/-- The words of `twoRoots` that are not zero. -/
def twoRootsWords : List (Word × Word) :=
  [(0x40000, 0x41007), (0x41000, 0x42007), (0x42000, 0x43007), (0x43000, 0x8000000000044003),
    (0x30000, 0x31000), (0x31000, 0x32000), (0x32000, 0x33000), (0x33000, 0x34000),
    (0x34000, 0x35000)]

/-- An empty root at `0x20000`, one at `0x40000` that maps its first page to `0x44000`, and a
    free list of six pages. -/
def twoRoots : Phys := fun a => (twoRootsWords.lookup a).getD 0

def twoRootsMman : Mman where
  kmem := ⟨twoRoots, 0x30000, []⟩
  cr3 := 0x20000
  rootMap := ((AvlMap.empty.insert 0x1000 0x20000).1.insert 0x1001 0x40000).1
  rootRefcount := .empty
  pageRefcount := .empty
  nextId := 0x1002
  thisRootId := 0x1000
  pagefreeCalls := []

/-- Every word that is not zero is the first of a page. -/
theorem twoRoots_cell {t va : Word} {d : Nat} (ht : PageAligned t)
    (h : Present (twoRoots (cell t va d))) : cell t va d = t := by
  have hkeys : ∀ w ∈ twoRootsWords, PageAligned w.1 := by
    intro w hw
    fin_cases hw <;> rfl
  by_contra hne
  refine h ?_
  have hnone : twoRootsWords.lookup (cell t va d) = none := by
    refine List.lookup_eq_none_iff.mpr fun w hw => ?_
    refine bne_iff_ne.mpr fun heq => hne ?_
    exact heq.trans (cell_eq_page ht (hkeys w hw) heq).symm
  rw [twoRoots, hnone]
  decide

/-- The tables of the two roots: the empty one has none, the other one below each other. -/
theorem twoRoots_tableAt {r va t : Word} {d : Nat} (hr : r = 0x20000 ∨ r = 0x40000)
    (h : tableAt twoRoots r va d = some t) :
    (r = 0x20000 ∧ d = 0 ∧ t = 0x20000) ∨
      (r = 0x40000 ∧ t = 0x40000 + BitVec.ofNat 64 d * 0x1000) := by
  have hal : PageAligned r := by
    rcases hr with rfl | rfl <;> rfl
  induction d generalizing t with
  | zero =>
    obtain rfl : r = t := Option.some.inj h
    rcases hr with rfl | rfl
    · exact .inl ⟨rfl, rfl, rfl⟩
    · exact .inr ⟨rfl, rfl⟩
  | succ d ih =>
    obtain ⟨t₀, ht₀, hpres, hn, rfl⟩ := tableAt_succ_iff.mp h
    have hcell := twoRoots_cell (tableAt_aligned hal ht₀) hpres
    rw [hcell] at hpres hn ⊢
    rcases ih ht₀ with ⟨-, -, rfl⟩ | ⟨rfl, rfl⟩
    · exact absurd hpres (by decide)
    · have hd : d < 3 := by
        by_contra hge
        exact hn (.inl (by omega))
      refine .inr ⟨rfl, ?_⟩
      interval_cases d <;> decide

theorem twoRoots_free : Free twoRootsMman.kmem {0x20000, 0x40000}
    [0x30000, 0x31000, 0x32000, 0x33000, 0x34000, 0x35000] where
  pages := ⟨rfl, by decide, rfl, by decide, rfl, by decide, rfl, by decide, rfl, by decide, rfl,
    by decide, rfl⟩
  frames := by
    intro p hp
    fin_cases hp <;> rfl
  nodup := by decide
  unused := by
    intro p hp r hr va d h
    have hd := tableAt_le_three h
    rcases twoRoots_tableAt hr h with ⟨-, -, rfl⟩ | ⟨-, rfl⟩
    · exact absurd hp (by decide)
    · interval_cases d <;> exact absurd hp (by decide)

theorem twoRoots_tables (V : Set Word) : Tables twoRootsMman.phys {0x20000, 0x40000} 0x20000 V where
  roots := by rintro r (rfl | rfl) <;> rfl
  root_mem := .inl rfl
  priv := by
    intro va _ d t ht r hr va' d' ht'
    rcases twoRoots_tableAt (.inl rfl) ht with ⟨-, rfl, rfl⟩ | ⟨h, -⟩
    · rcases twoRoots_tableAt hr ht' with ⟨rfl, rfl, -⟩ | ⟨-, h⟩
      · exact ⟨rfl, rfl, fun k hk => absurd hk (by omega)⟩
      · have hd := tableAt_le_three ht'
        interval_cases d' <;> exact absurd h (by decide)
    · exact absurd h (by decide)
  small := by
    intro va _ d _ t ht hpres
    rcases twoRoots_tableAt (.inl rfl) ht with ⟨-, -, rfl⟩ | ⟨h, -⟩
    · rw [twoRoots_cell (tableAt_aligned (by rfl) ht) hpres] at hpres
      exact absurd hpres (by decide)
    · exact absurd h (by decide)

theorem twoRoots_target : Target twoRootsMman {0x20000, 0x40000} 0x1000 0x20000 0 0x1000 where
  known := by rfl
  root_ne_zero := by decide
  address_aligned := by decide
  size_aligned := by decide
  no_wrap := by decide
  tables := twoRoots_tables _

/-- The four operations on the first page of the empty root. -/
theorem mman_maps_exactly_of_twoRoots :
    (∃ frame, TranslatesTo (mmanAnonymous twoRootsMman 0x1000 0 0x1000).1.phys 0x20000
      (nthPage 0 0) frame kmemMapData) ∧
    TranslatesTo (mmanPhysical twoRootsMman 0x1000 0 0xfee00000 0x1000).1.phys 0x20000
      (nthPage 0 0) (nthPage 0xfee00000 0) kmemMapData ∧
    (∃ entry, mapping twoRoots 0x40000 (nthPage 0 0) = some entry ∧
      mapping (mmanMirror twoRootsMman 0x1000 0 0x1001 0 0x1000).1.phys 0x20000 (nthPage 0 0) =
        some entry) ∧
    translate (mmanUnmap twoRootsMman 0x1000 0 0x1000).1.phys 0x20000 (nthPage 0 0) = none := by
  obtain ⟨hanon, hphys, hmirror, hunmap⟩ := mman_maps_exactly twoRoots_free twoRoots_target
  refine ⟨?_, ?_, ?_, ?_⟩
  · obtain ⟨-, -, frame, hframe, -⟩ := hanon ((mmanAnonymous_taken_le _ _ _).trans (by decide))
    exact ⟨frame 0, (hframe 0 (by decide)).2⟩
  · exact (hphys 0xfee00000 (by decide) (by decide)
      ((mmanPhysical_taken_le _ _ _ _).trans (by decide))).2.2 0 (by decide)
  · refine (hmirror 0x1001 0x40000 0 (by rfl) (.inr rfl) ?_ (by rfl)
      ((mmanMirror_taken_le _ _ _ _ _).trans (by decide))).2 0 (by decide)
    intro va _ d hd t ht hpres
    have hcell := twoRoots_cell (tableAt_aligned (by rfl) ht) hpres
    rw [hcell]
    rcases twoRoots_tableAt (.inr rfl) ht with ⟨h, -⟩ | ⟨-, rfl⟩
    · exact absurd h (by decide)
    · interval_cases d <;> decide
  · refine (hunmap ?_).2.2 0 (by decide)
    intro va _ entry hentry
    -- nothing is mapped in the empty root
    have habs : ¬ Present (twoRoots (cell 0x20000 va 0)) := fun hpres => by
      rw [twoRoots_cell (by rfl) hpres] at hpres
      exact hpres (by decide)
    have hnone : translate twoRootsMman.phys 0x20000 va = none :=
      translate_of_absent (d := 0) rfl habs
    rw [mapping, hnone] at hentry
    cases hentry

end Refk
