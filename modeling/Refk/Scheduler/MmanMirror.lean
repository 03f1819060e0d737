import Refk.Scheduler.MmanLookup
import Refk.Scheduler.RootArg

/-!
# Mirroring, all or nothing

`mman_mirror` scans both ranges before it touches either. `Mirrorable` is what the scans ask for,
over what it is to be mapped: the scans take every present entry above the last level for a table,
so that for them a larger page is one too, and what is behind it is what it happens to hold.
-/

namespace Refk

/-- What `mman_mirror` asks for, where `mapped` says which pages a root maps. -/
structure Mirrorable (mapped : Word → Word → Prop) (s : Mman) (id : Nat) (address : Word)
    (sid : Nat) (saddress size : Word) : Prop where
  known : s.rootAddress id ≠ 0
  source_known : s.rootAddress sid ≠ 0
  aligned : PageAligned address
  source_aligned : PageAligned saddress
  size_aligned : PageAligned size
  clear : ∀ j < size.toNat / 0x1000, ¬ mapped (s.rootAddress id) (nthPage address j)
  full : ∀ j < size.toNat / 0x1000, mapped (s.rootAddress sid) (nthPage saddress j)

/-- How many of the first `n` pages from `address` on map a frame. -/
def mappersOf (m : Phys) (root address : Word) (n : Nat) (frame : Word) : Nat :=
  (List.range n).countP fun j =>
    (mapping m root (nthPage address j)).map (· &&& kmemFrameMask) = some frame

/-- The tables of the two roots are distinct frames, no page of the free list `L` is one of them
    or a frame of the source, and the list lasts. -/
structure Separate (s : Mman) (id : Nat) (address : Word) (sid : Nat) (saddress size : Word)
    (L : List Word) : Prop where
  tables : Tables s.phys {s.rootAddress id, s.rootAddress sid} (s.rootAddress id)
    (pagesOf address size)
  source : ∀ j < size.toNat / 0x1000, WalksTables s.phys (s.rootAddress sid) (nthPage saddress j)
  free : Free s.kmem {s.rootAddress id, s.rootAddress sid} L
  unused : ∀ j < size.toNat / 0x1000, ∀ entry,
    mapping s.phys (s.rootAddress sid) (nthPage saddress j) = some entry →
      entry &&& kmemFrameMask ∉ L
  enough : (mmanMirror s id address sid saddress size).1.kmem.taken ≤ s.kmem.taken + L.length

section
variable {s : Mman} {id sid : Nat} {address saddress size root sroot : Word} {m : Phys}
  {R : Set Word} {L : List Word} {mapped mapped' : Word → Word → Prop}

/-! ## The scans -/

theorem pageOffsets_all (f : Word → Bool) :
    ((pageOffsets size).all fun off => f (address + off)) = true ↔
      ∀ j < size.toNat / 0x1000, f (nthPage address j) = true := by
  simp only [pageOffsets, List.all_map, List.all_eq_true, List.mem_range, Function.comp_apply,
    nthPage]

theorem pageOffsets_any (f : Word → Bool) :
    ((pageOffsets size).any fun off => f (address + off)) = true ↔
      ∃ j < size.toNat / 0x1000, f (nthPage address j) = true := by
  simp only [pageOffsets, List.any_map, List.any_eq_true, List.mem_range, Function.comp_apply,
    nthPage]

/-- The shape of a scan: three refusals, and the answer. -/
theorem scan_eq (p q r c : Prop) [Decidable p] [Decidable q] [Decidable r] [Decidable c] :
    ((if p then (-1 : Int) else if ¬ q then -1 else if ¬ r then -1 else if c then 1 else 0) = 0 ↔
      ¬ p ∧ q ∧ r ∧ ¬ c) ∧
    ((if p then (-1 : Int) else if ¬ q then -1 else if ¬ r then -1 else if c then 1 else 0) = 1 ↔
      ¬ p ∧ q ∧ r ∧ c) := by
  by_cases hp : p
  · simp [hp]
  by_cases hq : q
  · by_cases hr : r
    · simp [hp, hq, hr]
    · simp [hr]
  · simp [hq]

theorem mmanCheckAnyMapped_eq_zero : mmanCheckAnyMapped s id address size = 0 ↔
    s.rootAddress id ≠ 0 ∧ PageAligned address ∧ PageAligned size ∧
      ∀ j < size.toNat / 0x1000, ¬ isMapped s.phys (s.rootAddress id) (nthPage address j) = true := by
  have hscan := (scan_eq (s.rootAddress id = 0) (address &&& 0xfff = 0) (size &&& 0xfff = 0)
    (((pageOffsets size).any fun off => isMapped s.phys (s.rootAddress id) (address + off)) =
      true)).1
  refine hscan.trans ?_
  rw [and_fff_eq_zero, and_fff_eq_zero, pageOffsets_any fun va =>
    isMapped s.phys (s.rootAddress id) va]
  simp only [not_exists, not_and, ne_eq]

theorem mmanCheckAllMapped_eq_one : mmanCheckAllMapped s id address size = 1 ↔
    s.rootAddress id ≠ 0 ∧ PageAligned address ∧ PageAligned size ∧
      ∀ j < size.toNat / 0x1000, isMapped s.phys (s.rootAddress id) (nthPage address j) = true := by
  have hscan := (scan_eq (s.rootAddress id = 0) (address &&& 0xfff = 0) (size &&& 0xfff = 0)
    (((pageOffsets size).all fun off => isMapped s.phys (s.rootAddress id) (address + off)) =
      true)).2
  refine hscan.trans ?_
  rw [and_fff_eq_zero, and_fff_eq_zero, pageOffsets_all fun va =>
    isMapped s.phys (s.rootAddress id) va]

/-- **The guards** are the scans. -/
theorem mirrorable_iff : Mirrorable (fun r va => isMapped s.phys r va = true) s id address sid
    saddress size ↔ (s.rootAddress id ≠ 0 ∧ s.rootAddress sid ≠ 0) ∧
      ¬ ScansRefuse s id address sid saddress size := by
  rw [ScansRefuse, not_or, not_not, not_not, mmanCheckAnyMapped_eq_zero, mmanCheckAllMapped_eq_one]
  constructor
  · intro h
    exact ⟨⟨h.known, h.source_known⟩, ⟨h.known, h.aligned, h.size_aligned, h.clear⟩,
      h.source_known, h.source_aligned, h.size_aligned, h.full⟩
  · rintro ⟨⟨h₀, h₁⟩, ⟨-, hal, hsize, hclear⟩, -, hsal, -, hfull⟩
    exact ⟨h₀, h₁, hal, hsal, hsize, hclear, hfull⟩

theorem mmanMirror_iff : (mmanMirror s id address sid saddress size).2 = 0 ↔
    Mirrorable (fun r va => isMapped s.phys r va = true) s id address sid saddress size := by
  rw [mirrorable_iff]
  rcases mmanMirror_cases s id address sid saddress size with
    ⟨hunknown, h⟩ | ⟨hknown, ⟨hrefuse, h⟩ | ⟨hscan, h⟩⟩
  · rw [h]
    refine iff_of_false (by simp) fun hok => ?_
    rcases hunknown with h₀ | h₁
    · exact hok.1.1 h₀
    · exact hok.1.2 h₁
  · rw [h]
    exact iff_of_false (by simp) fun hok => hok.2 hrefuse
  · rw [h]
    exact iff_of_true rfl ⟨hknown, hscan⟩

/-- Nothing, if not all. -/
theorem mmanMirror_refused (hret : (mmanMirror s id address sid saddress size).2 ≠ 0) :
    (mmanMirror s id address sid saddress size).1 = s := by
  rcases mmanMirror_cases s id address sid saddress size with
    ⟨-, h⟩ | ⟨-, ⟨-, h⟩ | ⟨-, h⟩⟩
  · rw [h]
  · rw [h]
  · rw [h] at hret
    exact absurd rfl hret

theorem Mirrorable.congr
    (htarget : ∀ j < size.toNat / 0x1000, mapped (s.rootAddress id) (nthPage address j) ↔
      mapped' (s.rootAddress id) (nthPage address j))
    (hsource : ∀ j < size.toNat / 0x1000, mapped (s.rootAddress sid) (nthPage saddress j) ↔
      mapped' (s.rootAddress sid) (nthPage saddress j)) :
    Mirrorable mapped s id address sid saddress size ↔
      Mirrorable mapped' s id address sid saddress size := by
  constructor
  · intro h
    exact ⟨h.known, h.source_known, h.aligned, h.source_aligned, h.size_aligned,
      fun j hj => (htarget j hj).not.mp (h.clear j hj), fun j hj => (hsource j hj).mp (h.full j hj)⟩
  · intro h
    exact ⟨h.known, h.source_known, h.aligned, h.source_aligned, h.size_aligned,
      fun j hj => (htarget j hj).not.mpr (h.clear j hj), fun j hj => (hsource j hj).mpr (h.full j hj)⟩

/-- Where a walk meets tables only, the scans see what the hardware does. -/
theorem WalksTables.isMapped_iff {va : Word} (h : WalksTables m root va) :
    isMapped m root va = true ↔ translate m root va ≠ none := by
  rw [Refk.isMapped_iff h]
  constructor
  · rintro ⟨t, ht, hp⟩ hnone
    have hmap := mapping_of_table ht hp
    rw [mapping, hnone] at hmap
    cases hmap
  · intro hsome
    cases ht : tableAt m root va 3 with
    | none => exact absurd (h.translate_of_incomplete ht) hsome
    | some t =>
      refine ⟨t, rfl, fun habs => ?_⟩
      exact hsome (translate_of_absent ht (not_not.mpr habs))

/-! ## The pages -/

theorem nthPage_samePrefix {i j : Nat} (h : SamePrefix 4 (nthPage address i) (nthPage address j)) :
    SamePrefix 4 (nthPage saddress i) (nthPage saddress j) := by
  rw [samePrefix_four_iff, pageNumber_nthPage, pageNumber_nthPage] at h ⊢
  omega

theorem mapping_samePrefix {va va' : Word} (h : SamePrefix 4 va va') :
    mapping m root va = mapping m root va' := by
  rw [mapping, translate_samePrefix h, mapping]

/-- What the mirror has done after `n` pages. -/
structure Mirrored (R : Set Word) (root address sroot saddress size : Word) (L : List Word)
    (s s' : Mman) (n : Nat) : Prop where
  taken : s.kmem.taken ≤ s'.kmem.taken
  tables : Tables s'.phys R root (pagesOf address size)
  free : Free s'.kmem R (L.drop (s'.kmem.taken - s.kmem.taken))
  outside : SameOutside R root address n s.phys s'.phys
  grown : ∀ r ∈ R, ∀ va d t, tableAt s.phys r va d = some t → tableAt s'.phys r va d = some t
  mapped : ∀ j < n, mapping s'.phys root (nthPage address j) =
    mapping s.phys sroot (nthPage saddress j)
  counts : ∀ p ∉ L, s'.pageCount p = s.pageCount p + mappersOf s.phys sroot saddress n p

/-- A source page is none of the target's, which are not mapped. -/
theorem not_samePrefix_source {i j : Nat} (hclear : translate m root (nthPage address j) = none)
    (hfull : translate m root (nthPage saddress i) ≠ none) :
    ¬ SamePrefix 4 (nthPage saddress i) (nthPage address j) := by
  intro hpre
  rw [translate_samePrefix hpre] at hfull
  exact hfull hclear

/-- **A turn of the mirror.** A page that comes around again, past `2 ^ 48`, is mapped to the same
    frame again. -/
theorem Mirrored.turn {s' : Mman} {i : Nat} (hi : i < size.toNat / 0x1000)
    (h : Mirrored R root address sroot saddress size L s s' i) (hsroot : sroot ∈ R)
    (hclear : ∀ j < size.toNat / 0x1000, translate s.phys root (nthPage address j) = none)
    (hfull : ∀ j < size.toNat / 0x1000, ∃ t, tableAt s.phys sroot (nthPage saddress j) 3 = some t ∧
      Present (s.phys (cell t (nthPage saddress j) 3)))
    (henough : (mirrorPage root sroot s' (nthPage address i) (nthPage saddress i)).kmem.taken ≤
      s.kmem.taken + L.length) :
    Mirrored R root address sroot saddress size L s
      (mirrorPage root sroot s' (nthPage address i) (nthPage saddress i)) (i + 1) := by
  obtain ⟨t, ht, hpres⟩ := hfull i hi
  have hmap := mapping_of_table ht hpres
  generalize s.phys (cell t (nthPage saddress i) 3) = sentry at hmap
  have hsome : translate s.phys sroot (nthPage saddress i) ≠ none := by
    intro hnone
    rw [mapping, hnone] at hmap
    cases hmap
  -- the source page still maps as it did
  have hsource : mapping s'.phys sroot (nthPage saddress i) = some sentry := by
    rw [mapping, h.outside sroot hsroot, ← mapping, hmap]
    intro hrr j hj
    exact not_samePrefix_source (hclear j (by omega)) (hrr ▸ hsome)
  have hroom : (mirrorPage root sroot s' (nthPage address i) (nthPage saddress i)).kmem.taken ≤
      s'.kmem.taken + (L.drop (s'.kmem.taken - s.kmem.taken)).length := by
    have := h.taken
    have := mirrorPage_taken root sroot s' (nthPage address i) (nthPage saddress i)
    rw [List.length_drop]
    omega
  have hst := h.grown sroot hsroot _ 3 t ht
  have hdone := mirrorPage_spec h.tables h.free (mem_pagesOf hi) hsroot hst hsource hroom
  refine ⟨h.taken.trans hdone.taken, hdone.tables, ?_, ?_, fun r hr va d t ht =>
    hdone.grown r hr va d t (h.grown r hr va d t ht), ?_, ?_⟩
  · have hfree := hdone.free
    rw [List.drop_drop] at hfree
    have := h.taken
    have := hdone.taken
    convert hfree using 2
    omega
  · intro r hr va hnot
    rw [hdone.others r hr va fun hva => hnot hva.1 i (by omega) hva.2]
    exact h.outside r hr va fun hrr j hj => hnot hrr j (by omega)
  · intro j hj
    by_cases hpre : SamePrefix 4 (nthPage address j) (nthPage address i)
    · rw [mapping_samePrefix hpre, hdone.mapped, mapping_samePrefix (nthPage_samePrefix hpre), hmap]
    · have hlt : j < i := by
        rcases Nat.lt_succ_iff_lt_or_eq.mp hj with hlt | rfl
        · exact hlt
        · exact absurd (fun _ _ => rfl) hpre
      rw [mapping, hdone.others root h.tables.root_mem _ fun hva => hpre hva.2, ← mapping,
        h.mapped j hlt]
  · intro p hp
    have hdrop : p ∉ L.drop (s'.kmem.taken - s.kmem.taken) := fun hmem =>
      hp (List.mem_of_mem_drop hmem)
    rw [mirrorPage_count h.tables h.free (mem_pagesOf hi) hsroot hst hsource hroom hdrop,
      h.counts p hp, mappersOf, mappersOf, List.range_succ, List.countP_append,
      List.countP_singleton, hmap]
    simp [Nat.add_assoc]

/-- **All the pages.** -/
theorem mirrorPages_mirrored (htab : Tables s.phys R root (pagesOf address size))
    (hfree : Free s.kmem R L) (hsroot : sroot ∈ R)
    (hclear : ∀ j < size.toNat / 0x1000, translate s.phys root (nthPage address j) = none)
    (hfull : ∀ j < size.toNat / 0x1000, ∃ t, tableAt s.phys sroot (nthPage saddress j) 3 = some t ∧
      Present (s.phys (cell t (nthPage saddress j) 3)))
    (henough : (forPages size (fun s off => mirrorPage root sroot s (address + off)
      (saddress + off)) s).kmem.taken ≤ s.kmem.taken + L.length) :
    Mirrored R root address sroot saddress size L s
      (forPages size (fun s off => mirrorPage root sroot s (address + off) (saddress + off)) s)
      (size.toNat / 0x1000) := by
  refine forPages_rule size (fun s off => mirrorPage root sroot s (address + off) (saddress + off))
    s (fun n s' => Mirrored R root address sroot saddress size L s s' n)
    (fun s' => s'.kmem.taken ≤ s.kmem.taken + L.length) ?_ ?_ ?_ henough
  · exact ⟨le_rfl, htab, by simpa using hfree, fun _ _ _ _ => rfl, fun _ _ _ _ _ h => h,
      fun j hj => absurd hj (Nat.not_lt_zero j), fun p _ => rfl⟩
  · intro s' off hgood
    exact (mirrorPage_taken root sroot s' (address + off) (saddress + off)).trans hgood
  · intro i s' hi hM hgood
    exact hM.turn hi hsroot hclear hfull hgood

/-- A successful mirror. -/
theorem mmanMirror_mirrored (h : Separate s id address sid saddress size L)
    (hret : (mmanMirror s id address sid saddress size).2 = 0) :
    Mirrored {s.rootAddress id, s.rootAddress sid} (s.rootAddress id) address (s.rootAddress sid)
      saddress size L s (mmanMirror s id address sid saddress size).1 (size.toNat / 0x1000) ∧
    (∀ j < size.toNat / 0x1000,
      translate s.phys (s.rootAddress id) (nthPage address j) = none) ∧
    ∀ j < size.toNat / 0x1000,
      translate s.phys (s.rootAddress sid) (nthPage saddress j) ≠ none := by
  have hok := mmanMirror_iff.mp hret
  have hclear : ∀ j < size.toNat / 0x1000,
      translate s.phys (s.rootAddress id) (nthPage address j) = none := by
    intro j hj
    by_contra hsome
    have hwalk : WalksTables s.phys (s.rootAddress id) (nthPage address j) :=
      h.tables.small _ (mem_pagesOf hj)
    exact hok.clear j hj (hwalk.isMapped_iff.mpr hsome)
  have henough := h.enough
  rw [(mmanMirror_success hret).2.2] at henough ⊢
  refine ⟨mirrorPages_mirrored h.tables h.free (.inr rfl) hclear (fun j hj => ?_) henough, hclear,
    fun j hj => ?_⟩
  · exact (isMapped_iff (h.source j hj)).mp (hok.full j hj)
  · exact (h.source j hj).isMapped_iff.mp (hok.full j hj)

end

/-- **`mman_mirror` is all or nothing.** It returns `0` exactly if the scans find what they ask
    for, and this is what the hardware sees where there are no larger pages; else nothing has
    changed. When it returns `0` each frame of the source has got a reference for every page of the
    target that now maps it, and the source translates as before. -/
theorem mirror_all_or_nothing (s : Mman) (id : Nat) (address : Word) (sid : Nat)
    (saddress size : Word) :
    ((mmanMirror s id address sid saddress size).2 = 0 ↔
      Mirrorable (fun r va => isMapped s.phys r va = true) s id address sid saddress size) ∧
    ((∀ j < size.toNat / 0x1000, WalksTables s.phys (s.rootAddress id) (nthPage address j) ∧
        WalksTables s.phys (s.rootAddress sid) (nthPage saddress j)) →
      ((mmanMirror s id address sid saddress size).2 = 0 ↔
        Mirrorable (fun r va => translate s.phys r va ≠ none) s id address sid saddress size)) ∧
    ((mmanMirror s id address sid saddress size).2 ≠ 0 →
      (mmanMirror s id address sid saddress size).1 = s) ∧
    ∀ L, Separate s id address sid saddress size L →
      (mmanMirror s id address sid saddress size).2 = 0 →
      (∀ j < size.toNat / 0x1000, ∃ entry,
        mapping s.phys (s.rootAddress sid) (nthPage saddress j) = some entry ∧
        (mmanMirror s id address sid saddress size).1.pageCount (entry &&& kmemFrameMask) =
          s.pageCount (entry &&& kmemFrameMask) +
            mappersOf (mmanMirror s id address sid saddress size).1.phys (s.rootAddress id) address
              (size.toNat / 0x1000) (entry &&& kmemFrameMask)) ∧
      ∀ va, (∃ j < size.toNat / 0x1000, SamePrefix 4 va (nthPage saddress j)) →
        translate (mmanMirror s id address sid saddress size).1.phys (s.rootAddress sid) va =
          translate s.phys (s.rootAddress sid) va := by
  refine ⟨mmanMirror_iff, fun hwalk => ?_, mmanMirror_refused, fun L h hret => ?_⟩
  · rw [mmanMirror_iff]
    exact Mirrorable.congr (fun j hj => (hwalk j hj).1.isMapped_iff)
      fun j hj => (hwalk j hj).2.isMapped_iff
  · obtain ⟨hM, hclear, hfull⟩ := mmanMirror_mirrored h hret
    have hsame : ∀ va, (∃ j < size.toNat / 0x1000, SamePrefix 4 va (nthPage saddress j)) →
        translate (mmanMirror s id address sid saddress size).1.phys (s.rootAddress sid) va =
          translate s.phys (s.rootAddress sid) va := by
      rintro va ⟨i, hi, hva⟩
      rw [translate_samePrefix hva, translate_samePrefix hva]
      refine hM.outside _ (.inr rfl) _ fun hrr j hj => ?_
      exact not_samePrefix_source (hclear j hj) (hrr ▸ hfull i hi)
    refine ⟨fun j hj => ?_, hsame⟩
    obtain ⟨t, ht, hpres⟩ := (isMapped_iff (h.source j hj)).mp
      ((mmanMirror_iff.mp hret).full j hj)
    have hmap := mapping_of_table ht hpres
    refine ⟨_, hmap, ?_⟩
    rw [hM.counts _ (h.unused j hj _ hmap)]
    -- each page of the target maps what its page of the source does
    refine congrArg _ (List.countP_congr fun i hi => ?_)
    rw [hM.mapped i (List.mem_range.mp hi)]

theorem twoRoots_entry {entry : Word}
    (h : mapping twoRootsMman.phys 0x40000 (nthPage 0 0) = some entry) :
    entry &&& kmemFrameMask = 0x44000 := by
  have hmap : mapping twoRootsMman.phys 0x40000 (nthPage 0 0) = some 0x8000000000044003 := by
    decide
  rw [hmap, Option.some.injEq] at h
  exact h ▸ rfl

theorem twoRoots_separate : Separate twoRootsMman 0x1000 0 0x1001 0 0x1000
    [0x30000, 0x31000, 0x32000, 0x33000, 0x34000, 0x35000] where
  tables := twoRoots_tables _
  free := twoRoots_free
  source := by
    intro j _ d hd t ht hpres
    have hcell := twoRoots_cell (tableAt_aligned (by rfl) ht) hpres
    rw [hcell]
    rcases twoRoots_tableAt (.inr rfl) ht with ⟨h, -⟩ | ⟨-, rfl⟩
    · exact absurd h (by decide)
    · interval_cases d <;> decide
  unused := by
    intro j hj entry h
    obtain rfl : j = 0 := Nat.lt_one_iff.mp hj
    rw [twoRoots_entry h]
    decide
  enough := (mmanMirror_taken_le _ _ _ _ _).trans (by decide)

/-- Its first page mirrored into the empty root, a frame has a reference for it. -/
theorem mirror_all_or_nothing_of_twoRoots :
    (mmanMirror twoRootsMman 0x1000 0 0x1001 0 0x1000).1.pageCount 0x44000 =
      twoRootsMman.pageCount 0x44000 +
        mappersOf (mmanMirror twoRootsMman 0x1000 0 0x1001 0 0x1000).1.phys
          (twoRootsMman.rootAddress 0x1000) 0 ((0x1000 : Word).toNat / 0x1000) 0x44000 := by
  obtain ⟨-, -, -, hsuccess⟩ := mirror_all_or_nothing twoRootsMman 0x1000 0 0x1001 0 0x1000
  obtain ⟨hcounts, -⟩ := hsuccess _ twoRoots_separate (by rfl)
  obtain ⟨entry, hmap, hcount⟩ := hcounts 0 (by decide)
  rw [twoRoots_entry hmap] at hcount
  exact hcount

/-- The first page of the root `0x20000` is in a page of a gigabyte. -/
def largePageMman : Mman := (twoRootsMman.write 0x20000 0x21007).write 0x21000 0x83

/-- A state without a free page. -/
def noPageMman : Mman := { twoRootsMman with kmem := ⟨twoRoots, 0, []⟩ }

/-- **A larger page is mirrored over**; and without a free page the first page of memory is taken
    for every table, so that the frame gets a reference for a page that does not map it. -/
theorem mirror_over_large_page :
    ((mmanMirror largePageMman 0x1000 0 0x1001 0 0x1000).2 = 0 ∧
      ¬ Mirrorable (fun r va => translate largePageMman.phys r va ≠ none) largePageMman 0x1000 0
        0x1001 0 0x1000) ∧
    (mmanMirror noPageMman 0x1000 0 0x1001 0 0x1000).2 = 0 ∧
    (mmanMirror noPageMman 0x1000 0 0x1001 0 0x1000).1.pageCount 0x44000 =
      noPageMman.pageCount 0x44000 + 1 ∧
    mappersOf (mmanMirror noPageMman 0x1000 0 0x1001 0 0x1000).1.phys 0x20000 0 1 0x44000 = 0 := by
  have hlarge : translate largePageMman.phys (largePageMman.rootAddress 0x1000) (nthPage 0 0) =
      some [0x21007, 0x83] := by
    decide +kernel
  refine ⟨⟨by decide +kernel, fun h => ?_⟩, by decide +kernel, by decide +kernel, by decide +kernel⟩
  apply h.clear 0 (by decide)
  intro hnone
  rw [hlarge] at hnone
  cases hnone

end Refk
