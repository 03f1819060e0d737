import Refk.Klib.FreeList
import Refk.Klib.SharedWindows
import Refk.Scheduler.MmanExact

/-!
# Address spaces of their own

Every root has tables of its own but for the slot of the physical memory map and the last tables
of the kernel's windows (`Isolated`). What is done for an address off those (`privateAddresses`)
keeps that for all roots at once, and leaves alone what is not the root's own (`LeavesAlone`): the
translations of the others, and the memory outside of its tables and of the pages that the free
list loses or gets.
-/

namespace Refk

open Lib

/-- The addresses off what all roots share. -/
def privateAddresses : Set Word := {va | pagingIndex va 0 ≠ 384 ∧ ¬ InWindow va}

/-- A table that the root shares with nobody. -/
def OwnTable (m : Phys) (root t : Word) : Prop :=
  ∃ va ∈ privateAddresses, ∃ d, tableAt m root va d = some t

/-- The roots `R` have tables of their own for the private addresses, and all have the windows. -/
structure Isolated (k : Kmem) (R : Set Word) (L : List Word) : Prop where
  tables : ∀ r ∈ R, Tables k.phys R r privateAddresses
  windows : ∀ r ∈ R, ∀ va, InWindow va → ∃ t, tableAt k.phys r va 3 = some t
  free : Free k R L

/-- From `m` to `m'`, and from the free list `L` to `L'`, only what is `root`'s own has changed, and
    of its translations only those of the addresses `V`. -/
structure LeavesAlone (R : Set Word) (root : Word) (V : Set Word) (L L' : List Word) (m m' : Phys) :
    Prop where
  grown : ∀ r ∈ R, ∀ va d t, tableAt m r va d = some t → tableAt m' r va d = some t
  translate : ∀ r ∈ R, ∀ va, (r = root → ∀ va' ∈ V, ¬ SamePrefix 4 va va') →
    translate m' r va = translate m r va
  memory : ∀ a, ¬ OwnTable m' root (pageOf a) → (pageOf a ∈ L ↔ pageOf a ∈ L') → m' a = m a

/-! ## Pages -/

theorem pageOf_cell {t va : Word} {d : Nat} (ht : PageAligned t) : pageOf (cell t va d) = t := by
  have hlt := pagingIndex_lt va d
  rw [← BitVec.toNat_inj, pageOf, toNat_and_pageMask, toNat_cell ht]
  unfold PageAligned at ht
  omega

theorem pageOf_self {p : Word} (hp : PageAligned p) : pageOf p = p := pageAligned_iff.mp hp

theorem zeroTable_of_pageOf_ne (m : Phys) {p a : Word} (hp : PageAligned p) (ha : pageOf a ≠ p) :
    zeroTable m p a = m a := by
  rw [zeroTable, foldl_zero, if_neg]
  rintro ⟨i, hi, heq⟩
  obtain ⟨va, hva⟩ := exists_pagingIndex (List.mem_range.mp hi) 0
  rw [← hva] at heq
  apply ha
  rw [heq]
  exact pageOf_cell hp

section
variable {k : Kmem} {m m' m'' : Phys} {R : Set Word} {root va t p : Word} {V : Set Word}
  {L L' L'' : List Word} {d : Nat}

theorem LeavesAlone.refl (R : Set Word) (root : Word) (V : Set Word) (L L' : List Word) (m : Phys) :
    LeavesAlone R root V L L' m m :=
  ⟨fun _ _ _ _ _ ht => ht, fun _ _ _ _ => rfl, fun _ _ _ => rfl⟩

/-- A table that is found stays the root's own. -/
theorem LeavesAlone.ownTable (h : LeavesAlone R root V L L' m m') (hr : root ∈ R)
    (ht : OwnTable m root t) : OwnTable m' root t := by
  obtain ⟨va, hva, d, hd⟩ := ht
  exact ⟨va, hva, d, h.grown root hr va d t hd⟩

/-- One after the other, if the free list only shrinks or only grows. -/
theorem LeavesAlone.trans (h : LeavesAlone R root V L L' m m')
    (h' : LeavesAlone R root V L' L'' m' m'') (hr : root ∈ R)
    (hlist : ∀ q, (q ∈ L ↔ q ∈ L'') → (q ∈ L ↔ q ∈ L') ∧ (q ∈ L' ↔ q ∈ L'')) :
    LeavesAlone R root V L L'' m m'' where
  grown r hr va d t ht := h'.grown r hr va d t (h.grown r hr va d t ht)
  translate r hr va hva := (h'.translate r hr va hva).trans (h.translate r hr va hva)
  memory a hown hiff := by
    obtain ⟨hfirst, hsecond⟩ := hlist _ hiff
    rw [h'.memory a hown hsecond]
    exact h.memory a (fun ho => hown (h'.ownTable hr ho)) hfirst

theorem shrinks (h : L' ⊆ L) (h' : L'' ⊆ L') (q : Word) (hq : q ∈ L ↔ q ∈ L'') :
    (q ∈ L ↔ q ∈ L') ∧ (q ∈ L' ↔ q ∈ L'') :=
  ⟨⟨fun hmem => h' (hq.mp hmem), fun hmem => h hmem⟩,
    ⟨fun hmem => hq.mp (h hmem), fun hmem => h' hmem⟩⟩

theorem grows (h : L ⊆ L') (h' : L' ⊆ L'') (q : Word) (hq : q ∈ L ↔ q ∈ L'') :
    (q ∈ L ↔ q ∈ L') ∧ (q ∈ L' ↔ q ∈ L'') :=
  ⟨⟨fun hmem => h hmem, fun hmem => hq.mpr (h' hmem)⟩,
    ⟨fun hmem => h' hmem, fun hmem => h (hq.mpr hmem)⟩⟩

theorem Isolated.root_aligned (h : Isolated k R L) (hr : root ∈ R) : PageAligned root :=
  (h.tables root hr).roots root hr

/-- The windows' walks stay. -/
theorem windows_of_grown {r : Word}
    (hwindow : ∀ va, InWindow va → ∃ t, tableAt m r va 3 = some t)
    (hgrown : ∀ va d t, tableAt m r va d = some t → tableAt m' r va d = some t) (va : Word)
    (hva : InWindow va) : ∃ t, tableAt m' r va 3 = some t := by
  obtain ⟨t, ht⟩ := hwindow va hva
  exact ⟨t, hgrown va 3 t ht⟩

/-- **One link**, for all roots. -/
theorem Isolated.link (h : Isolated k R (p :: L)) (hr : root ∈ R) (hva : va ∈ privateAddresses)
    (hd : d < 3) (ht : tableAt k.phys root va d = some t)
    (habs : ¬ Present (k.phys (cell t va d))) :
    Isolated (k.newTable (cell t va d)).1 R L ∧
      LeavesAlone R root V (p :: L) L k.phys (k.newTable (cell t va d)).1.phys ∧
      tableAt (k.newTable (cell t va d)).1.phys root va (d + 1) = some p := by
  have htab := h.tables root hr
  obtain ⟨-, hfree, hgrown, hnew⟩ := link_step htab h.free hva hd ht habs
  have hleaves : LeavesAlone R root V (p :: L) L k.phys (k.newTable (cell t va d)).1.phys := by
    refine ⟨hgrown.tables, fun r hr va' _ => hgrown.translate r hr va', fun a hown hiff => ?_⟩
    have hpage : k.lastUnused = p := h.free.pages.head_eq
    have hp : pageOf a ≠ p := by
      intro heq
      rw [heq] at hiff
      exact (List.nodup_cons.mp h.free.nodup).1 (hiff.mp List.mem_cons_self)
    have hcell : a ≠ cell t va d := by
      rintro rfl
      apply hown
      rw [pageOf_cell (tableAt_aligned (h.root_aligned hr) ht)]
      exact ⟨va, hva, d, hgrown.tables root hr va d t ht⟩
    simp only [Kmem.newTable, kmemGetpage, hpage, phyWrite64, Function.update_of_ne hcell]
    exact zeroTable_of_pageOf_ne _ (h.free.frames p List.mem_cons_self).aligned hp
  refine ⟨⟨fun r hr' => ?_, fun r hr' => ?_, hfree⟩, hleaves, hnew⟩
  · exact (h.tables r hr').link htab h.free hva hd ht habs
  · exact windows_of_grown (h.windows r hr') (hgrown.tables r hr')

/-- **A write to a level-3 entry**, for all roots. -/
theorem Isolated.leaf (h : Isolated k R L) (hr : root ∈ R) (hva : va ∈ privateAddresses)
    (hV : va ∈ V) (ht : tableAt k.phys root va 3 = some t) (entry : Word) :
    Isolated { k with phys := Function.update k.phys (cell t va 3) entry } R L ∧
      LeavesAlone R root V L L k.phys (Function.update k.phys (cell t va 3) entry) ∧
      ∀ r ∈ R, ∀ va' d, tableAt (Function.update k.phys (cell t va 3) entry) r va' d =
        tableAt k.phys r va' d := by
  have htab := h.tables root hr
  obtain ⟨-, htables, hothers⟩ := leaf_step
    { k with phys := Function.update k.phys (cell t va 3) entry } htab hva ht rfl
  have hgrown : ∀ r ∈ R, ∀ va' d' t', tableAt k.phys r va' d' = some t' →
      tableAt (Function.update k.phys (cell t va 3) entry) r va' d' = some t' :=
    fun r hr va' d' t' ht' => (htables r hr va' d').trans ht'
  refine ⟨⟨fun r hr' => (h.tables r hr').leaf htab hva ht, fun r hr' => ?_, ?_⟩, ⟨hgrown, ?_, ?_⟩,
    htables⟩
  · exact windows_of_grown (h.windows r hr') (hgrown r hr')
  · exact h.free.leaf entry hr (h.root_aligned hr) ht htables
  · intro r hr' va' hnot
    exact hothers r hr' va' fun hpage => hnot hpage.1 va hV hpage.2
  · intro a hown _
    apply Function.update_of_ne
    rintro rfl
    apply hown
    rw [pageOf_cell (tableAt_aligned (h.root_aligned hr) ht)]
    exact ⟨va, hva, 3, hgrown root hr va 3 t ht⟩

/-- A page is taken. -/
theorem Isolated.getpage (h : Isolated k R (p :: L)) : Isolated (kmemGetpage k).1 R L := by
  refine ⟨h.tables, h.windows, h.free.pages.getpage, ?_, (List.nodup_cons.mp h.free.nodup).2, ?_⟩
  · exact fun q hq => h.free.frames q (List.mem_cons_of_mem p hq)
  · exact fun q hq => h.free.unused q (List.mem_cons_of_mem p hq)

/-- A page is returned that is no table. -/
theorem Isolated.unuse (root : Word) (V : Set Word) (h : Isolated k R L) (hp : IsFrame p) (h₀ : p ≠ 0) (hL : p ∉ L)
    (hunused : ∀ r ∈ R, ∀ va d, tableAt k.phys r va d ≠ some p) :
    Isolated (kmemUnuse k p) R (p :: L) ∧
      LeavesAlone R root V L (p :: L) k.phys (kmemUnuse k p).phys ∧
      ∀ r ∈ R, ∀ va d t, tableAt k.phys r va d = some t →
        (kmemUnuse k p).phys (cell t va d) = k.phys (cell t va d) := by
  have hsame : ∀ r ∈ R, ∀ va d t, tableAt k.phys r va d = some t →
      (kmemUnuse k p).phys (cell t va d) = k.phys (cell t va d) := by
    intro r hr va d t ht
    apply Function.update_of_ne
    intro hcell
    have heq := cell_eq_page (tableAt_aligned (h.root_aligned hr) ht) hp.aligned hcell
    exact hunused r hr va d (heq ▸ ht)
  have hagree : ∀ r ∈ R, ∀ va, _ := fun r hr va => translate_of_agree (hsame r hr va)
  have hgrown : ∀ r ∈ R, ∀ va d t, tableAt k.phys r va d = some t →
      tableAt (kmemUnuse k p).phys r va d = some t :=
    fun r hr va d t ht => ((hagree r hr va).1 d).trans ht
  refine ⟨⟨fun r hr => ((h.tables r hr).of_agree hsame).1, fun r hr => ?_, ?_⟩, ⟨hgrown,
    fun r hr va _ => (hagree r hr va).2, fun a _ hiff => ?_⟩, hsame⟩
  · exact windows_of_grown (h.windows r hr) (hgrown r hr)
  · refine ⟨h.free.pages.unuse h₀ hL, ?_, List.nodup_cons.mpr ⟨hL, h.free.nodup⟩, ?_⟩
    · intro q hq
      rcases List.mem_cons.mp hq with rfl | hq
      · exact hp
      · exact h.free.frames q hq
    · intro q hq r hr va d ht
      rw [(hagree r hr va).1 d] at ht
      rcases List.mem_cons.mp hq with rfl | hq
      · exact hunused r hr va d ht
      · exact h.free.unused q hq r hr va d ht
  · apply Function.update_of_ne
    rintro rfl
    rw [pageOf_self hp.aligned] at hiff
    exact hL (hiff.mpr List.mem_cons_self)

end

end Refk
