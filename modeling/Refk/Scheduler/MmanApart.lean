import Refk.Scheduler.MmanFrame
import Refk.Scheduler.MmanNewRoot

/-!
# Calls on isolated roots

A call of the memory manager works on one root. Page by page it keeps the roots isolated and leaves
alone what is not that root's own, as long as it keeps to private addresses: one that maps takes
pages from the free list (`MapsApart`), one that unmaps returns some (`LetGo`).
-/

namespace Refk

open Lib

/-- What a call that maps does to isolated roots, where it takes its pages from the head of `L`. -/
structure MapsApart (R : Set Word) (root : Word) (V : Set Word) (L : List Word) (s s' : Mman) :
    Prop where
  taken : s.kmem.taken ≤ s'.kmem.taken
  isolated : Isolated s'.kmem R (L.drop (s'.kmem.taken - s.kmem.taken))
  alone : LeavesAlone R root V L (L.drop (s'.kmem.taken - s.kmem.taken)) s.phys s'.phys

section
variable {R : Set Word} {root va : Word} {V : Set Word} {L : List Word} {s s₁ s₂ : Mman}

theorem MapsApart.refl (h : Isolated s.kmem R L) : MapsApart R root V L s s where
  taken := le_rfl
  isolated := by rwa [Nat.sub_self, List.drop_zero]
  alone := LeavesAlone.refl R root V L _ s.phys

theorem MapsApart.trans (h : MapsApart R root V L s s₁)
    (h' : MapsApart R root V (L.drop (s₁.kmem.taken - s.kmem.taken)) s₁ s₂) (hr : root ∈ R) :
    MapsApart R root V L s s₂ := by
  have hle := h.taken
  have hle' := h'.taken
  obtain ⟨-, hisolated, halone⟩ := h'
  rw [List.drop_drop, show s₁.kmem.taken - s.kmem.taken + (s₂.kmem.taken - s₁.kmem.taken) =
    s₂.kmem.taken - s.kmem.taken by omega] at hisolated halone
  refine ⟨hle.trans hle', hisolated, h.alone.trans halone hr fun q hq => ?_⟩
  refine shrinks (List.drop_subset _ L) ?_ q hq
  rw [show s₂.kmem.taken - s.kmem.taken = s₁.kmem.taken - s.kmem.taken +
    (s₂.kmem.taken - s₁.kmem.taken) by omega, ← List.drop_drop]
  exact List.drop_subset _ _

/-- What the manager keeps besides its memory does not matter. -/
theorem MapsApart.of_kmem (h : MapsApart R root V L s s₁) (hkmem : s₂.kmem = s₁.kmem) :
    MapsApart R root V L s s₂ := by
  obtain ⟨htaken, hisolated, halone⟩ := h
  refine ⟨hkmem ▸ htaken, hkmem ▸ hisolated, ?_⟩
  rw [show s₂.phys = s₁.phys from congrArg Kmem.phys hkmem, hkmem]
  exact halone

/-! ## One page -/

/-- **`paging_addr_create`** -/
theorem MapsApart.create (h : Isolated s.kmem R L) (hr : root ∈ R) (hva : va ∈ privateAddresses)
    (henough : (mmanPagingAddrCreate s root va 3).1.kmem.taken ≤ s.kmem.taken + L.length) :
    MapsApart R root V L s (mmanPagingAddrCreate s root va 3).1 ∧
      ∃ t, tableAt (mmanPagingAddrCreate s root va 3).1.phys root va 3 = some t ∧
        (mmanPagingAddrCreate s root va 3).2 = cell t va 3 := by
  obtain ⟨hkept, haddr⟩ := pagingAddrCreate_rule Mman.phys Mman.newTable root va 3
    (fun s' => MapsApart R root V L s s') (fun s' => s'.kmem.taken ≤ s.kmem.taken + L.length)
    (.refl h) (fun s' _ hgood => (Nat.le_succ s'.kmem.taken).trans hgood)
    (by
      intro s' i pa hkept hi hpa hnext hgood
      have htab := hkept.isolated.tables root hr
      have hwalk : ∀ d ≤ 3, kmemPagingAddr s'.phys root va d =
          (tableAt s'.phys root va d).map (cell · va d) := fun d hd => htab.kmemPagingAddr hva hd
      rw [hwalk i (by omega), Option.map_eq_some_iff] at hpa
      obtain ⟨t, ht, rfl⟩ := hpa
      have habs : ¬ Present (s'.phys (cell t va i)) := by
        intro hpres
        rw [hwalk (i + 1) (by omega), Option.map_eq_none_iff] at hnext
        have := tableAt_succ_iff.mpr ⟨t, ht, hpres, htab.small va hva i hi t ht hpres, rfl⟩
        rw [hnext] at this
        cases this
      have hroom : s'.kmem.taken + 1 ≤ s.kmem.taken + L.length := hgood
      have hle := hkept.taken
      have hlt : s'.kmem.taken - s.kmem.taken < L.length := by omega
      have htaken : (s'.newTable (cell t va i)).kmem.taken = s'.kmem.taken + 1 := by
        rw [newTable_kmem, newTable_taken]
      have hdrop : (L.drop (s'.kmem.taken - s.kmem.taken)).drop
          ((s'.newTable (cell t va i)).kmem.taken - s'.kmem.taken) =
          L.drop (s'.kmem.taken - s.kmem.taken + 1) := by
        rw [List.drop_drop, htaken, Nat.add_sub_cancel_left]
      have hhead := List.drop_eq_getElem_cons hlt
      have hisolated := hkept.isolated
      rw [hhead] at hisolated
      obtain ⟨hlinked, halone, hnew⟩ := hisolated.link (V := V) hr hva hi ht habs
      refine ⟨hkept.trans ⟨htaken ▸ Nat.le_succ _, ?_, ?_⟩ hr, _, kmemPagingAddr_of_table hnew⟩
      · rw [hdrop]
        exact hlinked
      · rw [hdrop, hhead]
        exact halone)
    henough
  refine ⟨hkept, ?_⟩
  have htab : Tables (pagingAddrCreate Mman.phys Mman.newTable s root va 3).1.phys R root
      privateAddresses := hkept.isolated.tables root hr
  rw [htab.kmemPagingAddr hva le_rfl, Option.map_eq_some_iff] at haddr
  obtain ⟨t, ht, heq⟩ := haddr
  exact ⟨t, ht, heq.symm⟩

/-- A creation, and a write of its entry. -/
theorem MapsApart.write {t : Word} (h : MapsApart R root V L s s₁) (hr : root ∈ R)
    (hva : va ∈ privateAddresses) (hV : va ∈ V) (ht : tableAt s₁.phys root va 3 = some t)
    (entry : Word) : MapsApart R root V L s (s₁.write (cell t va 3) entry) := by
  obtain ⟨hisolated, halone, -⟩ := h.isolated.leaf hr hva hV ht entry
  refine h.trans ⟨le_rfl, ?_, ?_⟩ hr
  · rw [write_taken, Nat.sub_self, List.drop_zero]
    exact hisolated
  · rw [write_taken, Nat.sub_self, List.drop_zero]
    exact halone

/-- `mman_anonymous`, one page. -/
theorem MapsApart.anonymous (h : Isolated s.kmem R L) (hr : root ∈ R) (hva : va ∈ privateAddresses)
    (hV : va ∈ V)
    (henough : (anonymousPage root s va).kmem.taken ≤ s.kmem.taken + L.length) :
    MapsApart R root V L s (anonymousPage root s va) := by
  have htaken : (anonymousPage root s va).kmem.taken =
      (mmanPagingAddrCreate s root va 3).1.kmem.taken + 1 := rfl
  obtain ⟨hkept, t, ht, haddr⟩ := MapsApart.create (V := V) h hr hva (by omega)
  have hle := hkept.taken
  have hpage : MapsApart R root V L s (mmanPagingAddrCreate s root va 3).1.getpage.1 := by
    refine hkept.trans ⟨Nat.le_succ _, ?_, LeavesAlone.refl R root V _ _ _⟩ hr
    have hisolated := hkept.isolated
    rw [List.drop_eq_getElem_cons (by omega)] at hisolated
    rw [getpage_taken, Nat.add_sub_cancel_left, List.drop_drop]
    exact hisolated.getpage
  have hwrite := hpage.write hr hva hV ht
    ((mmanPagingAddrCreate s root va 3).1.getpage.2 ||| kmemMapData)
  rw [← haddr] at hwrite
  exact hwrite.of_kmem rfl

/-- `mman_physical`, one page. -/
theorem MapsApart.physical (h : Isolated s.kmem R L) (hr : root ∈ R) (hva : va ∈ privateAddresses)
    (hV : va ∈ V) {paddress : Word}
    (henough : (physicalPage root s va paddress).kmem.taken ≤ s.kmem.taken + L.length) :
    MapsApart R root V L s (physicalPage root s va paddress) := by
  obtain ⟨hkept, t, ht, haddr⟩ := MapsApart.create (V := V) h hr hva henough
  have hwrite := hkept.write hr hva hV ht (paddress ||| kmemMapData)
  rw [← haddr] at hwrite
  exact hwrite

/-- `mman_mirror`, one page of a source whose walk is complete. -/
theorem MapsApart.mirror (h : Isolated s.kmem R L) (hr : root ∈ R) (hva : va ∈ privateAddresses)
    (hV : va ∈ V) {sroot sva st : Word} (hsroot : sroot ∈ R)
    (hst : tableAt s.phys sroot sva 3 = some st)
    (henough : (mirrorPage root sroot s va sva).kmem.taken ≤ s.kmem.taken + L.length) :
    MapsApart R root V L s (mirrorPage root sroot s va sva) := by
  obtain ⟨hkept, t, ht, haddr⟩ := MapsApart.create (V := V) h hr hva
    ((create_taken _ sroot sva 3).trans henough)
  have hst₁ := hkept.alone.grown sroot hsroot sva 3 st hst
  have hwrite := hkept.write hr hva hV ht
    ((mmanPagingAddrCreate s root va 3).1.phys (cell st sva 3))
  rw [← haddr] at hwrite
  apply hwrite.of_kmem
  simp only [mirrorPage, mmanPagingAddrCreate_of_table hst₁]
  rfl

/-! ## All pages -/

/-- **The mapping loops.** -/
theorem MapsApart.loop {size : Word} (body : Mman → Word → Mman) (h : Isolated s.kmem R L)
    (hr : root ∈ R) (hmono : ∀ s off, s.kmem.taken ≤ (body s off).kmem.taken)
    (hpage : ∀ i < size.toNat / 0x1000, ∀ s', MapsApart R root V L s s' → ∀ L',
      Isolated s'.kmem R L' →
      (body s' (BitVec.ofNat 64 i * 0x1000)).kmem.taken ≤ s'.kmem.taken + L'.length →
      MapsApart R root V L' s' (body s' (BitVec.ofNat 64 i * 0x1000)))
    (henough : (forPages size body s).kmem.taken ≤ s.kmem.taken + L.length) :
    MapsApart R root V L s (forPages size body s) := by
  refine forPages_rule size body s (fun _ s' => MapsApart R root V L s s')
    (fun s' => s'.kmem.taken ≤ s.kmem.taken + L.length) (.refl h)
    (fun s' off hgood => (hmono s' off).trans hgood) ?_ henough
  intro i s' hi hkept hgood
  have hle := hkept.taken
  refine hkept.trans (hpage i hi s' hkept _ hkept.isolated ?_) hr
  have hroom := (hmono s' (BitVec.ofNat 64 i * 0x1000)).trans hgood
  rw [List.length_drop]
  omega

section
variable {id : Nat} {address size : Word}

theorem mmanAnonymous_apart (h : Isolated s.kmem R L)
    (hr : s.rootAddress id ≠ 0 → s.rootAddress id ∈ R)
    (hV : pagesOf address size ⊆ privateAddresses)
    (henough : (mmanAnonymous s id address size).1.kmem.taken ≤ s.kmem.taken + L.length) :
    MapsApart R (s.rootAddress id) (pagesOf address size) L s
      (mmanAnonymous s id address size).1 := by
  simp only [mmanAnonymous] at henough ⊢
  split_ifs at henough ⊢ with h₀ h₁ h₂
  · exact .refl h
  · exact .refl h
  · exact .refl h
  · apply MapsApart.loop _ h (hr h₀) (fun s' off => anonymousPage_taken _ s' (address + off)) _
      henough
    intro i hi s' _ L' h' hgood
    exact MapsApart.anonymous h' (hr h₀) (hV (mem_pagesOf hi)) (mem_pagesOf hi) hgood

theorem mmanPhysical_apart {paddress : Word} (h : Isolated s.kmem R L)
    (hr : s.rootAddress id ≠ 0 → s.rootAddress id ∈ R)
    (hV : pagesOf address size ⊆ privateAddresses)
    (henough : (mmanPhysical s id address paddress size).1.kmem.taken ≤ s.kmem.taken + L.length) :
    MapsApart R (s.rootAddress id) (pagesOf address size) L s
      (mmanPhysical s id address paddress size).1 := by
  simp only [mmanPhysical] at henough ⊢
  split_ifs at henough ⊢ with h₀ h₁ h₂ h₃
  · exact .refl h
  · exact .refl h
  · exact .refl h
  · exact .refl h
  · apply MapsApart.loop _ h (hr h₀) (fun s' off => physicalPage_taken _ s' (address + off) _) _
      henough
    intro i hi s' _ L' h' hgood
    exact MapsApart.physical h' (hr h₀) (hV (mem_pagesOf hi)) (mem_pagesOf hi) hgood

/-- Off the slot of the physical memory map, what is found to be mapped has a last table. -/
theorem Isolated.table_of_isMapped (h : Isolated s.kmem R L) (hr : root ∈ R)
    (hslot : pagingIndex va 0 ≠ 384) (hmapped : isMapped s.phys root va = true) :
    ∃ t, tableAt s.phys root va 3 = some t := by
  by_cases hwindow : InWindow va
  · exact h.windows root hr va hwindow
  · obtain ⟨t, ht, -⟩ := (isMapped_iff ((h.tables root hr).small va ⟨hslot, hwindow⟩)).mp hmapped
    exact ⟨t, ht⟩

theorem mmanMirror_apart {srootId : Nat} {saddress : Word} (h : Isolated s.kmem R L)
    (hr : ∀ i, s.rootAddress i ≠ 0 → s.rootAddress i ∈ R)
    (hV : pagesOf address size ⊆ privateAddresses)
    (hslot : ∀ va ∈ pagesOf saddress size, pagingIndex va 0 ≠ 384)
    (henough : (mmanMirror s id address srootId saddress size).1.kmem.taken ≤
      s.kmem.taken + L.length) :
    MapsApart R (s.rootAddress id) (pagesOf address size) L s
      (mmanMirror s id address srootId saddress size).1 := by
  by_cases hret : (mmanMirror s id address srootId saddress size).2 = 0
  · obtain ⟨-, hall, hrun⟩ := mmanMirror_success hret
    obtain ⟨h₀, hs₀⟩ := mmanMirror_known hret
    rw [hrun] at henough ⊢
    apply MapsApart.loop _ h (hr id h₀)
      (fun s' off => mirrorPage_taken _ _ s' (address + off) (saddress + off)) _ henough
    intro i hi s' hkept L' h' hgood
    obtain ⟨t, ht⟩ := h.table_of_isMapped (hr srootId hs₀) (hslot _ (mem_pagesOf hi))
      (isMapped_of_checkAll rfl hall i hi)
    have ht' := hkept.alone.grown _ (hr srootId hs₀) _ 3 t ht
    exact MapsApart.mirror h' (hr id h₀) (hV (mem_pagesOf hi)) (mem_pagesOf hi) (hr srootId hs₀) ht'
      hgood
  · have hsame : (mmanMirror s id address srootId saddress size).1 = s := by
      simp only [mmanMirror] at hret ⊢
      split_ifs at hret ⊢ <;> first | rfl | exact absurd rfl hret
    rw [hsame]
    exact .refl h

end

/-! ## Unmapping -/

/-- The frame may be let go of: it is not counted, or it is a page that is neither free nor in use
    as a table. -/
def MayLetGo (s : Mman) (R : Set Word) (L : List Word) (p : Word) : Prop :=
  s.pageCount p ≠ 0 → p ≠ 0 ∧ p ∉ L ∧ ∀ r ∈ R, ∀ va d, tableAt s.phys r va d ≠ some p

/-- What an unmapping does to isolated roots: pages go to the free list that were counted before
    and are not any more. -/
structure LetGo (R : Set Word) (root : Word) (V : Set Word) (L L' : List Word) (s s' : Mman) :
    Prop where
  isolated : Isolated s'.kmem R L'
  alone : LeavesAlone R root V L L' s.phys s'.phys
  list : L ⊆ L'
  counted : ∀ p, s'.pageCount p ≠ 0 → s.pageCount p ≠ 0 ∧ (p ∈ L' → p ∈ L)
  tables : ∀ r ∈ R, ∀ va d, tableAt s'.phys r va d = tableAt s.phys r va d
  entries : ∀ va t, tableAt s.phys root va 3 = some t → Present (s'.phys (cell t va 3)) →
    s'.phys (cell t va 3) = s.phys (cell t va 3)

section
variable {L' : List Word} {p : Word}

theorem LetGo.refl (h : Isolated s.kmem R L) : LetGo R root V L L s s where
  isolated := h
  alone := LeavesAlone.refl R root V L L s.phys
  list := List.Subset.refl L
  counted := fun _ hp => ⟨hp, fun hmem => hmem⟩
  tables := fun _ _ _ _ => rfl
  entries := fun _ _ _ _ => rfl

/-- `decrement_page` -/
theorem LetGo.decrement (h : LetGo R root V L L' s s₁) (hr : root ∈ R) (hp : IsFrame p)
    (hmay : MayLetGo s R L p) : ∃ L'', LetGo R root V L L'' s (decrementPage s₁ p) := by
  obtain ⟨hcount, hkmem⟩ := decrementPage_spec s₁ p
  by_cases hone : s₁.pageCount p = 1
  · rw [if_pos hone] at hkmem
    obtain ⟨hcounted, hback⟩ := h.counted p (by omega)
    obtain ⟨h₀, hL, hunused⟩ := hmay hcounted
    have hphys : (decrementPage s₁ p).phys = (kmemUnuse s₁.kmem p).phys := congrArg Kmem.phys hkmem
    have hL' : p ∉ L' := fun hmem => hL (hback hmem)
    obtain ⟨hisolated, halone, hsame⟩ := h.isolated.unuse root V hp h₀ hL' (by
      intro r hr va d ht
      exact hunused r hr va d ((h.tables r hr va d).symm.trans ht))
    rw [← hphys] at halone hsame
    rw [← hkmem] at hisolated
    have htables : ∀ r ∈ R, ∀ va d, tableAt (decrementPage s₁ p).phys r va d =
        tableAt s₁.phys r va d :=
      fun r hr va d => (translate_of_agree (hsame r hr va)).1 d
    refine ⟨p :: L', hisolated, h.alone.trans halone hr ?_, ?_, ?_, ?_, ?_⟩
    · exact grows h.list (List.subset_cons_self p L')
    · exact List.Subset.trans h.list (List.subset_cons_self p L')
    · intro q hq
      rw [hcount] at hq
      have hpq : p ≠ q := by
        rintro rfl
        rw [if_pos rfl, hone] at hq
        exact hq rfl
      obtain ⟨hq₀, hqL⟩ := h.counted q (by omega)
      refine ⟨hq₀, fun hmem => hqL ?_⟩
      exact List.mem_of_ne_of_mem hpq.symm hmem
    · exact fun r hr va d => (htables r hr va d).trans (h.tables r hr va d)
    · intro va t ht hpres
      have ht₁ := (h.tables root hr va 3).trans ht
      rw [hsame root hr va 3 t ht₁] at hpres ⊢
      exact h.entries va t ht hpres
  · rw [if_neg hone] at hkmem
    have hphys : (decrementPage s₁ p).phys = s₁.phys := congrArg Kmem.phys hkmem
    refine ⟨L', hkmem ▸ h.isolated, hphys ▸ h.alone, h.list, fun q hq => ?_, hphys ▸ h.tables,
      hphys ▸ h.entries⟩
    rw [hcount] at hq
    exact h.counted q (by omega)

/-- The entry is cleared. -/
theorem LetGo.clear {t : Word} (h : LetGo R root V L L' s s₁) (hr : root ∈ R)
    (hva : va ∈ privateAddresses) (hV : va ∈ V) (ht : tableAt s₁.phys root va 3 = some t) :
    LetGo R root V L L' s (s₁.write (cell t va 3) 0) := by
  obtain ⟨hisolated, halone, htables⟩ := h.isolated.leaf hr hva hV ht 0
  refine ⟨hisolated, h.alone.trans halone hr ?_, h.list, h.counted, ?_, ?_⟩
  · exact grows h.list (List.Subset.refl L')
  · exact fun r hr va d => (htables r hr va d).trans (h.tables r hr va d)
  · intro va' t' ht' hpres
    rw [write_phys] at hpres ⊢
    by_cases hcell : cell t' va' 3 = cell t va 3
    · rw [hcell, Function.update_self] at hpres
      exact absurd hpres (by decide)
    · rw [Function.update_of_ne hcell] at hpres ⊢
      exact h.entries va' t' ht' hpres

/-- `mman_unmap`, one page. -/
theorem LetGo.unmap (h : LetGo R root V L L' s s₁) (hr : root ∈ R) (hva : va ∈ privateAddresses)
    (hV : va ∈ V) (hmay : ∀ entry, mapping s.phys root va = some entry →
      MayLetGo s R L (entry &&& kmemFrameMask)) :
    ∃ L'', LetGo R root V L L'' s (onEntry root unmapEntry s₁ va) := by
  have haddr := (h.isolated.tables root hr).kmemPagingAddr hva le_rfl
  have hsame : onEntry root unmapEntry s₁ va = s₁ →
      ∃ L'', LetGo R root V L L'' s (onEntry root unmapEntry s₁ va) := by
    intro heq
    rw [heq]
    exact ⟨L', h⟩
  cases ht : tableAt s₁.kmem.phys root va 3 with
  | none =>
    rw [ht, Option.map_none] at haddr
    apply hsame
    simp only [onEntry, Mman.phys, haddr]
  | some t =>
    rw [ht, Option.map_some] at haddr
    have hold : tableAt s.phys root va 3 = some t := (h.tables root hr va 3).symm.trans ht
    by_cases hpres : Present (s₁.phys (cell t va 3))
    · have hrun : onEntry root unmapEntry s₁ va =
          (decrementPage s₁ (s₁.phys (cell t va 3) &&& kmemFrameMask)).write (cell t va 3) 0 := by
        simp only [onEntry, Mman.phys, haddr]
        exact if_pos hpres
      have hentry := h.entries va t hold hpres
      rw [hrun, hentry]
      obtain ⟨L'', hgone⟩ := h.decrement hr (isFrame_and _)
        (hmay _ (mapping_of_table hold (hentry ▸ hpres)))
      exact ⟨L'', hgone.clear hr hva hV ((hgone.tables root hr va 3).trans hold)⟩
    · apply hsame
      simp only [onEntry, Mman.phys, haddr]
      exact if_neg hpres

theorem mmanUnmap_letGo {id : Nat} {address size : Word} (h : Isolated s.kmem R L)
    (hr : s.rootAddress id ≠ 0 → s.rootAddress id ∈ R)
    (hV : pagesOf address size ⊆ privateAddresses)
    (hmay : ∀ va ∈ pagesOf address size, ∀ entry,
      mapping s.phys (s.rootAddress id) va = some entry →
        MayLetGo s R L (entry &&& kmemFrameMask)) :
    ∃ L', LetGo R (s.rootAddress id) (pagesOf address size) L L' s
      (mmanUnmap s id address size).1 := by
  simp only [mmanUnmap, onEntries]
  split_ifs with h₀ h₁ h₂
  · exact ⟨L, .refl h⟩
  · exact ⟨L, .refl h⟩
  · exact ⟨L, .refl h⟩
  · refine forPages_rule size
      (fun s' off => onEntry (s.rootAddress id) unmapEntry s' (address + off)) s
      (fun _ s' => ∃ L', LetGo R (s.rootAddress id) (pagesOf address size) L L' s s')
      (fun _ => True) ⟨L, .refl h⟩ (fun _ _ _ => trivial) ?_ trivial
    intro i s' hi hgone _
    obtain ⟨L', hgone⟩ := hgone
    have hmem : nthPage address i ∈ pagesOf address size := mem_pagesOf hi
    exact hgone.unmap (hr h₀) (hV hmem) hmem (hmay _ hmem)

end

end

end Refk
