import Refk.Klib.Layout

/-!
# Working on a range of addresses

What an operation on the addresses `V` of a root needs in order to count: a `Layout`, and
tables along its walks that belong to this root alone. A creation of intermediate tables and
a write of a level-3 entry keep that, and they keep everything that is present and in use,
which is all that walks elsewhere depend on.
-/

namespace Refk

open Lib

/-- A level-3 entry for `va` is there, and present. -/
def Mapped (m : Phys) (root va : Word) : Prop :=
  ∃ t, tableAt m root va 3 = some t ∧ Present (m (cell t va 3))

/-- The tables along the walks for `V`, down to level `D`, are met once, and `V` is off the
    physical memory map. -/
structure Owned (m : Phys) (R : List Word) (root : Word) (V : Set Word) (D : Nat) : Prop where
  root_mem : root ∈ R
  low : ∀ va ∈ V, pagingIndex va 0 ≠ 384
  own : ∀ va ∈ V, ∀ d ≤ D, ∀ t, tableAt m root va d = some t → tablesMet m R t = 1

/-- Everything that was present and in use still is, and none of the addresses `V` has become
    mapped. -/
structure Grows (R : List Word) (root : Word) (V : Set Word) (m m' : Phys) : Prop where
  kept : Kept R m m'
  mapped : ∀ va ∈ V, Mapped m' root va → Mapped m root va

theorem Grows.refl (R : List Word) (root : Word) (V : Set Word) (m : Phys) : Grows R root V m m :=
  ⟨Kept.refl R m, fun _ _ h => h⟩

theorem Grows.trans {R : List Word} {root : Word} {V : Set Word} {m₁ m₂ m₃ : Phys}
    (h : Grows R root V m₁ m₂) (h' : Grows R root V m₂ m₃) : Grows R root V m₁ m₃ :=
  ⟨h.kept.trans h'.kept, fun va hva hm => h.mapped va hva (h'.mapped va hva hm)⟩

section
variable {k : Kmem} {m m' : Phys} {loose loose' : Word → Bool} {R L : List Word} {root r va t p q f : Word}
  {V : Set Word} {d D : Nat}

theorem Mapped.samePrefix {va' : Word} (h : Mapped m root va) (hpre : SamePrefix 4 va' va) :
    Mapped m root va' := by
  obtain ⟨t, ht, hp⟩ := h
  obtain ⟨hpre, hidx⟩ := samePrefix_succ.mp hpre
  exact ⟨t, by rwa [tableAt_samePrefix hpre], by rwa [cell, hidx, ← cell]⟩

/-- What is mapped stays so. -/
theorem Kept.mapped (h : Kept R m m')
    (hsane : total walked (illFormed loose) (entries m) 4 R = 0) (hr : root ∈ R)
    (hva : pagingIndex va 0 ≠ 384) (ht : tableAt m root va 3 = some t)
    (hpres : Present (m (cell t va 3))) :
    tableAt m' root va 3 = some t ∧ m' (cell t va 3) = m (cell t va 3) := by
  refine ⟨kept_tableAt hsane h hr hva ht, ?_⟩
  rw [cell_eq_slotAddr] at hpres ⊢
  exact h.entry t _ (met_of_tableAt hsane hr hva ht) (pagingIndex_lt va 3) hpres

/-! ## Linking -/

/-- The walks of any root after one table was linked. -/
theorem Layout.tableAt_of_linked (hlay : Layout k loose R (p :: L))
    (hm : Linked k.phys m' (cell t va d) p) {t' va' : Word} {d' : Nat} (hr : r ∈ R)
    (hlow : pagingIndex va' 0 ≠ 384) (h : tableAt m' r va' d' = some t') :
    t' = p ∨ tableAt k.phys r va' d' = some t' := by
  have hp : IsFrame p := hlay.frames p (by simp)
  induction d' generalizing t' with
  | zero => exact .inr h
  | succ d' ih =>
    obtain ⟨t₀, ht₀, hpres, hn, rfl⟩ := tableAt_succ_iff.mp h
    rcases ih ht₀ with rfl | hold
    · -- the new table is empty
      exact absurd (hm.zero va' d') fun h₀ => hpres (by rw [h₀]; decide)
    · have hmet := hlay.met hr hlow hold
      have hal := (isFrame_of_met hlay.isFrame hmet).aligned
      by_cases hcell : cell t₀ va' d' = cell t va d
      · rw [hcell, hm.entry]
        exact .inl (linked_entry_frame hp.aligned)
      · have hsame := hm.same t₀ va' d' hal (by rintro rfl; exact hmet (hlay.unmet (by simp))) hcell
        rw [hsame] at hpres hn ⊢
        exact .inr (tableAt_succ_iff.mpr ⟨t₀, hold, hpres, hn, rfl⟩)

/-- What is mapped in any root after a table was linked above level 3 was mapped before. -/
theorem Layout.mapped_of_linked (hlay : Layout k loose R (p :: L))
    (hm : Linked k.phys m' (cell t va d) p) (hroot : root ∈ R) (hva : pagingIndex va 0 ≠ 384)
    (ht : tableAt k.phys root va d = some t) (hone : tablesMet k.phys R t = 1) (hd : d < 3)
    {va' : Word} (hr : r ∈ R) (hlow : pagingIndex va' 0 ≠ 384) (h : Mapped m' r va') :
    Mapped k.phys r va' := by
  have htf := isFrame_of_met hlay.isFrame (hlay.met hroot hva ht)
  obtain ⟨t', ht', hpres⟩ := h
  rcases hlay.tableAt_of_linked hm hr hlow ht' with rfl | hold
  · exact absurd (hm.zero va' 3) fun h₀ => hpres (by rw [h₀]; decide)
  · have hmet := hlay.met hr hlow hold
    refine ⟨t', hold, ?_⟩
    rwa [hm.same t' va' 3 (isFrame_of_met hlay.isFrame hmet).aligned ?_ ?_] at hpres
    · rintro rfl
      exact hmet (hlay.unmet (by simp))
    · -- the linked entry is above level 3
      intro hcell
      obtain ⟨rfl, -⟩ := (cell_inj (isFrame_of_met hlay.isFrame hmet).aligned htf.aligned).mp hcell
      have := (tableAt_unique hlay.sane hr hroot hlow hva hold ht hone).2.1
      omega

/-- **One link**: it takes a page, which is now referred to once, and maps nothing. -/
theorem Owned.link (hown : Owned k.phys R root V D) (hlay : Layout k loose R (p :: L)) (hva : va ∈ V)
    (hd : d < 3) (hD : d ≤ D) (ht : tableAt k.phys root va d = some t)
    (habs : ¬ Present (k.phys (cell t va d))) :
    Layout (k.newTable (cell t va d)).1 loose R L ∧
    Owned (k.newTable (cell t va d)).1.phys R root V D ∧
    Grows R root V k.phys (k.newTable (cell t va d)).1.phys ∧
    (∀ q, references loose (k.newTable (cell t va d)).1.phys R q =
      references loose k.phys R q + if p = q then 1 else 0) ∧
    tableAt (k.newTable (cell t va d)).1.phys root va (d + 1) = some p := by
  have hone := hown.own va hva d hD t ht
  have hr := hown.root_mem
  have hlow := hown.low va hva
  have hp : IsFrame p := hlay.frames p (by simp)
  have hpmet : tablesMet k.phys R p = 0 := hlay.unmet (by simp)
  have htf := isFrame_of_met hlay.isFrame (hlay.met hr hlow ht)
  obtain ⟨hlay', hrefs, htabs, hm⟩ := hlay.link hr hlow hd ht hone habs
  have hkept : Kept R k.phys (k.newTable (cell t va d)).1.phys := by
    refine ⟨fun t' i hmet hi hpres => ?_, fun t' hmet => by rw [htabs]; omega⟩
    obtain ⟨va', -, hi'⟩ := slotAddr_eq_cell hi d t'
    rw [hi'] at hpres ⊢
    refine hm.same t' va' d (isFrame_of_met hlay.isFrame hmet).aligned ?_ ?_
    · rintro rfl
      exact hmet hpmet
    · intro heq
      exact habs (heq ▸ hpres)
  refine ⟨hlay', ⟨hr, hown.low, fun va' hva' d' hd' t' ht' => ?_⟩, ⟨hkept, ?_⟩, hrefs, ?_⟩
  · rw [htabs]
    rcases hlay.tableAt_of_linked hm hr (hown.low va' hva') ht' with rfl | hold
    · rw [hpmet, if_pos rfl]
    · rw [hown.own va' hva' d' hd' t' hold, if_neg]
      rintro rfl
      exact hlay.met hr (hown.low va' hva') hold hpmet
  · exact fun va' hva' => hlay.mapped_of_linked hm hr hlow ht hone hd hr (hown.low va' hva')
  · refine tableAt_succ_iff.mpr ⟨t, kept_tableAt hlay.sane hkept hr hlow ht, ?_⟩
    rw [hm.entry]
    exact ⟨linked_entry_present hp.aligned, linked_entry_table hp.aligned hd,
      linked_entry_frame hp.aligned⟩

/-! ## Level-3 entries -/

/-- **One level-3 entry**: the tables stay, and only its page is mapped or unmapped. -/
theorem Owned.leaf {e : Word} (hown : Owned k.phys R root V 3) (hlay : Layout k loose R L) (hva : va ∈ V)
    (ht : tableAt k.phys root va 3 = some t)
    (hloose : ∀ c, c ≠ cell t va 3 → loose' c = loose c)
    (he : Present e → ¬ loose' (cell t va 3) → frameOf e ≠ 0 ∧ frameOf e ∉ L) :
    Layout { k with phys := Function.update k.phys (cell t va 3) e } loose' R L ∧
    Owned (Function.update k.phys (cell t va 3) e) R root V 3 ∧
    (∀ q, references loose' (Function.update k.phys (cell t va 3) e) R q +
        leafRef loose k.phys (cell t va 3) q =
      references loose k.phys R q +
        leafRef loose' (Function.update k.phys (cell t va 3) e) (cell t va 3) q) ∧
    (∀ T, tablesMet (Function.update k.phys (cell t va 3) e) R T = tablesMet k.phys R T) ∧
    (∀ r ∈ R, ∀ va', pagingIndex va' 0 ≠ 384 → ∀ d',
      tableAt (Function.update k.phys (cell t va 3) e) r va' d' = tableAt k.phys r va' d') ∧
    ∀ va' ∈ V, ¬ SamePrefix 4 va' va →
      Mapped (Function.update k.phys (cell t va 3) e) root va' → Mapped k.phys root va' := by
  have hone := hown.own va hva 3 le_rfl t ht
  have hr := hown.root_mem
  have hlow := hown.low va hva
  have htf := isFrame_of_met hlay.isFrame (hlay.met hr hlow ht)
  obtain ⟨hlay', hrefs, htabs⟩ := hlay.leaf hr hlow ht hone hloose he
  have htables : ∀ r ∈ R, ∀ va', pagingIndex va' 0 ≠ 384 → ∀ d',
      tableAt (Function.update k.phys (cell t va 3) e) r va' d' = tableAt k.phys r va' d' := by
    intro r hr' va' hva' d'
    rcases Nat.lt_or_ge 3 d' with hgt | hle
    · have hnone : ∀ m : Phys, tableAt m r va' d' = none := fun m =>
        Option.eq_none_iff_forall_ne_some.mpr fun t' h => by
          have := tableAt_le_three h
          omega
      rw [hnone, hnone]
    · refine tableAt_congr fun j hj t' ht' => Function.update_of_ne (fun hcell => ?_) _ _
      have hf := isFrame_of_met hlay.isFrame (hlay.met hr' hva' ht')
      obtain ⟨rfl, -⟩ := (cell_inj hf.aligned htf.aligned).mp hcell
      have := (tableAt_unique hlay.sane hr' hr hva' hlow ht' ht hone).2.1
      omega
  refine ⟨hlay', ⟨hr, hown.low, fun va' hva' d' hd' t' ht' => ?_⟩, hrefs, htabs, htables, ?_⟩
  · rw [htables root hr va' (hown.low va' hva')] at ht'
    rw [htabs]
    exact hown.own va' hva' d' hd' t' ht'
  · rintro va' hva' hnot ⟨t', ht', hpres⟩
    rw [htables root hr va' (hown.low va' hva')] at ht'
    refine ⟨t', ht', ?_⟩
    rwa [Function.update_of_ne] at hpres
    intro hcell
    have hf := isFrame_of_met hlay.isFrame (hlay.met hr (hown.low va' hva') ht')
    obtain ⟨rfl, hidx⟩ := (cell_inj hf.aligned htf.aligned).mp hcell
    have hpre := (tableAt_unique hlay.sane hr hr (hown.low va' hva') hlow ht' ht hone).2.2
    exact hnot (samePrefix_succ.mpr ⟨hpre, hidx⟩)

/-- A write where nothing was present takes nothing away. -/
theorem kept_of_absent {c e : Word} (habs : ¬ Present (m c))
    (hmet : ∀ T, tablesMet (Function.update m c e) R T = tablesMet m R T) :
    Kept R m (Function.update m c e) := by
  refine ⟨fun t' i _ _ hpres => Function.update_of_ne ?_ _ _, fun T hT => by rwa [hmet]⟩
  rintro rfl
  exact habs hpres

end

/-! ## Creating the tables for an address -/

section
variable {σ : Type} {loose : Word → Bool} {R L : List Word} {root va : Word} {V : Set Word}
  {level D : Nat}

/-- **The creation**, for any state that has a `Kmem`: what every link keeps, given what it does
    to the references, holds afterwards, and the walk is complete. -/
theorem create_rule (kmem : σ → Kmem) (newTable : σ → Word → σ)
    (hnew : ∀ s pa, kmem (newTable s pa) = ((kmem s).newTable pa).1)
    (Q : σ → Prop) {s : σ} (hown : Owned (kmem s).phys R root V D)
    (hlay : Layout (kmem s) loose R L) (hva : va ∈ V) (hlevel : level ≤ 3) (hD : level ≤ D) (h₀ : Q s)
    (hQ : ∀ s p t d L', Q s → Layout (kmem s) loose R (p :: L') →
      tableAt (kmem s).phys root va d = some t → tablesMet (kmem s).phys R t = 1 →
      d < level → ¬ Present ((kmem s).phys (cell t va d)) →
      (∀ q, references loose (kmem (newTable s (cell t va d))).phys R q =
        references loose (kmem s).phys R q + if p = q then 1 else 0) → Q (newTable s (cell t va d)))
    (henough : (kmem (pagingAddrCreate (fun s => (kmem s).phys) newTable s root va level).1).taken ≤
      (kmem s).taken + L.length) :
    let s' := (pagingAddrCreate (fun s => (kmem s).phys) newTable s root va level).1
    Layout (kmem s') loose R (L.drop ((kmem s').taken - (kmem s).taken)) ∧
    Owned (kmem s').phys R root V D ∧ Grows R root V (kmem s).phys (kmem s').phys ∧ Q s' ∧
    (kmem s).taken ≤ (kmem s').taken ∧
    ∃ t, tableAt (kmem s').phys root va level = some t ∧
      (pagingAddrCreate (fun s => (kmem s).phys) newTable s root va level).2 = cell t va level := by
  have hlow := hown.low va hva
  have hr := hown.root_mem
  have htaken : ∀ s pa, (kmem (newTable s pa)).taken = (kmem s).taken + 1 := fun s pa => by
    rw [hnew, newTable_taken]
  obtain ⟨⟨hlay', hown', hgrows, hQ', hle⟩, haddr⟩ := pagingAddrCreate_rule
    (fun s => (kmem s).phys) newTable root va level
    (fun s' => Layout (kmem s') loose R (L.drop ((kmem s').taken - (kmem s).taken)) ∧
      Owned (kmem s').phys R root V D ∧ Grows R root V (kmem s).phys (kmem s').phys ∧ Q s' ∧
      (kmem s).taken ≤ (kmem s').taken)
    (fun s' => (kmem s').taken ≤ (kmem s).taken + L.length)
    ⟨by simpa using hlay, hown, Grows.refl R root V _, h₀, le_rfl⟩
    (fun s' pa h => by
      rw [htaken] at h
      omega)
    (by
      rintro s' i pa ⟨hlay', hown', hgrows, hQs, hle⟩ hi hpa hnext hgood
      rw [hlay'.kmemPagingAddr hr hlow (by omega), Option.map_eq_some_iff] at hpa
      obtain ⟨t, ht, rfl⟩ := hpa
      have habs : ¬ Present ((kmem s').phys (cell t va i)) := fun hpres => by
        rw [hlay'.kmemPagingAddr hr hlow (by omega), Option.map_eq_none_iff] at hnext
        have := tableAt_succ_iff.mpr
          ⟨t, ht, hpres, not_isPage_of_sane hlay'.sane hr hlow (by omega) ht hpres, rfl⟩
        rw [hnext] at this
        cases this
      rw [htaken] at hgood
      have hlt : (kmem s').taken - (kmem s).taken < L.length := by omega
      rw [List.drop_eq_getElem_cons hlt] at hlay'
      obtain ⟨hlay'', hown'', hgrows', hrefs, htable⟩ :=
        hown'.link hlay' hva (by omega) (by omega) ht habs
      rw [← hnew] at hlay'' hown'' hgrows' hrefs htable
      have haddr := hlay''.kmemPagingAddr hr hlow (d := i + 1) (by omega)
      rw [htable] at haddr
      refine ⟨⟨?_, hown'', hgrows.trans hgrows', ?_, ?_⟩, _, haddr⟩
      · rwa [htaken, show (kmem s').taken + 1 - (kmem s).taken =
          (kmem s').taken - (kmem s).taken + 1 by omega]
      · exact hQ s' _ t i _ hQs hlay' ht (hown'.own va hva i (by omega) t ht) hi habs hrefs
      · rw [htaken]
        omega)
    henough
  rw [hlay'.kmemPagingAddr hr hlow hlevel, Option.map_eq_some_iff] at haddr
  obtain ⟨t, ht, heq⟩ := haddr
  exact ⟨hlay', hown', hgrows, hQ', hle, t, ht, heq.symm⟩

end

end Refk
