import Refk.Klib.Refs

/-!
# What the kernel's writes do to the references

The kernel takes pages from the free list, links them into its tables, writes level-3 entries
and gives pages back. `Layout` is what keeps these apart: nothing free is referred to, and
everything referred to is well formed. Each lemma says that one write keeps it and what
becomes of the references and of the tables met.

All writes are at entries of a table that is met once, which is what makes the entry one
reference, or none.
-/

namespace Refk

open Lib

/-- The free list `L` and the tables under `R`, apart from each other. -/
structure Layout (k : Kmem) (loose : Word → Bool) (R L : List Word) : Prop where
  pages : FreePages k L
  frames : ∀ p ∈ L, IsFrame p
  nodup : L.Nodup
  unused : ∀ p ∈ L, references loose k.phys R p = 0
  roots : ∀ r ∈ R, IsFrame r ∧ r ≠ 0
  sane : total walked (illFormed loose) (entries k.phys) 4 R = 0

/-- Entries that are present at tables that are met stay, and so do the tables. -/
structure Kept (R : List Word) (m m' : Phys) : Prop where
  entry : ∀ t i, tablesMet m R t ≠ 0 → i < 512 → Present (m (slotAddr t i)) →
    m' (slotAddr t i) = m (slotAddr t i)
  met : ∀ t, tablesMet m R t ≠ 0 → tablesMet m' R t ≠ 0

theorem Kept.refl (R : List Word) (m : Phys) : Kept R m m := ⟨fun _ _ _ _ _ => rfl, fun _ h => h⟩

theorem Kept.trans {R : List Word} {m₁ m₂ m₃ : Phys} (h : Kept R m₁ m₂) (h' : Kept R m₂ m₃) :
    Kept R m₁ m₃ := by
  refine ⟨fun t i ht hi hp => ?_, fun t ht => h'.met t (h.met t ht)⟩
  have h₁ := h.entry t i ht hi hp
  rw [h'.entry t i (h.met t ht) hi (h₁ ▸ hp), h₁]

section
variable {k : Kmem} {m m' : Phys} {loose : Word → Bool} {R L : List Word} {root r va t p q f : Word} {d : Nat}

theorem Layout.isFrame (h : Layout k loose R L) : ∀ r ∈ R, IsFrame r := fun r hr => (h.roots r hr).1

theorem Layout.ne_zero (h : Layout k loose R L) (hp : p ∈ L) : p ≠ 0 := by
  rintro rfl
  exact h.pages.nil_not_mem hp

theorem Layout.unmet (h : Layout k loose R L) (hp : p ∈ L) : tablesMet k.phys R p = 0 :=
  Nat.eq_zero_of_le_zero (tablesMet_le_references.trans (h.unused p hp).le)

theorem Layout.met (h : Layout k loose R L) (hr : root ∈ R) (hva : pagingIndex va 0 ≠ 384)
    (ht : tableAt k.phys root va d = some t) : tablesMet k.phys R t ≠ 0 :=
  met_of_tableAt h.sane hr hva ht

theorem Layout.kmemPagingAddr (h : Layout k loose R L) (hr : root ∈ R)
    (hva : pagingIndex va 0 ≠ 384) (hd : d ≤ 3) :
    kmemPagingAddr k.phys root va d = (tableAt k.phys root va d).map fun t => cell t va d :=
  kmemPagingAddr_eq fun j hj t ht hpres => not_isPage_of_sane h.sane hr hva (by omega) ht hpres

theorem kept_tableAt (hsane : total walked (illFormed loose) (entries m) 4 R = 0)
    (h : Kept R m m') (hr : root ∈ R) (hva : pagingIndex va 0 ≠ 384)
    (ht : tableAt m root va d = some t) : tableAt m' root va d = some t := by
  induction d generalizing t with
  | zero => exact ht
  | succ d ih =>
    obtain ⟨t₀, ht₀, hpres, hn, heq⟩ := tableAt_succ_iff.mp ht
    refine tableAt_succ_iff.mpr ⟨t₀, ih ht₀, ?_⟩
    have hentry := h.entry t₀ (pagingIndex va d).toNat (met_of_tableAt hsane hr hva ht₀)
      (pagingIndex_lt va d) (by rwa [← cell_eq_slotAddr])
    rw [← cell_eq_slotAddr] at hentry
    rw [hentry]
    exact ⟨hpres, hn, heq⟩

/-- Memories agree but for the entry at the end of a walk: the sums differ by what this entry
    contributes. -/
theorem total_exchange (w w' : Weight Word Nat Word) (m' : Phys) (hR : ∀ r ∈ R, IsFrame r)
    (hsane : total walked (illFormed loose) (entries m) 4 R = 0) (hr : root ∈ R)
    (hva : pagingIndex va 0 ≠ 384) (hd : d ≤ 3) (ht : tableAt m root va d = some t)
    (hone : tablesMet m R t = 1)
    (hsame : ∀ X j, IsFrame X → tablesMet m R X ≠ 0 → j < 512 → slotAddr X j ≠ cell t va d →
      SameAt w w' (entries m) (entries m') X j) :
    total walked w' (entries m') 4 R +
        sumAt walked w (entries m) (3 - d) t (pagingIndex va d).toNat =
      total walked w (entries m) 4 R +
        sumAt walked w' (entries m') (3 - d) t (pagingIndex va d).toNat := by
  have hpath := tableAt_path hsane hr hva ht
  rw [show 4 - d = 3 - d + 1 by omega] at hpath
  refine hpath.replace_total hr (pagingIndex_mem_slots fun h4 => (show d = 0 by omega) ▸ hva)
    hone.le fun X hX n j hj hne => ?_
  have hX' := isFrame_of_met hR hX
  have htf := isFrame_of_met hR (met_of_tableAt hsane hr hva ht)
  refine hsame X j hX' hX (lt_of_mem_slots hj) fun hcell => ?_
  rw [cell_eq_slotAddr, slotAddr_inj hX'.aligned htf.aligned (lt_of_mem_slots hj)
    (pagingIndex_lt va d)] at hcell
  rcases hne with h | h
  · exact h hcell.1
  · exact h hcell.2

/-! ## Taking and giving back -/

/-- A page is off the list. -/
theorem Layout.take (h : Layout k loose R (p :: L)) : Layout (kmemGetpage k).1 loose R L where
  pages := h.pages.getpage
  frames q hq := h.frames q (List.mem_cons_of_mem _ hq)
  nodup := (List.nodup_cons.mp h.nodup).2
  unused q hq := h.unused q (List.mem_cons_of_mem _ hq)
  roots := h.roots
  sane := h.sane

/-- A page that nothing refers to is put back. -/
theorem Layout.unuse (h : Layout k loose R L) (hf : IsFrame f) (h₀ : f ≠ 0)
    (href : references loose k.phys R f = 0) (hmem : f ∉ L) :
    Layout (kmemUnuse k f) loose R (f :: L) ∧
    (∀ q, references loose (kmemUnuse k f).phys R q = references loose k.phys R q) ∧
    ∀ t, tablesMet (kmemUnuse k f).phys R t = tablesMet k.phys R t := by
  have hmet : tablesMet k.phys R f = 0 :=
    Nat.eq_zero_of_le_zero (tablesMet_le_references.trans href.le)
  have hoff : AgreeOff f k.phys (kmemUnuse k f).phys := agreeOff_update hf.aligned
  have hrefs : ∀ q, references loose (kmemUnuse k f).phys R q = references loose k.phys R q :=
    fun q => hoff.references_eq h.isFrame hmet
  refine ⟨⟨h.pages.unuse h₀ hmem, ?_, List.nodup_cons.mpr ⟨hmem, h.nodup⟩, ?_, h.roots, ?_⟩, hrefs,
    fun t => hoff.tablesMet_eq h.isFrame hmet⟩
  · simpa [hf] using h.frames
  · simpa [hrefs, href] using h.unused
  · rw [hoff.total_eq h.isFrame hmet]
    exact h.sane

/-! ## Writing an entry -/

/-- **A write to an entry at the end of a walk**, of a table that is met once: what the entry
    contributed is exchanged for what it contributes now. -/
theorem Layout.write (k' : Kmem) (loose' : Word → Bool) {L' : List Word} (h : Layout k loose R L) (hr : root ∈ R)
    (hva : pagingIndex va 0 ≠ 384) (hd : d ≤ 3) (ht : tableAt k.phys root va d = some t)
    (hone : tablesMet k.phys R t = 1)
    (hsame : ∀ X j, IsFrame X → tablesMet k.phys R X ≠ 0 → j < 512 → slotAddr X j ≠ cell t va d →
      k'.phys (slotAddr X j) = k.phys (slotAddr X j))
    (hloose : ∀ c, c ≠ cell t va d → loose' c = loose c)
    (hpages : FreePages k' L') (hsub : L'.Sublist L)
    (hnew : ∀ p ∈ L', sumAt walked (refTo loose' p) (entries k'.phys) (3 - d) t
      (pagingIndex va d).toNat = 0)
    (hwell : sumAt walked (illFormed loose') (entries k'.phys) (3 - d) t
      (pagingIndex va d).toNat = 0) :
    Layout k' loose' R L' ∧
    (∀ q, references loose' k'.phys R q +
        sumAt walked (refTo loose q) (entries k.phys) (3 - d) t (pagingIndex va d).toNat =
      references loose k.phys R q +
        sumAt walked (refTo loose' q) (entries k'.phys) (3 - d) t (pagingIndex va d).toNat) ∧
    ∀ T, tablesMet k'.phys R T +
        sumAt walked (edgesTo walked T) (entries k.phys) (3 - d) t (pagingIndex va d).toNat =
      tablesMet k.phys R T +
        sumAt walked (edgesTo walked T) (entries k'.phys) (3 - d) t (pagingIndex va d).toNat := by
  have hex : ∀ w w' : Weight Word Nat Word, (∀ n X j e, slotAddr X j ≠ cell t va d →
      w' n X j e = w n X j e) → _ := fun w w' hw =>
    total_exchange w w' k'.phys h.isFrame h.sane hr hva hd ht hone
      fun X j hX hmet hj hne =>
        ⟨entries_congr (hsame X j hX hmet hj hne), fun n e _ => hw n X j e hne⟩
  have hrefs : ∀ q, references loose' k'.phys R q +
      sumAt walked (refTo loose q) (entries k.phys) (3 - d) t (pagingIndex va d).toNat =
      references loose k.phys R q +
        sumAt walked (refTo loose' q) (entries k'.phys) (3 - d) t (pagingIndex va d).toNat := by
    intro q
    have := hex (refTo loose q) (refTo loose' q) fun n X j e hne => refTo_congr (hloose _ hne)
    unfold references
    omega
  refine ⟨⟨hpages, fun p hp => h.frames p (hsub.subset hp), h.nodup.sublist hsub, fun p hp => ?_,
    h.roots, ?_⟩, hrefs, fun T => ?_⟩
  · have := hrefs p
    have := hnew p hp
    have := h.unused p (hsub.subset hp)
    omega
  · have := hex (illFormed loose) (illFormed loose') fun n X j e hne =>
      illFormed_congr (hloose _ hne)
    have := h.sane
    omega
  · have := hex (edgesTo walked T) (edgesTo walked T) fun _ _ _ _ _ => rfl
    rw [tablesMet, tablesMet, met_eq, met_eq]
    omega

/-- What a level-3 entry refers to. -/
def leafRef (loose : Word → Bool) (m : Phys) (c q : Word) : Nat :=
  if Present (m c) ∧ frameOf (m c) = q ∧ ¬ loose c then 1 else 0

theorem sumAt_refTo_leaf : sumAt walked (refTo loose q) (entries m) 0 t (pagingIndex va 3).toNat =
    leafRef loose m (cell t va 3) q := by
  rw [leafRef, cell_eq_slotAddr]
  by_cases hp : Present (m (slotAddr t (pagingIndex va 3).toNat))
  · rw [sumAt_some (entries_some.mpr ⟨hp, rfl⟩)]
    simp only [refTo, sumBelow, true_and, Nat.add_zero]
    exact if_congr (and_iff_right hp).symm rfl rfl
  · rw [sumAt_none (entries_none.mpr hp), if_neg fun h => hp h.1]

theorem sumAt_edgesTo_leaf (T : Word) (i : Nat) :
    sumAt walked (edgesTo walked T) (entries m) 0 t i = 0 := by
  cases h : entries m t i with
  | none => exact sumAt_none h
  | some e => simp [sumAt_some h, edgesTo, sumBelow]

/-- The cells of a table that is met are not free. -/
theorem Layout.cell_not_free (h : Layout k loose R L) (hmet : tablesMet k.phys R t ≠ 0) :
    cell t va d ∉ L := fun hmem => by
  have heq := cell_eq_page (isFrame_of_met h.isFrame hmet).aligned (h.frames _ hmem).aligned rfl
  exact hmet (h.unmet (heq ▸ hmem))

/-- **A level-3 entry is written.** -/
theorem Layout.leaf {loose' : Word → Bool} {e : Word} (h : Layout k loose R L) (hr : root ∈ R)
    (hva : pagingIndex va 0 ≠ 384) (ht : tableAt k.phys root va 3 = some t)
    (hone : tablesMet k.phys R t = 1) (hloose : ∀ c, c ≠ cell t va 3 → loose' c = loose c)
    (he : Present e → ¬ loose' (cell t va 3) → frameOf e ≠ 0 ∧ frameOf e ∉ L) :
    Layout { k with phys := Function.update k.phys (cell t va 3) e } loose' R L ∧
    (∀ q, references loose' (Function.update k.phys (cell t va 3) e) R q +
        leafRef loose k.phys (cell t va 3) q =
      references loose k.phys R q +
        leafRef loose' (Function.update k.phys (cell t va 3) e) (cell t va 3) q) ∧
    ∀ T, tablesMet (Function.update k.phys (cell t va 3) e) R T = tablesMet k.phys R T := by
  have hmet := h.met hr hva ht
  have hself : ∀ v, Function.update k.phys (cell t va 3) v (cell t va 3) = v := fun v =>
    Function.update_self ..
  have hwrite := h.write { k with phys := Function.update k.phys (cell t va 3) e }
    loose' hr hva le_rfl ht hone
    (fun X j _ _ _ hne => Function.update_of_ne hne _ _) hloose
    (h.pages.write (h.cell_not_free hmet)) (List.Sublist.refl L)
    (fun p hp => by
      dsimp only
      rw [sumAt_refTo_leaf, leafRef, hself, if_neg]
      rintro ⟨hpres, rfl, hc⟩
      exact (he hpres hc).2 hp)
    (by
      dsimp only
      by_cases hp : Present e
      · have hentry : entries (Function.update k.phys (cell t va 3) e) t
            (pagingIndex va 3).toNat = some e :=
          entries_some.mpr (by rw [← cell_eq_slotAddr, hself]; exact ⟨hp, rfl⟩)
        rw [sumAt_some hentry]
        simp only [illFormed, ← cell_eq_slotAddr, true_and]
        exact if_pos ⟨fun h => absurd h (by omega), fun hc => (he hp hc).1⟩
      · refine sumAt_none (entries_none.mpr ?_)
        rwa [← cell_eq_slotAddr, hself])
  obtain ⟨hlay, hrefs, htabs⟩ := hwrite
  simp only [Nat.sub_self, sumAt_refTo_leaf, sumAt_edgesTo_leaf, Nat.add_zero] at hrefs htabs
  exact ⟨hlay, hrefs, htabs⟩

/-- **A new table is linked** at an absent entry. -/
theorem Layout.link (h : Layout k loose R (p :: L)) (hr : root ∈ R) (hva : pagingIndex va 0 ≠ 384)
    (hd : d < 3) (ht : tableAt k.phys root va d = some t) (hone : tablesMet k.phys R t = 1)
    (habs : ¬ Present (k.phys (cell t va d))) :
    Layout (k.newTable (cell t va d)).1 loose R L ∧
    (∀ q, references loose (k.newTable (cell t va d)).1.phys R q =
      references loose k.phys R q + if p = q then 1 else 0) ∧
    (∀ T, tablesMet (k.newTable (cell t va d)).1.phys R T =
      tablesMet k.phys R T + if p = T then 1 else 0) ∧
    Linked k.phys (k.newTable (cell t va d)).1.phys (cell t va d) p := by
  have hp : IsFrame p := h.frames p (by simp)
  have htf := isFrame_of_met h.isFrame (h.met hr hva ht)
  have htp : t ≠ p := by
    rintro rfl
    exact h.met hr hva ht (h.unmet (by simp))
  have hm : Linked k.phys _ (cell t va d) p := newTable_linked h.pages hp.aligned htf.aligned htp
  have hframe : frameOf (p ||| 0x7) = p := or_and_mask hp (by decide)
  have hentry : entries (k.newTable (cell t va d)).1.phys t (pagingIndex va d).toNat =
      some (p ||| 0x7) := by
    refine entries_some.mpr ?_
    rw [← cell_eq_slotAddr, hm.entry]
    exact ⟨linked_entry_present hp.aligned, rfl⟩
  -- there is nothing below the new table
  have hbelow : ∀ (w : Weight Word Nat Word) n,
      sumBelow walked w (entries (k.newTable (cell t va d)).1.phys) n p = 0 := fun w n =>
    sumBelow_of_empty fun i hi => entries_none.mpr <| by
      obtain ⟨va', -, hi'⟩ := slotAddr_eq_cell (lt_of_mem_slots hi) d p
      rw [hi', hm.zero]
      decide
  have hnew : ∀ w : Weight Word Nat Word,
      sumAt walked w (entries (k.newTable (cell t va d)).1.phys) (3 - d) t
        (pagingIndex va d).toNat = w (3 - d) t (pagingIndex va d).toNat (p ||| 0x7) := fun w => by
    rw [sumAt_some hentry, show walked.target (p ||| 0x7) = p from hframe, hbelow, Nat.add_zero]
  have hold : ∀ w : Weight Word Nat Word,
      sumAt walked w (entries k.phys) (3 - d) t (pagingIndex va d).toNat = 0 := fun w =>
    sumAt_none (entries_none.mpr (by rwa [← cell_eq_slotAddr]))
  have href : ∀ q, refTo loose q (3 - d) t (pagingIndex va d).toNat (p ||| 0x7) =
      if p = q then 1 else 0 := fun q => by
    simp only [refTo, hframe, show ¬ (3 - d = 0) by omega, false_and, not_false_eq_true, and_true]
  obtain ⟨hlay, hrefs, htabs⟩ := h.write (k.newTable (cell t va d)).1 loose hr
    hva hd.le ht hone
    (fun X j hX hmet hj hne => by
      obtain ⟨va', -, hj'⟩ := slotAddr_eq_cell hj d X
      rw [hj'] at hne ⊢
      refine hm.same X va' d hX.aligned ?_ hne
      rintro rfl
      exact hmet (h.unmet (by simp)))
    (fun _ _ => rfl)
    (newTable_free h.pages hp.aligned (fun q hq => (h.frames q (by simp [hq])).aligned) h.nodup
      htf.aligned fun hmem => h.met hr hva ht (h.unmet (by simp [hmem])))
    (List.sublist_cons_self p L)
    (fun q hq => by
      rw [hnew, href, if_neg]
      rintro rfl
      exact (List.nodup_cons.mp h.nodup).1 hq)
    (by
      rw [hnew]
      refine if_pos ⟨fun _ => ⟨?_, fun _ => ?_⟩, fun _ => ?_⟩
      · rw [hframe, linked_entry_frame hp.aligned]
      · rw [hp.aligned.or_and (by decide)]
        decide
      · rw [hframe]
        exact h.ne_zero (by simp))
  refine ⟨hlay, fun q => ?_, fun T => ?_, hm⟩
  · have := hrefs q
    rw [hold, hnew, href] at this
    omega
  · have := htabs T
    rw [hold, hnew] at this
    simp only [edgesTo, show walked.target (p ||| 0x7) = p from hframe,
      show 1 ≤ 3 - d by omega, true_and] at this
    omega

end

end Refk
