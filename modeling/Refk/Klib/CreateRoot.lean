import Refk.Klib.Work

/-!
# `kmem_create_root`

A new root shares the kernel's windows with the root it is made from: it gets tables of its
own down to level 2, and there the entries of the current root. The new tables are taken off
the free list, and what is below the copied entries is now met once more. Nothing that the
old roots lead to has changed.
-/

namespace Refk

open Lib

/-- The windows that every root shares, but for the physical memory map. -/
def windows : List Word := [taskBase, descBase, kmemBaseAddr, statusBase]

theorem windows_low : ∀ va ∈ windows, pagingIndex va 0 ≠ 384 := by
  intro va hva h
  have hidx := toNat_pagingIndex va 0
  rw [h] at hidx
  simp only [windows, List.mem_cons, List.not_mem_nil, or_false] at hva
  rcases hva with rfl | rfl | rfl | rfl <;> exact absurd hidx (by decide)

theorem pagingIndex_phyMapBase : pagingIndex phyMapBase 0 = 384 := by
  rw [← BitVec.toNat_inj, toNat_pagingIndex]
  rfl

/-- Everything that is met from `R` has the entries it had. -/
def Untouched (R : List Word) (m m' : Phys) : Prop :=
  ∀ X i, tablesMet m R X ≠ 0 → i < 512 → m' (slotAddr X i) = m (slotAddr X i)

section
variable {m m' m'' : Phys} {R : List Word} {loose : Word → Bool} {root va t q : Word} {d : Nat}
  {w : Weight Word Nat Word}

theorem Untouched.total_eq (h : Untouched R m m') :
    total walked w (entries m') 4 R = total walked w (entries m) 4 R :=
  total_congr fun X hX _ j hj => ⟨entries_congr (h X j hX (lt_of_mem_slots hj)), fun _ _ _ => rfl⟩

theorem Untouched.references_eq (h : Untouched R m m') :
    references loose m' R q = references loose m R q := by
  rw [references, references, h.total_eq]

theorem Untouched.tablesMet_eq (h : Untouched R m m') : tablesMet m' R t = tablesMet m R t := by
  rw [tablesMet, tablesMet, met_eq, met_eq, h.total_eq]

theorem Untouched.trans (h : Untouched R m m') (h' : Untouched R m' m'') : Untouched R m m'' :=
  fun X i hX hi => (h' X i (by rwa [h.tablesMet_eq]) hi).trans (h X i hX hi)

theorem Untouched.tableAt_eq (h : Untouched R m m')
    (hsane : total walked (illFormed loose) (entries m) 4 R = 0) (hr : root ∈ R)
    (hva : pagingIndex va 0 ≠ 384) : tableAt m' root va d = tableAt m root va d :=
  tableAt_congr fun k _ t ht => by
    rw [cell_eq_slotAddr]
    exact h t _ (met_of_tableAt hsane hr hva ht) (pagingIndex_lt va k)

theorem AgreeOff.untouched {p : Word} (h : AgreeOff p m m') (hR : ∀ r ∈ R, IsFrame r)
    (hp : tablesMet m R p = 0) : Untouched R m m' := by
  intro X i hX hi
  refine h X i (isFrame_of_met hR hX) ?_ hi
  rintro rfl
  exact hX hp

end

section
variable {k : Kmem} {m : Phys} {loose : Word → Bool} {R L : List Word} {root ret cur va t p q : Word}
  {V : Set Word}

/-! ## An empty root -/

/-- A free page, made a root that has nothing in it but a physical memory map. -/
theorem Layout.newRoot {D : Nat} (h : Layout k loose R (ret :: L)) (hoff : AgreeOff ret k.phys m)
    (hempty : ∀ i ∈ walked.slots 4, m (slotAddr ret i) = 0)
    (hlow : ∀ va ∈ V, pagingIndex va 0 ≠ 384) :
    Layout { (kmemGetpage k).1 with phys := m } loose (ret :: R) L ∧
    (∀ q, references loose m (ret :: R) q = references loose k.phys R q + if ret = q then 1 else 0) ∧
    Owned m (ret :: R) ret V D := by
  have hret : IsFrame ret := h.frames ret (by simp)
  have hmet : tablesMet k.phys R ret = 0 := h.unmet (by simp)
  have hun : Untouched R k.phys m := hoff.untouched h.isFrame hmet
  have hnone : ∀ i ∈ walked.slots 4, entries m ret i = none := fun i hi =>
    entries_none.mpr (by rw [hempty i hi]; decide)
  have hbelow : ∀ w : Weight Word Nat Word, sumBelow walked w (entries m) 4 ret = 0 := fun w =>
    sumBelow_of_empty hnone
  have hrefs : ∀ q, references loose m (ret :: R) q =
      references loose k.phys R q + if ret = q then 1 else 0 := fun q => by
    rw [references, total_cons, hbelow, Nat.zero_add, ← hun.references_eq, references,
      List.count_cons]
    simp only [beq_iff_eq]
    omega
  have hmetroot : tablesMet m (ret :: R) ret = 1 := by
    rw [tablesMet, met_cons, ← tablesMet, hun.tablesMet_eq, hmet, visits, hbelow]
    simp
  obtain ⟨hnot, hnd⟩ := List.nodup_cons.mp h.nodup
  refine ⟨⟨?_, fun p hp => h.frames p (by simp [hp]), hnd, fun p hp => ?_, ?_, ?_⟩, hrefs,
    by simp, hlow, fun va hva d _ t ht => ?_⟩
  · refine h.pages.getpage.congr fun p hp => ?_
    have := hoff p 0 (h.frames p (by simp [hp])) (fun heq => hnot (heq ▸ hp)) (by omega)
    rwa [slotAddr_zero] at this
  · rw [hrefs, h.unused p (by simp [hp]), if_neg]
    rintro rfl
    exact hnot hp
  · intro r hr
    rcases List.mem_cons.mp hr with rfl | hr
    · exact ⟨hret, h.ne_zero (by simp)⟩
    · exact h.roots r hr
  · rw [total_cons, hbelow, hun.total_eq, h.sane]
  · cases d with
    | zero =>
      obtain rfl : ret = t := Option.some.inj ht
      exact hmetroot
    | succ d =>
      -- there is nothing below the root
      obtain ⟨t₀, ht₀, hpres, -⟩ := tableAt_above ht (Nat.succ_pos d)
      obtain rfl : ret = t₀ := Option.some.inj ht₀
      rw [cell_eq_slotAddr, hempty _ (pagingIndex_mem_slots fun _ => hlow va hva)] at hpres
      exact absurd hpres (by decide)

/-! ## Copying an entry -/

/-- The entry at level 2 of a walk, as the sums see it wherever it is: its own weight above level
    3 does not depend on its place. -/
theorem sumAt_place {w : Weight Word Nat Word} {m' : Phys} {t' : Word} {n i : Nat}
    (hentry : m' (slotAddr t' i) = m (slotAddr t i)) (hw : ∀ e, w n t' i e = w n t i e)
    (hbelow : Present (m (slotAddr t i)) →
      sumBelow walked w (entries m') n (frameOf (m (slotAddr t i))) =
        sumBelow walked w (entries m) n (frameOf (m (slotAddr t i)))) :
    sumAt walked w (entries m') n t' i = sumAt walked w (entries m) n t i := by
  by_cases hp : Present (m (slotAddr t i))
  · rw [sumAt_some (entries_some.mpr ⟨hentry ▸ hp, hentry⟩), sumAt_some (entries_some.mpr ⟨hp, rfl⟩),
      hw]
    exact congrArg _ (hbelow hp)
  · rw [sumAt_none (entries_none.mpr hp), sumAt_none (entries_none.mpr (by rwa [hentry]))]

/-- **The entry of one root's level-2 table is copied into another's.** -/
theorem Owned.copy {t' : Word} {R' : List Word} (hown : Owned k.phys R' ret V 2)
    (h : Layout k loose R' L) (hc : cur ∈ R') (hva : va ∈ V)
    (ht : tableAt k.phys ret va 2 = some t) (ht' : tableAt k.phys cur va 2 = some t') :
    Layout { k with phys := Function.update k.phys (cell t va 2) (k.phys (cell t' va 2)) } loose R' L ∧
    Owned (Function.update k.phys (cell t va 2) (k.phys (cell t' va 2))) R' ret V 2 ∧
    ∀ q, references loose k.phys R' q = 0 →
      references loose (Function.update k.phys (cell t va 2) (k.phys (cell t' va 2))) R' q = 0 := by
  have hr := hown.root_mem
  have hlow := hown.low va hva
  have hone := hown.own va hva 2 le_rfl t ht
  have htf := isFrame_of_met h.isFrame (h.met hr hlow ht)
  have hslot : (pagingIndex va 2).toNat ∈ walked.slots (1 + 1) :=
    pagingIndex_mem_slots fun hh => absurd hh (by omega)
  -- a level-3 table on a walk for `va` is no table of `ret`'s own
  have hapart : ∀ r ∈ R', ∀ t₀, tableAt k.phys r va 2 = some t₀ → ∀ T va₂ d₂, va₂ ∈ V → d₂ ≤ 2 →
      tableAt k.phys ret va₂ d₂ = some T → Present (k.phys (cell t₀ va 2)) →
      frameOf (k.phys (cell t₀ va 2)) ≠ T := by
    rintro r hr' t₀ ht₀ T va₂ d₂ hva₂ hd₂ hT hp rfl
    have hwell := sumBelow_succ_eq_zero.mp (Nat.eq_zero_of_le_zero
      (((tableAt_path h.sane hr' hlow ht₀).sumBelow_le.trans (sumBelow_le_total hr')).trans
        h.sane.le)) _ hslot _ (entries_some.mpr (by rw [← cell_eq_slotAddr]; exact ⟨hp, rfl⟩))
    have hframe := ((illFormed_eq_zero.mp hwell.1).1 (by omega)).1
    have ht₃ : tableAt k.phys r va 3 = some (frameOf (k.phys (cell t₀ va 2))) :=
      tableAt_succ_iff.mpr ⟨t₀, ht₀, hp, not_isPage_of_sane h.sane hr' hlow (by omega) ht₀ hp, hframe⟩
    have := (tableAt_unique h.sane hr' hr hlow (hown.low va₂ hva₂) ht₃ hT
      (hown.own va₂ hva₂ d₂ hd₂ _ hT)).2.1
    omega
  generalize hm' : Function.update k.phys (cell t va 2) (k.phys (cell t' va 2)) = m'
  have hread : m' (cell t va 2) = k.phys (cell t' va 2) := by rw [← hm', Function.update_self]
  have hother : ∀ a, a ≠ cell t va 2 → m' a = k.phys a := fun a ha => by
    rw [← hm', Function.update_of_ne ha]
  have hentry : m' (slotAddr t (pagingIndex va 2).toNat) =
      k.phys (slotAddr t' (pagingIndex va 2).toNat) := by
    rw [← cell_eq_slotAddr, ← cell_eq_slotAddr, hread]
  -- the copied entry contributes what the other one does
  have hnew : ∀ w : Weight Word Nat Word, (∀ e, w 1 t (pagingIndex va 2).toNat e =
      w 1 t' (pagingIndex va 2).toNat e) →
      sumAt walked w (entries m') 1 t (pagingIndex va 2).toNat =
        sumAt walked w (entries k.phys) 1 t' (pagingIndex va 2).toNat := by
    refine fun w hw => sumAt_place hentry hw fun hp => ?_
    rw [← cell_eq_slotAddr] at hp ⊢
    refine congrArg List.sum (List.map_congr_left fun i hi => ?_)
    have hne : slotAddr (frameOf (k.phys (cell t' va 2))) i ≠ cell t va 2 := fun heq => by
      rw [cell_eq_slotAddr t va 2, slotAddr_inj (isFrame_and _).aligned htf.aligned (lt_of_mem_slots hi)
        (pagingIndex_lt va 2)] at heq
      exact hapart cur hc t' ht' t va 2 hva le_rfl ht hp heq.1
    exact sumAt_congr ⟨entries_congr (hother _ hne), fun _ _ _ => rfl⟩ fun _ _ => rfl
  have hle : ∀ w : Weight Word Nat Word, sumAt walked w (entries k.phys) 1 t' (pagingIndex va 2).toNat ≤
      total walked w (entries k.phys) 4 R' := fun w =>
    (sumAt_le_below hslot).trans
      ((tableAt_path h.sane hc hlow ht').sumBelow_le.trans (sumBelow_le_total hc))
  have hrefs₀ : ∀ q, references loose k.phys R' q = 0 →
      sumAt walked (refTo loose q) (entries m') 1 t (pagingIndex va 2).toNat = 0 := fun q hq => by
    rw [hnew _ fun e => by simp [refTo]]
    have := hle (refTo loose q)
    unfold references at hq
    omega
  obtain ⟨hlay, hrefs, htabs⟩ := h.write { k with phys := m' } loose hr hlow (by omega) ht hone
    (fun X j _ _ _ hne => hother _ hne) (fun _ _ => rfl)
    (by rw [← hm']; exact h.pages.write (h.cell_not_free (h.met hr hlow ht))) (List.Sublist.refl L)
    (fun p hp => hrefs₀ p (h.unused p hp))
    (by
      rw [hnew _ fun e => by simp [illFormed]]
      exact Nat.eq_zero_of_le_zero ((hle _).trans h.sane.le))
  refine ⟨hlay, ⟨hr, hown.low, fun va₂ hva₂ d₂ hd₂ T hT => ?_⟩, fun q hq => ?_⟩
  · -- the tables down to level 2 are where they were, and met once
    have hsame : tableAt m' ret va₂ d₂ = tableAt k.phys ret va₂ d₂ :=
      tableAt_congr fun j hj t₀ ht₀ => hother _ fun hcell => by
        have hf := isFrame_of_met h.isFrame (h.met hr (hown.low va₂ hva₂) ht₀)
        obtain ⟨rfl, -⟩ := (cell_inj hf.aligned htf.aligned).mp hcell
        have := (tableAt_unique h.sane hr hr (hown.low va₂ hva₂) hlow ht₀ ht hone).2.1
        omega
    rw [hsame] at hT
    have hzero : ∀ r ∈ R', ∀ t₀, tableAt k.phys r va 2 = some t₀ →
        sumAt walked (edgesTo walked T) (entries k.phys) 1 t₀ (pagingIndex va 2).toNat = 0 := by
      intro r hr' t₀ ht₀
      by_cases hp : Present (k.phys (cell t₀ va 2))
      · rw [sumAt_some (entries_some.mpr (by rw [← cell_eq_slotAddr]; exact ⟨hp, rfl⟩))]
        have hne := hapart r hr' t₀ ht₀ T va₂ d₂ hva₂ hd₂ hT hp
        have hedge : edgesTo walked T 1 t₀ (pagingIndex va 2).toNat (k.phys (cell t₀ va 2)) = 0 :=
          if_neg fun hh => hne hh.2
        rw [hedge, Nat.zero_add]
        exact List.sum_eq_zero fun x hx => by
          obtain ⟨i, -, rfl⟩ := List.mem_map.mp hx
          exact sumAt_edgesTo_leaf T i
      · exact sumAt_none (entries_none.mpr (by rwa [← cell_eq_slotAddr]))
    have hT₂ := htabs T
    rw [show 3 - 2 = 1 from rfl, hnew _ fun e => rfl, hzero ret hr t ht, hzero cur hc t' ht'] at hT₂
    exact hT₂.trans (hown.own va₂ hva₂ d₂ hd₂ T hT)
  · have := hrefs q
    have := hrefs₀ q hq
    simp only [show 3 - 2 = 1 from rfl] at *
    omega

/-! ## The whole root -/

/-- A root under construction, since the state `k₀` with free list `L`. -/
structure Building (k₀ : Kmem) (loose : Word → Bool) (R L : List Word) (ret : Word) (k : Kmem) :
    Prop where
  layout : Layout k loose (ret :: R) (L.drop (k.taken - k₀.taken))
  owned : Owned k.phys (ret :: R) ret {va | va ∈ windows} 2
  untouched : Untouched R k₀.phys k.phys
  known : ∀ q, references loose k.phys (ret :: R) q ≠ 0 →
    q ∈ k.handedOut ∨ references loose k₀.phys R q ≠ 0
  handed : ∀ q ∈ k₀.handedOut, q ∈ k.handedOut
  taken : k₀.taken ≤ k.taken

theorem kmemPagingAddrCreate_of_table {level : Nat} (h : tableAt k.phys root va level = some t) :
    kmemPagingAddrCreate k root va level = (k, cell t va level) := by
  simp only [kmemPagingAddrCreate, pagingAddrCreate, kmemPagingAddr_of_table h]

theorem kmemPagingAddrCreate_taken (k : Kmem) (root va : Word) (level : Nat) :
    k.taken ≤ (kmemPagingAddrCreate k root va level).1.taken :=
  pagingAddrCreate_keeps (fun k' : Kmem => k.taken ≤ k'.taken) le_rfl
    fun k' _ h => h.trans (Nat.le_succ k'.taken)

/-- A table of the new root is none of the old ones. -/
theorem unmet_of_owned (hone : tablesMet m (ret :: R) t = 1)
    (hpos : 1 ≤ visits walked (entries m) 4 ret t) : tablesMet m R t = 0 := by
  rw [tablesMet, met_cons] at hone
  unfold tablesMet
  omega

/-- A page that a link takes is handed out. -/
theorem mem_handedOut_newTable {pa : Word} (h : k.lastUnused = p) :
    p ∈ (k.newTable pa).1.handedOut := h ▸ List.mem_cons_self

/-- **One window**: its tables are created in the new root, and its entry copied. -/
theorem Building.copyEntry {k₀ : Kmem} (h : Building k₀ loose R L ret k) (hcur : cur ∈ R)
    (hsane : total walked (illFormed loose) (entries k₀.phys) 4 R = 0) (hva : va ∈ windows)
    {t' : Word} (hwin : tableAt k₀.phys cur va 2 = some t')
    (henough : (copyEntry cur ret k va 2).taken ≤ k₀.taken + L.length) :
    Building k₀ loose R L ret (copyEntry cur ret k va 2) := by
  have hlow := windows_low va hva
  have hmono := kmemPagingAddrCreate_taken (kmemPagingAddrCreate k ret va 2).1 cur va 2
  have hgood : (kmemPagingAddrCreate k ret va 2).1.taken ≤
      k.taken + (L.drop (k.taken - k₀.taken)).length := by
    have henough : (kmemPagingAddrCreate (kmemPagingAddrCreate k ret va 2).1 cur va 2).1.taken ≤
      k₀.taken + L.length := henough
    have := h.taken
    have := kmemPagingAddrCreate_taken k ret va 2
    rw [List.length_drop]
    omega
  obtain ⟨hlay, hown, -, ⟨hun, hknown, hout⟩, hle, t, ht, haddr⟩ := create_rule (fun k => k)
    (fun k pa => (k.newTable pa).1) (fun _ _ => rfl)
    (fun k' => Untouched R k₀.phys k'.phys ∧
      (∀ q, references loose k'.phys (ret :: R) q ≠ 0 →
        q ∈ k'.handedOut ∨ references loose k₀.phys R q ≠ 0) ∧
      ∀ q ∈ k₀.handedOut, q ∈ k'.handedOut)
    h.owned h.layout hva (by omega) le_rfl ⟨h.untouched, h.known, h.handed⟩
    (by
      rintro k' p t d L' ⟨hun, hknown, hout⟩ hlay ht hone - - hrefs
      have hpmet := hlay.unmet (p := p) (by simp)
      have hlow' := hlay.met (by simp) hlow ht
      have htf := isFrame_of_met hlay.isFrame hlow'
      have htp : t ≠ p := fun heq => hlow' (heq ▸ hpmet)
      have hlinked : Linked k'.phys (k'.newTable (cell t va d)).1.phys (cell t va d) p :=
        newTable_linked hlay.pages (hlay.frames p (by simp)).aligned htf.aligned htp
      refine ⟨fun X i hX hi => ?_, fun q hq => ?_, fun q hq => List.mem_cons_of_mem _ (hout q hq)⟩
      · -- neither the new page nor the table it is linked in is one of the old tables
        rw [← hun X i hX hi]
        rw [← hun.tablesMet_eq] at hX
        have hX' : tablesMet k'.phys (ret :: R) X ≠ 0 := by
          rw [tablesMet, met_cons, ← tablesMet]
          omega
        have hXf := isFrame_of_met hlay.isFrame hX'
        obtain ⟨va', -, hi'⟩ := slotAddr_eq_cell hi d X
        rw [hi']
        refine hlinked.same X va' d hXf.aligned (fun heq => hX' (heq ▸ hpmet)) fun hcell => ?_
        obtain ⟨rfl, -⟩ := (cell_inj hXf.aligned htf.aligned).mp hcell
        exact hX (unmet_of_owned hone (tableAt_path hlay.sane (by simp) hlow ht).visits_pos)
      · by_cases hpq : p = q
        · exact .inl (hpq ▸ mem_handedOut_newTable hlay.pages.head_eq)
        · rw [hrefs, if_neg hpq] at hq
          exact (hknown q hq).imp_left (List.mem_cons_of_mem _))
    hgood
  have hpair : kmemPagingAddrCreate k ret va 2 =
      ((kmemPagingAddrCreate k ret va 2).1, cell t va 2) := Prod.ext rfl haddr
  change Layout (kmemPagingAddrCreate k ret va 2).1 _ _
    ((L.drop (k.taken - k₀.taken)).drop ((kmemPagingAddrCreate k ret va 2).1.taken - k.taken)) at hlay
  change k.taken ≤ (kmemPagingAddrCreate k ret va 2).1.taken at hle
  change Owned (kmemPagingAddrCreate k ret va 2).1.phys _ _ _ _ at hown
  change Untouched R k₀.phys (kmemPagingAddrCreate k ret va 2).1.phys at hun
  change tableAt (kmemPagingAddrCreate k ret va 2).1.phys ret va 2 = _ at ht
  change ∀ q, references loose (kmemPagingAddrCreate k ret va 2).1.phys _ q ≠ 0 →
    q ∈ (kmemPagingAddrCreate k ret va 2).1.handedOut ∨ _ at hknown
  change ∀ q ∈ _, q ∈ (kmemPagingAddrCreate k ret va 2).1.handedOut at hout
  generalize (kmemPagingAddrCreate k ret va 2).1 = k₁ at *
  -- the current root's walk is complete, so nothing is created there
  have ht' : tableAt k₁.phys cur va 2 = some t' := (hun.tableAt_eq hsane hcur hlow).trans hwin
  have hstate : Refk.copyEntry cur ret k va 2 = { k₁ with
      phys := Function.update k₁.phys (cell t va 2) (k₁.phys (cell t' va 2)) } := by
    simp only [Refk.copyEntry, hpair, kmemPagingAddrCreate_of_table ht']
  have hdrop : (L.drop (k.taken - k₀.taken)).drop (k₁.taken - k.taken) =
      L.drop (k₁.taken - k₀.taken) := by
    have := h.taken
    rw [List.drop_drop]
    congr 1
    omega
  obtain ⟨hlay', hown', hrefs'⟩ := hown.copy hlay (List.mem_cons_of_mem ret hcur) hva ht ht'
  rw [hstate]
  rw [hdrop] at hlay'
  refine ⟨hlay', hown', fun X i hX hi => ?_, fun q hq => ?_, hout, h.taken.trans hle⟩
  swap
  · exact hknown q fun h₀ => hq (hrefs' q h₀)
  rw [← hun X i hX hi]
  rw [← hun.tablesMet_eq] at hX
  refine Function.update_of_ne (fun hcell => ?_) _ _
  have hX' : tablesMet k₁.phys (ret :: R) X ≠ 0 := by
    rw [tablesMet, met_cons, ← tablesMet]
    omega
  have htf := isFrame_of_met hlay.isFrame (hlay.met (by simp) hlow ht)
  rw [cell_eq_slotAddr, slotAddr_inj (isFrame_of_met hlay.isFrame hX').aligned htf.aligned hi
    (pagingIndex_lt va 2)] at hcell
  rw [hcell.1] at hX
  exact hX (unmet_of_owned (hown.own va hva 2 le_rfl t ht)
    (tableAt_path hlay.sane (by simp) hlow ht).visits_pos)

theorem kmemPagingAddrCreate_zero (k : Kmem) (root va : Word) :
    kmemPagingAddrCreate k root va 0 = (k, cell root va 0) :=
  kmemPagingAddrCreate_of_table rfl

/-- The new page, zeroed, with the physical memory map copied. -/
theorem Building.start (h : Layout k loose R (ret :: L)) (cur : Word) :
    Building k loose R (ret :: L) ret (Refk.copyEntry cur ret
      { (kmemGetpage k).1 with phys := zeroTable (kmemGetpage k).1.phys ret } phyMapBase 0) := by
  have hret : IsFrame ret := h.frames ret List.mem_cons_self
  simp only [Refk.copyEntry, kmemPagingAddrCreate_zero]
  have hout : ((kmemGetpage k).1).handedOut = ret :: k.handedOut := by
    rw [← h.pages.head_eq]
    rfl
  generalize hv : phyRead64 (zeroTable (kmemGetpage k).1.phys ret) (cell cur phyMapBase 0) = v
  generalize hm : phyWrite64 (zeroTable (kmemGetpage k).1.phys ret) (cell ret phyMapBase 0) v = m
  have hread : ∀ t i, IsFrame t → i < 512 → m (slotAddr t i) =
      if t = ret then (if i = 384 then v else 0) else k.phys (slotAddr t i) := by
    intro t i ht hi
    obtain ⟨va', -, hi'⟩ := slotAddr_eq_cell hi 0 t
    have hcell : cell ret phyMapBase 0 = slotAddr ret 384 := by
      rw [cell_eq_slotAddr, pagingIndex_phyMapBase]
      rfl
    rw [← hm, hcell]
    by_cases htr : t = ret
    · subst htr
      rw [if_pos rfl]
      by_cases hi384 : i = 384
      · rw [hi384, if_pos rfl]
        exact Function.update_self ..
      · rw [if_neg hi384]
        refine (Function.update_of_ne (fun heq => hi384 ?_) _ _).trans ?_
        · exact ((slotAddr_inj ht.aligned ht.aligned hi (by decide)).mp heq).2
        · rw [hi', zeroTable_self]
    · rw [if_neg htr]
      refine (Function.update_of_ne (fun heq => htr ?_) _ _).trans ?_
      · exact ((slotAddr_inj ht.aligned hret.aligned hi (by decide)).mp heq).1
      · rw [hi', zeroTable_other _ hret.aligned ht.aligned htr]
        rfl
  have hoff : AgreeOff ret k.phys m := fun t i ht hne hi => by rw [hread t i ht hi, if_neg hne]
  obtain ⟨hlay, hrefs, hown⟩ := h.newRoot (D := 2) (V := {va | va ∈ windows}) hoff
    (fun i hi => by
      obtain ⟨hlt, hne⟩ := mem_slots.mp hi
      rw [hread ret i hret hlt, if_pos rfl, if_neg fun heq => hne ⟨rfl, heq⟩])
    windows_low
  have htaken : (kmemGetpage k).1.taken = k.taken + 1 := rfl
  refine ⟨?_, hown, hoff.untouched h.isFrame (h.unmet List.mem_cons_self), fun q hq => ?_,
    fun q hq => ?_, ?_⟩
  · change Layout _ _ _ ((ret :: L).drop ((kmemGetpage k).1.taken - k.taken))
    rw [htaken, Nat.add_sub_cancel_left]
    exact hlay
  · rw [hrefs] at hq
    change q ∈ ((kmemGetpage k).1).handedOut ∨ _
    rw [hout]
    by_cases hqr : ret = q
    · exact .inl (hqr ▸ List.mem_cons_self)
    · rw [if_neg hqr] at hq
      exact .inr hq
  · change q ∈ ((kmemGetpage k).1).handedOut
    rw [hout]
    exact List.mem_cons_of_mem _ hq
  · exact htaken.symm ▸ Nat.le_succ _

theorem copyEntry_taken (k : Kmem) (cur ret va : Word) (level : Nat) :
    k.taken ≤ (Refk.copyEntry cur ret k va level).taken :=
  (kmemPagingAddrCreate_taken k ret va level).trans
    (kmemPagingAddrCreate_taken (kmemPagingAddrCreate k ret va level).1 cur va level)

/-- **`kmem_create_root`** makes a root of pages off the free list, and leaves the others alone. -/
theorem kmemCreateRoot_builds (h : Layout k loose R L) (hcur : cur ∈ R)
    (hwin : ∀ va ∈ windows, ∃ t, tableAt k.phys cur va 2 = some t)
    (henough : (kmemCreateRoot cur k).1.taken ≤ k.taken + L.length) :
    Building k loose R L (kmemCreateRoot cur k).2 (kmemCreateRoot cur k).1 := by
  obtain ⟨t₁, hwin₁⟩ := hwin taskBase (by simp [windows])
  obtain ⟨t₂, hwin₂⟩ := hwin descBase (by simp [windows])
  obtain ⟨t₃, hwin₃⟩ := hwin kmemBaseAddr (by simp [windows])
  obtain ⟨t₄, hwin₄⟩ := hwin statusBase (by simp [windows])
  obtain ⟨ret, hret⟩ : ∃ ret, ret = (kmemGetpage k).2 := ⟨_, rfl⟩
  have hrun : kmemCreateRoot cur k = (Refk.copyEntry cur ret (Refk.copyEntry cur ret
      (Refk.copyEntry cur ret (Refk.copyEntry cur ret (Refk.copyEntry cur ret
        { (kmemGetpage k).1 with phys := zeroTable (kmemGetpage k).1.phys ret } phyMapBase 0)
        taskBase 2) descBase 2) kmemBaseAddr 2) statusBase 2, ret) := by
    rw [hret]
    rfl
  rw [hrun] at henough ⊢
  have hfirst : k.taken + 1 ≤ (Refk.copyEntry cur ret
      { (kmemGetpage k).1 with phys := zeroTable (kmemGetpage k).1.phys ret } phyMapBase 0).taken :=
    copyEntry_taken { (kmemGetpage k).1 with phys := zeroTable (kmemGetpage k).1.phys ret } cur ret
      phyMapBase 0
  have hstart : ∀ L₀, L = ret :: L₀ → Building k loose R L ret (Refk.copyEntry cur ret
      { (kmemGetpage k).1 with phys := zeroTable (kmemGetpage k).1.phys ret } phyMapBase 0) := by
    rintro L₀ rfl
    exact Building.start h cur
  generalize Refk.copyEntry cur ret
    { (kmemGetpage k).1 with phys := zeroTable (kmemGetpage k).1.phys ret } phyMapBase 0 = k₁ at *
  -- pages are only taken
  have hle₁ := copyEntry_taken k₁ cur ret taskBase 2
  have hle₂ := copyEntry_taken (Refk.copyEntry cur ret k₁ taskBase 2) cur ret descBase 2
  have hle₃ := copyEntry_taken (Refk.copyEntry cur ret (Refk.copyEntry cur ret k₁ taskBase 2)
    descBase 2) cur ret kmemBaseAddr 2
  have hle₄ := copyEntry_taken (Refk.copyEntry cur ret (Refk.copyEntry cur ret
    (Refk.copyEntry cur ret k₁ taskBase 2) descBase 2) kmemBaseAddr 2) cur ret statusBase 2
  dsimp only at henough
  have hbuilt : Building k loose R L ret k₁ := by
    cases L with
    | nil =>
      rw [List.length_nil] at henough
      omega
    | cons p L₀ =>
      obtain rfl : ret = p := hret.trans h.pages.head_eq
      exact hstart L₀ rfl
  have hb₁ := hbuilt.copyEntry hcur h.sane (by simp [windows]) hwin₁ (by omega)
  have hb₂ := hb₁.copyEntry hcur h.sane (by simp [windows]) hwin₂ (by omega)
  have hb₃ := hb₂.copyEntry hcur h.sane (by simp [windows]) hwin₃ (by omega)
  exact hb₃.copyEntry hcur h.sane (by simp [windows]) hwin₄ henough

end

end Refk
