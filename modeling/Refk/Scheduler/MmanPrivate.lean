import Refk.Scheduler.MmanCount

/-!
# One page, seen from every root

`Counted` follows one root's range; here it is what a single page's mapping or unmapping does
to all the roots there are. The tables of each stay its own for the addresses `V`, and what
becomes mapped, or stops being so, is the one page in the one root.
-/

namespace Refk

open Lib

/-- The tables along the walks for `V` are private to their root, in every root. -/
def OwnTables (m : Phys) (R : List Word) (V : Set Word) : Prop := ∀ r ∈ R, Owned m R r V 3

/-- Off the physical memory map, `m'` maps what `m` does, but for the page at `va` in `root`,
    which is mapped if and only if `b` says so. -/
def MapsBut (R : List Word) (root va : Word) (b : Prop) (m m' : Phys) : Prop :=
  ∀ r ∈ R, ∀ va', pagingIndex va' 0 ≠ 384 →
    ((r = root ∧ SamePrefix 4 va' va) ∧ (Mapped m' r va' ↔ b)) ∨
      (¬ (r = root ∧ SamePrefix 4 va' va) ∧ (Mapped m' r va' ↔ Mapped m r va'))

section
variable {k : Kmem} {m m' : Phys} {loose : Word → Bool} {R L : List Word} {slack : Word → Nat}
  {K : Set Word} {root va t p e : Word} {V : Set Word} {b : Prop}

theorem MapsBut.congr_left {m₀ : Phys} (h : MapsBut R root va b m m')
    (hsame : ∀ r ∈ R, ∀ va', pagingIndex va' 0 ≠ 384 → (Mapped m r va' ↔ Mapped m₀ r va')) :
    MapsBut R root va b m₀ m' := by
  intro r hr va' hlow
  rw [← hsame r hr va' hlow]
  exact h r hr va' hlow

theorem MapsBut.self (h : MapsBut R root va b m m') (hr : root ∈ R)
    (hlow : pagingIndex va 0 ≠ 384) : Mapped m' root va ↔ b := by
  rcases h root hr va hlow with ⟨-, h⟩ | ⟨hnot, -⟩
  · exact h
  · exact absurd ⟨rfl, fun _ _ => rfl⟩ hnot

theorem MapsBut.other {r va' : Word} (h : MapsBut R root va b m m') (hr : r ∈ R)
    (hlow : pagingIndex va' 0 ≠ 384) (hnot : ¬ (r = root ∧ SamePrefix 4 va' va)) :
    Mapped m' r va' ↔ Mapped m r va' := by
  rcases h r hr va' hlow with ⟨heq, -⟩ | ⟨-, h⟩
  · exact absurd heq hnot
  · exact h

/-- Nothing changes where the page is as `b` says already. -/
theorem MapsBut.refl (hb : Mapped m root va ↔ b) : MapsBut R root va b m m := by
  intro r _ va' _
  by_cases heq : r = root ∧ SamePrefix 4 va' va
  · obtain ⟨rfl, hpre⟩ := heq
    refine .inl ⟨⟨rfl, hpre⟩, ?_⟩
    rw [← hb]
    exact ⟨fun h => h.samePrefix fun k hk => (hpre k hk).symm, fun h => h.samePrefix hpre⟩
  · exact .inr ⟨heq, Iff.rfl⟩

/-! ## The kernel's steps -/

/-- One link leaves every root its own tables. -/
theorem OwnTables.link {d : Nat} (hpriv : OwnTables k.phys R V) (hlay : Layout k loose R (p :: L))
    (hr : root ∈ R) (hva : va ∈ V) (hd : d < 3) (ht : tableAt k.phys root va d = some t)
    (habs : ¬ Present (k.phys (cell t va d))) :
    OwnTables (k.newTable (cell t va d)).1.phys R V ∧
      ∀ r ∈ R, ∀ va', pagingIndex va' 0 ≠ 384 →
        Mapped (k.newTable (cell t va d)).1.phys r va' → Mapped k.phys r va' := by
  have hown := hpriv root hr
  have hlow := hown.low va hva
  have hone := hown.own va hva d (by omega) t ht
  have hpmet : tablesMet k.phys R p = 0 := hlay.unmet (by simp)
  obtain ⟨-, -, htabs, hm⟩ := hlay.link hr hlow hd ht hone habs
  refine ⟨fun r hr' => ⟨hr', hown.low, fun va' hva' d' hd' t' ht' => ?_⟩,
    fun r hr' va' hlow' => hlay.mapped_of_linked hm hr hlow ht hone hd hr' hlow'⟩
  rw [htabs]
  rcases hlay.tableAt_of_linked hm hr' (hown.low va' hva') ht' with rfl | hold
  · rw [hpmet, if_pos rfl]
  · rw [(hpriv r hr').own va' hva' d' hd' t' hold, if_neg]
    rintro rfl
    exact hlay.met hr' (hown.low va' hva') hold hpmet

/-- **`paging_addr_create`** maps nothing. -/
theorem OwnTables.create {s : Mman} (hpriv : OwnTables s.phys R V) (hlay : Layout s.kmem loose R L)
    (hr : root ∈ R) (hva : va ∈ V)
    (henough : (mmanPagingAddrCreate s root va 3).1.kmem.taken ≤ s.kmem.taken + L.length) :
    OwnTables (mmanPagingAddrCreate s root va 3).1.phys R V ∧
      ∀ r ∈ R, ∀ va', pagingIndex va' 0 ≠ 384 →
        (Mapped (mmanPagingAddrCreate s root va 3).1.phys r va' ↔ Mapped s.phys r va') := by
  obtain ⟨-, -, hgrows, ⟨hpriv', hmapped⟩, -⟩ := create_rule Mman.kmem Mman.newTable newTable_kmem
    (fun s' => OwnTables s'.phys R V ∧
      ∀ r ∈ R, ∀ va', pagingIndex va' 0 ≠ 384 → Mapped s'.phys r va' → Mapped s.phys r va')
    (hpriv root hr) hlay hva le_rfl le_rfl ⟨hpriv, fun _ _ _ _ h => h⟩
    (by
      rintro s' p t d L' ⟨hpriv', hmapped⟩ hlay' ht - hd habs -
      obtain ⟨hlinked, hback⟩ := hpriv'.link hlay' hr hva hd ht habs
      refine ⟨hlinked, fun r hr' va' hlow hmap => hmapped r hr' va' hlow ?_⟩
      exact hback r hr' va' hlow hmap)
    henough
  refine ⟨hpriv', fun r hr' va' hlow => ⟨hmapped r hr' va' hlow, ?_⟩⟩
  rintro ⟨t, ht, hpres⟩
  obtain ⟨ht', hread⟩ := hgrows.kept.mapped hlay.sane hr' hlow ht hpres
  exact ⟨t, ht', (congrArg Present hread).mpr hpres⟩

/-- **A write to a level-3 entry** maps or unmaps its page. -/
theorem OwnTables.leaf (hpriv : OwnTables k.phys R V) (hlay : Layout k loose R L) (hr : root ∈ R)
    (hva : va ∈ V) (ht : tableAt k.phys root va 3 = some t) (e : Word) :
    OwnTables (Function.update k.phys (cell t va 3) e) R V ∧
      MapsBut R root va (Present e) k.phys (Function.update k.phys (cell t va 3) e) := by
  have hown := hpriv root hr
  have hlow := hown.low va hva
  have hone := hown.own va hva 3 le_rfl t ht
  -- as far as the tables are concerned the entry may as well be loose
  obtain ⟨-, -, -, htabs, htables, -⟩ := hown.leaf (e := e) hlay hva ht
    (show ∀ c, c ≠ cell t va 3 → Function.update loose (cell t va 3) true c = loose c from
      fun c hc => Function.update_of_ne hc _ _)
    (fun _ h => absurd (Function.update_self ..) h)
  refine ⟨fun r hr' => ⟨hr', hown.low, fun va' hva' d' hd' t' ht' => ?_⟩, fun r hr' va' hlow' => ?_⟩
  · rw [htables r hr' va' (hown.low va' hva')] at ht'
    rw [htabs]
    exact (hpriv r hr').own va' hva' d' hd' t' ht'
  · by_cases heq : r = root ∧ SamePrefix 4 va' va
    · obtain ⟨rfl, hpre⟩ := heq
      refine .inl ⟨⟨rfl, hpre⟩, ?_⟩
      have hself : Mapped (Function.update k.phys (cell t va 3) e) r va ↔ Present e := by
        unfold Mapped
        rw [htables r hr va hlow, ht]
        simp
      rw [← hself]
      exact ⟨fun h => h.samePrefix fun j hj => (hpre j hj).symm, fun h => h.samePrefix hpre⟩
    · refine .inr ⟨heq, ?_⟩
      unfold Mapped
      rw [htables r hr' va' hlow']
      refine exists_congr fun t' => and_congr_right fun ht' => ?_
      rw [Function.update_of_ne]
      intro hcell
      have hf := isFrame_of_met hlay.isFrame (hlay.met hr' hlow' ht')
      have htf := isFrame_of_met hlay.isFrame (hlay.met hr hlow ht)
      obtain ⟨rfl, hidx⟩ := (cell_inj hf.aligned htf.aligned).mp hcell
      obtain ⟨rfl, -, hpre⟩ := tableAt_unique hlay.sane hr' hr hlow' hlow ht' ht hone
      exact heq ⟨rfl, samePrefix_succ.mpr ⟨hpre, hidx⟩⟩

/-- Writes to a page that is not met are not noticed. -/
theorem OwnTables.agreeOff (hpriv : OwnTables m R V) (hoff : AgreeOff p m m')
    (hR : ∀ r ∈ R, IsFrame r) (hsane : total walked (illFormed loose) (entries m) 4 R = 0)
    (hp : tablesMet m R p = 0) :
    OwnTables m' R V ∧ ∀ r ∈ R, ∀ va', pagingIndex va' 0 ≠ 384 → (Mapped m' r va' ↔ Mapped m r va') := by
  refine ⟨fun r hr => ⟨hr, (hpriv r hr).low, fun va' hva' d' hd' t' ht' => ?_⟩,
    fun r hr va' hlow => ?_⟩
  · rw [(hoff.tableAt_eq hR hsane hp hr ((hpriv r hr).low va' hva')).1] at ht'
    rw [hoff.tablesMet_eq hR hp]
    exact (hpriv r hr).own va' hva' d' hd' t' ht'
  · obtain ⟨htab, hread⟩ := hoff.tableAt_eq hR hsane hp hr hlow
    unfold Mapped
    rw [htab]
    exact exists_congr fun t => and_congr_right fun ht => by rw [hread 3 t ht]

/-! ## The operations on one page -/

/-- `mman_anonymous`, one page. -/
theorem OwnTables.anonymous {s : Mman} (hpriv : OwnTables s.phys R V) (h : Counted s loose R slack K L)
    (hr : root ∈ R) (hva : va ∈ V)
    (henough : (anonymousPage root s va).kmem.taken ≤ s.kmem.taken + L.length) :
    OwnTables (anonymousPage root s va).phys R V ∧
      MapsBut R root va True s.phys (anonymousPage root s va).phys := by
  have htaken : (anonymousPage root s va).kmem.taken =
      (mmanPagingAddrCreate s root va 3).1.kmem.taken + 1 := rfl
  obtain ⟨hpriv₁, hmapped⟩ := hpriv.create h.layout hr hva (by omega)
  obtain ⟨h₁, -, -, -, -, -, t, ht, haddr⟩ := h.create (hpriv root hr) hva (by omega)
  have hle := create_taken s root va 3
  have hlt : (mmanPagingAddrCreate s root va 3).1.kmem.taken - s.kmem.taken < L.length := by omega
  rw [List.drop_eq_getElem_cons hlt] at h₁
  generalize L[(mmanPagingAddrCreate s root va 3).1.kmem.taken - s.kmem.taken] = f at h₁
  have hstate : (anonymousPage root s va).phys =
      Function.update (mmanPagingAddrCreate s root va 3).1.phys (cell t va 3)
        (f ||| kmemMapData) := by
    rw [← haddr, ← h₁.layout.pages.head_eq]
    rfl
  rw [hstate]
  obtain ⟨hpriv₂, hbut⟩ := hpriv₁.leaf h₁.layout hr hva ht (f ||| kmemMapData)
  refine ⟨hpriv₂, fun r hr' va' hlow => ?_⟩
  have hpres : Present (f ||| kmemMapData) ↔ True :=
    iff_true_intro (present_data f (h₁.layout.frames f (by simp)))
  rw [← hpres]
  exact hbut.congr_left hmapped r hr' va' hlow

/-- `mman_mirror`, one page that is mapped. -/
theorem OwnTables.mirror {s : Mman} {sroot sva st : Word} (hpriv : OwnTables s.phys R V)
    (h : Counted s loose R slack K L) (hr : root ∈ R) (hva : va ∈ V) (hsroot : sroot ∈ R)
    (hslow : pagingIndex sva 0 ≠ 384) (hst : tableAt s.phys sroot sva 3 = some st)
    (hpres : Present (s.phys (cell st sva 3)))
    (henough : (mirrorPage root sroot s va sva).kmem.taken ≤ s.kmem.taken + L.length) :
    OwnTables (mirrorPage root sroot s va sva).phys R V ∧
      MapsBut R root va True s.phys (mirrorPage root sroot s va sva).phys := by
  have hgood : (mmanPagingAddrCreate s root va 3).1.kmem.taken ≤ s.kmem.taken + L.length :=
    (create_taken _ sroot sva 3).trans henough
  obtain ⟨hpriv₁, hmapped⟩ := hpriv.create h.layout hr hva hgood
  obtain ⟨h₁, -, hgrows, -, -, -, t, ht, haddr⟩ := h.create (hpriv root hr) hva hgood
  obtain ⟨hst₁, hread⟩ := hgrows.kept.mapped h.layout.sane hsroot hslow hst hpres
  have hstate : (mirrorPage root sroot s va sva).phys =
      Function.update (mmanPagingAddrCreate s root va 3).1.phys (cell t va 3)
        (s.phys (cell st sva 3)) := by
    rw [← hread, ← haddr]
    simp only [mirrorPage, mmanPagingAddrCreate_of_table hst₁]
    rfl
  rw [hstate]
  obtain ⟨hpriv₂, hbut⟩ := hpriv₁.leaf h₁.layout hr hva ht (s.phys (cell st sva 3))
  refine ⟨hpriv₂, fun r hr' va' hlow => ?_⟩
  rw [← iff_true_intro hpres]
  exact hbut.congr_left hmapped r hr' va' hlow

/-- `mman_unmap`, one page; a loose entry must be for a page that is not counted. -/
theorem OwnTables.unmap {s : Mman} (hpriv : OwnTables s.phys R V) (h : Counted s loose R slack K L)
    (hr : root ∈ R) (hva : va ∈ V)
    (hloose : ∀ t, tableAt s.phys root va 3 = some t → Present (s.phys (cell t va 3)) →
      loose (cell t va 3) → s.pageCount (frameOf (s.phys (cell t va 3))) = 0) :
    OwnTables (onEntry root unmapEntry s va).phys R V ∧
      MapsBut R root va False s.phys (onEntry root unmapEntry s va).phys := by
  have hown := hpriv root hr
  have hlow := hown.low va hva
  have haddr : kmemPagingAddr s.phys root va 3 = _ := h.layout.kmemPagingAddr hr hlow le_rfl
  have hsame : (∀ t, tableAt s.phys root va 3 = some t → ¬ Present (s.phys (cell t va 3))) →
      onEntry root unmapEntry s va = s → OwnTables (onEntry root unmapEntry s va).phys R V ∧
        MapsBut R root va False s.phys (onEntry root unmapEntry s va).phys := by
    intro habs heq
    rw [heq]
    refine ⟨hpriv, MapsBut.refl ((iff_false _).mpr ?_)⟩
    rintro ⟨t, ht, hpres⟩
    exact habs t ht hpres
  cases ht : tableAt s.kmem.phys root va 3 with
  | none =>
    rw [ht, Option.map_none] at haddr
    refine hsame (fun t ht' => ?_) (by simp only [onEntry, haddr])
    rw [Mman.phys, ht] at ht'
    cases ht'
  | some t =>
    rw [ht, Option.map_some] at haddr
    by_cases hpres : Present (s.phys (cell t va 3))
    swap
    · refine hsame (fun t' ht' => ?_) ?_
      · obtain rfl : t = t' := Option.some.inj (ht.symm.trans ht')
        exact hpres
      · simp only [onEntry, haddr]
        exact if_neg hpres
    have hrun : onEntry root unmapEntry s va =
        unmapEntry s (cell t va 3) (s.phys (cell t va 3)) := by
      simp only [onEntry, haddr]
      exact if_pos hpres
    have hphys : (onEntry root unmapEntry s va).phys = Function.update
        (decrementPage s (frameOf (s.phys (cell t va 3)))).phys (cell t va 3) 0 := by
      rw [hrun]
      rfl
    obtain ⟨hpriv', hbut⟩ := hpriv.leaf h.layout hr hva ht 0
    have habs : Present (0 : Word) ↔ False := iff_false_intro (by decide)
    have hbut' : MapsBut R root va False s.phys (Function.update s.phys (cell t va 3) 0) := by
      intro r hr' va' hlow'
      rw [← habs]
      exact hbut r hr' va' hlow'
    by_cases hlast : s.pageCount (frameOf (s.phys (cell t va 3))) = 1
    swap
    · -- the page stays
      have hkmem : (decrementPage s (frameOf (s.phys (cell t va 3)))).phys = s.phys := by
        simp only [decrementPage]
        split_ifs
        · rfl
        · rfl
        · omega
      rw [hphys, hkmem]
      exact ⟨hpriv', hbut'⟩
    · -- the page goes back: nothing refers to it any more
      obtain ⟨hlay', hrefs, htabs, -⟩ := hown.clear h.layout hva ht
      have hnotloose : ¬ loose (cell t va 3) := fun hl => by
        have := hloose t ht hpres hl
        omega
      have hleaf : leafRef loose s.phys (cell t va 3) (frameOf (s.phys (cell t va 3))) = 1 :=
        if_pos ⟨hpres, rfl, hnotloose⟩
      have hf : IsFrame (frameOf (s.phys (cell t va 3))) := isFrame_and _
      generalize frameOf (s.phys (cell t va 3)) = f at hphys hlast hleaf hf
      have hzero : references loose (Function.update s.phys (cell t va 3) 0) R f = 0 := by
        have := hrefs f
        have := h.tally.counts f
        omega
      have hmet : tablesMet (Function.update s.phys (cell t va 3) 0) R f = 0 :=
        Nat.eq_zero_of_le_zero (tablesMet_le_references.trans hzero.le)
      have hne : cell t va 3 ≠ f := fun hcell => by
        have htf := isFrame_of_met h.layout.isFrame (h.layout.met hr hlow ht)
        have hone := hown.own va hva 3 le_rfl t ht
        rw [cell_eq_page htf.aligned hf.aligned hcell, ← htabs, hmet] at hone
        cases hone
      have hkmem : (decrementPage s f).phys = Function.update s.phys f s.kmem.lastUnused := by
        simp only [decrementPage, hlast]
        rfl
      rw [hphys, hkmem, Function.update_comm hne.symm]
      have hoff : AgreeOff f (Function.update s.phys (cell t va 3) 0)
          (Function.update (Function.update s.phys (cell t va 3) 0) f s.kmem.lastUnused) :=
        agreeOff_update hf.aligned
      obtain ⟨hpriv'', hmapped⟩ := hpriv'.agreeOff hoff h.layout.isFrame hlay'.sane hmet
      refine ⟨hpriv'', fun r hr' va' hlow' => ?_⟩
      rw [hmapped r hr' va' hlow']
      exact hbut' r hr' va' hlow'

end

end Refk
