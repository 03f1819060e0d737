import Refk.Klib.Work
import Refk.Scheduler.MmanMapping

/-!
# Keeping `page_refcount` in step with the tables

`Tally` is the table of counts by itself: what `increment_page` and `decrement_page` do to it,
and where the counted pages come from. `Counted` joins it to the tables: a page's count is the
number of references to it, and `slack`, what has been counted and lost. The lemmas below are
the turns of the page loops, each for one page.
-/

namespace Refk

open Lib

/-- The counts are `f`, there is no entry `0`, and the pages that are counted, or have been
    released, were handed out or belong to `K`. -/
structure Tally (s : Mman) (f : Word → Nat) (K : Set Word) : Prop where
  counts : ∀ p, s.pageCount p = f p
  positive : ∀ p, s.pageRefcount.search p ≠ some 0
  known : ∀ p, f p ≠ 0 → p ∈ s.kmem.handedOut ∨ p ∈ K
  freed : ∀ p ∈ s.pagefreeCalls, p ∈ s.kmem.handedOut ∨ p ∈ K

/-- The parts of the state that no page loop touches. -/
structure SameRoots (s s' : Mman) : Prop where
  rootMap : s'.rootMap = s.rootMap
  rootRefcount : s'.rootRefcount = s.rootRefcount
  nextId : s'.nextId = s.nextId
  cr3 : s'.cr3 = s.cr3
  thisRootId : s'.thisRootId = s.thisRootId

theorem SameRoots.refl (s : Mman) : SameRoots s s := ⟨rfl, rfl, rfl, rfl, rfl⟩

theorem SameRoots.trans {s₁ s₂ s₃ : Mman} (h : SameRoots s₁ s₂) (h' : SameRoots s₂ s₃) :
    SameRoots s₁ s₃ :=
  ⟨h'.rootMap.trans h.rootMap, h'.rootRefcount.trans h.rootRefcount, h'.nextId.trans h.nextId,
    h'.cr3.trans h.cr3, h'.thisRootId.trans h.thisRootId⟩

section
variable {s s' : Mman} {f g : Word → Nat} {K : Set Word} {p q : Word}

/-- A state with the same counts and the same releases, and possibly more pages handed out. -/
theorem Tally.of_same (h : Tally s f K) (hcount : s'.pageRefcount = s.pageRefcount)
    (hfreed : s'.pagefreeCalls = s.pagefreeCalls)
    (hout : ∀ p ∈ s.kmem.handedOut, p ∈ s'.kmem.handedOut) : Tally s' f K where
  counts p := by
    rw [← h.counts p, Mman.pageCount, Mman.pageCount, hcount]
  positive p := by
    rw [hcount]
    exact h.positive p
  known p hp := (h.known p hp).imp_left (hout p)
  freed p hp := (h.freed p (hfreed ▸ hp)).imp_left (hout p)

theorem Tally.congr (h : Tally s f K) (hg : ∀ p, g p = f p) : Tally s g K :=
  (funext hg : g = f) ▸ h

theorem Tally.increment (h : Tally s f K) (hp : p ∈ s.kmem.handedOut ∨ p ∈ K) :
    Tally (incrementPage s p) (fun q => f q + if p = q then 1 else 0) K where
  counts q := by rw [pageCount_incrementPage, h.counts]
  positive q := by
    simp only [incrementPage, AvlMap.search_insert_ptr]
    split_ifs
    · simp
    · exact h.positive q
  known q hq := by
    by_cases hpq : p = q
    · exact hpq ▸ hp
    · exact h.known q (by simpa [hpq] using hq)
  freed := h.freed

/-- `decrement_page` on a page that is not counted. -/
theorem decrementPage_of_zero (hp : s.pageCount p = 0) : decrementPage s p = s := by
  simp only [decrementPage, hp, if_true]

theorem decrementPage_spec (s : Mman) (p : Word) :
    (∀ q, (decrementPage s p).pageCount q = s.pageCount q - if p = q then 1 else 0) ∧
      (decrementPage s p).kmem = if s.pageCount p = 1 then kmemUnuse s.kmem p else s.kmem := by
  unfold decrementPage
  by_cases hzero : s.pageCount p = 0
  · rw [if_pos hzero, if_neg (by omega)]
    refine ⟨fun q => ?_, rfl⟩
    by_cases hpq : p = q
    · rw [← hpq, hzero, Nat.zero_sub]
    · rw [if_neg hpq, Nat.sub_zero]
  · rw [if_neg hzero]
    by_cases hmore : s.pageCount p > 1
    · rw [if_pos hmore, if_neg (by omega)]
      refine ⟨fun q => ?_, rfl⟩
      simp only [Mman.pageCount, AvlMap.search_insert_ptr]
      by_cases hpq : p = q
      · simp [hpq]
      · simp [hpq]
    · have hone : s.pageCount p = 1 := by omega
      rw [if_neg hmore, if_pos hone]
      refine ⟨fun q => ?_, rfl⟩
      simp only [Mman.pageCount, AvlMap.search_remove_ptr]
      by_cases hpq : p = q
      · subst hpq
        rw [if_pos rfl, if_pos rfl]
        exact (congrArg (· - 1) hone).symm
      · simp [hpq]

/-- **`decrement_page`** on a counted page: it counts one less, and is released when that
    leaves nothing. -/
theorem Tally.decrement (h : Tally s (fun q => f q + if p = q then 1 else 0) K) :
    Tally (decrementPage s p) f K ∧ SameRoots s (decrementPage s p) ∧
    (decrementPage s p).kmem = if f p = 0 then kmemUnuse s.kmem p else s.kmem := by
  have hcount : s.pageCount p = f p + 1 := by simpa using h.counts p
  have hother : ∀ q, p ≠ q → s.pageCount q = f q := fun q hq => by simpa [hq] using h.counts q
  unfold decrementPage
  rw [if_neg (by omega)]
  by_cases hlast : f p = 0
  · -- the last reference
    rw [if_neg (by omega), if_pos hlast]
    refine ⟨⟨fun q => ?_, fun q => ?_, fun q hq => ?_, fun q hq => ?_⟩, ⟨rfl, rfl, rfl, rfl, rfl⟩, rfl⟩
    · simp only [Mman.pageCount, AvlMap.search_remove_ptr]
      split_ifs with hpq
      · rw [← hpq, hlast]
        rfl
      · exact hother q hpq
    · simp only [AvlMap.search_remove_ptr]
      split_ifs
      · simp
      · exact h.positive q
    · exact h.known q (by omega)
    · rcases List.mem_cons.mp hq with rfl | hq
      · exact h.known q (by simp)
      · exact h.freed q hq
  · rw [if_pos (by omega), if_neg hlast]
    refine ⟨⟨fun q => ?_, fun q => ?_, fun q hq => ?_, h.freed⟩, ⟨rfl, rfl, rfl, rfl, rfl⟩, rfl⟩
    · simp only [Mman.pageCount, AvlMap.search_insert_ptr]
      split_ifs with hpq
      · rw [← hpq, Option.getD_some]
        exact Nat.sub_eq_of_eq_add hcount
      · exact hother q hpq
    · simp only [AvlMap.search_insert_ptr]
      split_ifs
      · simp only [ne_eq, Option.some.injEq]
        omega
      · exact h.positive q
    · exact h.known q (by omega)

end

/-! ## The counts and the tables -/

/-- **The invariant**: a page's count is the number of references to it under `R`, plus its
    slack; the free list `L` has neither. -/
structure Counted (s : Mman) (loose : Word → Bool) (R : List Word) (slack : Word → Nat)
    (K : Set Word) (L : List Word) : Prop where
  layout : Layout s.kmem loose R L
  tally : Tally s (fun p => references loose s.phys R p + slack p) K
  slack_free : ∀ p ∈ L, slack p = 0
  slack_zero : slack 0 = 0

section
variable {s : Mman} {loose : Word → Bool} {R L : List Word} {slack : Word → Nat} {K : Set Word}
  {root va p : Word} {V : Set Word}

/-- Nothing well formed refers to page `0`. -/
theorem Layout.references_zero {k : Kmem} (h : Layout k loose R L) :
    references loose k.phys R 0 = 0 := by
  have hcount : R.count 0 = 0 := List.count_eq_zero.mpr fun hmem => (h.roots 0 hmem).2 rfl
  have hle : total walked (refTo loose 0) (entries k.phys) 4 R ≤
      total walked (illFormed loose) (entries k.phys) 4 R := by
    refine List.sum_le_sum fun r _ => sumBelow_mono fun n t i e => ?_
    simp only [refTo, illFormed]
    split_ifs with h₁ h₂
    · exact absurd h₁.1 (h₂.2 h₁.2)
    · exact le_rfl
    · exact le_rfl
    · exact Nat.zero_le _
  have := h.sane
  unfold references
  omega

/-- A counted page is not free, and is not page `0`. -/
theorem Counted.not_free (h : Counted s loose R slack K L) (hp : s.pageCount p ≠ 0) :
    p ≠ 0 ∧ p ∉ L := by
  rw [h.tally.counts] at hp
  constructor
  · rintro rfl
    exact hp (by rw [Mman.phys, h.layout.references_zero, h.slack_zero])
  · intro hmem
    exact hp (by rw [Mman.phys, h.layout.unused p hmem, h.slack_free p hmem])

/-- A new table is counted. -/
theorem Tally.newTable {f : Word → Nat} {pa : Word} (h : Tally s f K) (hp : s.kmem.lastUnused = p) :
    Tally (s.newTable pa) (fun q => f q + if p = q then 1 else 0) K := by
  subst hp
  have hsame : Tally { s with kmem := (s.kmem.newTable pa).1 } f K :=
    h.of_same rfl rfl fun q hq => List.mem_cons_of_mem _ hq
  exact hsame.increment (.inl List.mem_cons_self)

/-- **`paging_addr_create`** keeps the counts, and leads to the level-3 entry. -/
theorem Counted.create (h : Counted s loose R slack K L) (hown : Owned s.phys R root V 3)
    (hva : va ∈ V)
    (henough : (mmanPagingAddrCreate s root va 3).1.kmem.taken ≤ s.kmem.taken + L.length) :
    Counted (mmanPagingAddrCreate s root va 3).1 loose R slack K
      (L.drop ((mmanPagingAddrCreate s root va 3).1.kmem.taken - s.kmem.taken)) ∧
    Owned (mmanPagingAddrCreate s root va 3).1.phys R root V 3 ∧
    Grows R root V s.phys (mmanPagingAddrCreate s root va 3).1.phys ∧
    SameRoots s (mmanPagingAddrCreate s root va 3).1 ∧
    (∀ p ∈ s.kmem.handedOut, p ∈ (mmanPagingAddrCreate s root va 3).1.kmem.handedOut) ∧
    (∀ p, s.pageCount p ≤ (mmanPagingAddrCreate s root va 3).1.pageCount p) ∧
    ∃ t, tableAt (mmanPagingAddrCreate s root va 3).1.phys root va 3 = some t ∧
      (mmanPagingAddrCreate s root va 3).2 = cell t va 3 := by
  obtain ⟨hlay, hown', hgrows, ⟨htally, hroots, hout, hle⟩, -, ht⟩ := create_rule Mman.kmem Mman.newTable
    newTable_kmem
    (fun s' => Tally s' (fun p => references loose s'.phys R p + slack p) K ∧ SameRoots s s' ∧
      (∀ p ∈ s.kmem.handedOut, p ∈ s'.kmem.handedOut) ∧ ∀ p, s.pageCount p ≤ s'.pageCount p)
    hown h.layout hva le_rfl le_rfl ⟨h.tally, SameRoots.refl s, fun _ hp => hp, fun _ => le_rfl⟩
    (fun s' p t d L' ⟨htally, hroots, hout, hle⟩ hlay _ _ _ _ hrefs =>
      ⟨(htally.newTable hlay.pages.head_eq).congr fun q => by
          have := hrefs q
          unfold Mman.phys
          omega,
        hroots.trans ⟨rfl, rfl, rfl, rfl, rfl⟩, fun q hq => List.mem_cons_of_mem _ (hout q hq),
        fun q => by
          rw [(htally.newTable hlay.pages.head_eq).counts, ← htally.counts]
          exact (hle q).trans (Nat.le_add_right _ _)⟩)
    henough
  exact ⟨⟨hlay, htally, fun p hp => h.slack_free p (List.mem_of_mem_drop hp), h.slack_zero⟩, hown',
    hgrows, hroots, hout, hle, ht⟩

/-! ## Turns of the mapping loops -/

/-- What a turn for the page at `va` has done: its entry has been written, and is loose or not
    as `b` says; the counts are right again, and as long as the page was not mapped before,
    nothing is lost. -/
structure Turn (R : List Word) (root : Word) (V : Set Word) (K : Set Word) (L : List Word)
    (slack : Word → Nat) (loose : Word → Bool) (s s' : Mman) (va : Word) (b : Bool) : Prop where
  taken : s.kmem.taken ≤ s'.kmem.taken
  counted : ∃ t slack', tableAt s'.phys root va 3 = some t ∧
    Counted s' (Function.update loose (cell t va 3) b) R slack' K
      (L.drop (s'.kmem.taken - s.kmem.taken)) ∧
    (¬ Mapped s.phys root va → slack' = slack)
  owned : Owned s'.phys R root V 3
  others : ∀ va' ∈ V, ¬ SamePrefix 4 va' va → Mapped s'.phys root va' → Mapped s.phys root va'
  kept : ¬ Mapped s.phys root va → Kept R s.phys s'.phys
  walks : ∀ r ∈ R, ∀ va', pagingIndex va' 0 ≠ 384 → ∀ d t, tableAt s.phys r va' d = some t →
    tableAt s'.phys r va' d = some t
  roots : SameRoots s s'
  handed : ∀ p ∈ s.kmem.handedOut, p ∈ s'.kmem.handedOut
  count_le : ∀ p, s.pageCount p ≤ s'.pageCount p

theorem leafRef_eq_zero {m : Phys} {c q : Word} (h : Present (m c) → ¬ loose c → frameOf (m c) ≠ q) :
    leafRef loose m c q = 0 := if_neg fun ⟨hp, hq, hc⟩ => h hp hc hq

/-- **Creating the tables and writing the entry**, where the count has become what the new entry
    needs. `k` is the free list and the memory right before the write. -/
theorem Turn.of_write {s₁ s₂ : Mman} {t e : Word} {b : Bool} {k : Kmem}
    (h : Counted s loose R slack K L) (hown : Owned s₁.phys R root V 3) (hgrows : Grows R root V s.phys s₁.phys) (hva : va ∈ V)
    (ht : tableAt s₁.phys root va 3 = some t) (hk : k.phys = s₁.phys)
    (hlay : Layout k loose R (L.drop (s₂.kmem.taken - s.kmem.taken)))
    (hs₂ : s₂.kmem = { k with phys := Function.update k.phys (cell t va 3) e })
    (htally : Tally s₂ (fun q => references loose s₁.phys R q + slack q +
      leafRef (Function.update loose (cell t va 3) b) s₂.phys (cell t va 3) q) K)
    (he : Present e → b = false →
      frameOf e ≠ 0 ∧ frameOf e ∉ L.drop (s₂.kmem.taken - s.kmem.taken))
    (htaken : s.kmem.taken ≤ s₂.kmem.taken) (hroots : SameRoots s s₂)
    (hout : ∀ p ∈ s.kmem.handedOut, p ∈ s₂.kmem.handedOut)
    (hle : ∀ p, s.pageCount p ≤ s₂.pageCount p) : Turn R root V K L slack loose s s₂ va b := by
  rw [← hk] at hown ht
  have hmem : s₂.phys = Function.update k.phys (cell t va 3) e := by rw [Mman.phys, hs₂]
  have he' : Present e → ¬ Function.update loose (cell t va 3) b (cell t va 3) →
      frameOf e ≠ 0 ∧ frameOf e ∉ L.drop (s₂.kmem.taken - s.kmem.taken) := fun hp hb =>
    he hp (by simpa using hb)
  obtain ⟨hlay', hown', hrefs, htabs, hwalks, hothers⟩ := hown.leaf hlay hva ht
    (fun c hc => Function.update_of_ne hc _ _) he'
  rw [← hs₂] at hlay'
  rw [← hmem] at hown' hrefs htabs hwalks hothers
  -- neither a free page nor page `0` had a reference here
  have hlost : ∀ q, (frameOf e ≠ 0 ∧ frameOf e ∉ L.drop (s₂.kmem.taken - s.kmem.taken) →
      frameOf e ≠ q) → references loose k.phys R q = 0 →
      leafRef loose k.phys (cell t va 3) q = 0 := by
    intro q hq hzero
    have hnew : leafRef (Function.update loose (cell t va 3) b) s₂.phys (cell t va 3) q = 0 :=
      leafRef_eq_zero fun hp hb => by
        rw [hmem, Function.update_self] at hp ⊢
        exact hq (he' hp hb)
    have := hrefs q
    omega
  refine ⟨htaken, ⟨t, fun q => slack q + leafRef loose k.phys (cell t va 3) q,
    (hwalks root hown.root_mem va (hown.low va hva) 3).trans ht, ⟨hlay', ?_, ?_, ?_⟩, ?_⟩,
    hown', ?_, ?_, ?_, hroots, hout, hle⟩
  · refine htally.congr fun q => ?_
    have := hrefs q
    rw [← hk]
    omega
  · intro q hq
    rw [h.slack_free q (List.mem_of_mem_drop hq), Nat.zero_add]
    exact hlost q (fun hh heq => hh.2 (heq ▸ hq)) (hlay.unused q hq)
  · rw [h.slack_zero, Nat.zero_add]
    exact hlost 0 (fun hh => hh.1) hlay.references_zero
  · intro hnot
    funext q
    rw [leafRef_eq_zero, Nat.add_zero]
    exact fun hp _ => absurd (hgrows.mapped va hva ⟨t, hk ▸ ht, hk ▸ hp⟩) hnot
  · exact fun va' hva' hne hmap => hgrows.mapped va' hva' (hk ▸ hothers va' hva' hne hmap)
  · intro hnot
    refine hgrows.kept.trans ?_
    rw [← hk, hmem]
    refine kept_of_absent (fun hp => ?_) (hmem ▸ htabs)
    exact hnot (hgrows.mapped va hva ⟨t, hk ▸ ht, hk ▸ hp⟩)
  · intro r hr va' hva' d t' ht'
    rw [hwalks r hr va' hva', hk]
    exact kept_tableAt h.layout.sane hgrows.kept hr hva' ht'

/-- The entry that is written refers to its frame, or is loose. -/
theorem leafRef_written {m : Phys} {c e q : Word} {b : Bool} (hm : m c = e) (hp : Present e) :
    leafRef (Function.update loose c b) m c q = if frameOf e = q ∧ b = false then 1 else 0 := by
  rw [leafRef, hm, Function.update_self]
  refine if_congr ?_ rfl rfl
  rw [and_iff_right hp, Bool.not_eq_true]

/-- `mman_anonymous`, one page. -/
theorem Counted.anonymous (h : Counted s loose R slack K L) (hown : Owned s.phys R root V 3)
    (hva : va ∈ V)
    (henough : (anonymousPage root s va).kmem.taken ≤ s.kmem.taken + L.length) :
    Turn R root V K L slack loose s (anonymousPage root s va) va false := by
  have hle := create_taken s root va 3
  have htaken : (anonymousPage root s va).kmem.taken =
      (mmanPagingAddrCreate s root va 3).1.kmem.taken + 1 := rfl
  obtain ⟨h₁, hown₁, hgrows, hroots, hout, hcle, t, ht, haddr⟩ := h.create hown hva (by omega)
  have hlt : (mmanPagingAddrCreate s root va 3).1.kmem.taken - s.kmem.taken < L.length := by omega
  have hdrop := List.drop_eq_getElem_cons hlt
  have hsub : (anonymousPage root s va).kmem.taken - s.kmem.taken =
      (mmanPagingAddrCreate s root va 3).1.kmem.taken - s.kmem.taken + 1 := by omega
  generalize L[(mmanPagingAddrCreate s root va 3).1.kmem.taken - s.kmem.taken] = f at hdrop
  generalize hs₁ : (mmanPagingAddrCreate s root va 3).1 = s₁ at *
  rw [hdrop] at h₁
  rw [← hsub] at h₁
  have hpage : s₁.kmem.lastUnused = f := h₁.layout.pages.head_eq
  have hf : IsFrame f := h₁.layout.frames f (by simp)
  have hf₀ := h₁.layout.ne_zero (p := f) (by simp)
  have hfL := (List.nodup_cons.mp h₁.layout.nodup).1
  have hstate : anonymousPage root s va = incrementPage
      (s₁.getpage.1.write (cell t va 3) (f ||| kmemMapData)) f := by
    simp only [anonymousPage, hs₁, haddr]
    rw [show s₁.getpage.2 = f from hpage]
  rw [hstate] at hsub h₁ hfL htaken ⊢
  have hentry : (s₁.getpage.1.write (cell t va 3) (f ||| kmemMapData)).phys (cell t va 3) =
      f ||| kmemMapData := Function.update_self ..
  have hframe : frameOf (f ||| kmemMapData) = f := data_frame hf
  have htally : Tally (s₁.getpage.1.write (cell t va 3) (f ||| kmemMapData))
      (fun p => references loose s₁.phys R p + slack p) K :=
    h₁.tally.of_same rfl rfl fun p hp => List.mem_cons_of_mem _ hp
  refine Turn.of_write (k := (kmemGetpage s₁.kmem).1) (e := f ||| kmemMapData) h hown₁ hgrows hva ht
    rfl h₁.layout.take rfl ?_ ?_ ?_ ?_ ?_ ?_
  · refine (htally.increment (p := f) (.inl ?_)).congr fun q => ?_
    · rw [← hpage]
      exact List.mem_cons_self
    · rw [incrementPage_phys, leafRef_written hentry (present_data f hf), hframe]
      simp
  · intro _ _
    rw [hframe]
    exact ⟨hf₀, hfL⟩
  · omega
  · exact hroots.trans ⟨rfl, rfl, rfl, rfl, rfl⟩
  · exact fun p hp => List.mem_cons_of_mem _ (hout p hp)
  · intro q
    rw [pageCount_incrementPage]
    exact (hcle q).trans (Nat.le_add_right _ _)

/-- `mman_physical`, one page. -/
theorem Counted.physical {paddress : Word} (h : Counted s loose R slack K L)
    (hown : Owned s.phys R root V 3) (hva : va ∈ V)
    (henough : (physicalPage root s va paddress).kmem.taken ≤ s.kmem.taken + L.length) :
    Turn R root V K L slack loose s (physicalPage root s va paddress) va true := by
  have hle := create_taken s root va 3
  obtain ⟨h₁, hown₁, hgrows, hroots, hout, hcle, t, ht, haddr⟩ := h.create hown hva henough
  generalize hs₁ : (mmanPagingAddrCreate s root va 3).1 = s₁ at *
  have hstate : physicalPage root s va paddress =
      s₁.write (cell t va 3) (paddress ||| kmemMapData) := by
    simp only [physicalPage, hs₁, haddr]
  rw [hstate]
  have htally : Tally (s₁.write (cell t va 3) (paddress ||| kmemMapData))
      (fun p => references loose s₁.phys R p + slack p) K := h₁.tally.of_same rfl rfl fun p hp => hp
  refine Turn.of_write (k := s₁.kmem) (e := paddress ||| kmemMapData) h hown₁ hgrows hva ht rfl
    h₁.layout rfl ?_ (by simp) hle (hroots.trans ⟨rfl, rfl, rfl, rfl, rfl⟩) hout hcle
  refine htally.congr fun q => ?_
  rw [leafRef_eq_zero fun _ hb => absurd (Function.update_self ..) hb, Nat.add_zero]

/-- `mman_mirror`, one page, from a source that is mapped to a counted page. -/
theorem Counted.mirror {sroot sva st : Word} (h : Counted s loose R slack K L)
    (hown : Owned s.phys R root V 3) (hva : va ∈ V) (hsroot : sroot ∈ R)
    (hslow : pagingIndex sva 0 ≠ 384) (hst : tableAt s.phys sroot sva 3 = some st)
    (hpres : Present (s.phys (cell st sva 3)))
    (hcount : s.pageCount (frameOf (s.phys (cell st sva 3))) ≠ 0)
    (henough : (mirrorPage root sroot s va sva).kmem.taken ≤ s.kmem.taken + L.length) :
    Turn R root V K L slack loose s (mirrorPage root sroot s va sva) va false := by
  have hle := create_taken s root va 3
  have hgood : (mmanPagingAddrCreate s root va 3).1.kmem.taken ≤ s.kmem.taken + L.length :=
    (create_taken _ sroot sva 3).trans henough
  obtain ⟨h₁, hown₁, hgrows, hroots, hout, hcle, t, ht, haddr⟩ := h.create hown hva hgood
  obtain ⟨hst₁, hread⟩ := hgrows.kept.mapped h.layout.sane hsroot hslow hst hpres
  generalize hs₁ : (mmanPagingAddrCreate s root va 3).1 = s₁ at *
  generalize s.phys (cell st sva 3) = e at *
  have hstate : mirrorPage root sroot s va sva =
      incrementPage (s₁.write (cell t va 3) e) (frameOf e) := by
    simp only [mirrorPage, hs₁, haddr, mmanPagingAddrCreate_of_table hst₁, hread]
  rw [hstate]
  obtain ⟨hframe₀, hfree⟩ := h.not_free hcount
  have hentry : (s₁.write (cell t va 3) e).phys (cell t va 3) = e := Function.update_self ..
  have htally : Tally (s₁.write (cell t va 3) e)
      (fun p => references loose s₁.phys R p + slack p) K := h₁.tally.of_same rfl rfl fun p hp => hp
  refine Turn.of_write (k := s₁.kmem) (e := e) h hown₁ hgrows hva ht rfl h₁.layout rfl ?_ ?_ hle
    (hroots.trans ⟨rfl, rfl, rfl, rfl, rfl⟩) hout fun q => by
      rw [pageCount_incrementPage]
      exact (hcle q).trans (Nat.le_add_right _ _)
  · refine (htally.increment (p := frameOf e) ?_).congr fun q => ?_
    · rw [h.tally.counts] at hcount
      exact (h.tally.known _ hcount).imp_left (hout _)
    · rw [incrementPage_phys, leafRef_written hentry hpres]
      simp
  · exact fun _ _ => ⟨hframe₀, fun hmem => hfree (List.mem_of_mem_drop hmem)⟩

/-! ## Turns of the unmapping loop -/

/-- What a turn of `mman_unmap` has done: nothing but dropping entries. -/
structure Dropped (R : List Word) (root : Word) (V : Set Word) (K : Set Word) (L : List Word)
    (slack : Word → Nat) (loose : Word → Bool) (s s' : Mman) : Prop where
  counted : ∃ L', Counted s' loose R slack K L' ∧ L ⊆ L' ∧
    ∀ p, s.pageCount p ≠ 0 → s'.pageCount p = 0 → p ∈ L'
  owned : Owned s'.phys R root V 3
  entry : ∀ va ∈ V, ∀ t, tableAt s'.phys root va 3 = some t → tableAt s.phys root va 3 = some t ∧
    (Present (s'.phys (cell t va 3)) → s'.phys (cell t va 3) = s.phys (cell t va 3))
  count_le : ∀ q, s'.pageCount q ≤ s.pageCount q
  roots : SameRoots s s'
  handed : s'.kmem.handedOut = s.kmem.handedOut

theorem Dropped.refl (h : Counted s loose R slack K L) (hown : Owned s.phys R root V 3) :
    Dropped R root V K L slack loose s s :=
  ⟨⟨L, h, List.Subset.refl L, fun _ h h' => absurd h' h⟩, hown, fun _ _ _ ht => ⟨ht, fun _ => rfl⟩, fun _ => le_rfl,
    SameRoots.refl s, rfl⟩

/-- The entry that is cleared, with the count already taken down. -/
theorem Dropped.of_clear {s' : Mman} {t : Word} {L' : List Word} (hs' : Counted s' loose R slack K L')
    (hsub : L ⊆ L') (hgone : ∀ p, s.pageCount p ≠ 0 → s'.pageCount p = 0 → p ∈ L') (hown : Owned s.phys R root V 3)
    (hmet : ∀ T, tablesMet s'.phys R T = tablesMet s.phys R T)
    (htables : ∀ va' ∈ V, ∀ d, tableAt s'.phys root va' d = tableAt s.phys root va' d)
    (hread : ∀ va' ∈ V, ∀ t', tableAt s.phys root va' 3 = some t' → cell t' va' 3 ≠ cell t va 3 →
      s'.phys (cell t' va' 3) = s.phys (cell t' va' 3))
    (hclear : s'.phys (cell t va 3) = 0) (hle : ∀ q, s'.pageCount q ≤ s.pageCount q)
    (hroots : SameRoots s s') (hout : s'.kmem.handedOut = s.kmem.handedOut) :
    Dropped R root V K L slack loose s s' := by
  refine ⟨⟨L', hs', hsub, hgone⟩, ⟨hown.root_mem, hown.low, fun va' hva' d hd t' ht' => ?_⟩,
    fun va' hva' t' ht' => ?_, hle, hroots, hout⟩
  · rw [htables va' hva'] at ht'
    rw [hmet]
    exact hown.own va' hva' d hd t' ht'
  · rw [htables va' hva'] at ht'
    refine ⟨ht', fun hp => hread va' hva' t' ht' ?_⟩
    intro hcell
    rw [hcell, hclear] at hp
    exact hp (by decide)

/-- The walks for `V` and the entry at their end, in a memory where one entry was cleared. -/
theorem Owned.clear {t : Word} (h : Layout s.kmem loose R L) (hown : Owned s.phys R root V 3)
    (hva : va ∈ V) (ht : tableAt s.phys root va 3 = some t) :
    Layout { s.kmem with phys := Function.update s.phys (cell t va 3) 0 } loose R L ∧
    (∀ q, references loose (Function.update s.phys (cell t va 3) 0) R q +
      leafRef loose s.phys (cell t va 3) q = references loose s.phys R q) ∧
    (∀ T, tablesMet (Function.update s.phys (cell t va 3) 0) R T = tablesMet s.phys R T) ∧
    ∀ va' ∈ V, ∀ d, tableAt (Function.update s.phys (cell t va 3) 0) root va' d =
      tableAt s.phys root va' d := by
  have habs : ¬ Present (Function.update s.phys (cell t va 3) 0 (cell t va 3)) := by
    rw [Function.update_self]
    decide
  obtain ⟨hlay, -, hrefs, htabs, hwalks, -⟩ := hown.leaf (e := 0) h hva ht
    (show ∀ c, c ≠ cell t va 3 → loose c = loose c from fun _ _ => rfl) fun hp => absurd hp (by decide)
  refine ⟨hlay, fun q => ?_, htabs, fun va' hva' => hwalks root hown.root_mem va' (hown.low va' hva')⟩
  refine (hrefs q).trans ?_
  rw [← Mman.phys, leafRef_eq_zero fun hp => absurd hp habs, Nat.add_zero]

/-- A loose entry of a page that is not counted is cleared. -/
theorem Counted.drop_loose {t e : Word} (h : Counted s loose R slack K L)
    (hown : Owned s.phys R root V 3) (hva : va ∈ V) (ht : tableAt s.phys root va 3 = some t)
    (hloose : loose (cell t va 3)) (hzero : s.pageCount (frameOf e) = 0) :
    Dropped R root V K L slack loose s (unmapEntry s (cell t va 3) e) := by
  obtain ⟨hlay, hrefs, htabs, hwalks⟩ := hown.clear h.layout hva ht
  rw [unmapEntry, decrementPage_of_zero hzero]
  refine Dropped.of_clear ⟨hlay, ?_, h.slack_free, h.slack_zero⟩ (List.Subset.refl L)
    (fun q h h' => absurd h' h) hown htabs hwalks
    (fun va' hva' t' _ hne => Function.update_of_ne hne _ _) (Function.update_self ..)
    (fun q => le_rfl) ⟨rfl, rfl, rfl, rfl, rfl⟩ rfl
  have hsame : Tally (s.write (cell t va 3) 0) (fun q => references loose s.phys R q + slack q) K :=
    h.tally.of_same rfl rfl fun p hp => hp
  refine hsame.congr fun q => ?_
  rw [← hrefs q, leafRef_eq_zero fun _ hb => absurd hloose hb]
  rfl

/-- A counted entry is cleared. -/
theorem Counted.drop {t e : Word} (h : Counted s loose R slack K L) (hown : Owned s.phys R root V 3)
    (hva : va ∈ V) (ht : tableAt s.phys root va 3 = some t) (he : s.phys (cell t va 3) = e)
    (hpres : Present e) (hloose : ¬ loose (cell t va 3)) :
    Dropped R root V K L slack loose s (unmapEntry s (cell t va 3) e) := by
  have hr := hown.root_mem
  obtain ⟨hlay, hrefs, htabs, hwalks⟩ := hown.clear h.layout hva ht
  have hold : ∀ q, leafRef loose s.phys (cell t va 3) q = if frameOf e = q then 1 else 0 := fun q => by
    rw [leafRef, he]
    exact if_congr (by rw [and_iff_right hpres, and_iff_left hloose]) rfl rfl
  have htally : Tally s (fun q => (references loose (Function.update s.phys (cell t va 3) 0) R q +
      slack q) + if frameOf e = q then 1 else 0) K := h.tally.congr fun q => by
    rw [← hrefs q, hold]
    omega
  obtain ⟨htally', hroots', hkmem⟩ := htally.decrement
  have hcounted : s.pageCount (frameOf e) ≠ 0 := by
    rw [htally.counts]
    simp
  obtain ⟨hf₀, hfL⟩ := h.not_free hcounted
  have hle : ∀ q, (unmapEntry s (cell t va 3) e).pageCount q ≤ s.pageCount q := fun q => by
    have hcount : (unmapEntry s (cell t va 3) e).pageCount q =
        (decrementPage s (frameOf e)).pageCount q := rfl
    rw [hcount, htally'.counts, htally.counts]
    exact Nat.le_add_right _ _
  have hgone : ∀ q, s.pageCount q ≠ 0 → (unmapEntry s (cell t va 3) e).pageCount q = 0 →
      frameOf e = q ∧ references loose (Function.update s.phys (cell t va 3) 0) R q + slack q = 0 := by
    intro q hq hq'
    have hcount : (unmapEntry s (cell t va 3) e).pageCount q =
        (decrementPage s (frameOf e)).pageCount q := rfl
    rw [hcount, htally'.counts] at hq'
    rw [htally.counts] at hq
    refine ⟨?_, hq'⟩
    by_contra hne
    rw [if_neg hne] at hq
    omega
  have htally₂ : Tally (unmapEntry s (cell t va 3) e) (fun q =>
      references loose (Function.update s.phys (cell t va 3) 0) R q + slack q) K :=
    htally'.of_same rfl rfl fun p hp => hp
  have hroots : SameRoots s (unmapEntry s (cell t va 3) e) := hroots'.trans ⟨rfl, rfl, rfl, rfl, rfl⟩
  by_cases hz : references loose (Function.update s.phys (cell t va 3) 0) R (frameOf e) +
      slack (frameOf e) = 0
  · -- the page goes back: nothing refers to it, so it is no table either
    rw [if_pos hz] at hkmem
    obtain ⟨hlay', hrefs', htabs'⟩ := hlay.unuse (isFrame_and e) hf₀ (Nat.eq_zero_of_add_eq_zero hz).1 hfL
    have hfmet : tablesMet (Function.update s.phys (cell t va 3) 0) R (frameOf e) = 0 :=
      Nat.eq_zero_of_le_zero (tablesMet_le_references.trans
        (le_of_le_of_eq (Nat.le_add_right _ _) hz))
    have hne : cell t va 3 ≠ frameOf e := fun hcell => by
      have hal := isFrame_of_met h.layout.isFrame (h.layout.met hr (hown.low va hva) ht)
      have heq := cell_eq_page hal.aligned (isFrame_and e).aligned hcell
      have hone := hown.own va hva 3 le_rfl t ht
      rw [heq, ← htabs, hfmet] at hone
      cases hone
    have hkmem' : (unmapEntry s (cell t va 3) e).kmem =
        kmemUnuse { s.kmem with phys := Function.update s.phys (cell t va 3) 0 } (frameOf e) := by
      simp only [unmapEntry, Mman.write, hkmem, kmemUnuse, phyWrite64, Mman.phys]
      rw [Function.update_comm hne]
    have hoff : AgreeOff (frameOf e) (Function.update s.phys (cell t va 3) 0)
        (unmapEntry s (cell t va 3) e).phys := by
      rw [show (unmapEntry s (cell t va 3) e).phys = _ from congrArg Kmem.phys hkmem']
      exact agreeOff_update (isFrame_and e).aligned
    rw [← hkmem'] at hlay' hrefs' htabs'
    have hwalk' : ∀ va' ∈ V, _ := fun va' hva' =>
      hoff.tableAt_eq hlay.isFrame hlay.sane hfmet hr (hown.low va' hva')
    refine Dropped.of_clear ⟨hlay', htally₂.congr fun q => congrArg (· + slack q) (hrefs' q), ?_,
      h.slack_zero⟩ (List.subset_cons_self (frameOf e) L)
      (fun q hq hq' => (hgone q hq hq').1 ▸ List.mem_cons_self) hown (fun T => (htabs' T).trans (htabs T))
      (fun va' hva' d => ((hwalk' va' hva').1 d).trans (hwalks va' hva' d))
      (fun va' hva' t' ht' hne' => ((hwalk' va' hva').2 3 t' ((hwalks va' hva' 3).trans ht')).trans
        (Function.update_of_ne hne' _ _))
      (Function.update_self ..) hle hroots (by rw [hkmem']; rfl)
    intro p hp
    rcases List.mem_cons.mp hp with rfl | hp
    · exact (Nat.eq_zero_of_add_eq_zero hz).2
    · exact h.slack_free p hp
  · rw [if_neg hz] at hkmem
    have hkmem' : (unmapEntry s (cell t va 3) e).kmem =
        { s.kmem with phys := Function.update s.phys (cell t va 3) 0 } := by
      simp only [unmapEntry, Mman.write, hkmem, phyWrite64, Mman.phys]
    have hmem : (unmapEntry s (cell t va 3) e).phys = Function.update s.phys (cell t va 3) 0 :=
      congrArg Kmem.phys hkmem'
    refine Dropped.of_clear ⟨hkmem' ▸ hlay, htally₂.congr fun q => by rw [hmem], h.slack_free,
      h.slack_zero⟩ (List.Subset.refl L)
      (fun q hq hq' => by
        obtain ⟨rfl, hq₀⟩ := hgone q hq hq'
        exact absurd hq₀ hz) hown (fun T => by rw [hmem, htabs])
      (fun va' hva' d => by rw [hmem, hwalks va' hva'])
      (fun va' hva' t' _ hne => by rw [hmem, Function.update_of_ne hne])
      (by rw [hmem, Function.update_self]) hle hroots (by rw [hkmem'])

/-- `mman_unmap`, one page; a loose entry must be for a page that is not counted. -/
theorem Counted.unmap (h : Counted s loose R slack K L) (hown : Owned s.phys R root V 3) (hva : va ∈ V)
    (hloose : ∀ t, tableAt s.phys root va 3 = some t → Present (s.phys (cell t va 3)) →
      loose (cell t va 3) → s.pageCount (frameOf (s.phys (cell t va 3))) = 0) :
    Dropped R root V K L slack loose s (onEntry root unmapEntry s va) := by
  have haddr : kmemPagingAddr s.phys root va 3 = _ :=
    h.layout.kmemPagingAddr hown.root_mem (hown.low va hva) le_rfl
  unfold onEntry
  cases ht : tableAt s.kmem.phys root va 3 with
  | none =>
    rw [ht, Option.map_none] at haddr
    simp only [haddr]
    exact Dropped.refl h hown
  | some t =>
    rw [ht, Option.map_some] at haddr
    simp only [haddr]
    by_cases hpres : Present (s.phys (cell t va 3))
    · rw [if_pos hpres]
      by_cases hl : loose (cell t va 3)
      · exact h.drop_loose hown hva ht hl (hloose t ht hpres hl)
      · exact h.drop hown hva ht rfl hpres hl
    · rw [if_neg hpres]
      exact Dropped.refl h hown

end

end Refk
