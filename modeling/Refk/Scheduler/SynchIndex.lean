import Refk.Lib.Chain
import Refk.Lib.Run
import Refk.Scheduler.SynchFrame

/-!
# The two indexes of synch objects

`synch_make` enters an object in the address-keyed tree and in its page's list.
`synch_destroy` takes it out of the list and frees it, but leaves it in the tree, so the tree's
pointer is stale from then on; and the check for a word that crosses its page's end never
fires. Both are what the condition of the theorem excludes.
-/

namespace Refk

open Lib

/-- `pobj->next` -/
def Sched.pageNext (s : Sched) (p : Nat) : Nat := ((s.pageObject? p).map PageObject.next).getD 0

/-- `pobj->object` -/
def Sched.pageEntry (s : Sched) (p : Nat) : Nat :=
  ((s.pageObject? p).map PageObject.object).getD 0

/-- `xs` is the list of a page. -/
structure PageList (s : Sched) (page : Word) (xs : List Nat) : Prop where
  chain : Chain s.pageNext 0 ((s.synchPages.search page).getD 0) xs
  live : ∀ x ∈ xs, ∃ po, s.pageObject? x = some po

/-- The eight bytes at `phy` lie in one page. -/
def WordInPage (phy : Word) : Prop := (phy &&& 0xfff).toNat + 8 ≤ 0x1000

/-- **The indexes agree**: an object is in the tree, under its address, exactly when it is live,
    and then exactly once in the list of its page, which holds its whole word. -/
structure Indexed (s : Sched) : Prop where
  objects : ∀ phy p, s.synchObjects.search phy = some p ↔
    ∃ o, s.object? p = some o ∧ o.phyAddr = phy
  pages : ∀ page, ∃ xs, PageList s page xs ∧ (xs.map s.pageEntry).Nodup ∧
    ∀ p, p ∈ xs.map s.pageEntry ↔ ∃ o, s.object? p = some o ∧ pageOf o.phyAddr = page
  word : ∀ p o, s.object? p = some o → WordInPage o.phyAddr

section
variable {s s' : Sched} {object p : Nat} {phy page : Word} {o : SynchObj}

/-- Where nothing is found, the tree has no entry. -/
theorem Indexed.search_eq_none (h : Indexed s) (hnew : synchFromPhy s phy = 0) :
    s.synchObjects.search phy = none := by
  cases hs : s.synchObjects.search phy with
  | none => rfl
  | some p =>
    obtain ⟨o, ho, -⟩ := (h.objects phy p).mp hs
    have hp0 : p = 0 := by simpa [synchFromPhy, hs] using hnew
    exact absurd hp0 (Heap.ne_zero_of_cells (Sched.object?_eq_some.mp ho))

/-- The page overflow check of `synch_make` never fires. -/
theorem over_not_lt (phy : Word) : ¬ (phy &&& 0xfff) + 8 < 8 := by
  have hle : (phy &&& 0xfff).toNat ≤ 0xfff := by
    rw [BitVec.toNat_and]
    exact Nat.and_le_right
  bv_omega

theorem synchMake_spec (s : Sched) (phy : Word) : ∃ (ret pobj : Nat) (heap : Heap Block),
    s.heap.cells ret = none ∧ s.heap.cells pobj = none ∧ pobj ≠ 0 ∧ ret ≠ pobj ∧
      heap.cells = Function.update (Function.update s.heap.cells ret (some (.object ⟨phy, 0⟩)))
        pobj (some (.pageObject ⟨(s.synchPages.search (pageOf phy)).getD 0, ret⟩)) ∧
      synchMake s phy = ({ s with
        heap := heap
        synchObjects := (s.synchObjects.insert phy ret).1
        synchPages := (s.synchPages.insert (pageOf phy) pobj).1 }, ret) := by
  have hret : (s.heap.alloc (.object ⟨phy, 0⟩)).cells s.heap.fresh = some (.object ⟨phy, 0⟩) :=
    Heap.cells_alloc_fresh
  have hne := Heap.fresh_ne hret
  have hnone := Heap.cells_fresh (s.heap.alloc (.object ⟨phy, 0⟩))
  rw [Heap.cells_alloc_of_ne hne] at hnone
  refine ⟨s.heap.fresh, (s.heap.alloc (.object ⟨phy, 0⟩)).fresh,
    (s.heap.alloc (.object ⟨phy, 0⟩)).alloc
      (.pageObject ⟨(s.synchPages.search (pageOf phy)).getD 0, s.heap.fresh⟩),
    s.heap.cells_fresh, hnone, Heap.fresh_ne_zero _, hne.symm, rfl, ?_⟩
  simp only [synchMake, if_neg (over_not_lt phy), Sched.alloc]

/-- From `s` to `s'` the object `ret` was made, and listed by `pobj`. -/
structure Made (s s' : Sched) (phy : Word) (ret pobj : Nat) : Prop where
  object : ∀ p o, s'.object? p = some o ↔ (p = ret ∧ o = ⟨phy, 0⟩) ∨ s.object? p = some o
  fresh : s.object? ret = none
  pageObject : ∀ p po, s.pageObject? p = some po → s'.pageObject? p = some po
  head : s'.pageObject? pobj = some ⟨(s.synchPages.search (pageOf phy)).getD 0, ret⟩
  head_ne_zero : pobj ≠ 0
  synchObjects : ∀ phy', s'.synchObjects.search phy' =
    if phy = phy' then some ret else s.synchObjects.search phy'
  synchPages : ∀ page, s'.synchPages.search page =
    if pageOf phy = page then some pobj else s.synchPages.search page

/-- **What `synch_make` does**: two new blocks, and an entry in each index. -/
theorem synchMake_made (s : Sched) (phy : Word) :
    ∃ pobj, Made s (synchMake s phy).1 phy (synchMake s phy).2 pobj := by
  obtain ⟨ret, pobj, heap, hret, hpobj, hpobj0, hne, hcells, heq⟩ := synchMake_spec s phy
  rw [heq]
  refine ⟨pobj, fun p o => ?_, ?_, fun p po hp => ?_, ?_, hpobj0,
    fun _ => AvlMap.search_insert_ptr _ _, fun _ => AvlMap.search_insert_ptr _ _⟩
  · rw [Sched.object?_eq_some, Sched.object?_eq_some]
    change heap.cells p = _ ↔ _
    rw [hcells]
    by_cases hp : p = pobj
    · simp [hp, hne.symm, hpobj]
    · rw [Function.update_of_ne hp]
      by_cases hp' : p = ret
      · simp [hp', hret, eq_comm]
      · simp [hp']
  · cases ho : s.object? ret with
    | none => rfl
    | some o =>
      rw [Sched.object?_eq_some, hret] at ho
      cases ho
  · rw [Sched.pageObject?_eq_some] at hp ⊢
    change heap.cells p = _
    have hp₁ : p ≠ pobj := fun h => by
      rw [h, hpobj] at hp
      cases hp
    have hp₂ : p ≠ ret := fun h => by
      rw [h, hret] at hp
      cases hp
    rw [hcells, Function.update_of_ne hp₁, Function.update_of_ne hp₂, hp]
  · rw [Sched.pageObject?_eq_some]
    change heap.cells pobj = _
    rw [hcells, Function.update_self]

variable {ret pobj : Nat} {xs : List Nat}

/-- The lists there are stay. -/
theorem Made.kept (h : Made s s' phy ret pobj) (hxs : PageList s page xs) :
    (∀ x ∈ xs, s'.pageNext x = s.pageNext x) ∧ xs.map s'.pageEntry = xs.map s.pageEntry ∧
      ∀ x ∈ xs, ∃ po, s'.pageObject? x = some po := by
  have hold : ∀ x ∈ xs, s'.pageObject? x = s.pageObject? x := by
    intro x hx
    obtain ⟨po, hpo⟩ := hxs.live x hx
    rw [hpo, h.pageObject x po hpo]
  refine ⟨fun x hx => ?_, List.map_congr_left fun x hx => ?_, fun x hx => ?_⟩
  · rw [Sched.pageNext, hold x hx, Sched.pageNext]
  · rw [Sched.pageEntry, hold x hx, Sched.pageEntry]
  · rw [hold x hx]
    exact hxs.live x hx

/-- The object's page lists it in front. -/
theorem Made.listed (h : Made s s' phy ret pobj) (hxs : PageList s (pageOf phy) xs) :
    PageList s' (pageOf phy) (pobj :: xs) ∧
      (pobj :: xs).map s'.pageEntry = ret :: xs.map s.pageEntry := by
  obtain ⟨hnext, hentries, hlive⟩ := h.kept hxs
  have hnext₀ : s'.pageNext pobj = (s.synchPages.search (pageOf phy)).getD 0 := by
    rw [Sched.pageNext, h.head]
    rfl
  have hentry₀ : s'.pageEntry pobj = ret := by
    rw [Sched.pageEntry, h.head]
    rfl
  refine ⟨⟨⟨?_, h.head_ne_zero, ?_⟩, fun x hx => ?_⟩, ?_⟩
  · rw [h.synchPages, if_pos rfl]
    rfl
  · rw [hnext₀]
    exact hxs.chain.congr hnext
  · rcases List.mem_cons.mp hx with rfl | hx
    · exact ⟨_, h.head⟩
    · exact hlive x hx
  · rw [List.map_cons, hentry₀, hentries]

/-- The other pages' lists are not touched. -/
theorem Made.other (h : Made s s' phy ret pobj) (hxs : PageList s page xs)
    (hne : pageOf phy ≠ page) :
    PageList s' page xs ∧ xs.map s'.pageEntry = xs.map s.pageEntry := by
  obtain ⟨hnext, hentries, hlive⟩ := h.kept hxs
  refine ⟨⟨?_, hlive⟩, hentries⟩
  rw [h.synchPages, if_neg hne]
  exact hxs.chain.congr hnext

theorem Made.objects (h : Made s s' phy ret pobj) (hs : Indexed s)
    (hnone : s.synchObjects.search phy = none) (phy' : Word) (p : Nat) :
    s'.synchObjects.search phy' = some p ↔ ∃ o, s'.object? p = some o ∧ o.phyAddr = phy' := by
  rw [h.synchObjects]
  split_ifs with heq
  · subst heq
    constructor
    · intro hp
      obtain rfl : ret = p := Option.some.inj hp
      exact ⟨_, (h.object _ _).mpr (.inl ⟨rfl, rfl⟩), rfl⟩
    · rintro ⟨o, ho, hphy⟩
      rcases (h.object p o).mp ho with ⟨rfl, -⟩ | ho
      · rfl
      · rw [(hs.objects phy p).mpr ⟨o, ho, hphy⟩] at hnone
        cases hnone
  · rw [hs.objects]
    constructor
    · rintro ⟨o, ho, hphy⟩
      exact ⟨o, (h.object p o).mpr (.inr ho), hphy⟩
    · rintro ⟨o, ho, hphy⟩
      rcases (h.object p o).mp ho with ⟨-, rfl⟩ | ho
      · exact absurd hphy heq
      · exact ⟨o, ho, hphy⟩

/-- **Making an object** whose word fits its page keeps the indexes in agreement. -/
theorem Indexed.make (hs : Indexed s) (hnew : synchFromPhy s phy = 0) (hfits : WordInPage phy) :
    Indexed (synchMake s phy).1 := by
  obtain ⟨pobj, h⟩ := synchMake_made s phy
  refine ⟨h.objects hs (hs.search_eq_none hnew), fun page => ?_, fun p o ho => ?_⟩
  · obtain ⟨xs, hxs, hnodup, hmem⟩ := hs.pages page
    by_cases heq : pageOf phy = page
    · subst heq
      obtain ⟨hlist, hentries⟩ := h.listed hxs
      refine ⟨pobj :: xs, hlist, ?_, fun p => ?_⟩
      · rw [hentries]
        refine List.nodup_cons.mpr ⟨fun hin => ?_, hnodup⟩
        obtain ⟨o, ho, -⟩ := (hmem _).mp hin
        rw [h.fresh] at ho
        cases ho
      · rw [hentries, List.mem_cons, hmem]
        constructor
        · rintro (rfl | ⟨o, ho, hpage⟩)
          · exact ⟨_, (h.object _ _).mpr (.inl ⟨rfl, rfl⟩), rfl⟩
          · exact ⟨o, (h.object p o).mpr (.inr ho), hpage⟩
        · rintro ⟨o, ho, hpage⟩
          exact ((h.object p o).mp ho).imp And.left fun ho => ⟨o, ho, hpage⟩
    · obtain ⟨hlist, hentries⟩ := h.other hxs heq
      refine ⟨xs, hlist, by rwa [hentries], fun p => ?_⟩
      rw [hentries, hmem]
      constructor
      · rintro ⟨o, ho, hpage⟩
        exact ⟨o, (h.object p o).mpr (.inr ho), hpage⟩
      · rintro ⟨o, ho, hpage⟩
        rcases (h.object p o).mp ho with ⟨-, rfl⟩ | ho
        · exact absurd hpage heq
        · exact ⟨o, ho, hpage⟩
  · rcases (h.object p o).mp ho with ⟨-, rfl⟩ | ho
    · exact hfits
    · exact hs.word p o ho

/-! ## Histories of the indexes -/

theorem Indexed.init (mman : Mman) (tasks : TaskTable) (allocator : Allocator)
    (channels : Word → Comm) : Indexed (.init mman tasks allocator channels) where
  objects phy p := by
    refine ⟨fun h => (by cases h), ?_⟩
    rintro ⟨o, ho, -⟩
    cases ho
  pages page := by
    refine ⟨[], ⟨rfl, by simp⟩, List.nodup_nil, fun p => ⟨by simp, ?_⟩⟩
    rintro ⟨o, ho, -⟩
    cases ho
  word p o ho := by cases ho

/-- What reaches the indexes: objects are made and destroyed, and pages freed. -/
inductive IndexOp
  | make (phy : Word)
  | destroy (object : Nat)
  | pagefree (page : Word)

def indexStep (s : Sched) : IndexOp → Option (Sched × Nat)
  | .make phy => some (synchMake s phy)
  | .destroy object => (synchDestroy s object).map fun s => (s, 0)
  | .pagefree page => (freeObjects s page).map fun s => (s, 0)

/-- Objects are made where there is none, and destroyed while they live. -/
def IndexOp.Allowed (s : Sched) : IndexOp → Prop
  | .make phy => synchFromPhy s phy = 0
  | .destroy object => (s.object? object).isSome
  | .pagefree _ => True

/-- A made object's word fits its page, no object is destroyed, and a freed page has none. -/
def IndexOp.Harmless (s : Sched) : IndexOp → Prop
  | .make phy => WordInPage phy
  | .destroy _ => False
  | .pagefree page => (s.synchPages.search page).getD 0 = 0

/-- The steps of the histories in question. -/
def IndexOp.Careful (s : Sched) (op : IndexOp) : Prop := op.Allowed s ∧ op.Harmless s

/-- The step is taken, the indexes agree again, and a freed page has no object any more, while
    the other pages keep theirs. -/
def IndexOp.Exact (s : Sched) (op : IndexOp) : Prop :=
  ∃ s' r, indexStep s op = some (s', r) ∧ Indexed s' ∧ ∀ page, op = .pagefree page →
    (∀ p o, s'.object? p = some o → pageOf o.phyAddr ≠ page) ∧
      ∀ p o, s.object? p = some o → pageOf o.phyAddr ≠ page → s'.object? p = some o

/-- A page whose list is empty has no object. -/
theorem Indexed.page_empty (h : Indexed s) (hpage : (s.synchPages.search page).getD 0 = 0)
    (ho : s.object? p = some o) : pageOf o.phyAddr ≠ page := by
  intro heq
  obtain ⟨xs, hxs, -, hmem⟩ := h.pages page
  rw [hxs.chain.eq_nil_iff.mpr hpage] at hmem
  simpa using (hmem p).mpr ⟨o, ho, heq⟩

/-- A page whose list is not empty has one. -/
theorem Indexed.page_nonempty (h : Indexed s) (hpage : (s.synchPages.search page).getD 0 ≠ 0) :
    ∃ p o, s.object? p = some o ∧ pageOf o.phyAddr = page := by
  obtain ⟨xs, hxs, -, hmem⟩ := h.pages page
  cases xs with
  | nil => exact absurd (hxs.chain.eq_nil_iff.mp rfl) hpage
  | cons x xs =>
    obtain ⟨o, ho, hpage⟩ := (hmem (s.pageEntry x)).mp (by simp)
    exact ⟨_, o, ho, hpage⟩

/-- **A destroyed object is never in both states**: the tree still names it. -/
theorem Indexed.destroyed (h : Indexed s) (hdestroy : synchDestroy s object = some s') :
    ¬ Indexed s' := by
  intro h'
  obtain ⟨o, s₁, ho, hrel, hfree⟩ := synchDestroy_cases hdestroy
  obtain ⟨heap, rfl, hheap⟩ := Sched.free_cases hfree
  have hentry := (h.objects o.phyAddr object).mpr ⟨o, ho, rfl⟩
  rw [← hrel.synchObjects] at hentry
  obtain ⟨o', ho', -⟩ := (h'.objects o.phyAddr object).mp hentry
  have hcell := Sched.object?_eq_some.mp ho'
  rcases Heap.free_cases hheap with ⟨h0, -⟩ | ⟨-, hcells, -⟩
  · exact Heap.ne_zero_of_cells (Sched.object?_eq_some.mp ho) h0
  · change heap.cells object = _ at hcell
    rw [hcells, Function.update_self] at hcell
    cases hcell

/-- **One step** is exact if and only if it is harmless. -/
theorem indexStep_exact {op : IndexOp} (h : Indexed s) (hop : op.Allowed s) :
    op.Exact s ↔ op.Harmless s := by
  cases op with
  | make phy =>
    constructor
    · rintro ⟨s', r, hstep, h', -⟩
      obtain rfl : (synchMake s phy).1 = s' := congrArg Prod.fst (Option.some.inj hstep)
      obtain ⟨pobj, hmade⟩ := synchMake_made s phy
      exact h'.word _ _ ((hmade.object _ _).mpr (.inl ⟨rfl, rfl⟩))
    · exact fun hfits => ⟨_, _, rfl, h.make hop hfits, fun _ heq => by cases heq⟩
  | destroy object =>
    refine ⟨?_, False.elim⟩
    rintro ⟨s', r, hstep, h', -⟩
    obtain ⟨s'', hdestroy, heq⟩ := Option.map_eq_some_iff.mp hstep
    obtain ⟨rfl, -⟩ := Prod.mk.inj heq
    exact h.destroyed hdestroy h'
  | pagefree page =>
    constructor
    · rintro ⟨s', r, hstep, h', hexact⟩
      by_contra hpage
      obtain ⟨p, o, ho, rfl⟩ := h.page_nonempty hpage
      obtain ⟨s'', hfree, heq⟩ := Option.map_eq_some_iff.mp hstep
      obtain ⟨rfl, -⟩ := Prod.mk.inj heq
      -- the entry in the tree survives, and names an object of the page
      have hentry := (h.objects o.phyAddr p).mpr ⟨o, ho, rfl⟩
      rw [← (freeObjects_released hfree).synchObjects] at hentry
      obtain ⟨o', ho', hphy⟩ := (h'.objects o.phyAddr p).mp hentry
      exact (hexact _ rfl).1 p o' ho' (congrArg pageOf hphy)
    · intro hpage
      refine ⟨s, 0, by rw [indexStep, freeObjects_empty hpage]; rfl, h, fun page' heq => ?_⟩
      obtain rfl : page = page' := IndexOp.pagefree.inj heq
      exact ⟨fun p o ho => h.page_empty hpage ho, fun p o ho _ => ho⟩

end

/-- **The two indexes.** In every history in which the words of the objects made fit their
    pages and no object is destroyed, the indexes agree; and the next step keeps them so if and
    only if it, too, is of this kind. -/
theorem synch_indexes_agree {mman : Mman} {tasks : TaskTable} {allocator : Allocator}
    {channels : Word → Comm} {s : Sched} {tr : List (IndexOp × Nat)}
    (h : RunIf indexStep IndexOp.Careful (.init mman tasks allocator channels) tr s) :
    Indexed s ∧ ∀ op : IndexOp, op.Allowed s → (op.Exact s ↔ op.Harmless s) := by
  suffices hs : Indexed s from ⟨hs, fun op hop => indexStep_exact hs hop⟩
  refine h.invariant_state Indexed (.init ..) ?_
  rintro s op s' r hs ⟨hop, hharmless⟩ hstep
  obtain ⟨s'', r', hstep', hs', -⟩ := (indexStep_exact hs hop).mpr hharmless
  obtain ⟨rfl, -⟩ := Prod.mk.inj (Option.some.inj (hstep.symm.trans hstep'))
  exact hs'

/-- Nothing mapped, no task. -/
def noTasks : Sched :=
  .init ⟨⟨fun _ => 0, 0, []⟩, 0, .empty, .empty, .empty, 0x1000, 0, []⟩ (fun _ _ => 0) .bump
    fun _ => ⟨0, 0, 0, 0, 0, 0, 0, fun _ => 0⟩

/-- One object is made, and another page freed. -/
theorem synch_indexes_agree_of_two : ∃ s, synchFromPhy s 0x5008 ≠ 0 ∧ Indexed s := by
  have hmake : IndexOp.Careful noTasks (.make 0x5008) :=
    ⟨rfl, by rw [IndexOp.Harmless, WordInPage]; decide⟩
  have hfree : IndexOp.Careful (synchMake noTasks 0x5008).1 (.pagefree 0x6000) := ⟨trivial, rfl⟩
  have hrun : RunIf indexStep IndexOp.Careful noTasks _ _ :=
    (RunIf.start.snoc hmake rfl).snoc hfree rfl
  exact ⟨(synchMake noTasks 0x5008).1, by decide, (synch_indexes_agree hrun).1⟩

/-- An object's page is freed: the tree answers the object that is gone. -/
theorem synch_from_phy_answers_destroyed : ¬ ∀ (s : Sched) (tr : List (IndexOp × Nat)),
    RunIf indexStep (fun s op => op.Allowed s) noTasks tr s → Indexed s := by
  intro hall
  have hmake : (fun s op => IndexOp.Allowed s op) noTasks (.make 0x5008) := rfl
  have hfree : (fun s op => IndexOp.Allowed s op) (synchMake noTasks 0x5008).1
    (.pagefree 0x5000) := trivial
  have hrun : RunIf indexStep (fun s op => IndexOp.Allowed s op) noTasks _ _ :=
    (RunIf.start.snoc hmake rfl).snoc hfree rfl
  have h := hall _ _ hrun
  obtain ⟨o, ho, -⟩ := (h.objects 0x5008 1).mp (by decide)
  cases ho

end Refk
