import Refk.Scheduler.TaskTables

/-!
# The memory manager between tasks

`Started` is what the setup of a task starts from, and leaves: tidy page tables, the
scheduler's own root among them, and its storage window free. `mman_init` establishes it.
-/

namespace Refk

open Lib

/-- Memory for one more task: free pages, and free addresses in its root. -/
structure Supplied (m : Mman) (root : Word) : Prop where
  pages : ∃ L, FreePages m.kmem L ∧ 30 ≤ L.length
  storage : Room m.phys root localStorageBase
  channels : Room m.phys root taskChannelStart

/-- A memory manager in which every root is tidy, the scheduler's own is registered, and nothing
    is mapped at its storage window. -/
structure Started (m : Mman) : Prop where
  tidy : ∃ L, Tidy m m.roots L
  ids : ∀ id root, m.rootMap.search id = some root → id < m.nextId
  own : m.rootAddress (mmanOwnRoot m) ≠ 0
  temporary : ¬ Mapped m.phys (m.rootAddress (mmanOwnRoot m)) temporaryMapAddress

section
variable {m m' : Mman} {L : List Word} {id : Nat} {root : Word} {w : Windows}

/-- The same tables, and the same books of roots but for the number of their tasks. -/
theorem Started.of_same (h : Started m) (hkmem : m'.kmem = m.kmem)
    (hcount : m'.pageRefcount = m.pageRefcount) (hfreed : m'.pagefreeCalls = m.pagefreeCalls)
    (hroots : m'.rootMap = m.rootMap) (hown : m'.thisRootId = m.thisRootId)
    (hnext : m.nextId ≤ m'.nextId) : Started m' := by
  have haddr : m'.rootAddress (mmanOwnRoot m') = m.rootAddress (mmanOwnRoot m) := by
    rw [mmanOwnRoot, hown, Mman.rootAddress, hroots]
    rfl
  obtain ⟨L, htidy⟩ := h.tidy
  refine ⟨⟨L, ?_⟩, fun id root hid => ?_, haddr ▸ h.own, ?_⟩
  · rw [Mman.roots, hroots]
    exact htidy.of_same hkmem hcount hfreed
  · exact (h.ids id root (hroots ▸ hid)).trans_le hnext
  · rw [haddr, Mman.phys, hkmem]
    exact h.temporary

/-- Where a task of a registered root is set up. -/
theorem Started.site (h : Started m) (hL : Tidy m m.roots L) {id : Nat}
    (hid : m.rootAddress id ≠ 0) :
    Site m m.roots L id (m.rootAddress id) (m.rootAddress (mmanOwnRoot m)) where
  tidy := hL
  id := rfl
  mem := mem_roots (search_of_rootAddress hid)
  ownId := rfl
  own := mem_roots (search_of_rootAddress h.own)

/-- A task's setup leaves the memory manager ready for the next one. -/
theorem Started.setUp (h : Started m) (hL : Tidy m m.roots L) {id : Nat}
    (hid : m.rootAddress id ≠ 0) (hsupplied : Supplied m (m.rootAddress id))
    (hset : mmanTaskSetup m id = some (m', w)) (hsin : w.sin ≠ -1) (hgin : w.gin ≠ -1) :
    Started m' ∧ TablesSetUp m.roots L id (m.rootAddress id) (m.rootAddress (mmanOwnRoot m)) w m m' := by
  have hsite := h.site hL hid
  obtain ⟨L', hpages, hlen⟩ := hsupplied.pages
  obtain rfl : L' = L := hpages.unique hL.counted.layout.pages
  have hup := mmanTaskSetup_spec hsite hsupplied.storage hsupplied.channels h.temporary hlen hset hsin
    hgin
  have hroots := mmanTaskSetup_roots hset
  have haddr : m'.rootAddress (mmanOwnRoot m') = m.rootAddress (mmanOwnRoot m) := by
    rw [hroots.rootAddress, mmanOwnRoot, hroots.thisRootId, mmanOwnRoot]
  obtain ⟨L', hsite', -⟩ := hup.site
  refine ⟨⟨⟨L', hroots.roots_eq ▸ hsite'.tidy⟩, fun id root hid => ?_, haddr ▸ h.own, ?_⟩, hup⟩
  · rw [hroots.rootMap] at hid
    rw [hroots.nextId]
    exact h.ids id root hid
  · rw [haddr]
    exact hup.temporary hsite.own

/-- The id that `mman_import_root` gives out. -/
theorem id_mmanImportRoot (h : mmanImportRoot m root = (m', id)) : id = m.nextId := by
  obtain ⟨m₀, -, heq⟩ := importRoot_spec m root
  rw [mmanImportRoot, heq] at h
  exact (Prod.mk.inj h).2.symm

/-- Importing a root counts no task. -/
theorem books_mmanImportRoot (h : mmanImportRoot m root = (m', id)) :
    mmanOwnRoot m' = mmanOwnRoot m ∧ ∀ q, m'.rootCount q = m.rootCount q := by
  obtain ⟨m₀, hsame, heq⟩ := importRoot_spec m root
  rw [mmanImportRoot, heq] at h
  obtain ⟨rfl, -⟩ := Prod.mk.inj h
  refine ⟨hsame.thisRootId, fun q => ?_⟩
  simp only [Mman.rootCount, hsame.rootRefcount]

/-- **`mman_import_root`** of a root that is in order. -/
theorem Started.imported (h : Started m) (hnew : NewRoot m root)
    (himport : mmanImportRoot m root = (m', id)) :
    Started m' ∧ m'.rootAddress id = root ∧ m'.kmem = m.kmem ∧
      m'.rootAddress (mmanOwnRoot m') = m.rootAddress (mmanOwnRoot m) ∧ m'.nextId = m.nextId + 1 := by
  obtain ⟨L, hL⟩ := h.tidy
  have hfresh : m.rootMap.search m.nextId = none := by
    cases hs : m.rootMap.search m.nextId with
    | none => rfl
    | some root => exact absurd (h.ids _ _ hs) (Nat.lt_irrefl _)
  have htidy := (hL.importRoot hnew hfresh).1
  have hkmem := kmem_importRoot m root
  obtain ⟨m₀, hsame, heq⟩ := importRoot_spec m root
  have heq' : importRoot m root = (m', id) := himport
  rw [heq'] at htidy hkmem
  rw [heq] at heq'
  obtain ⟨rfl, rfl⟩ := Prod.mk.inj heq'
  have hown := h.ids _ _ (search_of_rootAddress h.own)
  have haddr : ∀ q, Mman.rootAddress { m₀ with
      nextId := m.nextId + 1, rootMap := (m.rootMap.insert m.nextId root).1 } q =
      if m.nextId = q then root else m.rootAddress q := by
    intro q
    simp only [Mman.rootAddress, AvlMap.search_insert_ptr]
    split_ifs <;> rfl
  have hownAddr : Mman.rootAddress { m₀ with
      nextId := m.nextId + 1, rootMap := (m.rootMap.insert m.nextId root).1 } m₀.thisRootId =
      m.rootAddress (mmanOwnRoot m) := by
    rw [haddr, hsame.thisRootId]
    exact if_neg (Nat.ne_of_gt hown)
  refine ⟨⟨⟨L, htidy⟩, fun q r hq => ?_, ?_, ?_⟩, ?_, hkmem, hownAddr, rfl⟩
  · simp only [AvlMap.search_insert_ptr] at hq
    split_ifs at hq with hnew
    · exact hnew ▸ Nat.lt_succ_self _
    · exact (h.ids q r hq).trans (Nat.lt_succ_self _)
  · exact hownAddr.symm ▸ h.own
  · change ¬ Mapped m₀.kmem.phys _ _
    rw [show m₀.kmem = m.kmem from hkmem]
    exact hownAddr.symm ▸ h.temporary
  · rw [haddr, if_pos rfl]

/-- Counting a task of a root. -/
theorem Started.incrementRoot (h : Started m) (id : Nat) :
    Started (mmanIncrementRoot m id) := h.of_same rfl rfl rfl rfl rfl le_rfl

/-! ## At first -/

/-- A layout of more roots is one of fewer. -/
theorem Layout.of_cons {k : Kmem} {loose : Word → Bool} {R : List Word}
    (h : Layout k loose (root :: R) L) : Layout k loose R L where
  pages := h.pages
  frames := h.frames
  nodup := h.nodup
  unused p hp := by
    have := h.unused p hp
    rw [references_cons] at this
    omega
  roots r hr := h.roots r (List.mem_cons_of_mem _ hr)
  sane := by
    have := h.sane
    rw [total_cons] at this
    omega

theorem OwnTables.of_cons {k : Kmem} {loose : Word → Bool} {R : List Word} {V : Set Word}
    (hlay : Layout k loose (root :: R) L) (h : OwnTables k.phys (root :: R) V) :
    OwnTables k.phys R V := by
  intro r hr
  have hown := h r (List.mem_cons_of_mem _ hr)
  refine ⟨hr, hown.low, fun va hva d hd t ht => ?_⟩
  have hone := hown.own va hva d hd t ht
  have hmet := hlay.of_cons.met hr (hown.low va hva) ht
  rw [tablesMet, met_cons] at hone
  rw [tablesMet] at hmet ⊢
  omega

/-- The manager `mman_init` starts with. -/
def Mman.empty (kmem : Kmem) (cr3 : Word) : Mman := ⟨kmem, cr3, .empty, .empty, .empty, 0x1000, 0, []⟩

theorem mmanInit_eq {kmem : Kmem} {cr3 : Word} (bootprocCr3 : Word)
    (h : importRoot (.empty kmem cr3) cr3 = (m, id)) :
    ∃ s, s = mmanIncrementRoot { m with thisRootId := id } id ∧
      mmanInit kmem cr3 bootprocCr3 = (importRoot s bootprocCr3).1 := by
  refine ⟨_, rfl, ?_⟩
  unfold Mman.empty at h
  rw [mmanInit]
  generalize importRoot ⟨kmem, cr3, .empty, .empty, .empty, 0x1000, 0, []⟩ cr3 = registered at *
  subst h
  rfl

/-- **`mman_init`**, of two roots that are in order. -/
theorem started_mmanInit {kmem : Kmem} {cr3 bootprocCr3 : Word}
    (hlay : Layout kmem allHeld [bootprocCr3, cr3] L)
    (hown : OwnTables kmem.phys [bootprocCr3, cr3] ownAddresses)
    (htemp : ¬ Mapped kmem.phys cr3 temporaryMapAddress) :
    Started (mmanInit kmem cr3 bootprocCr3) ∧
      (mmanInit kmem cr3 bootprocCr3).kmem = kmem ∧
      (mmanInit kmem cr3 bootprocCr3).rootAddress (mmanOwnRoot (mmanInit kmem cr3 bootprocCr3)) = cr3 ∧
      (mmanInit kmem cr3 bootprocCr3).rootAddress 0x1001 = bootprocCr3 ∧
      mmanOwnRoot (mmanInit kmem cr3 bootprocCr3) = 0x1000 ∧
      (mmanInit kmem cr3 bootprocCr3).nextId = 0x1002 ∧
      ∀ q, (mmanInit kmem cr3 bootprocCr3).rootCount q = if 0x1000 = q then 1 else 0 := by
  have h₀ : Tidy (.empty kmem cr3) (Mman.empty kmem cr3).roots L := by
    refine ⟨⟨hlay.of_cons.of_cons, ⟨fun p => rfl, nofun, fun _ _ => .inr trivial, nofun⟩,
      fun _ _ => rfl, rfl⟩, nofun⟩
  obtain ⟨htidy, hperm⟩ := h₀.importRoot ⟨⟨L, hlay.of_cons⟩, hown.of_cons hlay⟩ rfl
  obtain ⟨m, hsame, heq⟩ := importRoot_spec (.empty kmem cr3) cr3
  have hkmem := kmem_importRoot (.empty kmem cr3) cr3
  rw [heq] at htidy hperm hkmem
  obtain ⟨s₁, hs₁, hinit⟩ := mmanInit_eq bootprocCr3 heq
  -- the scheduler's own root
  have hstart : Started s₁ := by
    rw [hs₁]
    refine ⟨⟨L, htidy.of_same rfl rfl rfl⟩, fun q r hq => ?_, (hlay.roots cr3 (by simp)).2, ?_⟩
    · rw [show Mman.rootMap _ = ((Mman.empty kmem cr3).rootMap.insert 0x1000 cr3).1 from rfl,
        AvlMap.search_insert_ptr] at hq
      split_ifs at hq with heq
      · exact heq ▸ Nat.lt_succ_self _
      · cases hq
    · change ¬ Mapped m.kmem.phys cr3 temporaryMapAddress
      rw [show m.kmem = kmem from hkmem]
      exact htemp
  have hkmem₁ : m.kmem = kmem := hkmem
  have hroots := List.perm_singleton.mp hperm
  have hs₁kmem : s₁.kmem = kmem := hs₁ ▸ hkmem₁
  have hs₁roots : s₁.roots = [cr3] := hs₁ ▸ hroots
  have hs₁own : s₁.rootAddress (mmanOwnRoot s₁) = cr3 := by
    rw [hs₁]
    rfl
  have hs₁next : s₁.nextId = 0x1001 := by
    rw [hs₁]
    rfl
  obtain ⟨m', id, himport⟩ : ∃ m' id, mmanImportRoot s₁ bootprocCr3 = (m', id) := ⟨_, _, rfl⟩
  have hs₁count : ∀ q, s₁.rootCount q = if 0x1000 = q then 1 else 0 := by
    intro q
    have hzero : m.rootCount q = 0 := by
      rw [Mman.rootCount, hsame.rootRefcount]
      rfl
    rw [hs₁, rootCount_mmanIncrementRoot]
    change m.rootCount q + _ = _
    rw [hzero, Nat.zero_add]
    rfl
  obtain ⟨hm', haddr, hkmem', hown', hnext⟩ := hstart.imported
    (show NewRoot s₁ bootprocCr3 from
      ⟨⟨L, hs₁kmem ▸ hs₁roots ▸ hlay⟩, by rwa [Mman.phys, hs₁kmem, hs₁roots]⟩) himport
  have hid : id = 0x1001 := (id_mmanImportRoot himport).trans hs₁next
  obtain ⟨hownId, hcount⟩ := books_mmanImportRoot himport
  rw [hinit, show importRoot s₁ bootprocCr3 = (m', id) from himport]
  exact ⟨hm', hkmem'.trans hs₁kmem, hown'.trans hs₁own, hid ▸ haddr,
    hownId.trans (hs₁ ▸ rfl), hnext.trans (congrArg (· + 1) hs₁next), fun q => (hcount q).trans (hs₁count q)⟩

end

/-! ## Empty tables -/

/-- A root without entries. -/
def Blank (m : Phys) (root : Word) : Prop := ∀ i < 512, ¬ Present (m (slotAddr root i))

section
variable {k : Kmem} {m : Phys} {loose : Word → Bool} {R L : List Word} {root va t : Word} {d : Nat}

theorem total_blank {w : Weight Word Nat Word} (h : ∀ r ∈ R, Blank m r) :
    total walked w (entries m) 4 R = 0 := by
  refine List.sum_eq_zero_iff.mpr fun x hx => ?_
  obtain ⟨r, hr, rfl⟩ := List.mem_map.mp hx
  exact sumBelow_of_empty fun i hi => entries_none.mpr (h r hr i (lt_of_mem_slots hi))

theorem Layout.of_blank (hpages : FreePages k L) (hframes : ∀ p ∈ L, IsFrame p) (hnodup : L.Nodup)
    (hroots : ∀ r ∈ R, IsFrame r ∧ r ≠ 0) (hfree : ∀ p ∈ L, p ∉ R)
    (h : ∀ r ∈ R, Blank k.phys r) : Layout k loose R L where
  pages := hpages
  frames := hframes
  nodup := hnodup
  unused p hp := by rw [references, total_blank h, List.count_eq_zero.mpr (hfree p hp)]
  roots := hroots
  sane := total_blank h

/-- A walk from an empty root ends there. -/
theorem tableAt_blank (h : Blank m root) (ht : tableAt m root va d = some t) : d = 0 ∧ root = t := by
  cases d with
  | zero => exact ⟨rfl, Option.some.inj ht⟩
  | succ d =>
    obtain ⟨t₀, h₀, hpres, -⟩ := tableAt_above ht (Nat.succ_pos d)
    obtain rfl : root = t₀ := Option.some.inj h₀
    rw [cell_eq_slotAddr] at hpres
    exact absurd hpres (h _ (pagingIndex_lt va 0))

theorem not_mapped_of_blank (h : Blank m root) : ¬ Mapped m root va := by
  rintro ⟨t, ht, -⟩
  exact absurd (tableAt_blank h ht).1 (by omega)

theorem OwnTables.of_blank (hnodup : R.Nodup) (h : ∀ r ∈ R, Blank m r) :
    OwnTables m R ownAddresses := by
  intro r hr
  refine ⟨hr, fun va => low_of_own, fun va _ d _ t ht => ?_⟩
  obtain ⟨rfl, rfl⟩ := tableAt_blank (h r hr) ht
  rw [tablesMet, met_eq, total_blank h, List.count_eq_one_of_mem hnodup hr]

end

end Refk
