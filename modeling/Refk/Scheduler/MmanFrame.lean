import Refk.Scheduler.MmanRefs

/-!
# What the mapping operations never touch

Mapping and unmapping leave the maps of roots alone, whatever the tables look like, and
nothing but a decrement calls the page-free callback.
-/

namespace Refk

/-- The roots are the same, and so are the calls of the callback. -/
structure Quiet (s s' : Mman) : Prop where
  roots : SameRoots s s'
  calls : s'.pagefreeCalls = s.pagefreeCalls

theorem Quiet.refl (s : Mman) : Quiet s s := ⟨.refl s, rfl⟩

theorem Quiet.trans {s₁ s₂ s₃ : Mman} (h : Quiet s₁ s₂) (h' : Quiet s₂ s₃) : Quiet s₁ s₃ :=
  ⟨h.roots.trans h'.roots, h'.calls.trans h.calls⟩

section
variable {s : Mman}

theorem quiet_write (s : Mman) (address value : Word) : Quiet s (s.write address value) :=
  ⟨⟨rfl, rfl, rfl, rfl, rfl⟩, rfl⟩

theorem quiet_getpage (s : Mman) : Quiet s s.getpage.1 := ⟨⟨rfl, rfl, rfl, rfl, rfl⟩, rfl⟩

theorem quiet_incrementPage (s : Mman) (page : Word) : Quiet s (incrementPage s page) :=
  ⟨⟨rfl, rfl, rfl, rfl, rfl⟩, rfl⟩

theorem quiet_newTable (s : Mman) (pa : Word) : Quiet s (s.newTable pa) :=
  ⟨⟨rfl, rfl, rfl, rfl, rfl⟩, rfl⟩

theorem quiet_mmanPagingAddrCreate (s : Mman) (root vaddr : Word) (level : Nat) :
    Quiet s (mmanPagingAddrCreate s root vaddr level).1 :=
  pagingAddrCreate_keeps (fun s' => Quiet s s') (.refl s) fun s' pa h =>
    h.trans (quiet_newTable s' pa)

/-- A loop over pages keeps what its body keeps. -/
theorem forPages_quiet {size : Word} {body : Mman → Word → Mman}
    (h : ∀ s off, Quiet s (body s off)) (s : Mman) : Quiet s (forPages size body s) := by
  unfold forPages
  induction List.range (size.toNat / 0x1000) generalizing s with
  | nil => exact .refl s
  | cons i l ih => exact (h s _).trans (ih _)

theorem quiet_anonymousPage (root : Word) (s : Mman) (address : Word) :
    Quiet s (anonymousPage root s address) :=
  (((quiet_mmanPagingAddrCreate s root address 3).trans (quiet_getpage _)).trans
    (quiet_write _ _ _)).trans (quiet_incrementPage _ _)

theorem quiet_physicalPage (root : Word) (s : Mman) (address paddress : Word) :
    Quiet s (physicalPage root s address paddress) :=
  (quiet_mmanPagingAddrCreate s root address 3).trans (quiet_write _ _ _)

theorem quiet_mirrorPage (root sroot : Word) (s : Mman) (address saddress : Word) :
    Quiet s (mirrorPage root sroot s address saddress) :=
  (((quiet_mmanPagingAddrCreate s root address 3).trans
    (quiet_mmanPagingAddrCreate _ sroot saddress 3)).trans (quiet_write _ _ _)).trans
    (quiet_incrementPage _ _)

theorem quiet_mmanAnonymous (s : Mman) (rootId : Nat) (address size : Word) :
    Quiet s (mmanAnonymous s rootId address size).1 := by
  simp only [mmanAnonymous]
  split_ifs
  · exact .refl s
  · exact .refl s
  · exact .refl s
  · exact forPages_quiet (fun s off => quiet_anonymousPage _ s _) s

theorem quiet_mmanPhysical (s : Mman) (rootId : Nat) (address paddress size : Word) :
    Quiet s (mmanPhysical s rootId address paddress size).1 := by
  simp only [mmanPhysical]
  split_ifs
  · exact .refl s
  · exact .refl s
  · exact .refl s
  · exact .refl s
  · exact forPages_quiet (fun s off => quiet_physicalPage _ s _ _) s

theorem quiet_mmanMirror (s : Mman) (rootId : Nat) (address : Word) (srootId : Nat)
    (saddress size : Word) : Quiet s (mmanMirror s rootId address srootId saddress size).1 := by
  simp only [mmanMirror]
  split_ifs
  · exact .refl s
  · exact .refl s
  · exact .refl s
  · exact .refl s
  · exact forPages_quiet (fun s off => quiet_mirrorPage _ _ s _ _) s

theorem sameRoots_decrementPage (s : Mman) (page : Word) : SameRoots s (decrementPage s page) := by
  simp only [decrementPage]
  split_ifs <;> exact ⟨rfl, rfl, rfl, rfl, rfl⟩

theorem sameRoots_onEntry {root : Word} {f : Mman → Word → Word → Mman}
    (h : ∀ s eaddr entry, SameRoots s (f s eaddr entry)) (s : Mman) (address : Word) :
    SameRoots s (onEntry root f s address) := by
  unfold onEntry
  split
  · exact .refl s
  · dsimp only
    split_ifs
    · exact h s _ _
    · exact .refl s

theorem sameRoots_forPages {size : Word} {body : Mman → Word → Mman}
    (h : ∀ s off, SameRoots s (body s off)) (s : Mman) : SameRoots s (forPages size body s) := by
  unfold forPages
  induction List.range (size.toNat / 0x1000) generalizing s with
  | nil => exact .refl s
  | cons i l ih => exact (h s _).trans (ih _)

theorem sameRoots_mmanUnmap (s : Mman) (rootId : Nat) (address size : Word) :
    SameRoots s (mmanUnmap s rootId address size).1 := by
  simp only [mmanUnmap, onEntries]
  split_ifs
  · exact .refl s
  · exact .refl s
  · exact .refl s
  · refine sameRoots_forPages (fun s off => sameRoots_onEntry (fun s eaddr entry => ?_) s _) s
    exact (sameRoots_decrementPage s _).trans (quiet_write _ _ _).roots

/-! ## The helpers of the root operations -/

theorem sameRoots_forEntries {isRoot : Bool} {table : Word} {body : Mman → Word → Mman}
    (h : ∀ s page, SameRoots s (body s page)) (s : Mman) :
    SameRoots s (forEntries isRoot table body s) := by
  unfold forEntries
  induction List.range 512 generalizing s with
  | nil => exact .refl s
  | cons i l ih =>
    refine SameRoots.trans ?_ (ih _)
    dsimp only
    split_ifs
    · exact .refl s
    · exact .refl s
    · exact h s _

theorem sameRoots_removeHelper (below : Nat) (table : Word) (s : Mman) :
    SameRoots s (removeHelper below table s) := by
  induction below generalizing table s with
  | zero => exact sameRoots_forEntries sameRoots_decrementPage s
  | succ below ih =>
    exact sameRoots_forEntries (fun s page => (ih page s).trans (sameRoots_decrementPage _ page)) s

theorem sameRoots_importHelper (below : Nat) (table : Word) (s : Mman) :
    SameRoots s (importHelper below table s) := by
  induction below generalizing table s with
  | zero => exact sameRoots_forEntries (fun s page => (quiet_incrementPage s page).roots) s
  | succ below ih =>
    exact sameRoots_forEntries
      (fun s page => (quiet_incrementPage s page).roots.trans (ih page _)) s

/-- Counting writes nothing. -/
theorem kmem_importHelper (below : Nat) (table : Word) (s : Mman) :
    (importHelper below table s).kmem = s.kmem := by
  have hloop : ∀ {isRoot : Bool} {table : Word} {body : Mman → Word → Mman},
      (∀ s page, (body s page).kmem = s.kmem) → ∀ s, (forEntries isRoot table body s).kmem = s.kmem := by
    intro isRoot table body h s
    unfold forEntries
    generalize List.range 512 = l
    induction l generalizing s with
    | nil => rfl
    | cons i l ih =>
      rw [List.foldl_cons, ih]
      dsimp only
      split_ifs
      · rfl
      · rfl
      · exact h s _
  induction below generalizing table s with
  | zero =>
    rw [importHelper]
    exact hloop incrementPage_kmem s
  | succ below ih =>
    rw [importHelper]
    exact hloop (fun s page => ih page (incrementPage s page)) s

/-! ## The root operations -/

/-- Registering a root, whatever is done to its pages first. -/
theorem register_spec {s m : Mman} (h : SameRoots s m) (root : Word) :
    (let (m', id) := genId m; ({ m' with rootMap := (m'.rootMap.insert id root).1 }, id)) =
      ({ m with nextId := s.nextId + 1, rootMap := (s.rootMap.insert s.nextId root).1 },
        s.nextId) := by
  simp only [genId, h.nextId, h.rootMap]

/-- **`import_root`** counts pages, takes an id and registers the root under it. -/
theorem importRoot_eq (s : Mman) (root : Word) :
    ∃ m, m = importHelper 3 root (incrementPage s root) ∧ importRoot s root =
      ({ m with nextId := s.nextId + 1, rootMap := (s.rootMap.insert s.nextId root).1 },
        s.nextId) :=
  ⟨_, rfl, register_spec
    ((quiet_incrementPage s root).roots.trans (sameRoots_importHelper 3 root _)) root⟩

theorem importRoot_spec (s : Mman) (root : Word) : ∃ m, SameRoots s m ∧
    importRoot s root =
      ({ m with nextId := s.nextId + 1, rootMap := (s.rootMap.insert s.nextId root).1 },
        s.nextId) := by
  obtain ⟨m, hm, heq⟩ := importRoot_eq s root
  refine ⟨m, ?_, heq⟩
  rw [hm]
  exact (quiet_incrementPage s root).roots.trans (sameRoots_importHelper 3 root _)

theorem kmem_importRoot (s : Mman) (root : Word) : (importRoot s root).1.kmem = s.kmem := by
  obtain ⟨m, hm, heq⟩ := importRoot_eq s root
  rw [heq]
  change m.kmem = s.kmem
  rw [hm, kmem_importHelper]
  rfl

theorem mmanMakeRoot_eq (s : Mman) :
    mmanMakeRoot s = importRoot { s with kmem := (kmemCreateRoot s.cr3 s.kmem).1 }
      (kmemCreateRoot s.cr3 s.kmem).2 := rfl

theorem rootCount_mmanIncrementRoot (s : Mman) (r q : Nat) :
    (mmanIncrementRoot s r).rootCount q = s.rootCount q + if r = q then 1 else 0 := by
  simp only [mmanIncrementRoot, Mman.rootCount, AvlMap.search_insert_ptr]
  split_ifs with h
  · rw [h]
    rfl
  · rfl

/-- **`mman_decrement_root`** on the maps: one task less, and the root goes with the last. -/
theorem mmanDecrementRoot_spec (s : Mman) (r : Nat) :
    (∀ q, (mmanDecrementRoot s r).rootCount q = s.rootCount q - if r = q then 1 else 0) ∧
      (∀ q, (mmanDecrementRoot s r).rootMap.search q =
        if r = q ∧ s.rootCount r = 1 then none else s.rootMap.search q) ∧
      (mmanDecrementRoot s r).nextId = s.nextId ∧ (mmanDecrementRoot s r).cr3 = s.cr3 ∧
      (mmanDecrementRoot s r).thisRootId = s.thisRootId := by
  by_cases h₀ : s.rootCount r = 0
  · have hsame : mmanDecrementRoot s r = s := by simp only [mmanDecrementRoot, if_pos h₀]
    rw [hsame]
    refine ⟨fun q => ?_, fun q => ?_, rfl, rfl, rfl⟩
    · split_ifs with hq
      · rw [← hq, h₀]
      · rfl
    · rw [if_neg (by omega)]
  by_cases h₁ : s.rootCount r > 1
  · have hdec : mmanDecrementRoot s r =
        { s with rootRefcount := (s.rootRefcount.insert r (s.rootCount r - 1)).1 } := by
      simp only [mmanDecrementRoot, if_neg h₀, if_pos h₁]
    rw [hdec]
    refine ⟨fun q => ?_, fun q => ?_, rfl, rfl, rfl⟩
    · simp only [Mman.rootCount, AvlMap.search_insert_ptr]
      split_ifs with hq
      · rw [← hq]
        rfl
      · rfl
    · rw [if_neg (by omega)]
  · -- the last task: the root is taken down
    obtain ⟨s₁, hs₁, hdec⟩ : ∃ s₁, SameRoots { s with
        rootRefcount := (s.rootRefcount.remove r).1, rootMap := (s.rootMap.remove r).1 } s₁ ∧
        mmanDecrementRoot s r = s₁ := by
      simp only [mmanDecrementRoot, if_neg h₀, if_neg h₁]
      exact ⟨_, (sameRoots_removeHelper 3 _ _).trans (sameRoots_decrementPage _ _), rfl⟩
    rw [hdec]
    have hone : s.rootCount r = 1 := by omega
    refine ⟨fun q => ?_, fun q => ?_, hs₁.nextId, hs₁.cr3, hs₁.thisRootId⟩
    · simp only [Mman.rootCount, hs₁.rootRefcount, AvlMap.search_remove_ptr]
      split_ifs with hq
      · rw [← hq]
        change 0 = s.rootCount r - 1
        rw [hone]
      · rfl
    · rw [hs₁.rootMap, AvlMap.search_remove_ptr]
      simp only [hone, and_true]

end

end Refk
