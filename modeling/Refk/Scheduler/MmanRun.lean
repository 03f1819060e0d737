import Refk.Lib.Run
import Refk.Scheduler.TaskSupply

/-!
# Counts over whole runs

`Exact` is what `page_refcount` is for: a page's count is the number of references to it from the
registered roots, and nothing free is referred to. Every call of the memory manager keeps it, and
gives back what has lost its last reference, as long as nothing that is mapped is mapped over, and
users are counted only of roots there are. An entry of a table that several roots share counts
once for each way to it, which is how `import_helper` and `remove_helper` count.
-/

namespace Refk

open Lib

/-- The calls that change what is counted. -/
inductive MmanOp
  | makeRoot
  | importRoot (cr3 : Word)
  | incrementRoot (root : Nat)
  | decrementRoot (root : Nat)
  | anonymous (rootId : Nat) (address size : Word)
  | mirror (rootId : Nat) (address : Word) (srootId : Nat) (saddress size : Word)
  | unmap (rootId : Nat) (address size : Word)

/-- The call, and what it returns. -/
def mmanCall (s : Mman) : MmanOp → Mman × Int
  | .makeRoot => ((mmanMakeRoot s).1, (mmanMakeRoot s).2)
  | .importRoot cr3 => ((mmanImportRoot s cr3).1, (mmanImportRoot s cr3).2)
  | .incrementRoot root => (mmanIncrementRoot s root, 0)
  | .decrementRoot root => (mmanDecrementRoot s root, 0)
  | .anonymous rootId address size => mmanAnonymous s rootId address size
  | .mirror rootId address srootId saddress size => mmanMirror s rootId address srootId saddress size
  | .unmap rootId address size => mmanUnmap s rootId address size

def mmanStep (s : Mman) (op : MmanOp) : Option (Mman × Int) := some (mmanCall s op)

/-- The tables along the walks for a range belong to its root alone. -/
def PrivateTables (s : Mman) (rootId : Nat) (address size : Word) : Prop :=
  s.rootAddress rootId ≠ 0 → Owned s.phys s.roots (s.rootAddress rootId) (pagesOf address size) 3

/-- What a call may rely on: a root to be registered is well formed, so is the one a new root
    shares its windows with, the addresses have tables of their root's own, and there are enough
    free pages. -/
def MmanOp.Allowed (s : Mman) (op : MmanOp) : Prop :=
  (match op with
    | .makeRoot => s.cr3 ∈ s.roots ∧ ∀ va ∈ windows, ∃ t, tableAt s.phys s.cr3 va 2 = some t
    | .importRoot cr3 => ∃ L, Layout s.kmem allHeld (cr3 :: s.roots) L
    | .incrementRoot _ => True
    | .decrementRoot _ => True
    | .anonymous rootId address size => PrivateTables s rootId address size
    | .mirror rootId address srootId saddress size =>
      PrivateTables s rootId address size ∧ PrivateTables s srootId saddress size
    | .unmap rootId address size => PrivateTables s rootId address size) ∧
  ∀ L, FreePages s.kmem L → (mmanCall s op).1.kmem.taken ≤ s.kmem.taken + L.length

/-- `mman_anonymous` is not asked for a page that is mapped, nor `mman_increment_root` for a root
    that is not there. -/
def MmanOp.Spares (s : Mman) : MmanOp → Prop
  | .incrementRoot root => mmanIsRoot s root
  | .anonymous rootId address size => s.rootAddress rootId ≠ 0 →
    Unmapped s.phys (s.rootAddress rootId) address (size.toNat / 0x1000)
  | _ => True

/-- **The invariant**, with `L` the free list. -/
structure Exact (s : Mman) (L : List Word) : Prop where
  counted : Counted s allHeld s.roots (fun _ => 0) Set.univ L
  fresh : ∀ id, s.nextId ≤ id → s.rootMap.search id = none
  known : ∀ id, s.rootCount id ≠ 0 → s.rootAddress id ≠ 0

/-- The counts are exact after a call too, and what is not counted any more is free. -/
def Settles (s s' : Mman) : Prop :=
  ∃ L', Exact s' L' ∧ ∀ p, s.pageCount p ≠ 0 → s'.pageCount p = 0 → p ∈ L'

section
variable {s s' : Mman} {L L' : List Word} {id sid : Nat} {root address size saddress : Word}

theorem Exact.settles (h : Exact s L) : Settles s s := ⟨L, h, fun _ h h' => absurd h' h⟩

theorem Exact.of_roots (h : Exact s L) (hroots : SameRoots s s')
    (hcounted : Counted s' allHeld s.roots (fun _ => 0) Set.univ L') : Exact s' L' where
  counted := by rwa [hroots.roots_eq]
  fresh id hid := by
    rw [hroots.rootMap]
    exact h.fresh id (hroots.nextId ▸ hid)
  known id hid := by
    rw [hroots.rootAddress]
    exact h.known id (hroots.rootCount id ▸ hid)

/-- A known root is in order. -/
theorem Exact.mem_roots (_h : Exact s L) (hid : s.rootAddress id ≠ 0) : s.rootAddress id ∈ s.roots :=
  Refk.mem_roots (search_of_rootAddress hid)

/-! ## Mapping and unmapping -/

theorem looseAfter_allHeld (m : Phys) (root address : Word) (n : Nat) :
    looseAfter m root address n false allHeld = allHeld := by
  funext c
  simp only [looseAfter, allHeld, ite_self]

/-- A loop that mapped what was not. -/
theorem Exact.mapped {n : Nat} (h : Exact s L)
    (hmap : Mapping s.roots root address size Set.univ L (fun _ => 0) allHeld false s s' n)
    (hun : Unmapped s.phys root address (size.toNat / 0x1000)) : Settles s s' := by
  obtain ⟨slack, hcounted, hslack⟩ := hmap.counted
  rw [looseAfter_allHeld, hslack hun] at hcounted
  refine ⟨_, h.of_roots hmap.roots hcounted, fun p hp hp' => ?_⟩
  exact absurd (Nat.eq_zero_of_le_zero ((hmap.count_le p).trans hp'.le)) hp

theorem Exact.anonymous (h : Exact s L) (hpriv : PrivateTables s id address size)
    (hun : s.rootAddress id ≠ 0 →
      Unmapped s.phys (s.rootAddress id) address (size.toNat / 0x1000))
    (henough : (mmanAnonymous s id address size).1.kmem.taken ≤ s.kmem.taken + L.length) :
    Settles s (mmanAnonymous s id address size).1 := by
  by_cases hok : s.rootAddress id ≠ 0 ∧ address &&& 0xfff = 0 ∧ size &&& 0xfff = 0
  · obtain ⟨h₀, hal, hsize⟩ := hok
    exact h.mapped (mmanAnonymous_counts h.counted rfl h₀ hal hsize (hpriv h₀) henough) (hun h₀)
  · have hsame : (mmanAnonymous s id address size).1 = s := by
      simp only [mmanAnonymous]
      split_ifs <;> first | rfl | exact absurd ⟨‹_›, not_not.mp ‹_›, not_not.mp ‹_›⟩ hok
    rw [hsame]
    exact h.settles

theorem Exact.mirror (h : Exact s L) (hpriv : PrivateTables s id address size)
    (hspriv : PrivateTables s sid saddress size)
    (henough : (mmanMirror s id address sid saddress size).1.kmem.taken ≤
      s.kmem.taken + L.length) : Settles s (mmanMirror s id address sid saddress size).1 := by
  by_cases hret : (mmanMirror s id address sid saddress size).2 = 0
  · obtain ⟨h₀, hs₀⟩ := mmanMirror_known hret
    have hsown := hspriv hs₀
    obtain ⟨hmap, hun⟩ := mmanMirror_counts h.counted rfl rfl (h.mem_roots hs₀) (hpriv h₀) hsown.low
      (fun va hva t ht hpres => h.counted.count_of_mapped (h.mem_roots hs₀) (hsown.low va hva) ht hpres)
      hret henough
    exact h.mapped hmap hun
  · have hsame : (mmanMirror s id address sid saddress size).1 = s := by
      simp only [mmanMirror] at hret ⊢
      split_ifs at hret ⊢ <;> first | rfl | exact absurd rfl hret
    rw [hsame]
    exact h.settles

theorem Exact.unmap (h : Exact s L) (hpriv : PrivateTables s id address size) :
    Settles s (mmanUnmap s id address size).1 := by
  by_cases hok : s.rootAddress id ≠ 0 ∧ address &&& 0xfff = 0 ∧ size &&& 0xfff = 0
  · obtain ⟨h₀, hal, hsize⟩ := hok
    have hdrop := mmanUnmap_counts h.counted rfl h₀ hal hsize (hpriv h₀)
      fun va _ t _ _ hl => absurd hl (by simp [allHeld])
    obtain ⟨L', hcounted, -, hgone⟩ := hdrop.counted
    exact ⟨L', h.of_roots hdrop.roots hcounted, hgone⟩
  · have hsame : (mmanUnmap s id address size).1 = s := by
      simp only [mmanUnmap, onEntries]
      split_ifs <;> first | rfl | exact absurd ⟨‹_›, not_not.mp ‹_›, not_not.mp ‹_›⟩ hok
    rw [hsame]
    exact h.settles

/-! ## Roots -/

/-- Registering a root that is in order, once the pages it was made of are there. -/
theorem Exact.registered {s₁ : Mman} (h : Exact s L) (hroots : SameRoots s s₁)
    (htally : Tally s₁ (fun p => references allHeld s₁.phys s.roots p + 0) Set.univ)
    (hcount : ∀ p, s.pageCount p = s₁.pageCount p)
    (hlay : Layout s₁.kmem allHeld (root :: s.roots) L') : Settles s (importRoot s₁ root).1 := by
  have hcounted := importRoot_counts htally hlay (held_allHeld _) (fun _ _ => rfl) rfl
    fun _ _ => .inr trivial
  have hkmem := kmem_importRoot s₁ root
  have hgrows : ∀ p, s₁.pageCount p ≤ (importRoot s₁ root).1.pageCount p := by
    intro p
    rw [hcounted.tally.counts, htally.counts, references_cons, Mman.phys, Mman.phys, hkmem]
    omega
  obtain ⟨m, hsame, heq⟩ := importRoot_spec s₁ root
  have hfresh : s₁.rootMap.search s₁.nextId = none := by
    rw [hroots.rootMap, hroots.nextId]
    exact h.fresh _ le_rfl
  have hperm : (importRoot s₁ root).1.roots.Perm (root :: s.roots) := by
    rw [heq, ← hroots.roots_eq]
    exact (AvlMap.toList_insert_perm root hfresh).map Prod.snd
  have hsearch : ∀ id, (importRoot s₁ root).1.rootMap.search id =
      if s.nextId = id then some root else s.rootMap.search id := by
    intro id
    rw [heq, ← hroots.nextId, ← hroots.rootMap]
    exact AvlMap.search_insert_ptr ..
  have hnext : (importRoot s₁ root).1.nextId = s.nextId + 1 := by
    rw [heq, ← hroots.nextId]
  have hroot₀ : root ≠ 0 := (hlay.roots root List.mem_cons_self).2
  refine ⟨L', ⟨hcounted.perm hperm.symm, fun id hid => ?_, fun id hid => ?_⟩, fun p hp hp' => ?_⟩
  · rw [hnext] at hid
    rw [hsearch, if_neg (by omega)]
    exact h.fresh id (by omega)
  · have hold : (importRoot s₁ root).1.rootCount id = s.rootCount id := by
      rw [heq, ← hroots.rootCount]
      simp only [Mman.rootCount, hsame.rootRefcount]
    have hknown := h.known id (hold ▸ hid)
    rw [Mman.rootAddress, hsearch]
    split_ifs
    · exact hroot₀
    · exact hknown
  · rw [hcount p] at hp
    exact absurd (Nat.eq_zero_of_le_zero ((hgrows p).trans hp'.le)) hp

theorem Exact.importRoot (h : Exact s L)
    (hnew : ∃ L', Layout s.kmem allHeld (root :: s.roots) L') :
    Settles s (mmanImportRoot s root).1 := by
  obtain ⟨L', hlay⟩ := hnew
  exact h.registered (.refl s) h.counted.tally (fun _ => rfl) hlay

/-- **`mman_make_root`**: what the new root shares is counted once more. -/
theorem Exact.makeRoot (h : Exact s L) (hcur : s.cr3 ∈ s.roots)
    (hwin : ∀ va ∈ windows, ∃ t, tableAt s.phys s.cr3 va 2 = some t)
    (henough : (mmanMakeRoot s).1.kmem.taken ≤ s.kmem.taken + L.length) :
    Settles s (mmanMakeRoot s).1 := by
  rw [mmanMakeRoot_eq] at henough ⊢
  rw [kmem_importRoot] at henough
  have hbuilt := kmemCreateRoot_builds h.counted.layout hcur hwin henough
  generalize (kmemCreateRoot s.cr3 s.kmem).1 = k at *
  generalize (kmemCreateRoot s.cr3 s.kmem).2 = ret at *
  refine h.registered ⟨rfl, rfl, rfl, rfl, rfl⟩ ?_ (fun _ => rfl) hbuilt.layout
  refine Tally.congr (h.counted.tally.of_same rfl rfl hbuilt.handed) fun p => ?_
  exact congrArg (· + 0) hbuilt.untouched.references_eq

/-- Counting users of roots there are. -/
theorem known_mmanIncrementRoot (h : ∀ q, s.rootCount q ≠ 0 → s.rootAddress q ≠ 0)
    (hid : mmanIsRoot s id) (q : Nat) (hq : (mmanIncrementRoot s id).rootCount q ≠ 0) :
    (mmanIncrementRoot s id).rootAddress q ≠ 0 := by
  change s.rootAddress q ≠ 0
  rw [rootCount_mmanIncrementRoot] at hq
  by_cases hqid : id = q
  · rw [← hqid]
    simpa [mmanIsRoot] using hid
  · rw [if_neg hqid, Nat.add_zero] at hq
    exact h q hq

theorem Exact.incrementRoot (h : Exact s L) (hid : mmanIsRoot s id) :
    Settles s (mmanIncrementRoot s id) :=
  ⟨L, ⟨h.counted.of_same rfl rfl rfl, h.fresh, known_mmanIncrementRoot h.known hid⟩,
    fun _ hp hp' => absurd hp' hp⟩

/-- The roots without the one that was taken down. -/
theorem roots_of_removed (hid : s.rootMap.search id = some root)
    (hmap : s'.rootMap = (s.rootMap.remove id).1) : (s.roots.erase root).Perm s'.roots := by
  obtain ⟨key, hperm⟩ := AvlMap.toList_remove_perm hid
  have hroots : s.roots.Perm (root :: s'.roots) := by
    rw [Mman.roots, Mman.roots, hmap]
    exact hperm.map Prod.snd
  exact (hroots.erase root).trans (by rw [List.erase_cons_head])

theorem rootMap_mmanDecrementRoot (hcount : s.rootCount id = 1) :
    (mmanDecrementRoot s id).rootMap = (s.rootMap.remove id).1 := by
  simp only [mmanDecrementRoot, hcount, Nat.one_ne_zero, if_false, gt_iff_lt, Nat.lt_irrefl]
  exact ((sameRoots_removeHelper 3 _ _).trans (sameRoots_decrementPage _ _)).rootMap

/-- The users of a root that is taken down are gone with it. -/
theorem known_mmanDecrementRoot (h : ∀ q, s.rootCount q ≠ 0 → s.rootAddress q ≠ 0) (id q : Nat)
    (hq : (mmanDecrementRoot s id).rootCount q ≠ 0) : (mmanDecrementRoot s id).rootAddress q ≠ 0 := by
  obtain ⟨hcounts, hmaps, -⟩ := mmanDecrementRoot_spec s id
  rw [hcounts] at hq
  have hold := h q (by omega)
  rw [Mman.rootAddress, hmaps, if_neg]
  · exact hold
  · rintro ⟨rfl, hone⟩
    rw [if_pos rfl, hone] at hq
    exact hq rfl

/-- Nothing but the number of users changes while there are others. -/
theorem mmanDecrementRoot_quiet (h : s.rootCount id ≠ 1) :
    (mmanDecrementRoot s id).kmem = s.kmem ∧
      (mmanDecrementRoot s id).pageRefcount = s.pageRefcount ∧
      (mmanDecrementRoot s id).pagefreeCalls = s.pagefreeCalls ∧
      (mmanDecrementRoot s id).rootMap = s.rootMap := by
  simp only [mmanDecrementRoot]
  split_ifs
  · exact ⟨rfl, rfl, rfl, rfl⟩
  · exact ⟨rfl, rfl, rfl, rfl⟩
  · omega

/-- **`mman_decrement_root`**: the last user's root goes, with all that only it referred to. -/
theorem Exact.decrementRoot (h : Exact s L) : Settles s (mmanDecrementRoot s id) := by
  obtain ⟨-, hmaps, hnext, -⟩ := mmanDecrementRoot_spec s id
  have hfresh : ∀ q, (mmanDecrementRoot s id).nextId ≤ q →
      (mmanDecrementRoot s id).rootMap.search q = none := by
    intro q hq
    rw [hmaps]
    split_ifs
    · rfl
    · exact h.fresh q (hnext ▸ hq)
  have hknown := known_mmanDecrementRoot h.known id
  by_cases hone : s.rootCount id = 1
  · have hid : s.rootAddress id ≠ 0 := h.known id (by omega)
    have hdown := mmanDecrementRoot_counts h.counted hone rfl (h.mem_roots hid) (untangled_allHeld s)
    obtain ⟨L', hcounted, -, hgone⟩ := hdown.counted
    have hperm := roots_of_removed (search_of_rootAddress hid) (rootMap_mmanDecrementRoot hone)
    exact ⟨L', ⟨hcounted.perm hperm, hfresh, hknown⟩, hgone⟩
  · obtain ⟨hkmem, hpages, hfreed, hmap⟩ := mmanDecrementRoot_quiet hone
    have hcounted := h.counted.of_same hkmem hpages hfreed
    have hroots : (mmanDecrementRoot s id).roots = s.roots := by rw [Mman.roots, hmap, Mman.roots]
    refine ⟨L, ⟨by rwa [hroots], hfresh, hknown⟩, fun p hp hp' => absurd ?_ hp⟩
    rwa [Mman.pageCount, hpages] at hp'

/-! ## Runs -/

/-- **Every call** keeps the counts exact. -/
theorem Exact.step {op : MmanOp} (h : Exact s L) (hallowed : op.Allowed s) (hspares : op.Spares s) :
    Settles s (mmanCall s op).1 := by
  obtain ⟨hop, henough⟩ := hallowed
  have htaken := henough L h.counted.layout.pages
  cases op with
  | makeRoot => exact h.makeRoot hop.1 hop.2 htaken
  | importRoot cr3 =>
    simp only [mmanCall]
    exact h.importRoot hop
  | incrementRoot root => exact h.incrementRoot hspares
  | decrementRoot root => exact h.decrementRoot
  | anonymous rootId address size => exact h.anonymous hop hspares htaken
  | mirror rootId address srootId saddress size => exact h.mirror hop.1 hop.2 htaken
  | unmap rootId address size => exact h.unmap hop

/-- The manager before it knows a root. -/
theorem Exact.empty {kmem : Kmem} (h : Layout kmem allHeld [] L) (cr3 : Word) :
    Exact (.empty kmem cr3) L :=
  ⟨⟨h, ⟨fun _ => rfl, nofun, fun _ _ => .inr trivial, nofun⟩, fun _ _ => rfl, rfl⟩,
    fun id _ => (rfl : AvlMap.search .empty id = none),
    fun id hid => absurd (rfl : Option.getD (AvlMap.search .empty id) 0 = 0) hid⟩

end

/-- **What the counts are**: none is wrong, none is `0`, and nothing free is referred to. -/
structure CountsExact (s : Mman) : Prop where
  counts : ∀ p, s.pageCount p = references allHeld s.phys s.roots p
  positive : ∀ p, s.pageRefcount.search p ≠ some 0
  free : ∃ L, FreePages s.kmem L ∧ ∀ p ∈ L, references allHeld s.phys s.roots p = 0

/-- What has lost its last reference is on the free list. -/
def GivesBack (s s' : Mman) : Prop :=
  ∀ p, s.pageCount p ≠ 0 → s'.pageCount p = 0 → ∃ L, FreePages s'.kmem L ∧ p ∈ L

section
variable {s s' : Mman} {L : List Word} {id : Nat} {root va : Word}

theorem Exact.countsExact (h : Exact s L) : CountsExact s where
  counts := h.counted.tally.counts
  positive := h.counted.tally.positive
  free := ⟨L, h.counted.layout.pages, h.counted.layout.unused⟩

theorem Settles.givesBack (h : Settles s s') : GivesBack s s' := by
  intro p hp hp'
  obtain ⟨L', hL', hback⟩ := h
  exact ⟨L', hL'.counted.layout.pages, hback p hp hp'⟩

/-! ## A page that is mapped twice -/

theorem pagesOf_one : pagesOf va 0x1000 = {va} := by
  ext va'
  constructor
  · intro hva'
    obtain ⟨i, hi, rfl⟩ := hva'
    obtain rfl : i = 0 := Nat.lt_one_iff.mp hi
    exact add_zero_word va
  · intro hva'
    obtain rfl : va' = va := hva'
    exact ⟨0, Nat.one_pos, (add_zero_word va').symm⟩

/-- One page may be mapped in tidy tables. -/
theorem Tidy.allowed_anonymous (h : Tidy s s.roots L) (hva : va ∈ ownAddresses)
    (hL : 4 ≤ L.length) : MmanOp.Allowed s (.anonymous id va 0x1000) := by
  refine ⟨fun hid => ?_, fun L' hL' => ?_⟩
  · have hown := h.own _ (mem_roots (search_of_rootAddress hid))
    rw [pagesOf_one]
    refine ⟨hown.root_mem, fun va' hva' => ?_, fun va' hva' => ?_⟩
    · obtain rfl : va' = va := hva'
      exact hown.low va' hva
    · obtain rfl : va' = va := hva'
      exact hown.own va' hva
  · obtain rfl : L' = L := hL'.unique h.counted.layout.pages
    have hle : (mmanAnonymous s id va 0x1000).1.kmem.taken ≤ s.kmem.taken + 4 :=
      (mmanAnonymous_taken_le id va 0x1000).trans (by simp)
    exact hle.trans (by omega)

/-- **Mapping over a page** leaves the count of the one that was there too high. -/
theorem Tidy.remapped (h : Tidy s s.roots L) (hid : s.rootAddress id = root) (hr : root ∈ s.roots)
    (hva : va ∈ ownAddresses) (hal : va &&& 0xfff = 0) (hmap : Mapped s.phys root va)
    (hL : L ≠ []) : ¬ CountsExact (mmanAnonymous s id va 0x1000).1 := by
  intro hexact
  obtain ⟨t, ht, hpres⟩ := hmap
  have hrun := mmanAnonymous_one hid (h.counted.layout.roots root hr).2 hal
  cases L with
  | nil => exact hL rfl
  | cons f L' =>
    have hlay := h.counted.layout
    have hf : IsFrame f := hlay.frames f List.mem_cons_self
    have hstate : anonymousPage root s va = incrementPage
        (s.getpage.1.write (cell t va 3) (f ||| kmemMapData)) f := by
      simp only [anonymousPage, mmanPagingAddrCreate_of_table ht]
      rw [show s.getpage.2 = f from hlay.pages.head_eq]
    have hroots : (anonymousPage root s va).roots = s.roots := by
      rw [hstate]
      rfl
    -- the frame that was mapped is counted, so it is not the new one
    have hcounted := h.counted.count_of_mapped hr (h.low hr hva) ht hpres
    have hne : f ≠ frameOf (s.phys (cell t va 3)) := fun heq =>
      (h.counted.not_free hcounted).2 (heq ▸ List.mem_cons_self)
    have hphys : (anonymousPage root s va).phys =
        Function.update s.phys (cell t va 3) (f ||| kmemMapData) := by
      rw [hstate]
      rfl
    have hnow := hexact.counts (frameOf (s.phys (cell t va 3)))
    rw [hrun, hroots, hphys, hstate, pageCount_incrementPage, if_neg hne, Nat.add_zero] at hnow
    have hbefore := h.counted.tally.counts (frameOf (s.phys (cell t va 3)))
    have hframe : frameOf (f ||| kmemMapData) = f := data_frame hf
    have hown : Owned (kmemGetpage s.kmem).1.phys s.roots root ownAddresses 3 := h.own root hr
    obtain ⟨-, -, hrefs, -⟩ := Owned.leaf (e := f ||| kmemMapData) hown hlay.take hva ht
      (fun _ _ => rfl) fun _ _ => by
        rw [hframe]
        exact ⟨hlay.ne_zero List.mem_cons_self, (List.nodup_cons.mp hlay.nodup).1⟩
    have hold : leafRef allHeld s.phys (cell t va 3) (frameOf (s.phys (cell t va 3))) = 1 :=
      if_pos ⟨hpres, rfl, by simp [allHeld]⟩
    have hnew : leafRef allHeld (Function.update s.phys (cell t va 3) (f ||| kmemMapData))
        (cell t va 3) (frameOf (s.phys (cell t va 3))) = 0 := by
      refine leafRef_eq_zero fun _ _ => ?_
      rw [Function.update_self, hframe]
      exact hne
    have hsum := hrefs (frameOf (s.phys (cell t va 3)))
    change references allHeld (Function.update s.phys (cell t va 3) (f ||| kmemMapData)) s.roots _ +
      leafRef allHeld s.phys (cell t va 3) _ = references allHeld s.phys s.roots _ +
      leafRef allHeld (Function.update s.phys (cell t va 3) (f ||| kmemMapData)) (cell t va 3) _ at hsum
    rw [hold, hnew] at hsum
    change s.pageCount _ = _ at hnow
    omega

end

section
variable {s s₀ : Mman} {ok : Mman → MmanOp → Prop} {op : MmanOp} {tr : List (MmanOp × Int)}
  {L : List Word} {root : Word}

theorem run_call (h : RunIf mmanStep ok s₀ tr s) (hok : ok s op) :
    RunIf mmanStep ok s₀ (tr ++ [(op, (mmanCall s op).2)]) (mmanCall s op).1 := h.snoc hok rfl

theorem allowed_importRoot (h : Layout s.kmem allHeld (root :: s.roots) L) :
    MmanOp.Allowed s (.importRoot root) := by
  refine ⟨⟨L, h⟩, fun L' _ => ?_⟩
  simp only [mmanCall, mmanImportRoot, kmem_importRoot]
  exact Nat.le_add_right _ _

theorem allowed_incrementRoot (s : Mman) (id : Nat) : MmanOp.Allowed s (.incrementRoot id) :=
  ⟨trivial, fun _ _ => Nat.le_add_right _ _⟩

/-- A run goes on with the import of a root that is in order. -/
theorem Tidy.run_importRoot (h : Tidy s s.roots L) (hnew : NewRoot s root)
    (hid : s.rootMap.search s.nextId = none)
    (hrun : RunIf mmanStep (fun s op => op.Allowed s ∧ op.Spares s) s₀ tr s) :
    ∃ tr' s', RunIf mmanStep (fun s op => op.Allowed s ∧ op.Spares s) s₀ tr' s' ∧
      Tidy s' s'.roots L ∧ s'.roots.Perm (root :: s.roots) ∧ s'.kmem = s.kmem ∧
      s'.rootAddress s.nextId = root := by
  obtain ⟨L', hlay⟩ := hnew.layout
  obtain ⟨htidy, hperm⟩ := h.importRoot hnew hid
  have hcall : (mmanCall s (.importRoot root)).1 = (mmanImportRoot s root).1 := by
    simp only [mmanCall]
  have haddr : (Refk.importRoot s root).1.rootAddress s.nextId = root := by
    obtain ⟨m, -, heq⟩ := importRoot_spec s root
    rw [heq]
    exact rootAddress_of_search ((AvlMap.search_insert_ptr ..).trans (if_pos rfl))
  have hrun' := run_call hrun ⟨allowed_importRoot hlay, trivial⟩
  rw [hcall] at hrun'
  exact ⟨_, _, hrun', htidy, hperm, kmem_importRoot s root, haddr⟩

end

/-- On the small machine: a root, its user, and a page. -/
theorem small_run : ∃ tr s L, RunIf mmanStep (fun s op => op.Allowed s ∧ op.Spares s)
    (.empty smallMemory 0x20000) tr s ∧ Tidy s s.roots L ∧ L ≠ [] ∧ 4 ≤ L.length ∧
    s.rootAddress 0x1000 = 0x20000 ∧ Mapped s.phys 0x20000 temporaryMapAddress := by
  have hlay : Layout smallMemory allHeld [0x20000] ((List.range' 256 256).map smallPage) :=
    smallMemory_layout.of_cons
  have hlen : ((List.range' 256 256).map smallPage).length = 256 := by
    rw [List.length_map, List.length_range']
  generalize (List.range' 256 256).map smallPage = L at hlay hlen
  have hblank : ∀ r ∈ [(0x20000 : Word)], Blank smallMemory.phys r := fun r hr =>
    smallMemory_blank r (List.mem_cons_of_mem _ hr)
  generalize smallMemory = kmem at *
  have h₀ : Tidy (.empty kmem 0x20000) (Mman.empty kmem 0x20000).roots L :=
    ⟨(Exact.empty hlay.of_cons 0x20000).counted, nofun⟩
  obtain ⟨tr, m, hrun, htidy, hperm, hkmem, haddr⟩ := h₀.run_importRoot
    ⟨⟨L, hlay⟩, OwnTables.of_blank (List.nodup_singleton _) hblank⟩ rfl .start
  have haddr : m.rootAddress 0x1000 = 0x20000 := haddr
  have hkmem : m.kmem = kmem := hkmem
  have hroots : m.roots = [0x20000] := List.perm_singleton.mp hperm
  -- its user
  have hknown : mmanIsRoot m 0x1000 := by
    simp only [mmanIsRoot, haddr]
    decide
  have hrun₁ := run_call hrun ⟨allowed_incrementRoot m 0x1000, hknown⟩
  have htidy₁ : Tidy (mmanIncrementRoot m 0x1000) m.roots L := htidy.of_same rfl rfl rfl
  have haddr₁ : (mmanIncrementRoot m 0x1000).rootAddress 0x1000 = 0x20000 := haddr
  have hroots₁ : (mmanIncrementRoot m 0x1000).roots = m.roots := rfl
  have hkmem₁ : (mmanIncrementRoot m 0x1000).kmem = kmem := hkmem
  simp only [mmanCall] at hrun₁
  generalize mmanIncrementRoot m 0x1000 = m₁ at *
  -- and a page
  have hun : ¬ Mapped m₁.phys 0x20000 temporaryMapAddress := by
    rw [Mman.phys, hkmem₁]
    exact not_mapped_of_blank (hblank _ (by simp))
  have hmem : (0x20000 : Word) ∈ m.roots := hroots ▸ List.mem_cons_self
  have hturned := htidy₁.anonymous haddr₁ hmem own_temporary (by decide) hun (by omega)
  have hallowed₂ : MmanOp.Allowed m₁ (.anonymous 0x1000 temporaryMapAddress 0x1000) :=
    (hroots₁ ▸ htidy₁ : Tidy m₁ m₁.roots L).allowed_anonymous own_temporary (by omega)
  have hspares : MmanOp.Spares m₁ (.anonymous 0x1000 temporaryMapAddress 0x1000) := by
    intro _ j hj
    obtain rfl : j = 0 := Nat.lt_one_iff.mp hj
    rw [haddr₁]
    exact hun
  have hrun₂ := run_call hrun₁ ⟨hallowed₂, hspares⟩
  simp only [mmanCall] at hrun₂
  generalize (mmanAnonymous m₁ 0x1000 temporaryMapAddress 0x1000).1 = m₂ at *
  obtain ⟨L', htidy₂, hle⟩ := hturned.tidy
  refine ⟨_, m₂, L', hrun₂, ?_, ?_, by omega, ?_, ?_⟩
  · rw [hturned.roots.roots_eq, hroots₁]
    exact htidy₂
  · rintro rfl
    rw [List.length_nil] at hle
    omega
  · rw [hturned.roots.rootAddress, haddr₁]
  · exact (hturned.maps.self hmem (low_of_own own_temporary)).mpr trivial

/-- In every run in which calls are spared, the counts are exact, and every call gives back what has
    lost its last reference. -/
theorem run_exact {kmem : Kmem} {cr3 : Word} {L : List Word} {tr : List (MmanOp × Int)}
    {s : Mman} (hlay : Layout kmem allHeld [] L)
    (h : RunIf mmanStep (fun s op => op.Allowed s ∧ op.Spares s) (.empty kmem cr3) tr s) :
    (∃ L, Exact s L) ∧ Along mmanStep (.empty kmem cr3) (fun s _ _ s' => GivesBack s s') tr := by
  induction h with
  | start => exact ⟨⟨L, .empty hlay cr3⟩, .nil⟩
  | snoc run hok hs ih =>
    obtain ⟨⟨L', hL'⟩, hall⟩ := ih
    have hsettles := hL'.step hok.1 hok.2
    rw [Option.some.inj hs] at hsettles
    refine ⟨?_, (Along.snoc_iff run hs).mpr ⟨hall, hsettles.givesBack⟩⟩
    obtain ⟨L'', hL'', -⟩ := hsettles
    exact ⟨L'', hL''⟩

/-- **Reference counts.** In every run in which no page that is mapped is mapped over by
    `mman_anonymous`, and users are counted of registered roots only, the counts are exact, and
    every call gives back what has lost its last reference. -/
theorem page_counts_exact {kmem : Kmem} {cr3 : Word} {L : List Word} {tr : List (MmanOp × Int)}
    {s : Mman} (hlay : Layout kmem allHeld [] L)
    (h : RunIf mmanStep (fun s op => op.Allowed s ∧ op.Spares s) (.empty kmem cr3) tr s) :
    CountsExact s ∧ Along mmanStep (.empty kmem cr3) (fun s _ _ s' => GivesBack s s') tr := by
  obtain ⟨⟨L', hL'⟩, hall⟩ := run_exact hlay h
  exact ⟨hL'.countsExact, hall⟩

/-- On the small machine. -/
theorem page_counts_exact_of_smallMemory : ∃ s, s.rootAddress 0x1000 = 0x20000 ∧
    Mapped s.phys 0x20000 temporaryMapAddress ∧ CountsExact s := by
  obtain ⟨tr, s, L, hrun, -, -, -, haddr, hmap⟩ := small_run
  exact ⟨s, haddr, hmap, (page_counts_exact smallMemory_layout.of_cons.of_cons hrun).1⟩

/-- **A page that is mapped over** keeps a count that nothing refers to. -/
theorem mapped_over_stays_counted : ¬ ∀ (kmem : Kmem) (cr3 : Word) (L : List Word)
    (tr : List (MmanOp × Int)) (s : Mman), Layout kmem allHeld [] L →
    RunIf mmanStep (fun s op => op.Allowed s) (.empty kmem cr3) tr s → CountsExact s := by
  intro hall
  obtain ⟨tr, s, L, hrun, htidy, hL, hlen, haddr, hmap⟩ := small_run
  have hrun' := run_call (hrun.mono fun s op h => h.1)
    (show MmanOp.Allowed s (.anonymous 0x1000 temporaryMapAddress 0x1000) from
      htidy.allowed_anonymous own_temporary hlen)
  have hmem : (0x20000 : Word) ∈ s.roots :=
    mem_roots (haddr ▸ search_of_rootAddress (by rw [haddr]; decide))
  refine htidy.remapped haddr hmem own_temporary (by decide) hmap hL ?_
  exact hall _ _ _ _ _ smallMemory_layout.of_cons.of_cons hrun'

end Refk
