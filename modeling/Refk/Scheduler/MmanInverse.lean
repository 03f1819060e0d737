import Refk.Scheduler.MmanRootCount

/-!
# Taking down what was imported

`import_root` counts every page once for each way to it, and the `mman_decrement_root` that drops
the root's last user takes all of this down again, whatever is shared with whom. It reads the
tables while it gives pages back, and a page's first word goes to the free list with it: so what
it reads and what it frees is written down here, in order. A table is read only while an entry
that leads to it is still counted.
-/

namespace Refk

open Lib

/-- What `remove_helper` does to memory. -/
inductive MmanEvent
  | read (table : Word)
  | unuse (page : Word)

/-- The manager, and what has happened, latest first. -/
structure Logged where
  mman : Mman
  log : List MmanEvent

namespace Logged

/-- The pages given to `kmem_unuse`, latest first. -/
def unused (s : Logged) : List Word :=
  s.log.filterMap fun
    | .read _ => none
    | .unuse page => some page

/-- An entry of `table` is read. -/
def look (table : Word) (s : Logged) : Logged := { s with log := .read table :: s.log }

end Logged

/-- No table is read after it was freed. -/
def ReadsLive : List MmanEvent → Prop
  | [] => True
  | .read table :: log => .unuse table ∉ log ∧ ReadsLive log
  | .unuse _ :: log => ReadsLive log

/-- `decrement_page` -/
def decrementPageLogged (s : Logged) (page : Word) : Logged where
  mman := decrementPage s.mman page
  log := if s.mman.pageCount page = 1 then .unuse page :: s.log else s.log

/-- The loop of `remove_helper`. -/
def forEntriesLogged (isRoot : Bool) (table : Word) (body : Logged → Word → Logged) (s : Logged) :
    Logged :=
  (List.range 512).foldl (fun s i =>
    if isRoot ∧ i = 384 then s
    else
      let entry := phyRead64 s.mman.phys (table + BitVec.ofNat 64 i * 8)
      if entry &&& 1 = 0 then s.look table else body (s.look table) (entry &&& kmemFrameMask)) s

/-- `remove_helper(root, 3 - below)` -/
def removeHelperLogged : Nat → Word → Logged → Logged
  | 0, table, s => forEntriesLogged false table decrementPageLogged s
  | below + 1, table, s =>
    forEntriesLogged (below + 1 = 3) table
      (fun s page => decrementPageLogged (removeHelperLogged below page s) page) s

/-- The `mman_decrement_root` that drops the last use of a root. -/
def mmanDropRootLogged (s : Mman) (root : Nat) : Logged :=
  let s := { s with rootRefcount := (s.rootRefcount.remove root).1 }
  let cr3 := (s.rootMap.remove root).2.getD 0
  let s := { s with rootMap := (s.rootMap.remove root).1 }
  decrementPageLogged (removeHelperLogged 3 cr3 ⟨s, []⟩) cr3

/-- A page that is reached from a table with `n` levels. -/
def VisitedBelow (m : Phys) : Nat → Word → Word → Prop
  | 0, _, _ => False
  | n + 1, table, p => ∃ i ∈ walked.slots (n + 1), Present (m (slotAddr table i)) ∧
      (frameOf (m (slotAddr table i)) = p ∨ VisitedBelow m n (frameOf (m (slotAddr table i))) p)

/-- A root, or a page reached from it. -/
def Visited (m : Phys) (root p : Word) : Prop := p = root ∨ VisitedBelow m 4 root p

/-- **Nothing is left of an import**: the counts and the maps are as before, the pages that are
    given back are those that nobody else counts, each once, and no table is read after it was
    given back. -/
structure Undone (s : Mman) (root : Word) (id : Nat) (s' : Logged) : Prop where
  counts : ∀ p, s'.mman.pageCount p = s.pageCount p
  rootMap : s'.mman.rootMap.search id = none
  rootRefcount : s'.mman.rootRefcount.search id = none
  nodup : s'.unused.Nodup
  unused : ∀ p, p ∈ s'.unused ↔ Visited s.phys root p ∧ s.pageCount p = 0
  kmem : s'.mman.kmem = s'.unused.foldr (fun page k => kmemUnuse k page) s.kmem
  reads : ReadsLive s'.log

section
variable {s : Mman} {m : Phys} {k : Kmem} {count f g : Word → Nat} {S : Logged} {root t p : Word}

/-! ## The log is only a log -/

theorem decrementPageLogged_mman (S : Logged) (page : Word) :
    (decrementPageLogged S page).mman = decrementPage S.mman page := rfl

theorem forEntriesLogged_mman {isRoot : Bool} {body : Logged → Word → Logged}
    {body' : Mman → Word → Mman} (h : ∀ S page, (body S page).mman = body' S.mman page) :
    (forEntriesLogged isRoot t body S).mman = forEntries isRoot t body' S.mman := by
  refine (List.foldl_hom Logged.mman fun S i => ?_).symm
  dsimp only
  split_ifs
  · rfl
  · rfl
  · exact (h (S.look t) _).symm

theorem removeHelperLogged_mman (below : Nat) (t : Word) (S : Logged) :
    (removeHelperLogged below t S).mman = removeHelper below t S.mman := by
  induction below generalizing t S with
  | zero => exact forEntriesLogged_mman fun _ _ => rfl
  | succ below ih =>
    refine forEntriesLogged_mman fun S page => ?_
    exact congrArg (decrementPage · page) (ih page S)

/-- **`mman_decrement_root`** on a root that is used once. -/
theorem mmanDropRootLogged_mman {id : Nat} (h : s.rootCount id = 1) :
    (mmanDropRootLogged s id).mman = mmanDecrementRoot s id := by
  rw [mmanDecrementRoot, if_neg (by omega), if_neg (by omega), mmanDropRootLogged,
    decrementPageLogged_mman, removeHelperLogged_mman]

/-! ## What is visited -/

theorem visitedBelow_iff {n : Nat} : VisitedBelow m n t p ↔
    sumBelow walked (refTo allHeld p) (entries m) n t ≠ 0 := by
  induction n generalizing t with
  | zero => exact ⟨fun h => h.elim, fun h => absurd rfl h⟩
  | succ n ih =>
    rw [← not_iff_not, not_not, sumBelow_succ_eq_zero, VisitedBelow]
    constructor
    · intro h i hi e he
      obtain ⟨hp, rfl⟩ := entries_some.mp he
      rw [refTo_allHeld]
      constructor
      · exact if_neg fun heq => h ⟨i, hi, hp, .inl heq⟩
      · by_contra hsum
        exact h ⟨i, hi, hp, .inr (ih.mpr hsum)⟩
    · rintro h ⟨i, hi, hp, hvisit⟩
      obtain ⟨hedge, hbelow⟩ := h i hi _ (entries_some.mpr ⟨hp, rfl⟩)
      rcases hvisit with heq | hvisit
      · rw [refTo_allHeld, if_pos heq] at hedge
        cases hedge
      · exact ih.mp hvisit hbelow

/-! ## Importing -/

/-- **`import_root`** counts the ways to every page. -/
theorem importRoot_pageCount (s : Mman) (root p : Word) :
    (importRoot s root).1.pageCount p = s.pageCount p + (if root = p then 1 else 0) +
      sumBelow walked (refTo allHeld p) (entries s.phys) 4 root ∧
    (importRoot s root).1.kmem = s.kmem := by
  have hinc : ∀ (s' : Mman) (g : Word → Nat) (p : Word), True →
      s'.kmem = (incrementPage s root).kmem →
      (∀ q, s'.pageCount q = g q) →
      ∀ q, (incrementPage s' p).pageCount q = g q + if p = q then 1 else 0 := by
    intro s' g p _ _ hg q
    rw [pageCount_incrementPage, hg]
  obtain ⟨hcount, hkmem, -⟩ := importHelper_rule (T := fun s f => ∀ q, s.pageCount q = f q)
    (t := root) (fun _ => True) hinc 3 rfl (fun q => pageCount_incrementPage) fun _ _ => trivial
  obtain ⟨s', hs', heq⟩ := importRoot_eq s root
  rw [← hs'] at hcount hkmem
  rw [heq]
  exact ⟨hcount p, hkmem⟩

/-! ## Taking down -/

/-- The middle of a walk that takes counts down: `f` is what is still counted, of `count` in the
    beginning, where memory was `m` and the free list `k`. -/
structure Undoing (m : Phys) (k : Kmem) (count f : Word → Nat) (S : Logged) : Prop where
  counts : ∀ p, S.mman.pageCount p = f p
  count_le : ∀ p, f p ≤ count p
  agree : ∀ X i, PageAligned X → i < 512 → f X ≠ 0 → S.mman.phys (slotAddr X i) = m (slotAddr X i)
  nodup : S.unused.Nodup
  unused : ∀ p, p ∈ S.unused ↔ count p ≠ 0 ∧ f p = 0
  kmem : S.mman.kmem = S.unused.foldr (fun page k => kmemUnuse k page) k
  reads : ReadsLive S.log

theorem Undoing.congr (h : Undoing m k count f S) (hg : ∀ p, g p = f p) :
    Undoing m k count g S := (funext hg : g = f) ▸ h

theorem Logged.mem_unused : p ∈ S.unused ↔ .unuse p ∈ S.log := by
  unfold Logged.unused
  rw [List.mem_filterMap]
  constructor
  · rintro ⟨event, hmem, heq⟩
    cases event with
    | read table => cases heq
    | unuse page => exact Option.some.inj heq ▸ hmem
  · exact fun hmem => ⟨_, hmem, rfl⟩

/-- A table that is counted is read. -/
theorem Undoing.look (h : Undoing m k count f S) (ht : f t ≠ 0) :
    Undoing m k count f (S.look t) := by
  refine ⟨h.counts, h.count_le, h.agree, h.nodup, h.unused, h.kmem, fun hmem => ?_, h.reads⟩
  exact ht ((h.unused t).mp (Logged.mem_unused.mpr hmem)).2

/-- An entry that is counted is taken down. -/
theorem Undoing.decrement (hp : PageAligned p)
    (h : Undoing m k count (fun q => f q + if p = q then 1 else 0) S) :
    Undoing m k count f (decrementPageLogged S p) := by
  have hcount : S.mman.pageCount p = f p + 1 := by simpa using h.counts p
  have hother : ∀ q, p ≠ q → S.mman.pageCount q = f q := fun q hq => by
    simpa [hq] using h.counts q
  have hle : ∀ q, f q ≤ count q := fun q => (Nat.le_add_right _ _).trans (h.count_le q)
  have hmono : ∀ q, f q ≠ 0 → f q + (if p = q then 1 else 0) ≠ 0 := fun q hq => by omega
  obtain ⟨hdown, hkmem⟩ := decrementPage_spec S.mman p
  have hcounts : ∀ q, (decrementPage S.mman p).pageCount q = f q := by
    intro q
    rw [hdown]
    by_cases hpq : p = q
    · rw [if_pos hpq, ← hpq, hcount]
      rfl
    · rw [if_neg hpq, hother q hpq]
      rfl
  by_cases hlast : f p = 0
  · have hone : S.mman.pageCount p = 1 := by omega
    have hfresh : p ∉ S.unused := fun hmem => by simpa using ((h.unused p).mp hmem).2
    have hlog : decrementPageLogged S p = ⟨decrementPage S.mman p, .unuse p :: S.log⟩ := by
      rw [decrementPageLogged, if_pos hone]
    rw [if_pos hone] at hkmem
    rw [hlog]
    refine ⟨hcounts, hle, fun X i hX hi hf => ?_, List.nodup_cons.mpr ⟨hfresh, h.nodup⟩,
      fun q => ?_, ?_, h.reads⟩
    · -- only the first word of the page has changed
      have hne : slotAddr X i ≠ p := fun heq => by
        rw [slotAddr_eq_page hX hp hi heq] at hf
        exact hf hlast
      change (decrementPage S.mman p).kmem.phys _ = _
      rw [hkmem]
      exact (Function.update_of_ne hne _ _).trans (h.agree X i hX hi (hmono X hf))
    · change q ∈ p :: S.unused ↔ _
      rw [List.mem_cons, h.unused]
      by_cases hpq : p = q
      · subst hpq
        have := h.count_le p
        rw [if_pos rfl] at this
        exact ⟨fun _ => ⟨by omega, hlast⟩, fun _ => .inl rfl⟩
      · rw [if_neg hpq, Nat.add_zero]
        exact ⟨fun hq => hq.resolve_left (Ne.symm hpq), .inr⟩
    · change (decrementPage S.mman p).kmem = kmemUnuse (S.unused.foldr _ k) p
      rw [hkmem, ← h.kmem]
  · have hmore : S.mman.pageCount p ≠ 1 := by omega
    have hlog : decrementPageLogged S p = ⟨decrementPage S.mman p, S.log⟩ := by
      rw [decrementPageLogged, if_neg hmore]
    rw [if_neg hmore] at hkmem
    rw [hlog]
    refine ⟨hcounts, hle, fun X i hX hi hf => ?_, h.nodup, fun q => ?_, hkmem.trans h.kmem, h.reads⟩
    · change (decrementPage S.mman p).kmem.phys _ = _
      rw [hkmem]
      exact h.agree X i hX hi (hmono X hf)
    · change q ∈ S.unused ↔ _
      rw [h.unused]
      by_cases hpq : p = q
      · subst hpq
        simp [hlast]
      · simp [hpq]

/-- The loop of `remove_helper`, for any body that takes down an entry and what is behind it. -/
theorem removeTable_undoes {n : Nat} {isRoot : Bool} (hroot : isRoot = decide (n + 1 = 4))
    (body : Logged → Word → Logged) (ht : PageAligned t) (hpos : f t ≠ 0)
    (h : Undoing m k count
      (fun p => f p + sumBelow walked (refTo allHeld p) (entries m) (n + 1) t) S)
    (hbody : ∀ S' g i e, i ∈ walked.slots (n + 1) → entries m t i = some e →
      Undoing m k count (fun p => g p + sumAt walked (refTo allHeld p) (entries m) n t i) S' →
      Undoing m k count g (body S' (frameOf e))) :
    Undoing m k count f (forEntriesLogged isRoot t body S) := by
  have hrule := walk_rule (fun S => S.mman.phys) (Logged.look t) hroot t body
    (fun l S' => Undoing m k count
      (fun p => f p + (l.map (sumAt walked (refTo allHeld p) (entries m) n t)).sum) S')
    (s := S) h
    (by
      intro i l S' hi hU hp
      rw [hU.agree t i ht (lt_of_mem_slots hi) (by omega)] at hp
      refine (hU.look (by omega)).congr fun p => ?_
      rw [List.map_cons, List.sum_cons, sumAt_none (entries_none.mpr hp), Nat.zero_add])
    (by
      intro i l S' hi hU hp
      have hread := hU.agree t i ht (lt_of_mem_slots hi) (by omega)
      refine hbody (S'.look t) _ i (S'.mman.phys (slotAddr t i)) hi
        (entries_some.mpr ⟨hread ▸ hp, hread.symm⟩) ((hU.look (by omega)).congr fun p => ?_)
      rw [List.map_cons, List.sum_cons]
      omega)
  exact hrule.congr fun p => by simp

/-- **`remove_helper`** takes down what is counted below a table, and reads it before. -/
theorem removeHelper_undoes (below : Nat) (ht : PageAligned t) (hpos : f t ≠ 0)
    (h : Undoing m k count
      (fun p => f p + sumBelow walked (refTo allHeld p) (entries m) (below + 1) t) S) :
    Undoing m k count f (removeHelperLogged below t S) := by
  induction below generalizing S f t with
  | zero =>
    refine removeTable_undoes (n := 0) (by decide) decrementPageLogged ht hpos h
      fun S' g i e hi he hU => ?_
    refine (hU.congr fun p => ?_).decrement (isFrame_and e).aligned
    rw [sumAt_some he, refTo_allHeld]
    rfl
  | succ below ih =>
    refine removeTable_undoes (n := below + 1) ?_ _ ht hpos h fun S' g i e hi he hU => ?_
    · simp only [Nat.reduceEqDiff]
    · -- the table's own entry is still counted while everything below it is taken down
      refine (ih (f := fun q => g q + if frameOf e = q then 1 else 0) (isFrame_and e).aligned
        (by simp) (hU.congr fun p => ?_)).decrement (isFrame_and e).aligned
      rw [sumAt_some he, refTo_allHeld]
      exact Nat.add_assoc _ _ _

end

/-- The state in which the last use of an imported root is dropped. -/
def importedRoot (s : Mman) (root : Word) : Mman :=
  mmanIncrementRoot (mmanImportRoot s root).1 (mmanImportRoot s root).2

/-- What that state has in its maps, and what it counts. -/
theorem importedRoot_spec {s : Mman} {root : Word}
    (hfresh : s.rootCount (mmanImportRoot s root).2 = 0) :
    (importedRoot s root).rootCount (mmanImportRoot s root).2 = 1 ∧
    (importedRoot s root).rootAddress (mmanImportRoot s root).2 = root ∧
    (importedRoot s root).kmem = s.kmem ∧
    ∀ p, (importedRoot s root).pageCount p = s.pageCount p + (if root = p then 1 else 0) +
      sumBelow walked (refTo allHeld p) (entries s.phys) 4 root := by
  obtain ⟨s', hroots, heq⟩ := importRoot_spec s root
  have hcount := importRoot_pageCount s root
  unfold importedRoot mmanIncrementRoot mmanImportRoot at *
  rw [heq] at hfresh hcount ⊢
  refine ⟨?_, ?_, (hcount 0).2, fun p => (hcount p).1⟩
  · have hzero : (s'.rootRefcount.search s.nextId).getD 0 = 0 := by
      rw [hroots.rootRefcount]
      exact hfresh
    simp only [Mman.rootCount, AvlMap.search_insert_ptr, if_true, hzero, Option.getD_some]
  · simp only [Mman.rootAddress, AvlMap.search_insert_ptr, if_true, Option.getD_some]

/-- Dropping a root: its entries go, and then its tables. -/
theorem mmanDropRootLogged_spec {s : Mman} {id : Nat} {root : Word} (h : s.rootAddress id = root) :
    ∃ s' : Mman,
      mmanDropRootLogged s id = decrementPageLogged (removeHelperLogged 3 root ⟨s', []⟩) root ∧
      s'.rootMap.search id = none ∧ s'.rootRefcount.search id = none ∧
      s'.kmem = s.kmem ∧ s'.pageCount = s.pageCount := by
  have hremoved : (s.rootMap.remove id).2.getD 0 = root := by
    rw [AvlMap.remove_snd]
    exact h
  refine ⟨{ s with
    rootRefcount := (s.rootRefcount.remove id).1, rootMap := (s.rootMap.remove id).1 }, ?_, ?_, ?_,
    rfl, rfl⟩
  · rw [mmanDropRootLogged, hremoved]
  · rw [AvlMap.search_remove_ptr, if_pos rfl]
  · rw [AvlMap.search_remove_ptr, if_pos rfl]

/-- **Importing a root and dropping it are inverse**, for every memory, root and count. -/
theorem import_decrement_inverse {s : Mman} {root : Word} (hroot : PageAligned root)
    (hfresh : s.rootCount (mmanImportRoot s root).2 = 0) :
    (mmanDropRootLogged (importedRoot s root) (mmanImportRoot s root).2).mman =
      mmanDecrementRoot (importedRoot s root) (mmanImportRoot s root).2 ∧
    Undone s root (mmanImportRoot s root).2
      (mmanDropRootLogged (importedRoot s root) (mmanImportRoot s root).2) := by
  obtain ⟨hone, haddr, hkmem, hcount⟩ := importedRoot_spec hfresh
  refine ⟨mmanDropRootLogged_mman hone, ?_⟩
  generalize (mmanImportRoot s root).2 = id at *
  generalize importedRoot s root = s₁ at *
  obtain ⟨s₂, hs₂, hmap, href, hkmem₂, hcount₂⟩ := mmanDropRootLogged_spec haddr
  have hstart : Undoing s.phys s.kmem s₁.pageCount
      (fun p => (s.pageCount p + if root = p then 1 else 0) +
        sumBelow walked (refTo allHeld p) (entries s.phys) 4 root) ⟨s₂, []⟩ := by
    refine ⟨fun p => (congrFun hcount₂ p).trans (hcount p), fun p => (hcount p).ge,
      fun X i _ _ _ => ?_, List.nodup_nil, fun p => ?_, hkmem₂.trans hkmem, trivial⟩
    · exact congrFun (congrArg Kmem.phys (hkmem₂.trans hkmem)) _
    · rw [← hcount p]
      exact ⟨fun hmem => (nomatch hmem), fun hp => absurd hp.2 hp.1⟩
  have hend := ((removeHelper_undoes (f := fun p => s.pageCount p + if root = p then 1 else 0) 3
    hroot (by simp) hstart).decrement hroot)
  have hsame : SameRoots s₂ (mmanDropRootLogged s₁ id).mman := by
    rw [hs₂, decrementPageLogged_mman, removeHelperLogged_mman]
    exact (sameRoots_removeHelper 3 root s₂).trans (sameRoots_decrementPage _ root)
  rw [← hs₂] at hend
  generalize mmanDropRootLogged s₁ id = S at hend hsame ⊢
  refine ⟨hend.counts, hsame.rootMap ▸ hmap, hsame.rootRefcount ▸ href, hend.nodup, fun p => ?_,
    hend.kmem, hend.reads⟩
  rw [hend.unused, hcount, Visited, visitedBelow_iff]
  by_cases hp : root = p
  · simp [hp]
  · have hne : p ≠ root := Ne.symm hp
    simp only [if_neg hp, hne, false_or]
    omega

/-- A manager that counts nothing. -/
def noRoots : Mman := ⟨⟨fun _ => 0x3007, 0, []⟩, 0, .empty, .empty, .empty, 0x1008, 0, []⟩

theorem noRoots_rootCount (id : Nat) : noRoots.rootCount id = 0 := rfl

/-- Every entry of every table leads to the root itself. -/
theorem import_decrement_inverse_of_cycle :
    Undone noRoots 0x3000 (mmanImportRoot noRoots 0x3000).2
      (mmanDropRootLogged (importedRoot noRoots 0x3000) (mmanImportRoot noRoots 0x3000).2) :=
  (import_decrement_inverse (by rw [PageAligned]; decide) (noRoots_rootCount _)).2

end Refk
