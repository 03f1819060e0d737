import Refk.Klib.CreateRoot
import Refk.Scheduler.MmanFrame
import Refk.Scheduler.MmanRoots

/-!
# Every root counts

`mman_import_root` and `mman_make_root` add a root to those whose references are counted, and
`mman_decrement_root` takes the last user's root away again: `Counted` holds before and after,
for the roots there are then. What only the dead root referred to is back on the free list.
-/

namespace Refk

open Lib

section
variable {s s' : Mman} {loose : Word → Bool} {R L : List Word} {slack : Word → Nat} {K : Set Word}
  {root : Word}

theorem references_cons {m : Phys} {q : Word} : references loose m (root :: R) q =
    references loose m R q +
      ((if root = q then 1 else 0) + sumBelow walked (refTo loose q) (entries m) 4 root) := by
  rw [references, references, total_cons, List.count_cons]
  simp only [beq_iff_eq]
  omega

/-- The same memory, counts and free list, and other roots' books. -/
theorem Counted.of_same (h : Counted s loose R slack K L) (hkmem : s'.kmem = s.kmem)
    (hcount : s'.pageRefcount = s.pageRefcount) (hfreed : s'.pagefreeCalls = s.pagefreeCalls) :
    Counted s' loose R slack K L where
  layout := hkmem ▸ h.layout
  tally := by
    have hphys : s'.phys = s.phys := congrArg Kmem.phys hkmem
    rw [hphys]
    exact h.tally.of_same hcount hfreed fun p hp => hkmem ▸ hp
  slack_free := h.slack_free
  slack_zero := h.slack_zero

/-! ## Registering -/

/-- Nothing below the root is loose. -/
def Held (loose : Word → Bool) (m : Phys) (root : Word) : Prop :=
  ∀ q, sumBelow walked (refTo loose q) (entries m) 4 root =
    sumBelow walked (refTo allHeld q) (entries m) 4 root

theorem held_allHeld (m : Phys) : Held allHeld m root := fun _ => rfl

/-- **`import_root`** adds a root whose tables are in order. -/
theorem importRoot_counts (h : Tally s (fun p => references loose s.phys R p + slack p) K)
    (hlay : Layout s.kmem loose (root :: R) L) (hheld : Held loose s.phys root)
    (hfree : ∀ p ∈ L, slack p = 0) (hzero : slack 0 = 0)
    (hK : ∀ p, references loose s.phys (root :: R) p ≠ 0 → p ∈ s.kmem.handedOut ∨ p ∈ K) :
    Counted (importRoot s root).1 loose (root :: R) slack K L := by
  have hroot : root ∈ s.kmem.handedOut ∨ root ∈ K := hK root (by
    rw [references_cons, if_pos rfl]
    omega)
  obtain ⟨htally, hkmem, -⟩ := importHelper_counts (t := root) 3 (h.increment hroot) fun p hp =>
    hK p (by
      rw [references_cons, hheld]
      have hp : sumBelow walked (refTo allHeld p) (entries s.phys) 4 root ≠ 0 := hp
      omega)
  obtain ⟨m, hm, heq⟩ := importRoot_eq s root
  rw [← hm] at htally hkmem
  rw [heq]
  have hcounted : Counted m loose (root :: R) slack K L := by
    refine ⟨hkmem ▸ hlay, htally.congr fun q => ?_, hfree, hzero⟩
    rw [show m.phys = s.phys from congrArg Kmem.phys hkmem, references_cons, hheld]
    change _ = references loose s.phys R q + slack q + (if root = q then 1 else 0) +
      sumBelow walked (refTo allHeld q) (entries s.phys) 4 root
    omega
  -- the books of what is registered are no part of it
  exact hcounted.of_same rfl rfl rfl

/-! ## Giving up -/

/-- What has been done once `root` is taken down. -/
structure TakenDown (R : List Word) (root : Word) (K : Set Word) (L : List Word)
    (slack : Word → Nat) (loose : Word → Bool) (s s' : Mman) : Prop where
  counted : ∃ L', Counted s' loose (R.erase root) slack K L' ∧ L ⊆ L' ∧
    ∀ p, s.pageCount p ≠ 0 → s'.pageCount p = 0 → p ∈ L'
  untouched : Untouched (R.erase root) s.phys s'.phys
  handed : s'.kmem.handedOut = s.kmem.handedOut

/-- Nothing loose below the root is counted elsewhere. -/
def Untangled (s : Mman) (loose : Word → Bool) (root : Word) : Prop :=
  sumBelow walked (tangled loose s.pageCount) (entries s.phys) 4 root = 0

theorem untangled_allHeld (s : Mman) : Untangled s allHeld root :=
  sumBelow_weightless fun n t i e => by simp [tangled, allHeld]

theorem references_erase {m : Phys} {q : Word} (hr : root ∈ R) : references loose m R q =
    references loose m (R.erase root) q +
      ((if root = q then 1 else 0) + sumBelow walked (refTo loose q) (entries m) 4 root) := by
  rw [← references_cons]
  have hperm := List.perm_cons_erase hr
  rw [references, references, hperm.count_eq, total, total, (hperm.map _).sum_eq]

/-- The root's references are what there is to take down. -/
theorem Counted.dismantling (h : Counted s loose R slack K L) (hr : root ∈ R) :
    Dismantling s.phys s.pageCount K (fun p =>
      references loose s.phys (R.erase root) p + slack p + (if root = p then 1 else 0) +
        sumBelow walked (refTo loose p) (entries s.phys) 4 root) L s := by
  have hsplit : ∀ p, references loose s.phys (R.erase root) p + slack p +
      (if root = p then 1 else 0) + sumBelow walked (refTo loose p) (entries s.phys) 4 root =
      references loose s.phys R p + slack p := fun p => by
    rw [references_erase hr]
    omega
  refine ⟨h.tally.congr hsplit, fun _ _ _ _ _ => rfl, h.layout.pages, h.layout.frames,
    h.layout.nodup, fun p hp => ?_, fun p hp hp' => ?_, fun p => ?_⟩
  · rw [hsplit, Mman.phys, h.layout.unused p hp, h.slack_free p hp]
  · rw [hsplit, ← h.tally.counts] at hp'
    exact absurd hp' hp
  · rw [hsplit, h.tally.counts]

/-- Once they are, the other roots' are left. -/
theorem Dismantling.takenDown {L' : List Word} (h : Counted s loose R slack K L) (hr : root ∈ R)
    (hD : Dismantling s.phys s.pageCount K
      (fun p => references loose s.phys (R.erase root) p + slack p) L' s')
    (hsub : L ⊆ L') (hout : s'.kmem.handedOut = s.kmem.handedOut) :
    TakenDown R root K L slack loose s s' := by
  have hR : ∀ r ∈ R.erase root, IsFrame r := fun r hr' =>
    h.layout.isFrame r (List.mem_of_mem_erase hr')
  -- the tables of the other roots are counted, so they are as they were
  have hun : Untouched (R.erase root) s.phys s'.phys := by
    intro X i hX hi
    refine hD.agree X i (isFrame_of_met hR hX) hi ?_
    have hle : tablesMet s.phys (R.erase root) X ≤ references loose s.phys (R.erase root) X :=
      tablesMet_le_references
    omega
  refine ⟨⟨L', ⟨⟨hD.pages, hD.frames, hD.nodup, fun p hp => ?_,
    fun r hr' => h.layout.roots r (List.mem_of_mem_erase hr'), ?_⟩, hD.tally.congr fun q => ?_,
    fun p hp => (Nat.add_eq_zero_iff.mp (hD.unused p hp)).2, h.slack_zero⟩,
    hsub, fun p hp hp' => hD.gone p hp ?_⟩, hun, hout⟩
  · change references loose s'.phys (R.erase root) p = 0
    rw [hun.references_eq]
    exact (Nat.add_eq_zero_iff.mp (hD.unused p hp)).1
  · change total walked (illFormed loose) (entries s'.phys) 4 (R.erase root) = 0
    have hle : total walked (illFormed loose) (entries s.phys) 4 (R.erase root) ≤
        total walked (illFormed loose) (entries s.phys) 4 R := by
      rw [total, total, ((List.perm_cons_erase hr).map _).sum_eq, List.map_cons, List.sum_cons]
      omega
    rw [hun.total_eq]
    exact Nat.eq_zero_of_le_zero (hle.trans h.layout.sane.le)
  · rw [hun.references_eq]
  · rwa [← hD.tally.counts]

/-- **`remove_helper` and the root's own page.** -/
theorem Counted.takeDown (h : Counted s loose R slack K L) (hr : root ∈ R)
    (hunt : Untangled s loose root) :
    TakenDown R root K L slack loose s (decrementPage (removeHelper 3 root s) root) := by
  have hroot : IsFrame root := h.layout.isFrame root hr
  have hsane : sumBelow walked (illFormed loose) (entries s.phys) 4 root = 0 :=
    Nat.eq_zero_of_le_zero ((sumBelow_le_total hr).trans h.layout.sane.le)
  obtain ⟨L₁, hD₁, hsub₁, -, hout₁⟩ := removeHelper_counts 3 hroot (by simp)
    (h.dismantling hr) hsane hunt
  obtain ⟨L₂, hD₂, hsub₂, -, hout₂⟩ := hD₁.decrement hroot (h.layout.roots root hr).2
  exact hD₂.takenDown h hr (List.Subset.trans hsub₁ hsub₂) (hout₂.trans hout₁)

/-- **`mman_decrement_root`**, for the last user of a root. -/
theorem mmanDecrementRoot_counts {id : Nat} (h : Counted s loose R slack K L)
    (hcount : s.rootCount id = 1) (haddr : s.rootAddress id = root) (hr : root ∈ R)
    (hunt : Untangled s loose root) :
    TakenDown R root K L slack loose s (mmanDecrementRoot s id) := by
  obtain ⟨s₁, hsame, hrun⟩ : ∃ s₁ : Mman, (s₁.kmem = s.kmem ∧ s₁.pageRefcount = s.pageRefcount ∧
      s₁.pagefreeCalls = s.pagefreeCalls) ∧
      mmanDecrementRoot s id = decrementPage (removeHelper 3 root s₁) root := by
    have hremoved : (s.rootMap.remove id).2.getD 0 = root := by
      rw [← haddr, Mman.rootAddress, AvlMap.remove_snd]
    refine ⟨{ s with rootRefcount := (s.rootRefcount.remove id).1, rootMap := (s.rootMap.remove id).1 },
      ⟨rfl, rfl, rfl⟩, ?_⟩
    simp only [mmanDecrementRoot, hcount, Nat.one_ne_zero, if_false, gt_iff_lt, Nat.lt_irrefl,
      hremoved]
  obtain ⟨hkmem, hpages, hfreed⟩ := hsame
  have hphys : s₁.phys = s.phys := congrArg Kmem.phys hkmem
  have hcountEq : s₁.pageCount = s.pageCount := funext fun p => by
    rw [Mman.pageCount, Mman.pageCount, hpages]
  have hdown := (h.of_same hkmem hpages hfreed).takeDown hr (by
    rw [Untangled, hphys, hcountEq]
    exact hunt)
  rw [hrun]
  refine ⟨?_, ?_, hdown.handed.trans (by rw [hkmem])⟩
  · rw [← hcountEq]
    exact hdown.counted
  · rw [← hphys]
    exact hdown.untouched

end

end Refk
