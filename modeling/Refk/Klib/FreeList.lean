import Refk.Klib.Kmem
import Refk.Lib.Chain
import Refk.Lib.Run

/-!
# The page-frame allocator

The list of free pages is the chain from `*last_unused` through the first word of each page.
`kmem_unuse` pushes and `kmem_getpage` pops it, as long as there is something to pop: on the
empty list `kmem_getpage` returns `0`, which its callers take for a page like any other, and
makes the word at physical address `0` the rest of the list. `kmem_no_double_allocation` says
that this is the only thing that can go wrong, and exactly when it does.
-/

namespace Refk

open Lib

/-- The page an address is in. -/
def pageOf (address : Word) : Word := address &&& pageMask

/-- The free pages, in the order `kmem_getpage` will hand them out. -/
def FreePages (k : Kmem) (L : List Word) : Prop := Chain (phyRead64 k.phys) 0 k.lastUnused L

theorem FreePages.unuse {k : Kmem} {L : List Word} {page : Word} (h : FreePages k L)
    (h₀ : page ≠ 0) (hp : page ∉ L) : FreePages (kmemUnuse k page) (page :: L) :=
  Chain.push h h₀ hp

theorem FreePages.getpage_eq {k : Kmem} {L : List Word} {page : Word}
    (h : FreePages k (page :: L)) : (kmemGetpage k).2 = page := h.head_eq

theorem FreePages.getpage {k : Kmem} {L : List Word} {page : Word}
    (h : FreePages k (page :: L)) : FreePages (kmemGetpage k).1 L := h.pop

theorem FreePages.write {k : Kmem} {L : List Word} {address value : Word} (h : FreePages k L)
    (hp : address ∉ L) : FreePages { k with phys := phyWrite64 k.phys address value } L :=
  Chain.update_of_not_mem h hp

theorem FreePages.eq_nil_iff {k : Kmem} {L : List Word} (h : FreePages k L) :
    L = [] ↔ k.lastUnused = 0 := Chain.eq_nil_iff h

/-! ## The allocator and its callers -/

/-- What the callers do: release a page, ask for one, or write to a word. -/
inductive KmemOp where
  | unuse (page : Word)
  | getpage
  | write (address value : Word)

/-- The allocator's state beside the ledger of the pages released and not taken since. -/
structure KmemWorld where
  kmem : Kmem
  released : List Word

/-- One call; the output is the value `kmem_getpage` returns. -/
def kmemStep (w : KmemWorld) : KmemOp → Option (KmemWorld × Option Word)
  | .unuse page => some (⟨kmemUnuse w.kmem page, page :: w.released⟩, none)
  | .getpage =>
    let (k, ret) := kmemGetpage w.kmem
    some (⟨k, w.released.erase ret⟩, some ret)
  | .write address value =>
    some (⟨{ w.kmem with phys := phyWrite64 w.kmem.phys address value }, w.released⟩, none)

/-- The callers' side: a page is released by whoever has it, so it is not free already, and
    page `0` is nobody's (`kmem_init` starts above it); nobody writes into a free page. -/
def CallerOk (w : KmemWorld) : KmemOp → Prop
  | .unuse page => pageOf page = page ∧ page ≠ 0 ∧ page ∉ w.released
  | .getpage => True
  | .write address _ => pageOf address ∉ w.released ∧ address &&& 0x7 = 0

instance (w : KmemWorld) : DecidablePred (CallerOk w)
  | .unuse _ => inferInstanceAs (Decidable (_ ∧ _))
  | .getpage => inferInstanceAs (Decidable True)
  | .write _ _ => inferInstanceAs (Decidable (_ ∧ _))

/-- Nothing released yet, whatever the memory holds. -/
def kmemStart (phys : Phys) : KmemWorld := ⟨⟨phys, 0, []⟩, []⟩

/-- A step that allocates nothing twice: a value returned as a page was released and not
    taken since, and afterwards the pages still to be had are those of the ledger. -/
def NoDoubleAllocation (w : KmemWorld) (_ : KmemOp) (ret : Option Word) (w' : KmemWorld) : Prop :=
  (∀ page ∈ ret, page ∈ w.released) ∧ ∃ L, FreePages w'.kmem L ∧ L.Perm w'.released

/-- If the step asks for a page, the list has one. -/
def FindsPage (w : KmemWorld) (op : KmemOp) (_ : Option Word) (_ : KmemWorld) : Prop :=
  op = .getpage → w.kmem.lastUnused ≠ 0

/-- The ledger is the list. -/
structure KmemInv (w : KmemWorld) : Prop where
  free : FreePages w.kmem w.released
  aligned : ∀ page ∈ w.released, pageOf page = page
  nodup : w.released.Nodup

/-- A step that keeps the ledger and returns a released page, if any, allocates nothing
    twice. -/
theorem KmemInv.noDoubleAllocation {w w' : KmemWorld} {op : KmemOp} {ret : Option Word}
    (h : KmemInv w') (hret : ∀ page ∈ ret, page ∈ w.released) :
    NoDoubleAllocation w op ret w' :=
  ⟨hret, w'.released, h.free, List.Perm.refl _⟩

theorem KmemInv.unuse {w w' : KmemWorld} {page : Word} {ret : Option Word} (h : KmemInv w)
    (hok : CallerOk w (.unuse page)) (hstep : kmemStep w (.unuse page) = some (w', ret)) :
    KmemInv w' ∧ ret = none := by
  obtain ⟨hal, h₀, hmem⟩ := hok
  obtain ⟨rfl, rfl⟩ : _ = w' ∧ _ = ret := by simpa [kmemStep] using hstep
  refine ⟨⟨h.free.unuse h₀ hmem, ?_, List.nodup_cons.mpr ⟨hmem, h.nodup⟩⟩, rfl⟩
  simpa [hal] using h.aligned

theorem KmemInv.write {w w' : KmemWorld} {address value : Word} {ret : Option Word}
    (h : KmemInv w) (hok : CallerOk w (.write address value))
    (hstep : kmemStep w (.write address value) = some (w', ret)) :
    KmemInv w' ∧ ret = none := by
  obtain ⟨hpage, -⟩ := hok
  obtain ⟨rfl, rfl⟩ : _ = w' ∧ _ = ret := by simpa [kmemStep] using hstep
  have hmem : address ∉ w.released := fun hmem => hpage (by rwa [h.aligned _ hmem])
  exact ⟨⟨h.free.write hmem, h.aligned, h.nodup⟩, rfl⟩

theorem KmemInv.getpage {w w' : KmemWorld} {page : Word} {L : List Word} {ret : Option Word}
    (h : KmemInv w) (hrel : w.released = page :: L)
    (hstep : kmemStep w .getpage = some (w', ret)) : KmemInv w' ∧ ret = some page := by
  have hfree : FreePages w.kmem (page :: L) := hrel ▸ h.free
  have hpage := hfree.getpage_eq
  obtain ⟨rfl, rfl⟩ : _ = w' ∧ _ = ret := by simpa [kmemStep] using hstep
  refine ⟨⟨?_, ?_, h.nodup.erase _⟩, by rw [hpage]⟩
  · simpa [hrel, hpage] using hfree.getpage
  · intro p hp
    exact h.aligned p (List.mem_of_mem_erase hp)

theorem kmem_step {w w' : KmemWorld} {op : KmemOp} {ret : Option Word} (h : KmemInv w)
    (hok : CallerOk w op) (hstep : kmemStep w op = some (w', ret)) :
    (NoDoubleAllocation w op ret w' ↔ FindsPage w op ret w') ∧
    (FindsPage w op ret w' → KmemInv w') := by
  cases op with
  | unuse page =>
    obtain ⟨hinv, rfl⟩ := h.unuse hok hstep
    have hgood : NoDoubleAllocation w (.unuse page) none w' :=
      hinv.noDoubleAllocation (by simp)
    exact ⟨⟨fun _ => by simp [FindsPage], fun _ => hgood⟩, fun _ => hinv⟩
  | write address value =>
    obtain ⟨hinv, rfl⟩ := h.write hok hstep
    have hgood : NoDoubleAllocation w (.write address value) none w' :=
      hinv.noDoubleAllocation (by simp)
    exact ⟨⟨fun _ => by simp [FindsPage], fun _ => hgood⟩, fun _ => hinv⟩
  | getpage =>
    cases hrel : w.released with
    | cons page L =>
      obtain ⟨hinv, rfl⟩ := h.getpage hrel hstep
      have hne : w.kmem.lastUnused ≠ 0 := by
        intro h₀
        simpa [hrel] using h.free.eq_nil_iff.mpr h₀
      have hgood : NoDoubleAllocation w .getpage (some page) w' :=
        hinv.noDoubleAllocation (by simp [hrel])
      exact ⟨⟨fun _ _ => hne, fun _ => hgood⟩, fun _ => hinv⟩
    | nil =>
      -- the list is empty: `0` is returned, and nothing was there to be taken
      have h₀ : w.kmem.lastUnused = 0 := h.free.eq_nil_iff.mp hrel
      have hno : ¬ FindsPage w .getpage ret w' := fun hfinds => hfinds rfl h₀
      refine ⟨⟨fun hgood => ?_, fun hfinds => absurd hfinds hno⟩, fun hfinds => absurd hfinds hno⟩
      obtain ⟨-, rfl⟩ : _ = w' ∧ _ = ret := by simpa [kmemStep] using hstep
      have hmem := hgood.1 _ rfl
      simp [hrel] at hmem

/-- **The allocator allocates nothing twice exactly as long as it is never asked for a page
    when it has none.** -/
theorem kmem_no_double_allocation {phys : Phys} {tr : List (KmemOp × Option Word)}
    {w : KmemWorld} (h : RunIf kmemStep CallerOk (kmemStart phys) tr w) :
    Along kmemStep (kmemStart phys) NoDoubleAllocation tr ↔
      Along kmemStep (kmemStart phys) FindsPage tr :=
  Along.iff_of_invariant KmemInv
    ⟨rfl, by simp [kmemStart], by simp [kmemStart]⟩
    (fun _ _ _ _ hinv hok hstep => kmem_step hinv hok hstep) h

/-- Two pages released and both asked for, over a memory of zeros. -/
theorem kmem_no_double_allocation_of_two : ∃ w,
    RunIf kmemStep CallerOk (kmemStart fun _ => 0)
      [(.unuse 0x30000, none), (.unuse 0x31000, none), (.getpage, some 0x31000),
        (.getpage, some 0x30000)] w ∧
    Along kmemStep (kmemStart fun _ => 0) NoDoubleAllocation
      [(.unuse 0x30000, none), (.unuse 0x31000, none), (.getpage, some 0x31000),
        (.getpage, some 0x30000)] := by
  have h₀ : RunIf kmemStep CallerOk (kmemStart fun _ => 0) [] _ := .start
  have h₁ := RunIf.of_exec kmemStep CallerOk (kmemStart fun _ => 0) [.unuse 0x30000] rfl
  have h₂ := RunIf.of_exec kmemStep CallerOk (kmemStart fun _ => 0)
    [.unuse 0x30000, .unuse 0x31000] rfl
  have h₃ := RunIf.of_exec kmemStep CallerOk (kmemStart fun _ => 0)
    [.unuse 0x30000, .unuse 0x31000, .getpage] rfl
  have h₄ := RunIf.of_exec kmemStep CallerOk (kmemStart fun _ => 0)
    [.unuse 0x30000, .unuse 0x31000, .getpage, .getpage] rfl
  refine ⟨_, h₄, (kmem_no_double_allocation h₄).mpr ?_⟩
  refine (Along.snoc_iff h₃ rfl).mpr ⟨(Along.snoc_iff h₂ rfl).mpr ⟨?_, ?_⟩, ?_⟩
  · refine (Along.snoc_iff h₁ rfl).mpr ⟨(Along.snoc_iff h₀ rfl).mpr ⟨Along.nil, ?_⟩, ?_⟩
    · exact fun h => nomatch h
    · exact fun h => nomatch h
  · exact fun _ => by decide
  · exact fun _ => by decide

/-- **A request with nothing released** is answered with page `0`, and the word at physical
    address `0` is the list from then on. -/
theorem kmem_hands_out_unreleased : ∃ w,
    RunIf kmemStep CallerOk (kmemStart fun _ => 0x5000) [(.getpage, some 0)] w ∧
    w.kmem.lastUnused = 0x5000 ∧
    ¬ Along kmemStep (kmemStart fun _ => 0x5000) NoDoubleAllocation [(.getpage, some 0)] := by
  have h₀ : RunIf kmemStep CallerOk (kmemStart fun _ => 0x5000) [] _ := .start
  have h₁ := RunIf.of_exec kmemStep CallerOk (kmemStart fun _ => 0x5000) [.getpage] rfl
  refine ⟨_, h₁, rfl, fun hall => ?_⟩
  have hlast := ((Along.snoc_iff h₀ rfl).mp hall).2.1 _ rfl
  simp [kmemStart] at hlast

end Refk
