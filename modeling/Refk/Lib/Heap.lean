import Mathlib.Tactic

/-!
# A heap of blocks

`malloc` and `free` as a program sees them: a heap has live blocks at addresses other than
`0`, an allocation answers an address that no live block has, and a block that has been freed
is gone. Which address an allocation answers is the allocator's business; it may be one that
was freed before, so a stale pointer can become valid again.

Reading a freed block, or freeing one twice, has no result.
-/

namespace Refk.Lib

/-- The choice of an address, given those in use. -/
structure Allocator where
  pick : List Nat → Nat
  fresh : ∀ live, pick live ∉ live
  ne_zero : ∀ live, pick live ≠ 0

/-- The allocator that takes the address after all others. -/
def Allocator.bump : Allocator where
  pick live := live.sum + 1
  fresh _ h := absurd (List.le_sum_of_mem h) (Nat.not_succ_le_self _)
  ne_zero _ := Nat.succ_ne_zero _

/-- The live blocks, by address. -/
structure Heap (β : Type) where
  allocator : Allocator
  cells : Nat → Option β
  live : List Nat
  mem_live : ∀ p b, cells p = some b → p ∈ live
  null : cells 0 = none

namespace Heap

variable {β : Type} {h h' : Heap β} {p q : Nat} {b b' : β}

def empty (allocator : Allocator) : Heap β where
  allocator := allocator
  cells _ := none
  live := []
  mem_live _ _ hp := by cases hp
  null := rfl

/-- The address of the next allocation. -/
def fresh (h : Heap β) : Nat := h.allocator.pick h.live

theorem fresh_ne_zero (h : Heap β) : h.fresh ≠ 0 := h.allocator.ne_zero h.live

theorem cells_fresh (h : Heap β) : h.cells h.fresh = none := by
  cases hc : h.cells h.fresh with
  | none => rfl
  | some b => exact absurd (h.mem_live _ b hc) (h.allocator.fresh h.live)

/-- `malloc`, and the block's first contents. -/
def alloc (h : Heap β) (b : β) : Heap β where
  allocator := h.allocator
  cells := Function.update h.cells h.fresh (some b)
  live := h.fresh :: h.live
  mem_live p b' hp := by
    by_cases heq : p = h.fresh
    · exact heq ▸ List.mem_cons_self
    · rw [Function.update_of_ne heq] at hp
      exact List.mem_cons_of_mem _ (h.mem_live p b' hp)
  null := by rw [Function.update_of_ne h.fresh_ne_zero.symm, h.null]

/-- `free`; the null pointer is allowed. -/
def free (h : Heap β) (p : Nat) : Option (Heap β) :=
  if p = 0 then some h
  else
    match h.cells p with
    | none => none
    | some _ => some {
        allocator := h.allocator
        cells := Function.update h.cells p none
        live := h.live.filter (· ≠ p)
        mem_live := fun q b hq => by
          by_cases heq : q = p
          · rw [heq, Function.update_self] at hq
            cases hq
          · rw [Function.update_of_ne heq] at hq
            exact List.mem_filter.mpr ⟨h.mem_live q b hq, by simpa using heq⟩
        null := by
          by_cases heq : 0 = p
          · rw [heq, Function.update_self]
          · rw [Function.update_of_ne heq, h.null] }

/-- New contents for a live block. -/
def put (h : Heap β) (p : Nat) (b : β) : Option (Heap β) :=
  match hc : h.cells p with
  | none => none
  | some b₀ => some {
      allocator := h.allocator
      cells := Function.update h.cells p (some b)
      live := h.live
      mem_live := fun q b' hq => by
        by_cases heq : q = p
        · exact heq ▸ h.mem_live p b₀ hc
        · rw [Function.update_of_ne heq] at hq
          exact h.mem_live q b' hq
      null := by
        have hne : 0 ≠ p := fun heq => by
          rw [← heq, h.null] at hc
          cases hc
        rw [Function.update_of_ne hne, h.null] }

theorem ne_zero_of_cells (hc : h.cells p = some b) : p ≠ 0 := by
  rintro rfl
  rw [h.null] at hc
  cases hc

theorem fresh_ne (hc : h.cells p = some b) : h.fresh ≠ p := fun heq => by
  rw [← heq, h.cells_fresh] at hc
  cases hc

@[simp] theorem cells_alloc_fresh : (h.alloc b).cells h.fresh = some b := Function.update_self ..

/-- An allocation leaves the live blocks alone. -/
theorem cells_alloc_of_some (hc : h.cells p = some b') : (h.alloc b).cells p = some b' := by
  rw [← hc]
  exact Function.update_of_ne (fresh_ne hc).symm _ _

theorem cells_alloc_of_ne (hne : p ≠ h.fresh) : (h.alloc b).cells p = h.cells p :=
  Function.update_of_ne hne _ _

@[simp] theorem free_null : h.free 0 = some h := if_pos rfl

/-- A live block can be freed. -/
theorem free_of_some (hc : h.cells p = some b) :
    ∃ h', h.free p = some h' ∧ h'.cells = Function.update h.cells p none ∧
      h'.live = h.live.filter (· ≠ p) ∧ h'.allocator = h.allocator := by
  rw [free, if_neg (ne_zero_of_cells hc), hc]
  exact ⟨_, rfl, rfl, rfl, rfl⟩

/-- **What `free` can do.** -/
theorem free_cases (hf : h.free p = some h') :
    (p = 0 ∧ h' = h) ∨ (∃ b, h.cells p = some b) ∧ h'.cells = Function.update h.cells p none ∧
      h'.live = h.live.filter (· ≠ p) := by
  by_cases hp : p = 0
  · rw [free, if_pos hp] at hf
    exact .inl ⟨hp, (Option.some.inj hf).symm⟩
  · cases hc : h.cells p with
    | none =>
      rw [free, if_neg hp, hc] at hf
      cases hf
    | some b =>
      obtain ⟨h'', hf', hcells, hlive, -⟩ := free_of_some hc
      obtain rfl : h'' = h' := Option.some.inj (hf'.symm.trans hf)
      exact .inr ⟨⟨b, rfl⟩, hcells, hlive⟩

/-- Freeing makes no block live. -/
theorem cells_of_free (hf : h.free p = some h') (hc : h'.cells q = some b) :
    h.cells q = some b := by
  rcases free_cases hf with ⟨-, rfl⟩ | ⟨-, hcells, -⟩
  · exact hc
  · rw [hcells] at hc
    by_cases heq : q = p
    · rw [heq, Function.update_self] at hc
      cases hc
    · rwa [Function.update_of_ne heq] at hc

/-- A live block can be written. -/
theorem put_of_some (b : β) (hc : h.cells p = some b') :
    ∃ h', h.put p b = some h' ∧ h'.cells = Function.update h.cells p (some b) ∧
      h'.live = h.live ∧ h'.allocator = h.allocator := by
  unfold put
  split
  next hnone => rw [hnone] at hc; cases hc
  next => exact ⟨_, rfl, rfl, rfl, rfl⟩

theorem put_cases (hput : h.put p b = some h') :
    (∃ b', h.cells p = some b') ∧ h'.cells = Function.update h.cells p (some b) ∧
      h'.live = h.live := by
  cases hc : h.cells p with
  | none =>
    unfold put at hput
    split at hput
    · cases hput
    next b' hsome => rw [hsome] at hc; cases hc
  | some b' =>
    obtain ⟨h'', hput', hcells, hlive, -⟩ := put_of_some b hc
    obtain rfl : h'' = h' := Option.some.inj (hput'.symm.trans hput)
    exact ⟨⟨b', rfl⟩, hcells, hlive⟩

end Heap

end Refk.Lib
