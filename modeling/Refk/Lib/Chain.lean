import Mathlib.Tactic

/-!
# Lists threaded through their own cells

An intrusive free list keeps each cell's successor *in* the cell, so the list is a property of
a memory: `Chain next nil h L` says that following `next` from the head `h` visits exactly the
cells of `L` and then stops at `nil`. The cells of `L` are the only part of the memory the
list depends on (`Chain.congr`), and pushing and popping are one write and one read.
-/

namespace Refk.Lib

variable {α : Type} {next next' : α → α} {nil h p : α} {L L' : List α}

/-- `L` is what `next` visits from `h` before it reaches `nil`. -/
def Chain (next : α → α) (nil : α) : α → List α → Prop
  | h, [] => h = nil
  | h, p :: L => h = p ∧ p ≠ nil ∧ Chain next nil (next p) L

namespace Chain

@[simp] theorem chain_nil : Chain next nil h [] ↔ h = nil := Iff.rfl

@[simp] theorem chain_cons :
    Chain next nil h (p :: L) ↔ h = p ∧ p ≠ nil ∧ Chain next nil (next p) L := Iff.rfl

theorem nil_not_mem (hc : Chain next nil h L) : nil ∉ L := by
  induction L generalizing h with
  | nil => simp
  | cons p L ih =>
    obtain ⟨-, hp, hL⟩ := hc
    simp [hp.symm, ih hL]

/-- The head decides the list. -/
theorem unique (hc : Chain next nil h L) (hc' : Chain next nil h L') : L = L' := by
  induction L generalizing h L' with
  | nil =>
    cases L' with
    | nil => rfl
    | cons p L' => exact absurd (hc'.1.symm.trans hc) hc'.2.1
  | cons p L ih =>
    obtain ⟨rfl, hp, hL⟩ := hc
    cases L' with
    | nil => exact absurd hc' hp
    | cons q L' =>
      obtain ⟨rfl, -, hL'⟩ := hc'
      rw [ih hL hL']

/-- **The frame rule**: only the successors of the listed cells matter. -/
theorem congr (hc : Chain next nil h L) (heq : ∀ p ∈ L, next' p = next p) :
    Chain next' nil h L := by
  induction L generalizing h with
  | nil => exact hc
  | cons p L ih =>
    obtain ⟨rfl, hp, hL⟩ := hc
    refine ⟨rfl, hp, ?_⟩
    rw [heq h (by simp)]
    exact ih hL fun q hq => heq q (by simp [hq])

/-- Writing outside the list. -/
theorem update_of_not_mem [DecidableEq α] {v : α} (hc : Chain next nil h L) (hp : p ∉ L) :
    Chain (Function.update next p v) nil h L :=
  hc.congr fun _ hq => Function.update_of_ne (ne_of_mem_of_not_mem hq hp) _ _

theorem push [DecidableEq α] (hc : Chain next nil h L) (hp : p ≠ nil) (hmem : p ∉ L) :
    Chain (Function.update next p h) nil p (p :: L) :=
  ⟨rfl, hp, by rw [Function.update_self]; exact hc.update_of_not_mem hmem⟩

theorem head_eq (hc : Chain next nil h (p :: L)) : h = p := hc.1

theorem pop (hc : Chain next nil h (p :: L)) : Chain next nil (next h) L := by
  obtain ⟨rfl, -, hL⟩ := hc
  exact hL

/-- The list is empty exactly when its head says so. -/
theorem eq_nil_iff (hc : Chain next nil h L) : L = [] ↔ h = nil := by
  cases L with
  | nil => simpa using hc
  | cons p L => simp [hc.1, hc.2.1]

end Chain

end Refk.Lib
