import Refk.Scheduler.MmanExact

/-!
# Changing flags

`mman_protect` puts new flags on the pages of a range that are mapped, and leaves it at that: the
frames stay where they are, and so do the pages of the range that are not mapped. Flags without the
present bit take a page away for good, as `mman_unmap` then finds nothing there, and the page is
never let go of.
-/

namespace Refk

open Lib

/-- The entry that `mman_protect` makes of another. -/
def protectedEntry (flags entry : Word) : Word := (entry &&& kmemFrameMask) ||| flags

/-- What the page translates to then. -/
def protectedMapping (flags entry : Word) : Option Word :=
  if Present (protectedEntry flags entry) then some (protectedEntry flags entry) else none

/-- The write of `mman_protect`. -/
def protectWrite (flags : Word) (s : Mman) (eaddr entry : Word) : Mman :=
  s.write eaddr (protectedEntry flags entry)

/-- A last-level entry for one of the first `n` pages of a range. -/
def LeafCell (m : Phys) (root address : Word) (n : Nat) (a : Word) : Prop :=
  ∃ j < n, ∃ t, tableAt m root (nthPage address j) 3 = some t ∧ a = cell t (nthPage address j) 3

section
variable {s s' : Mman} {R : Set Word} {id : Nat} {root address size va a flags : Word}
  {V : Set Word} {n n' : Nat} {m : Phys}

theorem mapping_eq_of_translate {m m' : Phys} {r : Word}
    (h : translate m' r va = translate m r va) : mapping m' r va = mapping m r va := by
  rw [mapping, mapping, h]

theorem LeafCell.mono (h : LeafCell m root address n a) (hn : n ≤ n') :
    LeafCell m root address n' a := by
  obtain ⟨j, hj, t, ht, ha⟩ := h
  exact ⟨j, by omega, t, ht, ha⟩

/-- **One page** -/
theorem protectPage_spec (htab : Tables s.phys R root V) (hva : va ∈ V) (flags : Word) :
    Tables (onEntry root (protectWrite flags) s va).phys R root V ∧
    (∀ r ∈ R, ∀ va' d, tableAt (onEntry root (protectWrite flags) s va).phys r va' d =
      tableAt s.phys r va' d) ∧
    mapping (onEntry root (protectWrite flags) s va).phys root va =
      (mapping s.phys root va).bind (protectedMapping flags) ∧
    (∀ r ∈ R, ∀ va', ¬ (r = root ∧ SamePrefix 4 va' va) →
      translate (onEntry root (protectWrite flags) s va).phys r va' = translate s.phys r va') ∧
    (∀ a, (∀ t, tableAt s.phys root va 3 = some t → a ≠ cell t va 3) →
      (onEntry root (protectWrite flags) s va).phys a = s.phys a) ∧
    ∃ m, onEntry root (protectWrite flags) s va = { s with kmem := { s.kmem with phys := m } } := by
  have haddr := htab.kmemPagingAddr hva le_rfl
  unfold onEntry
  cases ht : tableAt s.phys root va 3 with
  | none =>
    rw [ht, Option.map_none] at haddr
    simp only [haddr]
    have hnone : mapping s.phys root va = none := by
      rw [mapping, htab.translate_of_incomplete hva ht]
      rfl
    exact ⟨htab, fun _ _ _ _ => trivial, by rw [hnone]; rfl, fun _ _ _ _ => trivial,
      fun _ _ => trivial, s.kmem.phys, rfl⟩
  | some t =>
    rw [ht, Option.map_some] at haddr
    simp only [haddr, phyRead64]
    by_cases hpres : Present (s.phys (cell t va 3))
    · rw [if_pos hpres, mapping_of_table ht hpres, Option.bind_some]
      generalize hentry : s.phys (cell t va 3) = entry at hpres
      obtain ⟨htab', htables, hothers⟩ := leaf_step (protectWrite flags s (cell t va 3) entry).kmem
        htab hva ht rfl
      have hread : (protectWrite flags s (cell t va 3) entry).phys (cell t va 3) =
          protectedEntry flags entry := Function.update_self ..
      have ht' := (htables root htab.root_mem va 3).trans ht
      refine ⟨htab', htables, ?_, hothers, fun a ha => ?_, _, rfl⟩
      · rw [protectedMapping]
        split_ifs with hp
        · have hmap := mapping_of_table ht' (by
            change Present ((protectWrite flags s (cell t va 3) entry).phys (cell t va 3))
            rwa [hread])
          exact hmap.trans (congrArg some hread)
        · have hnone := translate_of_absent ht' (by
            change ¬ Present ((protectWrite flags s (cell t va 3) entry).phys (cell t va 3))
            rwa [hread])
          rw [mapping]
          exact congrArg (Option.bind · List.getLast?) hnone
      · exact Function.update_of_ne (ha t rfl) ..
    · have hnone : mapping s.phys root va = none := by
        rw [mapping, translate_of_absent ht hpres]
        rfl
      rw [if_neg hpres, hnone]
      exact ⟨htab, fun _ _ _ _ => rfl, rfl, fun _ _ _ _ => rfl, fun _ _ => rfl, s.kmem.phys, rfl⟩

/-- **`mman_protect` changes the flags of the range, and nothing else**: every page of the range
    that was mapped has the new flags on the frame it had, or is gone if they say so; the others
    translate as before, in every root; and of the whole state no more than the last-level entries
    of the range has changed, neither a reference count nor the free list. -/
theorem mman_protect_exact (h : Target s R id root address size) (flags : Word) :
    (mmanProtect s id address size flags).2 = 0 ∧
    (∀ j < size.toNat / 0x1000,
      mapping (mmanProtect s id address size flags).1.phys root (nthPage address j) =
        (mapping s.phys root (nthPage address j)).bind (protectedMapping flags)) ∧
    SameOutside R root address (size.toNat / 0x1000) s.phys
      (mmanProtect s id address size flags).1.phys ∧
    (∀ a, ¬ LeafCell s.phys root address (size.toNat / 0x1000) a →
      (mmanProtect s id address size flags).1.phys a = s.phys a) ∧
    ∃ m, (mmanProtect s id address size flags).1 = { s with kmem := { s.kmem with phys := m } } := by
  have hrun : mmanProtect s id address size flags =
      (forPages size (fun s off => onEntry root (protectWrite flags) s (address + off)) s, 0) := by
    simp only [mmanProtect, onEntries, h.known, h.root_ne_zero, h.address_aligned, h.size_aligned,
      if_false, ne_eq, not_true]
    rfl
  rw [hrun]
  obtain ⟨-, -, hmapped, hsame, hmemory, hstate⟩ := forPages_rule size
    (fun s off => onEntry root (protectWrite flags) s (address + off)) s
    (fun i s' => Tables s'.phys R root (pagesOf address size) ∧
      (∀ r ∈ R, ∀ va d, tableAt s'.phys r va d = tableAt s.phys r va d) ∧
      (∀ j < i, mapping s'.phys root (nthPage address j) =
        (mapping s.phys root (nthPage address j)).bind (protectedMapping flags)) ∧
      SameOutside R root address i s.phys s'.phys ∧
      (∀ a, ¬ LeafCell s.phys root address i a → s'.phys a = s.phys a) ∧
      ∃ m, s' = { s with kmem := { s.kmem with phys := m } })
    (fun _ => True)
    ⟨h.tables, fun _ _ _ _ => rfl, fun j hj => absurd hj (by omega), fun _ _ _ _ => rfl,
      fun _ _ => rfl, s.kmem.phys, rfl⟩
    (fun _ _ _ => trivial)
    (by
      rintro i s' hi ⟨htab, htables, hmapped, hsame, hmemory, m, hstate⟩ -
      have hmem : nthPage address i ∈ pagesOf address size := mem_pagesOf hi
      obtain ⟨htab', htables', hmap', hothers', hmemory', m', hstate'⟩ :=
        protectPage_spec htab hmem flags
      refine ⟨htab', fun r hr va d => (htables' r hr va d).trans (htables r hr va d), ?_, ?_, ?_,
        m', ?_⟩
      · intro j hj
        rcases Nat.lt_succ_iff_lt_or_eq.mp hj with hlt | rfl
        · rw [← hmapped j hlt]
          apply mapping_eq_of_translate
          apply hothers' root htab.root_mem
          intro hh
          exact absurd (h.distinct j (by omega) i hi hh.2) (by omega)
        · -- no earlier page of the range is this one
          have hpage : mapping s'.phys root (nthPage address j) =
              mapping s.phys root (nthPage address j) := by
            apply mapping_eq_of_translate
            apply hsame root htab.root_mem
            intro _ j' hj' hpre
            exact absurd (h.distinct j hi j' (by omega) hpre) (by omega)
          rw [← hpage]
          exact hmap'
      · intro r hr va hnot
        refine (hothers' r hr va fun hh => hnot hh.1 i (by omega) hh.2).trans ?_
        exact hsame r hr va fun hrr j hj => hnot hrr j (by omega)
      · intro a ha
        refine (hmemory' a fun t ht heq => ha ⟨i, by omega, t, ?_, heq⟩).trans ?_
        · rw [← htables root htab.root_mem]
          exact ht
        · exact hmemory a fun hcell => ha (hcell.mono (by omega))
      · rw [hstate] at hstate' ⊢
        exact hstate')
    trivial
  exact ⟨rfl, hmapped, hsame, hmemory, hstate⟩

end

/-! ## An instance -/

/-- The walks from the second of the two roots are those for its first page. -/
theorem twoRoots_samePrefix {va t : Word} {d : Nat} (h : tableAt twoRoots 0x40000 va d = some t) :
    SamePrefix d va 0 := by
  intro k hk
  obtain ⟨t₀, h₀, hpres, -⟩ := tableAt_above h hk
  have hal := tableAt_aligned (by rfl) h₀
  have hcell := twoRoots_cell hal hpres
  exact ((cell_inj hal hal).mp (hcell.trans (cell_zero t₀ k).symm)).2

theorem twoRoots_second_target :
    Target twoRootsMman {0x20000, 0x40000} 0x1001 0x40000 0 0x1000 where
  known := by rfl
  root_ne_zero := by decide
  address_aligned := by decide
  size_aligned := by decide
  no_wrap := by decide
  tables := by
    have hzero : ∀ va ∈ pagesOf 0 0x1000, va = 0 := by
      rintro va ⟨i, hi, rfl⟩
      obtain rfl : i = 0 := by
        have : i < 1 := hi
        omega
      rfl
    refine ⟨by rintro r (rfl | rfl) <;> rfl, .inr rfl, ?_, ?_⟩
    · intro va hva d t ht r hr va' d' ht'
      obtain rfl := hzero va hva
      rcases twoRoots_tableAt (.inr rfl) ht with ⟨h, -, -⟩ | ⟨-, rfl⟩
      · exact absurd h (by decide)
      · have hd := tableAt_le_three ht
        have hd' := tableAt_le_three ht'
        rcases twoRoots_tableAt hr ht' with ⟨rfl, -, h⟩ | ⟨rfl, h⟩
        · interval_cases d <;> exact absurd h (by decide)
        · obtain rfl : d = d' := by
            interval_cases d <;> interval_cases d' <;> first | rfl | exact absurd h (by decide)
          exact ⟨rfl, rfl, twoRoots_samePrefix ht'⟩
    · intro va _ d hd t ht hpres
      rw [twoRoots_cell (tableAt_aligned (by rfl) ht) hpres]
      rcases twoRoots_tableAt (.inr rfl) ht with ⟨h, -, -⟩ | ⟨-, rfl⟩
      · exact absurd h (by decide)
      · interval_cases d <;> decide

/-- The second root's page, made read-only. -/
theorem mman_protect_exact_of_twoRoots :
    mapping twoRoots 0x40000 (nthPage 0 0) = some 0x8000000000044003 ∧
    mapping (mmanProtect twoRootsMman 0x1001 0 0x1000 0x8000000000000001).1.phys 0x40000
      (nthPage 0 0) = some 0x8000000000044001 := by
  obtain ⟨-, hmapped, -⟩ := mman_protect_exact twoRoots_second_target 0x8000000000000001
  have hmap : mapping twoRoots 0x40000 (nthPage 0 0) = some 0x8000000000044003 := by decide
  refine ⟨hmap, (hmapped 0 (by decide)).trans ?_⟩
  have hold : mapping twoRootsMman.phys 0x40000 (nthPage 0 0) = some 0x8000000000044003 := hmap
  rw [hold, Option.bind_some]
  decide

end Refk
