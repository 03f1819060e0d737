import Refk.Klib.Create
import Refk.Lib.Forest

/-!
# References to pages

The tables under a set of roots as a forest, the way the memory manager walks it: four
levels, 512 entries to a table, without the entry of a root that maps physical memory. A
page is referred to by the entries that point to it, level-3 entries and table entries alike,
and by being a root; a table that can be reached in two ways counts twice, with everything
below it.

`loose` are level-3 entries that hold no reference, whatever they point to. `Layout` is what
an allocator and the tables under it need of each other, and the lemmas below say how each of
the writes the kernel makes changes the references.
-/

namespace Refk

open Lib

/-- The page an entry points to. -/
abbrev frameOf (entry : Word) : Word := entry &&& kmemFrameMask

/-- The address of a table's entry. -/
def slotAddr (table : Word) (i : Nat) : Word := table + BitVec.ofNat 64 i * 8

/-- A root has four levels, and its entry 384 is not walked. -/
def walked : Shape Word Nat Word where
  target := frameOf
  slots n := (List.range 512).filter fun i => ¬ (n = 4 ∧ i = 384)
  nodup _ := List.nodup_range.filter _

/-- The present entries of a table. -/
def entries (m : Phys) : Graph Word Nat Word := fun t i =>
  if Present (m (slotAddr t i)) then some (m (slotAddr t i)) else none

/-- The entries that refer to `p`. -/
def refTo (loose : Word → Bool) (p : Word) : Weight Word Nat Word := fun n t i e =>
  if frameOf e = p ∧ ¬ (n = 0 ∧ loose (slotAddr t i)) then 1 else 0

/-- **The references to a page**: entries that point to it, and roots. -/
def references (loose : Word → Bool) (m : Phys) (R : List Word) (p : Word) : Nat :=
  R.count p + total walked (refTo loose p) (entries m) 4 R

/-- How often a page is met as a table or a root. -/
def tablesMet (m : Phys) (R : List Word) (t : Word) : Nat := met walked (entries m) 4 R t

/-- The entries that are not as the kernel makes them: above level 3 one with the page-size
    bit, or with bit 63, which is no part of a frame but of what `kmem_paging_addr` follows; or
    one that refers to page `0`. -/
def illFormed (loose : Word → Bool) : Weight Word Nat Word := fun n t i e =>
  if (1 ≤ n → e &&& pageMask = frameOf e ∧ (n ≤ 2 → e &&& 0x80 = 0)) ∧
      (¬ (n = 0 ∧ loose (slotAddr t i)) → frameOf e ≠ 0) then 0 else 1

/-! ## Slots -/

theorem mem_slots {n i : Nat} : i ∈ walked.slots n ↔ i < 512 ∧ ¬ (n = 4 ∧ i = 384) := by
  simp only [walked, List.mem_filter, List.mem_range, decide_eq_true_eq]

theorem lt_of_mem_slots {n i : Nat} (h : i ∈ walked.slots n) : i < 512 := (mem_slots.mp h).1

theorem cell_eq_slotAddr (t va : Word) (d : Nat) : cell t va d = slotAddr t (pagingIndex va d).toNat := by
  rw [cell, slotAddr, BitVec.ofNat_toNat, BitVec.setWidth_eq]

theorem slotAddr_eq_cell {i : Nat} (hi : i < 512) (d : Nat) (t : Word) :
    ∃ va, (pagingIndex va d).toNat = i ∧ slotAddr t i = cell t va d := by
  obtain ⟨va, hva⟩ := exists_pagingIndex hi d
  have hi' : (pagingIndex va d).toNat = i := by
    rw [hva, BitVec.toNat_ofNat]
    omega
  exact ⟨va, hi', by rw [cell_eq_slotAddr, hi']⟩

theorem slotAddr_inj {t t' : Word} {i j : Nat} (ht : PageAligned t) (ht' : PageAligned t')
    (hi : i < 512) (hj : j < 512) : slotAddr t i = slotAddr t' j ↔ t = t' ∧ i = j := by
  obtain ⟨va, rfl, hva⟩ := slotAddr_eq_cell hi 0 t
  obtain ⟨va', rfl, hva'⟩ := slotAddr_eq_cell hj 0 t'
  rw [hva, hva', cell_inj ht ht', BitVec.toNat_inj]

theorem slotAddr_zero (t : Word) : slotAddr t 0 = t := by simp [slotAddr]

theorem slotAddr_eq_page {t p : Word} {i : Nat} (ht : PageAligned t) (hp : PageAligned p)
    (hi : i < 512) (h : slotAddr t i = p) : t = p := by
  rw [← slotAddr_zero p, slotAddr_inj ht hp hi (by omega)] at h
  exact h.1

theorem entries_some {m : Phys} {t e : Word} {i : Nat} :
    entries m t i = some e ↔ Present (m (slotAddr t i)) ∧ m (slotAddr t i) = e := by
  simp [entries]

theorem entries_none {m : Phys} {t : Word} {i : Nat} :
    entries m t i = none ↔ ¬ Present (m (slotAddr t i)) := by
  simp [entries]

theorem entries_congr {m m' : Phys} {t : Word} {i : Nat}
    (h : m' (slotAddr t i) = m (slotAddr t i)) : entries m' t i = entries m t i := by
  simp only [entries, h]

/-! ## What is met -/

section
variable {m m' : Phys} {R : List Word} {loose loose' : Word → Bool} {w w' : Weight Word Nat Word}
  {root va t p q : Word} {d : Nat}

theorem refTo_congr {n i : Nat} {e : Word} (h : loose' (slotAddr t i) = loose (slotAddr t i)) :
    refTo loose' p n t i e = refTo loose p n t i e := by simp only [refTo, h]

theorem illFormed_congr {n i : Nat} {e : Word} (h : loose' (slotAddr t i) = loose (slotAddr t i)) :
    illFormed loose' n t i e = illFormed loose n t i e := by simp only [illFormed, h]

theorem illFormed_eq_zero {n i : Nat} {e : Word} : illFormed loose n t i e = 0 ↔
    (1 ≤ n → e &&& pageMask = frameOf e ∧ (n ≤ 2 → e &&& 0x80 = 0)) ∧
      (¬ (n = 0 ∧ loose (slotAddr t i)) → frameOf e ≠ 0) := by
  rw [illFormed, ite_eq_left_iff]
  exact ⟨fun h => by_contra fun hn => absurd (h hn) Nat.one_ne_zero, fun h hn => absurd h hn⟩

theorem isFrame_of_met (hR : ∀ r ∈ R, IsFrame r) (h : tablesMet m R t ≠ 0) : IsFrame t := by
  by_contra hnot
  refine h ?_
  have hzero : total walked (edgesTo walked t) (entries m) 4 R = 0 := by
    refine List.sum_eq_zero_iff.mpr fun x hx => ?_
    obtain ⟨r, -, rfl⟩ := List.mem_map.mp hx
    refine sumBelow_weightless fun n t' i e => if_neg fun hh => hnot ?_
    rw [← hh.2]
    exact isFrame_and e
  rw [tablesMet, met_eq, hzero, List.count_eq_zero.mpr fun hmem => hnot (hR t hmem)]

/-- A table is a reference to it. -/
theorem tablesMet_le_references : tablesMet m R p ≤ references loose m R p := by
  rw [tablesMet, met_eq, references]
  refine Nat.add_le_add_left (List.sum_le_sum fun r _ => ?_) _
  refine sumBelow_mono fun n t i e => ?_
  simp only [edgesTo, refTo]
  split_ifs with h h'
  · exact le_rfl
  · exact absurd ⟨h.2, fun hn => by omega⟩ h'
  · exact Nat.zero_le _
  · exact le_rfl

/-- `m'` has the entries of `m`, but for those in the page `p`. -/
def AgreeOff (p : Word) (m m' : Phys) : Prop :=
  ∀ t i, IsFrame t → t ≠ p → i < 512 → m' (slotAddr t i) = m (slotAddr t i)

/-- Writes to a page that is not met are not noticed. -/
theorem AgreeOff.total_eq (h : AgreeOff p m m') (hR : ∀ r ∈ R, IsFrame r)
    (hp : tablesMet m R p = 0) : total walked w (entries m') 4 R = total walked w (entries m) 4 R := by
  refine total_congr fun X hX k j hj => ⟨entries_congr ?_, fun _ _ _ => rfl⟩
  refine h X j (isFrame_of_met hR hX) ?_ (lt_of_mem_slots hj)
  rintro rfl
  exact hX hp

theorem AgreeOff.references_eq (h : AgreeOff p m m') (hR : ∀ r ∈ R, IsFrame r)
    (hp : tablesMet m R p = 0) : references loose m' R q = references loose m R q := by
  rw [references, references, h.total_eq hR hp]

theorem AgreeOff.tablesMet_eq (h : AgreeOff p m m') (hR : ∀ r ∈ R, IsFrame r)
    (hp : tablesMet m R p = 0) : tablesMet m' R t = tablesMet m R t := by
  rw [tablesMet, tablesMet, met_eq, met_eq, h.total_eq hR hp]

theorem agreeOff_update {v : Word} (hp : PageAligned p) : AgreeOff p m (Function.update m p v) := by
  intro t i ht hne hi
  exact Function.update_of_ne (fun h => hne (slotAddr_eq_page ht.aligned hp hi h)) _ _

/-- The slots of the walk for `va`, root first. -/
def indices (va : Word) (d : Nat) : List Nat := (List.range d).map fun k => (pagingIndex va k).toNat

theorem pagingIndex_mem_slots {n : Nat} (h : n = 4 → pagingIndex va d ≠ 384) :
    (pagingIndex va d).toNat ∈ walked.slots n := by
  refine mem_slots.mpr ⟨pagingIndex_lt va d, fun hh => h hh.1 ?_⟩
  rw [← BitVec.toNat_inj, hh.2]
  rfl

/-- **Walks are paths**, where everything is well formed. -/
theorem tableAt_path (hsane : total walked (illFormed loose) (entries m) 4 R = 0) (hr : root ∈ R)
    (hva : pagingIndex va 0 ≠ 384) (h : tableAt m root va d = some t) :
    Path walked (entries m) 4 root (indices va d) (4 - d) t := by
  induction d generalizing t with
  | zero =>
    obtain rfl : root = t := Option.some.inj h
    exact .here _ _
  | succ d ih =>
    obtain ⟨t₀, ht₀, hpres, hn, rfl⟩ := tableAt_succ_iff.mp h
    have hd : d < 3 := by
      by_contra hge
      exact hn (.inl (by omega))
    have hpath := ih ht₀
    have hmem : (pagingIndex va d).toNat ∈ walked.slots (3 - d + 1) :=
      pagingIndex_mem_slots fun h4 => (show d = 0 by omega) ▸ hva
    have hentry : entries m t₀ (pagingIndex va d).toNat = some (m (cell t₀ va d)) :=
      entries_some.mpr (by rw [← cell_eq_slotAddr]; exact ⟨hpres, rfl⟩)
    rw [show 4 - d = 3 - d + 1 by omega] at hpath
    -- nothing ill-formed is below the root, so the frame is what the walk follows
    have hzero : sumBelow walked (illFormed loose) (entries m) (3 - d + 1) t₀ = 0 :=
      Nat.eq_zero_of_le_zero ((hpath.sumBelow_le.trans (sumBelow_le_total hr)).trans hsane.le)
    have hwell := (sumBelow_succ_eq_zero.mp hzero _ hmem _ hentry).1
    have hframe : m (cell t₀ va d) &&& pageMask = frameOf (m (cell t₀ va d)) :=
      ((illFormed_eq_zero.mp hwell).1 (by omega)).1
    rw [hframe, show 4 - (d + 1) = 3 - d by omega, indices, List.range_succ, List.map_append]
    exact hpath.snoc hmem hentry (by omega)

theorem met_of_tableAt (hsane : total walked (illFormed loose) (entries m) 4 R = 0) (hr : root ∈ R)
    (hva : pagingIndex va 0 ≠ 384) (h : tableAt m root va d = some t) : tablesMet m R t ≠ 0 := by
  have := (tableAt_path hsane hr hva h).visits_pos
  have := visits_le_met (S := walked) (g := entries m) (h := 4) (T := t) hr
  unfold tablesMet
  omega

/-- Writes to a page that is not met disturb no walk. -/
theorem AgreeOff.tableAt_eq (h : AgreeOff p m m') (hR : ∀ r ∈ R, IsFrame r)
    (hsane : total walked (illFormed loose) (entries m) 4 R = 0) (hp : tablesMet m R p = 0)
    (hr : root ∈ R) (hva : pagingIndex va 0 ≠ 384) :
    (∀ d, tableAt m' root va d = tableAt m root va d) ∧
      ∀ d t, tableAt m root va d = some t → m' (cell t va d) = m (cell t va d) := by
  have hread : ∀ d t, tableAt m root va d = some t → m' (cell t va d) = m (cell t va d) := by
    intro d t ht
    have hmet := met_of_tableAt hsane hr hva ht
    rw [cell_eq_slotAddr]
    refine h t _ (isFrame_of_met hR hmet) ?_ (pagingIndex_lt va d)
    rintro rfl
    exact hmet hp
  exact ⟨fun d => tableAt_congr fun k _ t ht => hread k t ht, hread⟩

/-- **Two walks that lead to a table that is met once are one walk.** -/
theorem tableAt_unique {root' va' : Word} {d' : Nat}
    (hsane : total walked (illFormed loose) (entries m) 4 R = 0) (hr : root ∈ R) (hr' : root' ∈ R)
    (hva : pagingIndex va 0 ≠ 384) (hva' : pagingIndex va' 0 ≠ 384)
    (h : tableAt m root va d = some t) (h' : tableAt m root' va' d' = some t)
    (hone : tablesMet m R t = 1) : root = root' ∧ d = d' ∧ SamePrefix d va va' := by
  obtain ⟨rfl, hidx, -⟩ := (tableAt_path hsane hr hva h).unique_met hr hr'
    (tableAt_path hsane hr' hva' h') hone.le
  obtain rfl : d = d' := by simpa [indices] using congrArg List.length hidx
  refine ⟨rfl, rfl, fun k hk => ?_⟩
  have hk' := congrArg (fun l : List Nat => l[k]?) hidx
  simpa [indices, List.getElem?_map, List.getElem?_range hk, BitVec.toNat_inj] using hk'

/-- A walk in well-formed tables meets no large page. -/
theorem not_isPage_of_sane (hsane : total walked (illFormed loose) (entries m) 4 R = 0)
    (hr : root ∈ R) (hva : pagingIndex va 0 ≠ 384) (hd : d < 3) (h : tableAt m root va d = some t)
    (hpres : Present (m (cell t va d))) : ¬ IsPage d (m (cell t va d)) := by
  have hpath := tableAt_path hsane hr hva h
  have hmem : (pagingIndex va d).toNat ∈ walked.slots (3 - d + 1) :=
    pagingIndex_mem_slots fun h4 => (show d = 0 by omega) ▸ hva
  have hentry : entries m t (pagingIndex va d).toNat = some (m (cell t va d)) :=
    entries_some.mpr (by rw [← cell_eq_slotAddr]; exact ⟨hpres, rfl⟩)
  rw [show 4 - d = 3 - d + 1 by omega] at hpath
  have hzero : sumBelow walked (illFormed loose) (entries m) (3 - d + 1) t = 0 :=
    Nat.eq_zero_of_le_zero ((hpath.sumBelow_le.trans (sumBelow_le_total hr)).trans hsane.le)
  have hwell := (sumBelow_succ_eq_zero.mp hzero _ hmem _ hentry).1
  rintro (hge | ⟨hd₁, hbit⟩)
  · omega
  · exact hbit (((illFormed_eq_zero.mp hwell).1 (by omega)).2 (by omega))

end

end Refk
