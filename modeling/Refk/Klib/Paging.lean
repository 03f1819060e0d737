import Refk.Klib.FreeList

/-!
# Page tables in physical memory

The hardware's view of the four-level tables: which table each level of a walk is in, which
entry it reads there, and where an address translates to. A level-3 entry maps a page, and so
does an entry of level 1 or 2 with the page-size bit; the walk of `kmem_paging_addr` knows
only the former, so it is the hardware's walk as long as it meets none of the latter.

The two writes that the kernel makes to its tables are described by what they do to every
walk: `tableAt_link` for a new, empty table and `translate_leaf` for a level-3 entry.
-/

namespace Refk

/-- The present bit. -/
abbrev Present (entry : Word) : Prop := entry &&& 1 ≠ 0

/-- The entry maps a page: it is at the last level, or has the page-size bit. -/
abbrev IsPage (level : Nat) (entry : Word) : Prop := 3 ≤ level ∨ 1 ≤ level ∧ entry &&& 0x80 ≠ 0

/-- Page-aligned, as a property of the number. -/
def PageAligned (a : Word) : Prop := a.toNat % 0x1000 = 0

/-- The entry for `va` in a table of the given level. -/
def cell (table va : Word) (level : Nat) : Word := table + pagingIndex va level * 8

/-- The table that the walk for `va` uses at a level. -/
def tableAt (m : Phys) (root va : Word) : Nat → Option Word
  | 0 => some root
  | level + 1 => do
    let table ← tableAt m root va level
    let entry := m (cell table va level)
    if Present entry ∧ ¬ IsPage level entry then some (entry &&& pageMask) else none

/-- The entry that the walk for `va` reads at a level. -/
def entryAt (m : Phys) (root va : Word) (level : Nat) : Option Word :=
  (tableAt m root va level).map fun table => m (cell table va level)

/-- The entries of a walk that ends at a page at the given level, root first. -/
def pageAt (m : Phys) (root va : Word) (level : Nat) : Option (List Word) := do
  let entry ← entryAt m root va level
  if Present entry ∧ IsPage level entry then
    some ((List.range (level + 1)).filterMap (entryAt m root va))
  else none

/-- **Translation**: the entries the hardware goes through, if it gets to a page. They hold
    the frame, and all the rights. -/
def translate (m : Phys) (root va : Word) : Option (List Word) :=
  (List.range 4).findSome? (pageAt m root va)

/-- The entry that maps `va`. -/
def mapping (m : Phys) (root va : Word) : Option Word :=
  (translate m root va).bind List.getLast?

/-- A walk that meets no larger page, and so is the hardware's. -/
def WalksTables (m : Phys) (root va : Word) : Prop :=
  ∀ d < 3, ∀ t, tableAt m root va d = some t → Present (m (cell t va d)) →
    ¬ IsPage d (m (cell t va d))

/-- The last-level entry for an address, in the walk of `kmem_paging_addr`. -/
def leafEntry (m : Phys) (root va : Word) : Option Word :=
  (kmemPagingAddr m root (va &&& pageMask) 3).map (phyRead64 m)

/-- Two addresses use the same entries down to a level. -/
def SamePrefix (level : Nat) (va va' : Word) : Prop :=
  ∀ k < level, pagingIndex va k = pagingIndex va' k

instance (level : Nat) (va va' : Word) : Decidable (SamePrefix level va va') :=
  inferInstanceAs (Decidable (∀ k < level, pagingIndex va k = pagingIndex va' k))

/-! ## Words -/

theorem and_pageMask (a : Word) : a &&& pageMask = (a >>> 12) <<< 12 := by
  have hbit : ∀ i < 64, pageMask.getLsbD i = decide (12 ≤ i) := by decide
  refine BitVec.eq_of_getLsbD_eq fun i hi => ?_
  rw [BitVec.getLsbD_and, hbit i hi]
  by_cases h : i < 12
  · simp [h, hi]
  · simp [h, hi, show 12 + (i - 12) = i by omega]
    omega

theorem toNat_and_pageMask (a : Word) : (a &&& pageMask).toNat = a.toNat / 0x1000 * 0x1000 := by
  rw [and_pageMask, BitVec.toNat_shiftLeft, BitVec.toNat_ushiftRight, Nat.shiftLeft_eq,
    Nat.shiftRight_eq_div_pow]
  omega

theorem pageAligned_iff {a : Word} : PageAligned a ↔ a &&& pageMask = a := by
  rw [← BitVec.toNat_inj, toNat_and_pageMask, PageAligned]
  omega

theorem pageAligned_and (a : Word) : PageAligned (a &&& pageMask) := by
  rw [PageAligned, toNat_and_pageMask]
  omega

theorem toNat_and_fff (a : Word) : (a &&& 0xfff).toNat = a.toNat % 0x1000 := by
  rw [BitVec.toNat_and]
  exact Nat.and_two_pow_sub_one_eq_mod _ 12

theorem and_fff_eq_zero {a : Word} : a &&& 0xfff = 0 ↔ PageAligned a := by
  rw [← BitVec.toNat_inj, toNat_and_fff]
  rfl

/-- Flags in the low twelve bits do not disturb an aligned address. -/
theorem or_and_mask {p flags mask : Word} (hp : p &&& mask = p) (hf : flags &&& mask = 0) :
    (p ||| flags) &&& mask = p := by
  rw [BitVec.and_or_distrib_right, hp, hf]
  simp

/-- The low bits of an aligned address are clear. -/
theorem PageAligned.or_and {p flags bits : Word} (hp : PageAligned p)
    (hb : pageMask &&& bits = 0) : (p ||| flags) &&& bits = flags &&& bits := by
  rw [BitVec.and_or_distrib_right, ← pageAligned_iff.mp hp, BitVec.and_assoc, hb]
  simp

/-- An address that the flag mask leaves alone: aligned, and below `2^63`. -/
def IsFrame (p : Word) : Prop := p &&& kmemFrameMask = p

theorem isFrame_and (a : Word) : IsFrame (a &&& kmemFrameMask) := by
  rw [IsFrame, BitVec.and_assoc, BitVec.and_self]

theorem IsFrame.aligned {p : Word} (hp : IsFrame p) : PageAligned p := by
  rw [pageAligned_iff, ← hp, BitVec.and_assoc, show kmemFrameMask &&& pageMask = kmemFrameMask by decide]

theorem isFrame_of_lt {p : Word} (hp : PageAligned p) (hlt : p.toNat < 2 ^ 52) :
    IsFrame p := by
  have hbit : ∀ i < 64, kmemFrameMask.getLsbD i = (pageMask.getLsbD i && decide (i < 63)) := by
    decide
  have hp' := pageAligned_iff.mp hp
  refine BitVec.eq_of_getLsbD_eq fun i hi => ?_
  rw [BitVec.getLsbD_and, hbit i hi]
  by_cases h : i < 63
  · have := congrArg (BitVec.getLsbD · i) hp'
    simpa [h] using this
  · have h₀ : p.getLsbD i = false := by
      rw [← BitVec.testBit_toNat]
      exact Nat.testBit_lt_two_pow
        (hlt.trans_le (Nat.pow_le_pow_right (by simp) (by omega)))
    simp [h₀]

/-! ## Cells -/

theorem toNat_pagingIndex (va : Word) (level : Nat) :
    (pagingIndex va level).toNat = va.toNat / 2 ^ (12 + (3 - level) * 9) % 512 := by
  rw [pagingIndex, BitVec.toNat_and, BitVec.toNat_ushiftRight, Nat.shiftRight_eq_div_pow]
  exact Nat.and_two_pow_sub_one_eq_mod _ 9

theorem pagingIndex_lt (va : Word) (level : Nat) : (pagingIndex va level).toNat < 512 := by
  rw [toNat_pagingIndex]
  omega

theorem toNat_cell {table va : Word} {level : Nat} (h : PageAligned table) :
    (cell table va level).toNat = table.toNat + (pagingIndex va level).toNat * 8 := by
  have := pagingIndex_lt va level
  unfold PageAligned at h
  rw [cell]
  bv_omega

/-- **Cells do not overlap**: an entry's address gives its table and its index. -/
theorem cell_inj {t t' va va' : Word} {d d' : Nat} (h : PageAligned t) (h' : PageAligned t') :
    cell t va d = cell t' va' d' ↔ t = t' ∧ pagingIndex va d = pagingIndex va' d' := by
  constructor
  · intro heq
    have hnat := congrArg BitVec.toNat heq
    rw [toNat_cell h, toNat_cell h'] at hnat
    have := pagingIndex_lt va d
    have := pagingIndex_lt va' d'
    unfold PageAligned at h h'
    rw [← BitVec.toNat_inj, ← BitVec.toNat_inj]
    omega
  · rintro ⟨rfl, heq⟩
    rw [cell, cell, heq]

/-- The first word of a page as a cell. -/
theorem cell_zero (t : Word) (d : Nat) : cell t 0 d = t := by
  simp [cell, pagingIndex]

theorem cell_eq_page {t p va : Word} {d : Nat} (h : PageAligned t) (hp : PageAligned p)
    (heq : cell t va d = p) : t = p := by
  rw [← cell_zero p 0] at heq
  exact ((cell_inj h hp).mp heq).1

/-! ## Walks -/

section
variable {m m' : Phys} {root va va' t p c : Word} {d k : Nat}

theorem tableAt_succ_iff : tableAt m root va (d + 1) = some t ↔ ∃ t₀, tableAt m root va d = some t₀ ∧
    Present (m (cell t₀ va d)) ∧ ¬ IsPage d (m (cell t₀ va d)) ∧
    m (cell t₀ va d) &&& pageMask = t := by
  rw [tableAt]
  simp only [Option.bind_eq_bind, Option.bind_eq_some_iff, Option.ite_none_right_eq_some,
    Option.some.injEq, and_assoc]

theorem tableAt_aligned (hr : PageAligned root) (h : tableAt m root va d = some t) :
    PageAligned t := by
  cases d with
  | zero => exact Option.some.inj h ▸ hr
  | succ d =>
    obtain ⟨t₀, -, -, -, rfl⟩ := tableAt_succ_iff.mp h
    exact pageAligned_and _

theorem tableAt_le_three (h : tableAt m root va d = some t) : d ≤ 3 := by
  cases d with
  | zero => omega
  | succ d =>
    obtain ⟨t₀, -, -, hp, -⟩ := tableAt_succ_iff.mp h
    omega

theorem tableAt_of_le (h : tableAt m root va d = some t) (hk : k ≤ d) :
    ∃ t₀, tableAt m root va k = some t₀ := by
  induction d generalizing t with
  | zero => exact ⟨t, Nat.le_zero.mp hk ▸ h⟩
  | succ d ih =>
    rcases Nat.lt_or_ge d k with hlt | hge
    · exact ⟨t, (show k = d + 1 by omega) ▸ h⟩
    · obtain ⟨t₀, h₀, -⟩ := tableAt_succ_iff.mp h
      exact ih h₀ hge

/-- An entry above a table of the walk is present and maps no page. -/
theorem tableAt_above (h : tableAt m root va d = some t) (hk : k < d) :
    ∃ t₀, tableAt m root va k = some t₀ ∧ Present (m (cell t₀ va k)) ∧
      ¬ IsPage k (m (cell t₀ va k)) := by
  obtain ⟨t₁, h₁⟩ := tableAt_of_le h (Nat.succ_le_of_lt hk)
  obtain ⟨t₀, h₀, hp, hn, -⟩ := tableAt_succ_iff.mp h₁
  exact ⟨t₀, h₀, hp, hn⟩

theorem tableAt_samePrefix (h : SamePrefix d va va') :
    tableAt m root va d = tableAt m root va' d := by
  induction d with
  | zero => rfl
  | succ d ih =>
    have hcell : (fun t => cell t va d) = fun t => cell t va' d :=
      funext fun t => by rw [cell, cell, h d (by omega)]
    have hcell' := congrFun hcell
    rw [tableAt, tableAt, ih fun k hk => h k (by omega)]
    simp only [hcell']

/-- A walk depends on the entries it reads. -/
theorem tableAt_congr (h : ∀ k < d, ∀ t, tableAt m root va k = some t →
    m' (cell t va k) = m (cell t va k)) : tableAt m' root va d = tableAt m root va d := by
  induction d with
  | zero => rfl
  | succ d ih =>
    rw [tableAt, tableAt, ih fun k hk => h k (by omega)]
    cases ht : tableAt m root va d with
    | none => rfl
    | some t => simp only [Option.bind_eq_bind, Option.bind_some, h d (by omega) t ht]

theorem entryAt_congr (htab : tableAt m' root va d = tableAt m root va d)
    (h : ∀ t, tableAt m root va d = some t → m' (cell t va d) = m (cell t va d)) :
    entryAt m' root va d = entryAt m root va d := by
  rw [entryAt, entryAt, htab]
  cases ht : tableAt m root va d with
  | none => rfl
  | some t => simp [h t ht]

/-- A translation depends on the entries of the walk, whatever its root and its address are. -/
theorem pageAt_congr {root' : Word} (h : ∀ k ≤ d, entryAt m' root' va' k = entryAt m root va k) :
    pageAt m' root' va' d = pageAt m root va d := by
  have hlist : (List.range (d + 1)).filterMap (entryAt m' root' va') =
      (List.range (d + 1)).filterMap (entryAt m root va) :=
    List.filterMap_congr fun k hk => h k (by simpa [Nat.lt_succ_iff] using hk)
  rw [pageAt, pageAt, h d le_rfl, hlist]

theorem translate_congr {root' : Word}
    (h : ∀ k < 4, entryAt m' root' va' k = entryAt m root va k) :
    translate m' root' va' = translate m root va := by
  have hpage : ∀ d < 4, pageAt m' root' va' d = pageAt m root va d := fun d hd =>
    pageAt_congr fun k hk => h k (by omega)
  simp [translate, List.range_succ, List.findSome?_cons, hpage]

/-- Addresses in one page translate alike. -/
theorem translate_samePrefix (h : SamePrefix 4 va va') :
    translate m root va = translate m root va' := by
  apply translate_congr
  intro k hk
  have htab : tableAt m root va k = tableAt m root va' k :=
    tableAt_samePrefix fun j hj => h j (by omega)
  have hcell : ∀ t, cell t va k = cell t va' k := fun t => by rw [cell, h k hk, cell]
  simp only [entryAt, htab, hcell]

theorem pageAt_eq_none_iff : pageAt m root va d = none ↔
    ∀ e, entryAt m root va d = some e → ¬ (Present e ∧ IsPage d e) := by
  rw [pageAt]
  simp only [Option.bind_eq_bind, Option.bind_eq_none_iff, ite_eq_right_iff]
  exact forall_congr' fun e => forall_congr' fun _ => by simp

theorem translate_eq_none_iff : translate m root va = none ↔
    ∀ d < 4, pageAt m root va d = none := by
  simp [translate, List.findSome?_eq_none_iff]

/-- The kernel's walk is the hardware's, down to the first page it meets. -/
theorem kmemPagingAddr_eq (h : ∀ k < d, ∀ t, tableAt m root va k = some t →
    Present (m (cell t va k)) → ¬ IsPage k (m (cell t va k))) :
    kmemPagingAddr m root va d = (tableAt m root va d).map fun t => cell t va d := by
  induction d with
  | zero => rfl
  | succ d ih =>
    rw [kmemPagingAddr, tableAt, ih fun k hk => h k (by omega)]
    cases ht : tableAt m root va d with
    | none => rfl
    | some t =>
      simp only [Option.map_some, Option.bind_eq_bind, Option.bind_some]
      by_cases hp : Present (m (cell t va d))
      · rw [if_neg hp, if_pos ⟨hp, h d (by omega) t ht hp⟩]
        rfl
      · rw [if_pos (not_not.mp hp), if_neg fun hh => hp hh.1]
        rfl

theorem kmemPagingAddr_of_table (h : tableAt m root va d = some t) :
    kmemPagingAddr m root va d = some (cell t va d) := by
  rw [kmemPagingAddr_eq fun k hk t₀ ht₀ _ => ?_, h, Option.map_some]
  obtain ⟨t₁, ht₁, -, hn⟩ := tableAt_above h hk
  exact Option.some.inj (ht₁.symm.trans ht₀) ▸ hn

/-- A walk that has a level-3 table translates by the entry there. -/
theorem mapping_of_table (h : tableAt m root va 3 = some t) (hp : Present (m (cell t va 3))) :
    mapping m root va = some (m (cell t va 3)) := by
  have habove : ∀ d < 3, pageAt m root va d = none := fun d hd => by
    obtain ⟨t₀, h₀, -, hn⟩ := tableAt_above h hd
    refine pageAt_eq_none_iff.mpr fun e he hh => hn ?_
    rw [entryAt, h₀, Option.map_some, Option.some.injEq] at he
    exact he ▸ hh.2
  have hentry : entryAt m root va 3 = some (m (cell t va 3)) := by simp [entryAt, h]
  have hpage : pageAt m root va 3 = some ((List.range 4).filterMap (entryAt m root va)) := by
    rw [pageAt, hentry]
    simp only [Option.bind_eq_bind, Option.bind_some]
    rw [if_pos ⟨hp, Or.inl le_rfl⟩]
  have htr : translate m root va = some ((List.range 4).filterMap (entryAt m root va)) := by
    simp [translate, List.range_succ, habove, hpage]
  rw [mapping, htr, Option.bind_some, List.range_succ, List.filterMap_append]
  simp [hentry]

/-- A walk that reaches an absent entry translates to nothing. -/
theorem translate_of_absent (h : tableAt m root va d = some t)
    (habs : ¬ Present (m (cell t va d))) : translate m root va = none := by
  refine translate_eq_none_iff.mpr fun k _ => pageAt_eq_none_iff.mpr fun e he hh => ?_
  rw [entryAt, Option.map_eq_some_iff] at he
  obtain ⟨t', ht', rfl⟩ := he
  rcases Nat.lt_trichotomy k d with hlt | rfl | hgt
  · obtain ⟨t₀, h₀, -, hn⟩ := tableAt_above h hlt
    obtain rfl := Option.some.inj (h₀.symm.trans ht')
    exact hn hh.2
  · obtain rfl := Option.some.inj (h.symm.trans ht')
    exact habs hh.1
  · obtain ⟨t₀, h₀, hp, -⟩ := tableAt_above ht' hgt
    obtain rfl := Option.some.inj (h₀.symm.trans h)
    exact habs hp

/-- An incomplete walk that has met no page translates to nothing. -/
theorem WalksTables.translate_of_incomplete (h : WalksTables m root va)
    (hnone : tableAt m root va 3 = none) : translate m root va = none := by
  refine translate_eq_none_iff.mpr fun d hd => pageAt_eq_none_iff.mpr fun e he hh => ?_
  rw [entryAt, Option.map_eq_some_iff] at he
  obtain ⟨t, ht, rfl⟩ := he
  rcases Nat.lt_or_ge d 3 with hlt | hge
  · exact h d hlt t ht hh.1 hh.2
  · obtain rfl : d = 3 := by omega
    rw [hnone] at ht
    cases ht

theorem mapping_table_entry (h : tableAt m root va 3 = some t) {entry : Word}
    (hmap : mapping m root va = some entry) :
    m (cell t va 3) = entry ∧ Present entry := by
  by_cases hp : Present (m (cell t va 3))
  · rw [mapping_of_table h hp, Option.some.injEq] at hmap
    exact ⟨hmap, hmap ▸ hp⟩
  · rw [mapping, translate_of_absent h hp] at hmap
    cases hmap

/-- Memories that agree on the tables of a root agree on its translations. -/
theorem translate_of_agree (h : ∀ k t, tableAt m root va k = some t →
    m' (cell t va k) = m (cell t va k)) :
    (∀ k, tableAt m' root va k = tableAt m root va k) ∧
      translate m' root va = translate m root va := by
  have htab : ∀ k, tableAt m' root va k = tableAt m root va k := fun k =>
    tableAt_congr fun j _ t ht => h j t ht
  exact ⟨htab, translate_congr fun k _ => entryAt_congr (htab k) fun t ht => h k t ht⟩

end

/-! ## Linking a new table -/

/-- `m'` is `m` with the page `p` zeroed and the entry `c` made to point to it. -/
structure Linked (m m' : Phys) (c p : Word) : Prop where
  entry : m' c = p ||| 0x7
  zero : ∀ va d, m' (cell p va d) = 0
  same : ∀ t va d, PageAligned t → t ≠ p → cell t va d ≠ c → m' (cell t va d) = m (cell t va d)

/-- The table a walk uses is used by no other walk from the given roots. -/
def Private (m : Phys) (R : Set Word) (root va : Word) (d : Nat) : Prop :=
  ∀ t, tableAt m root va d = some t → ∀ r ∈ R, ∀ va' d', tableAt m r va' d' = some t →
    r = root ∧ d' = d ∧ SamePrefix d va' va

section
variable {m m' : Phys} {R : Set Word} {root va t p : Word} {d : Nat}

theorem linked_entry_present (hp : PageAligned p) : Present (p ||| 0x7) := by
  rw [Present, hp.or_and (by decide)]
  decide

theorem linked_entry_table (hp : PageAligned p) (hd : d < 3) : ¬ IsPage d (p ||| 0x7) := by
  rintro (h | ⟨-, h⟩)
  · omega
  · rw [hp.or_and (by decide)] at h
    exact h (by decide)

theorem linked_entry_frame (hp : PageAligned p) : (p ||| 0x7) &&& pageMask = p :=
  or_and_mask (pageAligned_iff.mp hp) (by decide)

theorem samePrefix_succ {va' : Word} : SamePrefix (d + 1) va' va ↔
    SamePrefix d va' va ∧ pagingIndex va' d = pagingIndex va d := by
  constructor
  · exact fun h => ⟨fun k hk => h k (by omega), h d (by omega)⟩
  · rintro ⟨h, hd⟩ k hk
    rcases Nat.lt_succ_iff_lt_or_eq.mp hk with hlt | rfl
    · exact h k hlt
    · exact hd

/-- An entry of a walk is the linked one only if the walk comes through it. -/
theorem Linked.same_on_walk (hR : ∀ r ∈ R, PageAligned r) (hroot : root ∈ R)
    (hnew : ∀ r ∈ R, ∀ va d, tableAt m r va d ≠ some p) (ht : tableAt m root va d = some t)
    (hpriv : Private m R root va d) (hm : Linked m m' (cell t va d) p) {r va' t' : Word}
    {k : Nat} (hr : r ∈ R) (ht' : tableAt m r va' k = some t')
    (hnot : ¬ (r = root ∧ k = d ∧ SamePrefix (d + 1) va' va)) :
    m' (cell t' va' k) = m (cell t' va' k) := by
  have hal := tableAt_aligned (hR r hr) ht'
  refine hm.same t' va' k hal (fun h => hnew r hr va' k (h ▸ ht')) fun hcell => hnot ?_
  obtain ⟨rfl, hidx⟩ := (cell_inj hal (tableAt_aligned (hR root hroot) ht)).mp hcell
  obtain ⟨hrr, rfl, hpre⟩ := hpriv t' ht r hr va' k ht'
  exact ⟨hrr, rfl, samePrefix_succ.mpr ⟨hpre, hidx⟩⟩

/-- **What linking does to every walk**: those that come through the linked entry now find the
    empty table below it; no other walk notices. -/
theorem tableAt_link (hR : ∀ r ∈ R, PageAligned r) (hroot : root ∈ R) (hp : PageAligned p)
    (hnew : ∀ r ∈ R, ∀ va d, tableAt m r va d ≠ some p) (hd : d < 3)
    (ht : tableAt m root va d = some t) (habs : ¬ Present (m (cell t va d)))
    (hpriv : Private m R root va d) (hm : Linked m m' (cell t va d) p)
    {r : Word} (hr : r ∈ R) (va' : Word) (d' : Nat) :
    tableAt m' r va' d' =
      if r = root ∧ d' = d + 1 ∧ SamePrefix (d + 1) va' va then some p
      else tableAt m r va' d' := by
  have hsame : ∀ k t', tableAt m r va' k = some t' →
      ¬ (r = root ∧ k = d ∧ SamePrefix (d + 1) va' va) →
      m' (cell t' va' k) = m (cell t' va' k) := fun k t' ht' hnot =>
    hm.same_on_walk hR hroot hnew ht hpriv hr ht' hnot
  by_cases hthrough : r = root ∧ SamePrefix (d + 1) va' va
  · obtain ⟨rfl, hpre⟩ := hthrough
    have habove : ∀ k ≤ d, tableAt m' r va' k = tableAt m r va' k := fun k hk =>
      tableAt_congr fun j hj t' ht' => hsame j t' ht' (by omega)
    have hat : tableAt m' r va' (d + 1) = some p := by
      refine tableAt_succ_iff.mpr ⟨t, ?_, ?_⟩
      · rw [habove d le_rfl, tableAt_samePrefix (samePrefix_succ.mp hpre).1, ht]
      · have hcell : cell t va' d = cell t va d := by
          rw [cell, cell, (samePrefix_succ.mp hpre).2]
        rw [hcell, hm.entry]
        exact ⟨linked_entry_present hp, linked_entry_table hp hd, linked_entry_frame hp⟩
    rcases Nat.lt_trichotomy d' (d + 1) with hlt | rfl | hgt
    · rw [if_neg (by omega), habove d' (by omega)]
    · rw [if_pos ⟨rfl, rfl, hpre⟩, hat]
    · -- below the new table there is nothing, and below the absent entry there was nothing
      have hnone' : ∀ t', tableAt m' r va' d' ≠ some t' := fun t' h => by
        obtain ⟨t₀, h₀, hpr, -⟩ := tableAt_above h hgt
        obtain rfl : p = t₀ := Option.some.inj (hat.symm.trans h₀)
        exact hpr (by rw [hm.zero]; decide)
      have hnone : ∀ t', tableAt m r va' d' ≠ some t' := fun t' h => by
        obtain ⟨t₀, h₀, hpr, -⟩ := tableAt_above h (show d < d' by omega)
        rw [tableAt_samePrefix (samePrefix_succ.mp hpre).1, ht] at h₀
        obtain rfl : t = t₀ := Option.some.inj h₀
        have hcell : cell t va' d = cell t va d := by
          rw [cell, cell, (samePrefix_succ.mp hpre).2]
        exact habs (hcell ▸ hpr)
      rw [if_neg (by omega), Option.eq_none_iff_forall_ne_some.mpr hnone',
        Option.eq_none_iff_forall_ne_some.mpr hnone]
  · rw [if_neg fun h => hthrough ⟨h.1, h.2.2⟩]
    exact tableAt_congr fun k _ t' ht' => hsame k t' ht' fun h => hthrough ⟨h.1, h.2.2⟩

/-- Linking translates nothing that was not translated, and nothing differently. -/
theorem translate_link (hR : ∀ r ∈ R, PageAligned r) (hroot : root ∈ R) (hp : PageAligned p)
    (hnew : ∀ r ∈ R, ∀ va d, tableAt m r va d ≠ some p) (hd : d < 3)
    (ht : tableAt m root va d = some t) (habs : ¬ Present (m (cell t va d)))
    (hpriv : Private m R root va d) (hm : Linked m m' (cell t va d) p)
    {r : Word} (hr : r ∈ R) (va' : Word) : translate m' r va' = translate m r va' := by
  by_cases hthrough : r = root ∧ SamePrefix (d + 1) va' va
  · obtain ⟨rfl, hpre⟩ := hthrough
    have hat := tableAt_link hR hroot hp hnew hd ht habs hpriv hm hr va' (d + 1)
    rw [if_pos ⟨rfl, rfl, hpre⟩] at hat
    have ht' : tableAt m r va' d = some t :=
      (tableAt_samePrefix (samePrefix_succ.mp hpre).1).trans ht
    have hcell : cell t va' d = cell t va d := by rw [cell, cell, (samePrefix_succ.mp hpre).2]
    rw [translate_of_absent hat (by rw [hm.zero]; decide),
      translate_of_absent ht' (hcell ▸ habs)]
  · exact (translate_of_agree fun k t' ht' => hm.same_on_walk hR hroot hnew ht hpriv hr ht'
      fun h => hthrough ⟨h.1, h.2.2⟩).2

/-- **What writing a level-3 entry does**: the tables stay where they are, and only the page
    the entry is for can translate differently. -/
theorem translate_leaf (hR : ∀ r ∈ R, PageAligned r) (hroot : root ∈ R)
    (ht : tableAt m root va 3 = some t) (hpriv : Private m R root va 3) (entry : Word)
    {r : Word} (hr : r ∈ R) (va' : Word) :
    (∀ d, tableAt (Function.update m (cell t va 3) entry) r va' d = tableAt m r va' d) ∧
    (¬ (r = root ∧ SamePrefix 4 va' va) →
      translate (Function.update m (cell t va 3) entry) r va' = translate m r va') := by
  have htal := tableAt_aligned (hR root hroot) ht
  have hsame : ∀ k t', tableAt m r va' k = some t' → ¬ (r = root ∧ k = 3 ∧ SamePrefix 4 va' va) →
      Function.update m (cell t va 3) entry (cell t' va' k) = m (cell t' va' k) := by
    intro k t' ht' hnot
    refine Function.update_of_ne (fun hcell => hnot ?_) _ _
    obtain ⟨rfl, hidx⟩ := (cell_inj (tableAt_aligned (hR r hr) ht') htal).mp hcell
    obtain ⟨hrr, rfl, hpre⟩ := hpriv t' ht r hr va' k ht'
    exact ⟨hrr, rfl, samePrefix_succ.mpr ⟨hpre, hidx⟩⟩
  refine ⟨fun d => ?_, fun hnot => ?_⟩
  · rcases Nat.lt_or_ge d 4 with hlt | hge
    · exact tableAt_congr fun k hk t' ht' => hsame k t' ht' (by omega)
    · -- there are no tables below level 3
      have hnone : ∀ m' : Phys, tableAt m' r va' d = none := fun m' =>
        Option.eq_none_iff_forall_ne_some.mpr fun t' h => by
          have := tableAt_le_three h
          omega
      rw [hnone, hnone]
  · exact (translate_of_agree fun k t' ht' => hsame k t' ht' fun h => hnot ⟨h.1, h.2.2⟩).2

end

/-! ## Pages of a range -/

/-- The page of the 48-bit address space an address is in. -/
def pageNumber (va : Word) : Nat := va.toNat / 0x1000 % 2 ^ 36

/-- Two addresses use the same entries exactly when they are in the same page. -/
theorem samePrefix_four_iff {va va' : Word} : SamePrefix 4 va va' ↔ pageNumber va = pageNumber va' := by
  have hidx : ∀ k, pagingIndex va k = pagingIndex va' k ↔
      va.toNat / 2 ^ (12 + (3 - k) * 9) % 512 = va'.toNat / 2 ^ (12 + (3 - k) * 9) % 512 := by
    intro k
    rw [← toNat_pagingIndex, ← toNat_pagingIndex, BitVec.toNat_inj]
  have hfour : SamePrefix 4 va va' ↔ pagingIndex va 0 = pagingIndex va' 0 ∧
      pagingIndex va 1 = pagingIndex va' 1 ∧ pagingIndex va 2 = pagingIndex va' 2 ∧
      pagingIndex va 3 = pagingIndex va' 3 := by
    refine ⟨fun h => ⟨h 0 (by omega), h 1 (by omega), h 2 (by omega), h 3 (by omega)⟩, ?_⟩
    rintro ⟨h₀, h₁, h₂, h₃⟩ k hk
    interval_cases k <;> assumption
  rw [hfour, hidx, hidx, hidx, hidx]
  unfold pageNumber
  norm_num
  omega

/-- The address of the page `i` places after `address`. -/
def nthPage (address : Word) (i : Nat) : Word := address + BitVec.ofNat 64 i * 0x1000

theorem pageNumber_nthPage (address : Word) (i : Nat) :
    pageNumber (nthPage address i) = (pageNumber address + i) % 2 ^ 36 := by
  unfold pageNumber nthPage
  rw [BitVec.toNat_add, BitVec.toNat_mul, BitVec.toNat_ofNat,
    show (0x1000 : Word).toNat = 0x1000 from rfl]
  norm_num
  omega

/-! ## Last-level entries -/

section
variable {m m' : Phys} {root va entry : Word}

theorem samePrefix_pageMask (va : Word) : SamePrefix 4 (va &&& pageMask) va := by
  rw [samePrefix_four_iff, pageNumber, pageNumber, toNat_and_pageMask]
  omega

/-- Where a walk meets tables only, its last-level entry is the hardware's. -/
theorem WalksTables.leafEntry (hwalk : WalksTables m root va) :
    leafEntry m root va = (tableAt m root va 3).map fun t => m (cell t va 3) := by
  obtain ⟨habove, hidx⟩ := samePrefix_succ.mp (samePrefix_pageMask va)
  have hcell : ∀ d < 4, ∀ t, cell t (va &&& pageMask) d = cell t va d := by
    intro d hd t
    rw [cell, samePrefix_pageMask va d hd, cell]
  have htab : ∀ d ≤ 3, tableAt m root (va &&& pageMask) d = tableAt m root va d :=
    fun d hd => tableAt_samePrefix fun k hk => habove k (by omega)
  rw [Refk.leafEntry, kmemPagingAddr_eq, htab 3 le_rfl, Option.map_map]
  · refine congrArg (fun f => Option.map f _) (funext fun t => ?_)
    rw [Function.comp_apply, hcell 3 (by omega)]
  · intro k hk t ht
    rw [htab k (by omega)] at ht
    rw [hcell k (by omega)]
    exact hwalk k hk t ht

/-- The entry is the one that maps the address, if it is present. -/
theorem WalksTables.mapping_iff (hwalk : WalksTables m root va) :
    mapping m root va = some entry ↔ Refk.leafEntry m root va = some entry ∧ Present entry := by
  rw [hwalk.leafEntry]
  cases ht : tableAt m root va 3 with
  | none =>
    rw [mapping, hwalk.translate_of_incomplete ht]
    simp
  | some t =>
    rw [Option.map_some, Option.some.injEq]
    constructor
    · exact mapping_table_entry ht
    · rintro ⟨rfl, hp⟩
      exact mapping_of_table ht hp

theorem mapping_of_leafEntry (hwalk : WalksTables m root va)
    (hleaf : Refk.leafEntry m root va = some entry) (hp : Present entry) :
    mapping m root va = some entry := hwalk.mapping_iff.mpr ⟨hleaf, hp⟩

/-- Memories that agree on a walk agree on its last-level entry. -/
theorem WalksTables.congr (hwalk : WalksTables m root va)
    (h : ∀ d t, tableAt m root va d = some t → m' (cell t va d) = m (cell t va d)) :
    WalksTables m' root va ∧ Refk.leafEntry m' root va = Refk.leafEntry m root va := by
  have htab := (translate_of_agree h).1
  have hwalk' : WalksTables m' root va := by
    intro d hd t ht
    rw [htab d] at ht
    rw [h d t ht]
    exact hwalk d hd t ht
  refine ⟨hwalk', ?_⟩
  rw [hwalk'.leafEntry, hwalk.leafEntry, htab 3]
  cases ht : tableAt m root va 3 with
  | none => rfl
  | some t => rw [Option.map_some, Option.map_some, h 3 t ht]

end

end Refk
