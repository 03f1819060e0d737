import Refk.Klib.CreateRoot

/-!
# What a new root shares

`kmem_create_root` takes five pages: the root, and two tables each for the two top-level slots that
the 2 MB windows are in. Their contents are spelled out here entry by entry (`copyEntry_grafts`),
so that every walk from the new root can be followed. From a window's level-2 entry on it is the
walk of the current root, in the same tables, and stays so whatever is written to the last of them.
-/

namespace Refk

open Lib

/-- The address is in one of the 2 MB windows. -/
def InWindow (va : Word) : Prop := ∃ w ∈ windows, SamePrefix 3 va w

/-- The current root as boot leaves it, and a free list with the pages for a new one: the windows
    have their last-level tables, which are frames of their own, and no free page is a table. -/
structure Current (k : Kmem) (cur : Word) (L : List Word) : Prop where
  root_aligned : PageAligned cur
  tables : ∀ w ∈ windows, ∃ t, tableAt k.phys cur w 3 = some t
  apart : ∀ w ∈ windows, ∀ t, tableAt k.phys cur w 3 = some t → ∀ w' ∈ windows, ∀ d < 3,
    tableAt k.phys cur w' d ≠ some t
  pages : FreePages k L
  aligned : ∀ p ∈ L, PageAligned p
  nodup : L.Nodup
  unused : ∀ p ∈ L, ∀ va d, tableAt k.phys cur va d ≠ some p
  enough : 5 ≤ L.length

/-- What `kmem_create_root` makes of `cur`, between the memories `m` and `m'`. -/
structure SharesWindows (m m' : Phys) (cur ret : Word) : Prop where
  slot : ∀ va, pagingIndex va 0 = 384 → translate m' ret va = translate m cur va
  window : ∀ va, InWindow va → mapping m' ret va = mapping m cur va
  only : ∀ va, pagingIndex va 0 ≠ 384 → ¬ InWindow va → translate m' ret va = none
  current : ∀ va, translate m' cur va = translate m cur va

/-- A change of the last-level entry for `va`, made through a root. -/
structure LeafChange where
  root : Word
  va : Word
  entry : Word

/-- The entry is where the walk ends. -/
def LeafChange.apply (m : Phys) (c : LeafChange) : Phys :=
  match kmemPagingAddr m c.root c.va 3 with
  | some addr => phyWrite64 m addr c.entry
  | none => m

theorem LeafChange.apply_of_table {m : Phys} {c : LeafChange} {t : Word}
    (ht : tableAt m c.root c.va 3 = some t) :
    c.apply m = Function.update m (cell t c.va 3) c.entry := by
  rw [LeafChange.apply, kmemPagingAddr_of_table ht]

/-! ## A graft -/

section
variable {k : Kmem} {m : Phys} {cur ret w p q t t' va : Word} {L : List Word} {d : Nat}

/-- `kmem_paging_addr_create` for level 2, where the root has no table. -/
theorem kmemPagingAddrCreate_level_two
    (habs : ¬ Present (k.phys (cell ret w 0)))
    (hfirst : kmemPagingAddr (k.newTable (cell ret w 0)).1.phys ret w 1 = some (cell p w 1))
    (hnone : kmemPagingAddr (k.newTable (cell ret w 0)).1.phys ret w 2 = none)
    (hsecond : kmemPagingAddr ((k.newTable (cell ret w 0)).1.newTable (cell p w 1)).1.phys ret w 2 =
      some (cell q w 2)) :
    kmemPagingAddrCreate k ret w 2 =
      (((k.newTable (cell ret w 0)).1.newTable (cell p w 1)).1, cell q w 2) := by
  have h₀ : kmemPagingAddr k.phys ret w 0 = some (cell ret w 0) := rfl
  have h₁ : kmemPagingAddr k.phys ret w 1 = none := kmemPagingAddr_of_absent rfl habs
  have h₂ : kmemPagingAddr k.phys ret w 2 = none := by
    rw [kmemPagingAddr, h₁]
    rfl
  simp only [kmemPagingAddrCreate, pagingAddrCreate, h₂, List.range_succ, List.range_zero,
    List.nil_append, List.cons_append, List.foldl_cons, List.foldl_nil, createLevel, h₀, h₁,
    hfirst, hnone, hsecond, Option.getD_some]

/-- The memory after a graft: in the root an entry for the table `p`, in that one for `q`, and in
    that the entry `e`. -/
def grafted (m : Phys) (ret w p q e t va : Word) (d : Nat) : Word :=
  if t = q then (if pagingIndex va d = pagingIndex w 2 then e else 0)
  else if t = p then (if pagingIndex va d = pagingIndex w 1 then q ||| 7 else 0)
  else if t = ret ∧ pagingIndex va d = pagingIndex w 0 then p ||| 7
  else m (cell t va d)

/-- **A window of a slot of its own**: two tables are created, and the entry is copied. -/
theorem copyEntry_grafts (hfree : FreePages k (p :: q :: L))
    (hal : ∀ x ∈ p :: q :: L, PageAligned x) (hnd : (p :: q :: L).Nodup) (hret : PageAligned ret)
    (hretL : ret ∉ p :: q :: L) (habs : ¬ Present (k.phys (cell ret w 0)))
    (hcur : PageAligned cur) (hwin : tableAt k.phys cur w 2 = some t')
    (hwinL : ∀ d t, tableAt k.phys cur w d = some t → t ∉ p :: q :: L ∧ t ≠ ret) :
    FreePages (copyEntry cur ret k w 2) L ∧ ∀ t va d, PageAligned t →
      (copyEntry cur ret k w 2).phys (cell t va d) =
        grafted k.phys ret w p q (k.phys (cell t' w 2)) t va d := by
  have hp : PageAligned p := hal p (by simp)
  have hq : PageAligned q := hal q (by simp)
  obtain ⟨hpL, hnd'⟩ := List.nodup_cons.mp hnd
  obtain ⟨hqL, -⟩ := List.nodup_cons.mp hnd'
  have hal' : ∀ x ∈ q :: L, PageAligned x := fun x hx => hal x (List.mem_cons_of_mem p hx)
  have hpq : p ≠ q := fun h => hpL (h ▸ List.mem_cons_self)
  have hretp : ret ≠ p := fun h => hretL (h ▸ List.mem_cons_self)
  have hretq : ret ≠ q := fun h => hretL (h ▸ List.mem_cons_of_mem p List.mem_cons_self)
  -- the two links
  have hl₁ : Linked k.phys (k.newTable (cell ret w 0)).1.phys (cell ret w 0) p :=
    newTable_linked hfree hp hret hretp
  obtain ⟨hfree₁, hsame₁, ht₁, habs₁, hfirst⟩ := newTable_tableAt hfree hal hnd (d := 0)
    (by omega) (show tableAt k.phys ret w 0 = some ret from rfl) (by
      intro j hj x hx
      obtain rfl : j = 0 := Nat.le_zero.mp hj
      obtain rfl := Option.some.inj hx
      exact ⟨hret, hretL, fun h => absurd h (Nat.lt_irrefl 0)⟩)
  have hl₂ : Linked (k.newTable (cell ret w 0)).1.phys
      ((k.newTable (cell ret w 0)).1.newTable (cell p w 1)).1.phys (cell p w 1) q :=
    newTable_linked hfree₁ hq hp hpq
  obtain ⟨hfree₂, hsame₂, ht₂, -, hsecond⟩ := newTable_tableAt hfree₁ hal' hnd' (by omega) ht₁ (by
    intro j hj x hx
    interval_cases j
    · obtain rfl := Option.some.inj hx
      exact ⟨hret, fun h => hretL (List.mem_cons_of_mem p h), fun _ => hretp⟩
    · obtain rfl := Option.some.inj (ht₁.symm.trans hx)
      exact ⟨hp, hpL, fun h => absurd h (by omega)⟩)
  have hcreate := kmemPagingAddrCreate_level_two habs hfirst (kmemPagingAddr_of_absent ht₁ habs₁)
    hsecond
  generalize (k.newTable (cell ret w 0)).1 = k₁ at *
  generalize (k₁.newTable (cell p w 1)).1 = k₂ at *
  have hread : ∀ t va d, PageAligned t → t ≠ p → t ≠ q → cell t va d ≠ cell ret w 0 →
      k₂.phys (cell t va d) = k.phys (cell t va d) := by
    intro t va d ht htp htq hne
    rw [hl₂.same t va d ht htq fun h => htp ((cell_inj ht hp).mp h).1,
      hl₁.same t va d ht htp hne]
  -- the current root's walk is as it was
  have hcurread : ∀ d t, tableAt k.phys cur w d = some t →
      k₂.phys (cell t w d) = k.phys (cell t w d) := by
    intro d t ht
    obtain ⟨htL, htret⟩ := hwinL d t ht
    have htal := tableAt_aligned hcur ht
    refine hread t w d htal (fun h => htL (by simp [h])) (fun h => htL (by simp [h])) fun h => ?_
    exact htret ((cell_inj htal hret).mp h).1
  have hwin₂ : tableAt k₂.phys cur w 2 = some t' :=
    (tableAt_congr fun d _ t ht => hcurread d t ht).trans hwin
  have hstate : copyEntry cur ret k w 2 =
      { k₂ with phys := Function.update k₂.phys (cell q w 2) (k.phys (cell t' w 2)) } := by
    simp only [copyEntry, hcreate, kmemPagingAddrCreate_of_table hwin₂, hcurread 2 t' hwin]
  rw [hstate]
  constructor
  · refine hfree₂.write fun hmem => ?_
    have heq := cell_eq_page hq (hal' _ (List.mem_cons_of_mem q hmem)) rfl
    exact hqL (heq ▸ hmem)
  · intro t va d ht
    show Function.update k₂.phys (cell q w 2) (k.phys (cell t' w 2)) (cell t va d) = _
    unfold grafted
    by_cases htq : t = q
    · subst htq
      rw [if_pos rfl]
      by_cases hidx : pagingIndex va d = pagingIndex w 2
      · rw [if_pos hidx, (cell_inj ht ht).mpr ⟨rfl, hidx⟩, Function.update_self]
      · rw [if_neg hidx, Function.update_of_ne fun h => hidx ((cell_inj ht ht).mp h).2, hl₂.zero]
    · rw [if_neg htq, Function.update_of_ne fun h => htq ((cell_inj ht hq).mp h).1]
      by_cases htp : t = p
      · subst htp
        rw [if_pos rfl]
        by_cases hidx : pagingIndex va d = pagingIndex w 1
        · rw [if_pos hidx, (cell_inj ht ht).mpr ⟨rfl, hidx⟩]
          exact hl₂.entry
        · rw [if_neg hidx, hl₂.same t va d ht htq fun h => hidx ((cell_inj ht ht).mp h).2, hl₁.zero]
      · rw [if_neg htp]
        by_cases hcell : t = ret ∧ pagingIndex va d = pagingIndex w 0
        · obtain ⟨rfl, hidx⟩ := hcell
          rw [if_pos ⟨rfl, hidx⟩, (cell_inj ht ht).mpr ⟨rfl, hidx⟩, hl₂.same t w 0 ht htq fun h =>
            htp ((cell_inj ht hp).mp h).1]
          exact hl₁.entry
        · rw [if_neg hcell]
          exact hread t va d ht htp htq fun h => hcell ((cell_inj ht hret).mp h)

/-- A window behind tables that the root has already. -/
theorem copyEntry_of_tables {level : Nat} (ht : tableAt k.phys ret w level = some t)
    (hwin : tableAt k.phys cur w level = some t') :
    copyEntry cur ret k w level =
      { k with phys := Function.update k.phys (cell t w level) (k.phys (cell t' w level)) } := by
  simp only [copyEntry, kmemPagingAddrCreate_of_table ht, kmemPagingAddrCreate_of_table hwin]

/-- A write to an entry, read back at an entry. -/
theorem update_cell {e : Word} {n : Nat} (ht : PageAligned t) (ht' : PageAligned t') :
    Function.update m (cell t' w n) e (cell t va d) =
      if t = t' ∧ pagingIndex va d = pagingIndex w n then e else m (cell t va d) := by
  by_cases h : t = t' ∧ pagingIndex va d = pagingIndex w n
  · rw [if_pos h, (cell_inj ht ht').mpr h, Function.update_self]
  · rw [if_neg h, Function.update_of_ne fun heq => h ((cell_inj ht ht').mp heq)]

/-! ## The new root -/

/-- The level-2 entry of a window. -/
def windowEntry (m : Phys) (cur w : Word) : Word := (entryAt m cur w 2).getD 0

/-- The new root and its tables, entry by entry. -/
structure Fresh (m m' : Phys) (cur ret p₁ p₂ p₃ p₄ : Word) (L : List Word) : Prop where
  intact : ∀ t va d, PageAligned t → t ∉ L → m' (cell t va d) = m (cell t va d)
  root : ∀ va, m' (cell ret va 0) =
    if pagingIndex va 0 = 288 then p₃ ||| 7
    else if pagingIndex va 0 = 511 then p₁ ||| 7
    else if pagingIndex va 0 = 384 then m (cell cur va 0) else 0
  high : ∀ va, m' (cell p₁ va 1) = if pagingIndex va 1 = 511 then p₂ ||| 7 else 0
  high_windows : ∀ va, m' (cell p₂ va 2) =
    if pagingIndex va 2 = 509 then windowEntry m cur kmemBaseAddr
    else if pagingIndex va 2 = 510 then windowEntry m cur descBase
    else if pagingIndex va 2 = 511 then windowEntry m cur taskBase else 0
  status : ∀ va, m' (cell p₃ va 1) = if pagingIndex va 1 = 0 then p₄ ||| 7 else 0
  status_window : ∀ va, m' (cell p₄ va 2) =
    if pagingIndex va 2 = 0 then windowEntry m cur statusBase else 0

theorem taskBase_index : pagingIndex taskBase 0 = 511 ∧ pagingIndex taskBase 1 = 511 ∧
    pagingIndex taskBase 2 = 511 := by decide

theorem descBase_index : pagingIndex descBase 0 = 511 ∧ pagingIndex descBase 1 = 511 ∧
    pagingIndex descBase 2 = 510 := by decide

theorem kmemBaseAddr_index : pagingIndex kmemBaseAddr 0 = 511 ∧ pagingIndex kmemBaseAddr 1 = 511 ∧
    pagingIndex kmemBaseAddr 2 = 509 := by decide

theorem statusBase_index : pagingIndex statusBase 0 = 288 ∧ pagingIndex statusBase 1 = 0 ∧
    pagingIndex statusBase 2 = 0 := by decide

/-- A memory that differs in free pages only. -/
def Intact (L : List Word) (m m' : Phys) : Prop :=
  ∀ t va d, PageAligned t → t ∉ L → m' (cell t va d) = m (cell t va d)

theorem Current.tableAt_eq {m' : Phys} (h : Current k cur L) (hin : Intact L k.phys m') (va : Word)
    (d : Nat) : tableAt m' cur va d = tableAt k.phys cur va d := by
  apply tableAt_congr
  intro j _ t ht
  exact hin t va j (tableAt_aligned h.root_aligned ht) fun hmem => h.unused t hmem va j ht

/-- A window's walk down to level 2. -/
theorem Current.window (h : Current k cur L) (hw : w ∈ windows) : ∃ t, tableAt k.phys cur w 2 = some t ∧
    Present (k.phys (cell t w 2)) ∧ ¬ IsPage 2 (k.phys (cell t w 2)) ∧
    windowEntry k.phys cur w = k.phys (cell t w 2) := by
  obtain ⟨t₃, ht₃⟩ := h.tables w hw
  obtain ⟨t, ht, hp, hn, -⟩ := tableAt_succ_iff.mp ht₃
  refine ⟨t, ht, hp, hn, ?_⟩
  rw [windowEntry, entryAt, ht, Option.map_some, Option.getD_some]

theorem FreePages.zeroTable (hfree : FreePages k (p :: L)) (hal : ∀ q ∈ p :: L, PageAligned q)
    (hnd : (p :: L).Nodup) :
    FreePages { (kmemGetpage k).1 with phys := Refk.zeroTable (kmemGetpage k).1.phys p } L := by
  refine hfree.getpage.congr fun q hq => ?_
  have hqp : q ≠ p := fun h => (List.nodup_cons.mp hnd).1 (h ▸ hq)
  simp only [kmemGetpage, phyRead64]
  rw [← cell_zero q 0]
  exact zeroTable_other k.phys (hal p List.mem_cons_self) (hal q (List.mem_cons_of_mem p hq)) hqp

/-- A window, in a state on the way. -/
theorem Current.copyEntry_grafts {k' : Kmem} {L' : List Word} (h : Current k cur L)
    (hin : Intact L k.phys k'.phys) (hw : w ∈ windows) (hfree : FreePages k' (p :: q :: L'))
    (hsub : p :: q :: L' ⊆ L) (hnd : (p :: q :: L').Nodup) (hret : ret ∈ L)
    (hretL : ret ∉ p :: q :: L') (habs : ¬ Present (k'.phys (cell ret w 0))) :
    FreePages (copyEntry cur ret k' w 2) L' ∧
      (∀ t va d, PageAligned t → (copyEntry cur ret k' w 2).phys (cell t va d) =
        grafted k'.phys ret w p q (windowEntry k.phys cur w) t va d) ∧
      Intact L k.phys (copyEntry cur ret k' w 2).phys := by
  obtain ⟨t', ht', -, -, hentry⟩ := h.window hw
  have hL : ∀ d t, tableAt k'.phys cur w d = some t → t ∉ L := by
    intro d t ht hmem
    rw [h.tableAt_eq hin] at ht
    exact h.unused t hmem w d ht
  have ht'' : tableAt k'.phys cur w 2 = some t' := (h.tableAt_eq hin w 2).trans ht'
  have hread : k'.phys (cell t' w 2) = windowEntry k.phys cur w := by
    rw [hentry]
    exact hin t' w 2 (tableAt_aligned h.root_aligned ht') (hL 2 t' ht'')
  obtain ⟨hfree', hreads⟩ := Refk.copyEntry_grafts hfree (fun x hx => h.aligned x (hsub hx)) hnd
    (h.aligned ret hret) hretL habs h.root_aligned ht'' fun d t ht =>
      ⟨fun hmem => hL d t ht (hsub hmem), fun heq => hL d t ht (heq ▸ hret)⟩
  rw [hread] at hreads
  refine ⟨hfree', hreads, fun t va d ht htL => ?_⟩
  have hne : ∀ x ∈ L, t ≠ x := fun x hx heq => htL (heq ▸ hx)
  rw [hreads t va d ht, grafted, if_neg (hne q (hsub (by simp))), if_neg (hne p (hsub (by simp))),
    if_neg fun heq => hne ret hret heq.1]
  exact hin t va d ht htL

/-- A window behind tables that are there. -/
theorem Current.copyEntry_writes {k' : Kmem} {L' : List Word} (h : Current k cur L)
    (hin : Intact L k.phys k'.phys) (hw : w ∈ windows) (hfree : FreePages k' L') (hsub : L' ⊆ L)
    (hp : p ∈ L) (hpL : p ∉ L') (ht : tableAt k'.phys ret w 2 = some p) :
    FreePages (copyEntry cur ret k' w 2) L' ∧
      (∀ t va d, PageAligned t → (copyEntry cur ret k' w 2).phys (cell t va d) =
        if t = p ∧ pagingIndex va d = pagingIndex w 2 then windowEntry k.phys cur w
        else k'.phys (cell t va d)) ∧
      Intact L k.phys (copyEntry cur ret k' w 2).phys := by
  obtain ⟨t', ht', -, -, hentry⟩ := h.window hw
  have hpal := h.aligned p hp
  have ht'' : tableAt k'.phys cur w 2 = some t' := (h.tableAt_eq hin w 2).trans ht'
  have hread : k'.phys (cell t' w 2) = windowEntry k.phys cur w := by
    rw [hentry]
    exact hin t' w 2 (tableAt_aligned h.root_aligned ht') fun hmem => h.unused t' hmem w 2 ht'
  rw [copyEntry_of_tables ht ht'', hread]
  have hreads : ∀ t va d, PageAligned t → Function.update k'.phys (cell p w 2)
      (windowEntry k.phys cur w) (cell t va d) =
      if t = p ∧ pagingIndex va d = pagingIndex w 2 then windowEntry k.phys cur w
      else k'.phys (cell t va d) := fun t va d ht => update_cell ht hpal
  refine ⟨hfree.write fun hmem => ?_, hreads, fun t va d ht htL => ?_⟩
  · have heq := cell_eq_page hpal (h.aligned _ (hsub hmem)) rfl
    exact hpL (heq ▸ hmem)
  · refine (hreads t va d ht).trans ?_
    have hne : ¬ (t = p ∧ pagingIndex va d = pagingIndex w 2) := fun heq => htL (heq.1 ▸ hp)
    rw [if_neg hne]
    exact hin t va d ht htL

/-- The page for the root, emptied, with the entry of the physical memory map. -/
theorem Current.copySlot (h : Current k cur (ret :: L)) :
    let k₀ : Kmem := { (kmemGetpage k).1 with phys := zeroTable (kmemGetpage k).1.phys ret }
    FreePages (copyEntry cur ret k₀ phyMapBase 0) L ∧
      (∀ t va d, PageAligned t → (copyEntry cur ret k₀ phyMapBase 0).phys (cell t va d) =
        if t = ret then (if pagingIndex va d = 384 then k.phys (cell cur phyMapBase 0) else 0)
        else k.phys (cell t va d)) ∧
      Intact (ret :: L) k.phys (copyEntry cur ret k₀ phyMapBase 0).phys := by
  intro k₀
  have hret := h.aligned ret List.mem_cons_self
  obtain ⟨hnot, -⟩ := List.nodup_cons.mp h.nodup
  have hne : cur ≠ ret := fun heq => h.unused ret List.mem_cons_self 0 0 (congrArg some heq)
  have hfree₀ : FreePages k₀ L := h.pages.zeroTable h.aligned h.nodup
  have hphys : k₀.phys = zeroTable k.phys ret := by simp only [k₀, kmemGetpage]
  have hread₀ : ∀ t va d, PageAligned t →
      k₀.phys (cell t va d) = if t = ret then 0 else k.phys (cell t va d) := by
    intro t va d ht
    rw [hphys]
    by_cases htr : t = ret
    · rw [htr, if_pos rfl, zeroTable_self]
    · rw [if_neg htr, zeroTable_other k.phys hret ht htr]
  clear hphys
  generalize k₀ = k' at hfree₀ hread₀
  rw [copyEntry_of_tables (show tableAt k'.phys ret phyMapBase 0 = some ret from rfl)
    (show tableAt k'.phys cur phyMapBase 0 = some cur from rfl),
    hread₀ cur phyMapBase 0 h.root_aligned, if_neg hne]
  have hreads : ∀ t va d, PageAligned t → Function.update k'.phys (cell ret phyMapBase 0)
      (k.phys (cell cur phyMapBase 0)) (cell t va d) =
      if t = ret then (if pagingIndex va d = 384 then k.phys (cell cur phyMapBase 0) else 0)
      else k.phys (cell t va d) := by
    intro t va d ht
    rw [update_cell ht hret, pagingIndex_phyMapBase, hread₀ t va d ht]
    by_cases htr : t = ret
    · simp only [htr, true_and, if_true]
    · simp only [htr, false_and, if_false]
  refine ⟨hfree₀.write fun hmem => ?_, hreads, fun t va d ht htL => ?_⟩
  · have heq := cell_eq_page hret (h.aligned _ (List.mem_cons_of_mem ret hmem)) rfl
    exact hnot (heq ▸ hmem)
  · refine (hreads t va d ht).trans (if_neg fun heq => htL ?_)
    rw [heq]
    exact List.mem_cons_self

/-- **The new root, entry by entry.** -/
theorem Current.fresh (h : Current k cur L) : ∃ ret p₁ p₂ p₃ p₄ rest,
    L = ret :: p₁ :: p₂ :: p₃ :: p₄ :: rest ∧ (kmemCreateRoot cur k).2 = ret ∧
      Fresh k.phys (kmemCreateRoot cur k).1.phys cur ret p₁ p₂ p₃ p₄ L ∧
      FreePages (kmemCreateRoot cur k).1 rest := by
  obtain ⟨ret, p₁, p₂, p₃, p₄, rest, rfl⟩ :
      ∃ ret p₁ p₂ p₃ p₄ rest, L = ret :: p₁ :: p₂ :: p₃ :: p₄ :: rest := by
    match L, h.enough with
    | ret :: p₁ :: p₂ :: p₃ :: p₄ :: rest, _ => exact ⟨ret, p₁, p₂, p₃, p₄, rest, rfl⟩
  refine ⟨ret, p₁, p₂, p₃, p₄, rest, rfl, h.pages.head_eq, ?_⟩
  have hal := h.aligned
  obtain ⟨hret₀, hnd₁⟩ := List.nodup_cons.mp h.nodup
  obtain ⟨hp₁, hnd₂⟩ := List.nodup_cons.mp hnd₁
  obtain ⟨hp₂, hnd₃⟩ := List.nodup_cons.mp hnd₂
  obtain ⟨hp₃, -⟩ := List.nodup_cons.mp hnd₃
  have hsub₁ : p₁ :: p₂ :: p₃ :: p₄ :: rest ⊆ ret :: p₁ :: p₂ :: p₃ :: p₄ :: rest :=
    List.subset_cons_self _ _
  have hsub₃ : p₃ :: p₄ :: rest ⊆ p₁ :: p₂ :: p₃ :: p₄ :: rest :=
    List.Subset.trans (List.subset_cons_self p₂ _) (List.subset_cons_self p₁ _)
  have h₀₁ : ret ≠ p₁ := fun h => hret₀ (by simp [h])
  have h₀₂ : ret ≠ p₂ := fun h => hret₀ (by simp [h])
  have h₀₃ : ret ≠ p₃ := fun h => hret₀ (by simp [h])
  have h₀₄ : ret ≠ p₄ := fun h => hret₀ (by simp [h])
  have h₁₂ : p₁ ≠ p₂ := fun h => hp₁ (by simp [h])
  have h₁₃ : p₁ ≠ p₃ := fun h => hp₁ (by simp [h])
  have h₁₄ : p₁ ≠ p₄ := fun h => hp₁ (by simp [h])
  have h₂₃ : p₂ ≠ p₃ := fun h => hp₂ (by simp [h])
  have h₂₄ : p₂ ≠ p₄ := fun h => hp₂ (by simp [h])
  have h₃₄ : p₃ ≠ p₄ := fun h => hp₃ (by simp [h])
  have hret : (kmemGetpage k).2 = ret := h.pages.head_eq
  have hal₀ := hal ret (by simp)
  have hal₁ := hal p₁ (by simp)
  have hal₂ := hal p₂ (by simp)
  have hal₃ := hal p₃ (by simp)
  have hal₄ := hal p₄ (by simp)
  obtain ⟨hfree₁, hread₁, hin₁⟩ := h.copySlot
  have hstate : kmemCreateRoot cur k = (copyEntry cur ret (copyEntry cur ret (copyEntry cur ret
      (copyEntry cur ret (copyEntry cur ret { (kmemGetpage k).1 with
        phys := zeroTable (kmemGetpage k).1.phys ret } phyMapBase 0) taskBase 2) descBase 2)
      kmemBaseAddr 2) statusBase 2, ret) := by
    rw [← hret]
    rfl
  rw [hstate]
  generalize copyEntry cur ret { (kmemGetpage k).1 with
    phys := zeroTable (kmemGetpage k).1.phys ret } phyMapBase 0 = k₁ at *
  -- the task window makes the tables of the last slot
  obtain ⟨hfree₂, hread₂, hin₂⟩ := h.copyEntry_grafts (w := taskBase) hin₁ (by simp [windows])
    hfree₁ hsub₁ hnd₁ List.mem_cons_self hret₀ (by
      rw [hread₁ ret taskBase 0 hal₀, if_pos rfl, taskBase_index.1,
        if_neg (by decide : ¬ (511 : Word) = 384)]
      decide)
  generalize copyEntry cur ret k₁ taskBase 2 = k₂ at *
  have hwalk₂ : ∀ w, pagingIndex w 0 = 511 → pagingIndex w 1 = 511 →
      tableAt k₂.phys ret w 2 = some p₂ := by
    intro w hw₀ hw₁
    have ht₁ : tableAt k₂.phys ret w 1 = some p₁ := by
      refine tableAt_succ_iff.mpr ⟨ret, rfl, ?_⟩
      rw [hread₂ ret w 0 hal₀, grafted, if_neg h₀₂, if_neg h₀₁, taskBase_index.1, if_pos ⟨rfl, hw₀⟩]
      exact ⟨linked_entry_present hal₁, linked_entry_table hal₁ (by omega), linked_entry_frame hal₁⟩
    refine tableAt_succ_iff.mpr ⟨p₁, ht₁, ?_⟩
    rw [hread₂ p₁ w 1 hal₁, grafted, if_neg h₁₂, if_pos rfl, taskBase_index.2.1, if_pos hw₁]
    exact ⟨linked_entry_present hal₂, linked_entry_table hal₂ (by omega), linked_entry_frame hal₂⟩
  -- the next two find them
  obtain ⟨hfree₃, hread₃, hin₃⟩ := h.copyEntry_writes (w := descBase) (p := p₂) hin₂
    (by simp [windows]) hfree₂ (List.Subset.trans hsub₃ hsub₁) (by simp) hp₂
    (hwalk₂ descBase descBase_index.1 descBase_index.2.1)
  generalize copyEntry cur ret k₂ descBase 2 = k₃ at *
  have hwalk₃ : tableAt k₃.phys ret kmemBaseAddr 2 = some p₂ := by
    rw [← hwalk₂ kmemBaseAddr kmemBaseAddr_index.1 kmemBaseAddr_index.2.1]
    apply tableAt_congr
    intro j hj t ht
    have htp : t = ret ∨ t = p₁ := by
      interval_cases j
      · exact .inl (Option.some.inj ht).symm
      · refine .inr ?_
        obtain ⟨t', ht', -⟩ := tableAt_succ_iff.mp (hwalk₂ kmemBaseAddr kmemBaseAddr_index.1
          kmemBaseAddr_index.2.1)
        obtain ⟨t₀, ht₀, -, -, heq⟩ := tableAt_succ_iff.mp ht
        obtain rfl := Option.some.inj ht₀
        rw [hread₂ ret kmemBaseAddr 0 hal₀, grafted, if_neg h₀₂, if_neg h₀₁, taskBase_index.1,
          if_pos ⟨rfl, kmemBaseAddr_index.1⟩, linked_entry_frame hal₁] at heq
        exact heq.symm
    have htal : PageAligned t := by
      rcases htp with rfl | rfl
      · exact hal₀
      · exact hal₁
    rw [hread₃ t kmemBaseAddr j htal, if_neg]
    rintro ⟨rfl, -⟩
    rcases htp with h | h
    · exact h₀₂ h.symm
    · exact h₁₂ h.symm
  obtain ⟨hfree₄, hread₄, hin₄⟩ := h.copyEntry_writes (w := kmemBaseAddr) (p := p₂) hin₃
    (by simp [windows]) hfree₃ (List.Subset.trans hsub₃ hsub₁) (by simp) hp₂ hwalk₃
  generalize copyEntry cur ret k₃ kmemBaseAddr 2 = k₄ at *
  -- and the status page has a slot of its own
  have hreads₄ : ∀ t va d, PageAligned t → t ≠ p₂ → k₄.phys (cell t va d) = k₂.phys (cell t va d) := by
    intro t va d ht hne
    rw [hread₄ t va d ht, if_neg fun h => hne h.1, hread₃ t va d ht, if_neg fun h => hne h.1]
  have hroot₄ : ∀ va, k₄.phys (cell ret va 0) = if pagingIndex va 0 = 511 then p₁ ||| 7
      else if pagingIndex va 0 = 384 then k.phys (cell cur va 0) else 0 := by
    intro va
    have hslot : pagingIndex va 0 = 384 → cell cur va 0 = cell cur phyMapBase 0 := by
      intro hva
      rw [cell, hva, ← pagingIndex_phyMapBase, cell]
    rw [hreads₄ ret va 0 hal₀ h₀₂, hread₂ ret va 0 hal₀, grafted, if_neg h₀₂, if_neg h₀₁,
      taskBase_index.1, hread₁ ret va 0 hal₀, if_pos rfl]
    by_cases hva : pagingIndex va 0 = 511
    · rw [if_pos ⟨rfl, hva⟩, if_pos hva]
    · rw [if_neg fun h => hva h.2, if_neg hva]
      by_cases hva' : pagingIndex va 0 = 384
      · rw [if_pos hva', if_pos hva', hslot hva']
      · rw [if_neg hva', if_neg hva']
  obtain ⟨hfree₅, hread₅, hin₅⟩ := h.copyEntry_grafts (w := statusBase) hin₄ (by simp [windows])
    hfree₄ (List.Subset.trans hsub₃ hsub₁) hnd₃ List.mem_cons_self (fun hmem => hret₀ (hsub₃ hmem)) (by
      rw [hroot₄ statusBase, statusBase_index.1, if_neg (by decide : ¬ (288 : Word) = 511),
        if_neg (by decide : ¬ (288 : Word) = 384)]
      decide)
  obtain ⟨hs₀, hs₁, hs₂⟩ := statusBase_index
  obtain ⟨htask₀, htask₁, htask₂⟩ := taskBase_index
  refine ⟨⟨hin₅, fun va => ?_, fun va => ?_, fun va => ?_, fun va => ?_, fun va => ?_⟩, hfree₅⟩
  · rw [hread₅ ret va 0 hal₀, grafted, if_neg h₀₄, if_neg h₀₃, hs₀, hroot₄]
    by_cases hva : pagingIndex va 0 = 288
    · rw [if_pos ⟨rfl, hva⟩, if_pos hva]
    · rw [if_neg fun h => hva h.2, if_neg hva]
  · rw [hread₅ p₁ va 1 hal₁, grafted, if_neg h₁₄, if_neg h₁₃, if_neg fun h => h₀₁ h.1.symm,
      hreads₄ p₁ va 1 hal₁ h₁₂, hread₂ p₁ va 1 hal₁, grafted, if_neg h₁₂, if_pos rfl, htask₁]
  · rw [hread₅ p₂ va 2 hal₂, grafted, if_neg h₂₄, if_neg h₂₃, if_neg fun h => h₀₂ h.1.symm,
      hread₄ p₂ va 2 hal₂, hread₃ p₂ va 2 hal₂, hread₂ p₂ va 2 hal₂, grafted, if_pos rfl,
      kmemBaseAddr_index.2.2, descBase_index.2.2, htask₂]
    simp only [true_and]
  · rw [hread₅ p₃ va 1 hal₃, grafted, if_neg h₃₄, if_pos rfl, hs₁]
  · rw [hread₅ p₄ va 2 hal₄, grafted, if_pos rfl, hs₂]

/-! ## Its walks -/

section
variable {m' : Phys} {p₁ p₂ p₃ p₄ : Word}

/-- A link is followed. -/
theorem tableAt_link_eq (ht : tableAt m ret va d = some t) (hd : d < 3) (hp : PageAligned p)
    (hlink : m (cell t va d) = p ||| 7) : tableAt m ret va (d + 1) = some p := by
  refine tableAt_succ_iff.mpr ⟨t, ht, ?_⟩
  rw [hlink]
  exact ⟨linked_entry_present hp, linked_entry_table hp hd, linked_entry_frame hp⟩

theorem Fresh.high_walk (f : Fresh m m' cur ret p₁ p₂ p₃ p₄ L) (hp₁ : PageAligned p₁)
    (hp₂ : PageAligned p₂) (hva : pagingIndex va 0 = 511) :
    tableAt m' ret va 1 = some p₁ ∧
      (pagingIndex va 1 = 511 → tableAt m' ret va 2 = some p₂) := by
  have ht₁ : tableAt m' ret va 1 = some p₁ := by
    refine tableAt_link_eq (d := 0) rfl (by omega) hp₁ ?_
    rw [f.root, hva, if_neg (by decide), if_pos rfl]
  refine ⟨ht₁, fun hva₁ => tableAt_link_eq ht₁ (by omega) hp₂ ?_⟩
  rw [f.high, if_pos hva₁]

theorem Fresh.status_walk (f : Fresh m m' cur ret p₁ p₂ p₃ p₄ L) (hp₃ : PageAligned p₃)
    (hp₄ : PageAligned p₄) (hva : pagingIndex va 0 = 288) :
    tableAt m' ret va 1 = some p₃ ∧
      (pagingIndex va 1 = 0 → tableAt m' ret va 2 = some p₄) := by
  have ht₁ : tableAt m' ret va 1 = some p₃ := by
    refine tableAt_link_eq (d := 0) rfl (by omega) hp₃ ?_
    rw [f.root, if_pos hva]
  refine ⟨ht₁, fun hva₁ => tableAt_link_eq ht₁ (by omega) hp₄ ?_⟩
  rw [f.status, if_pos hva₁]

/-- The four windows, by their indices. -/
theorem inWindow_iff : InWindow va ↔
    pagingIndex va 0 = 511 ∧ pagingIndex va 1 = 511 ∧
        (pagingIndex va 2 = 511 ∨ pagingIndex va 2 = 510 ∨ pagingIndex va 2 = 509) ∨
      pagingIndex va 0 = 288 ∧ pagingIndex va 1 = 0 ∧ pagingIndex va 2 = 0 := by
  have hprefix : ∀ w, SamePrefix 3 va w ↔ pagingIndex va 0 = pagingIndex w 0 ∧
      pagingIndex va 1 = pagingIndex w 1 ∧ pagingIndex va 2 = pagingIndex w 2 := by
    intro w
    constructor
    · intro h
      exact ⟨h 0 (by omega), h 1 (by omega), h 2 (by omega)⟩
    · rintro ⟨h₀, h₁, h₂⟩ j hj
      interval_cases j <;> assumption
  obtain ⟨ht₀, ht₁, ht₂⟩ := taskBase_index
  obtain ⟨hd₀, hd₁, hd₂⟩ := descBase_index
  obtain ⟨hk₀, hk₁, hk₂⟩ := kmemBaseAddr_index
  obtain ⟨hs₀, hs₁, hs₂⟩ := statusBase_index
  simp only [InWindow, windows, List.mem_cons, List.not_mem_nil, or_false, exists_eq_or_imp,
    exists_eq_left, hprefix, ht₀, ht₁, ht₂, hd₀, hd₁, hd₂, hk₀, hk₁, hk₂, hs₀, hs₁, hs₂]
  tauto

/-- **A window's tables** in the new root: its own down to level 2, the current root's below. -/
theorem Current.shared_table (h : Current k cur L)
    (f : Fresh k.phys m' cur ret p₁ p₂ p₃ p₄ L) (hp₁ : p₁ ∈ L) (hp₂ : p₂ ∈ L) (hp₃ : p₃ ∈ L)
    (hp₄ : p₄ ∈ L) (hva : InWindow va) :
    ∃ t, tableAt m' cur va 3 = some t ∧ tableAt m' ret va 3 = some t := by
  -- the entry that was copied for the window leads on as it does in the current root
  have hcopied : ∀ w ∈ windows, SamePrefix 3 va w → ∀ q, tableAt m' ret va 2 = some q →
      m' (cell q va 2) = windowEntry k.phys cur w →
      ∃ t, tableAt m' cur va 3 = some t ∧ tableAt m' ret va 3 = some t := by
    intro w hw hpre q hq hentry
    obtain ⟨t, ht, hpres, hsmall, hread⟩ := h.window hw
    refine ⟨k.phys (cell t w 2) &&& pageMask, ?_, ?_⟩
    · rw [h.tableAt_eq f.intact, tableAt_samePrefix hpre]
      exact tableAt_succ_iff.mpr ⟨t, ht, hpres, hsmall, rfl⟩
    · rw [hread] at hentry
      refine tableAt_succ_iff.mpr ⟨q, hq, ?_⟩
      rw [hentry]
      exact ⟨hpres, hsmall, rfl⟩
  obtain ⟨w, hw, hpre⟩ := hva
  have hhigh : pagingIndex w 0 = 511 ∧ pagingIndex w 1 = 511 → tableAt m' ret va 2 = some p₂ := by
    rintro ⟨h₀, h₁⟩
    have hwalk := f.high_walk (h.aligned p₁ hp₁) (h.aligned p₂ hp₂)
      (show pagingIndex va 0 = 511 from (hpre 0 (by omega)).trans h₀)
    exact hwalk.2 ((hpre 1 (by omega)).trans h₁)
  have hlast := hpre 2 (by omega)
  have hmem := hw
  simp only [windows, List.mem_cons, List.not_mem_nil, or_false] at hmem
  rcases hmem with rfl | rfl | rfl | rfl
  · refine hcopied taskBase hw hpre p₂ (hhigh ⟨taskBase_index.1, taskBase_index.2.1⟩) ?_
    rw [f.high_windows, hlast, taskBase_index.2.2, if_neg (by decide), if_neg (by decide),
      if_pos rfl]
  · refine hcopied descBase hw hpre p₂ (hhigh ⟨descBase_index.1, descBase_index.2.1⟩) ?_
    rw [f.high_windows, hlast, descBase_index.2.2, if_neg (by decide), if_pos rfl]
  · refine hcopied kmemBaseAddr hw hpre p₂
      (hhigh ⟨kmemBaseAddr_index.1, kmemBaseAddr_index.2.1⟩) ?_
    rw [f.high_windows, hlast, kmemBaseAddr_index.2.2, if_pos rfl]
  · obtain ⟨hs₀, hs₁, hs₂⟩ := statusBase_index
    have hwalk := f.status_walk (h.aligned p₃ hp₃) (h.aligned p₄ hp₄)
      (show pagingIndex va 0 = 288 from (hpre 0 (by omega)).trans hs₀)
    refine hcopied statusBase hw hpre p₄ (hwalk.2 ((hpre 1 (by omega)).trans hs₁)) ?_
    rw [f.status_window, hlast, hs₂, if_pos rfl]

/-- Walks that end in one table map alike. -/
theorem mapping_of_shared {r r' : Word} (ht : tableAt m r va 3 = some t)
    (ht' : tableAt m r' va 3 = some t) : mapping m r va = mapping m r' va := by
  by_cases hp : Present (m (cell t va 3))
  · rw [mapping_of_table ht hp, mapping_of_table ht' hp]
  · rw [mapping, translate_of_absent ht hp, mapping, translate_of_absent ht' hp]

/-- Elsewhere the new root has nothing. -/
theorem Current.unmapped (h : Current k cur L) (f : Fresh k.phys m' cur ret p₁ p₂ p₃ p₄ L)
    (hp₁ : p₁ ∈ L) (hp₂ : p₂ ∈ L) (hp₃ : p₃ ∈ L) (hp₄ : p₄ ∈ L) (hslot : pagingIndex va 0 ≠ 384)
    (hva : ¬ InWindow va) : translate m' ret va = none := by
  rw [inWindow_iff, not_or] at hva
  have habsent : ¬ Present (0 : Word) := by decide
  by_cases hs₀ : pagingIndex va 0 = 288
  · obtain ⟨ht₁, ht₂⟩ := f.status_walk (h.aligned p₃ hp₃) (h.aligned p₄ hp₄) hs₀
    by_cases hs₁ : pagingIndex va 1 = 0
    · refine translate_of_absent (ht₂ hs₁) ?_
      rw [f.status_window, if_neg fun hs₂ => hva.2 ⟨hs₀, hs₁, hs₂⟩]
      exact habsent
    · refine translate_of_absent ht₁ ?_
      rw [f.status, if_neg hs₁]
      exact habsent
  · by_cases hh₀ : pagingIndex va 0 = 511
    · obtain ⟨ht₁, ht₂⟩ := f.high_walk (h.aligned p₁ hp₁) (h.aligned p₂ hp₂) hh₀
      by_cases hh₁ : pagingIndex va 1 = 511
      · have hnone : ¬ (pagingIndex va 2 = 511 ∨ pagingIndex va 2 = 510 ∨ pagingIndex va 2 = 509) :=
          fun hh₂ => hva.1 ⟨hh₀, hh₁, hh₂⟩
        rw [not_or, not_or] at hnone
        refine translate_of_absent (ht₂ hh₁) ?_
        rw [f.high_windows, if_neg hnone.2.2, if_neg hnone.2.1, if_neg hnone.1]
        exact habsent
      · refine translate_of_absent ht₁ ?_
        rw [f.high, if_neg hh₁]
        exact habsent
    · refine translate_of_absent (d := 0) rfl ?_
      rw [f.root, if_neg hs₀, if_neg hh₀, if_neg hslot]
      exact habsent

/-- In the slot of the physical memory map the walks join at the first entry. -/
theorem Current.slot_table (h : Current k cur L) (f : Fresh k.phys m' cur ret p₁ p₂ p₃ p₄ L)
    (hslot : pagingIndex va 0 = 384) : m' (cell ret va 0) = m' (cell cur va 0) ∧
      ∀ d ≥ 1, tableAt m' ret va d = tableAt m' cur va d := by
  have hentry : m' (cell ret va 0) = m' (cell cur va 0) := by
    rw [f.root, hslot, if_neg (by decide), if_neg (by decide), if_pos rfl]
    exact (f.intact cur va 0 h.root_aligned fun hmem => h.unused cur hmem va 0 rfl).symm
  refine ⟨hentry, fun d hd => ?_⟩
  induction d, hd using Nat.le_induction with
  | base => simp only [tableAt, Option.bind_eq_bind, Option.bind_some, hentry]
  | succ d _ ih => rw [tableAt, ih, tableAt.eq_2 m' cur va d]

theorem Current.slot_eq (h : Current k cur L) (f : Fresh k.phys m' cur ret p₁ p₂ p₃ p₄ L)
    (hslot : pagingIndex va 0 = 384) : translate m' ret va = translate m' cur va := by
  obtain ⟨hentry, htab⟩ := h.slot_table f hslot
  apply translate_congr
  intro d _
  cases d with
  | zero => simp only [entryAt, tableAt, Option.map_some, hentry]
  | succ d => rw [entryAt, htab (d + 1) (Nat.le_add_left 1 d), entryAt]

end

/-! ## Later changes -/

/-- Two roots that have the last tables of the windows in common, which are none of those above. -/
structure Joined (cur ret : Word) (m : Phys) : Prop where
  aligned : ∀ r, r = cur ∨ r = ret → PageAligned r
  common : ∀ va, InWindow va → ∃ t, tableAt m cur va 3 = some t ∧ tableAt m ret va 3 = some t
  apart : ∀ va, InWindow va → ∀ t, tableAt m cur va 3 = some t →
    ∀ r, r = cur ∨ r = ret → ∀ va', InWindow va' → ∀ d < 3, tableAt m r va' d ≠ some t

/-- The table of a window's page, through either of the roots. -/
theorem Joined.table (h : Joined cur ret m) (hva : InWindow va) :
    ∃ t, tableAt m cur va 3 = some t ∧ ∀ r, r = cur ∨ r = ret → tableAt m r va 3 = some t := by
  obtain ⟨t, ht, ht'⟩ := h.common va hva
  refine ⟨t, ht, ?_⟩
  rintro r (rfl | rfl)
  · exact ht
  · exact ht'

/-- **A change** of an entry leaves the roots joined, and shows in both. -/
theorem Joined.change {c : LeafChange} (h : Joined cur ret m) (hroot : c.root = cur ∨ c.root = ret)
    (hva : InWindow c.va) :
    Joined cur ret (c.apply m) ∧ ∀ r, r = cur ∨ r = ret →
      mapping (c.apply m) r c.va = if Present c.entry then some c.entry else none := by
  obtain ⟨t, ht, htab⟩ := h.table hva
  have happly := LeafChange.apply_of_table (htab c.root hroot)
  have htal := tableAt_aligned (h.aligned cur (.inl rfl)) ht
  -- the table is not one of those above the windows
  have hsame : ∀ r, r = cur ∨ r = ret → ∀ va, InWindow va → ∀ d ≤ 3,
      tableAt (c.apply m) r va d = tableAt m r va d := by
    intro r hr va hva' d hd
    rw [happly]
    apply tableAt_congr
    intro j hj t' ht'
    apply Function.update_of_ne
    intro hcell
    obtain ⟨rfl, -⟩ := (cell_inj (tableAt_aligned (h.aligned r hr) ht') htal).mp hcell
    exact h.apart c.va hva t' ht r hr va hva' j (by omega) ht'
  refine ⟨⟨h.aligned, fun va hva' => ?_, fun va hva' t' ht' r hr va' hva'' d hd => ?_⟩,
    fun r hr => ?_⟩
  · obtain ⟨t', ht', ht''⟩ := h.common va hva'
    refine ⟨t', ?_, ?_⟩
    · rw [hsame cur (.inl rfl) va hva' 3 le_rfl, ht']
    · rw [hsame ret (.inr rfl) va hva' 3 le_rfl, ht'']
  · rw [hsame cur (.inl rfl) va hva' 3 le_rfl] at ht'
    rw [hsame r hr va' hva'' d (by omega)]
    exact h.apart va hva' t' ht' r hr va' hva'' d hd
  · have ht' : tableAt (c.apply m) r c.va 3 = some t := by
      rw [hsame r hr c.va hva 3 le_rfl]
      exact htab r hr
    have hread : c.apply m (cell t c.va 3) = c.entry := by
      rw [happly, Function.update_self]
    by_cases hp : Present c.entry
    · rw [if_pos hp, mapping_of_table ht' (hread.symm ▸ hp), hread]
    · rw [if_neg hp, mapping, translate_of_absent ht' (hread.symm ▸ hp)]
      rfl

/-- And so do any number of them. -/
theorem Joined.changes {cs : List LeafChange} (h : Joined cur ret m)
    (hcs : ∀ c ∈ cs, (c.root = cur ∨ c.root = ret) ∧ InWindow c.va) :
    Joined cur ret (cs.foldl LeafChange.apply m) := by
  induction cs generalizing m with
  | nil => exact h
  | cons c cs ih =>
    obtain ⟨hroot, hva⟩ := hcs c List.mem_cons_self
    exact ih (h.change hroot hva).1 fun c' hc' => hcs c' (List.mem_cons_of_mem c hc')

theorem Joined.mapping_eq (h : Joined cur ret m) (hva : InWindow va) :
    mapping m ret va = mapping m cur va := by
  obtain ⟨t, ht, ht'⟩ := h.common va hva
  exact mapping_of_shared ht' ht

/-- **The new root is joined to the current one.** -/
theorem Current.joined {m' : Phys} {p₁ p₂ p₃ p₄ : Word} (h : Current k cur L)
    (f : Fresh k.phys m' cur ret p₁ p₂ p₃ p₄ L) (hret : ret ∈ L) (hp₁ : p₁ ∈ L) (hp₂ : p₂ ∈ L)
    (hp₃ : p₃ ∈ L) (hp₄ : p₄ ∈ L) : Joined cur ret m' := by
  refine ⟨?_, fun va hva => h.shared_table f hp₁ hp₂ hp₃ hp₄ hva, ?_⟩
  · rintro r (rfl | rfl)
    · exact h.root_aligned
    · exact h.aligned r hret
  · intro va hva t ht r hr va' hva' d hd ht'
    rw [h.tableAt_eq f.intact] at ht
    obtain ⟨w, hw, hpre⟩ := hva
    rw [tableAt_samePrefix hpre] at ht
    rcases hr with rfl | rfl
    · obtain ⟨w', hw', hpre'⟩ := hva'
      rw [h.tableAt_eq f.intact, tableAt_samePrefix fun j hj => hpre' j (by omega)] at ht'
      exact h.apart w hw t ht w' hw' d hd ht'
    · -- the new root's own tables were free pages
      have hmem : t ∈ L := by
        rcases inWindow_iff.mp hva' with ⟨h₀, h₁, -⟩ | ⟨h₀, h₁, -⟩
        · have hwalk := f.high_walk (h.aligned p₁ hp₁) (h.aligned p₂ hp₂) h₀
          interval_cases d
          · exact Option.some.inj ht' ▸ hret
          · exact Option.some.inj (hwalk.1.symm.trans ht') ▸ hp₁
          · exact Option.some.inj ((hwalk.2 h₁).symm.trans ht') ▸ hp₂
        · have hwalk := f.status_walk (h.aligned p₃ hp₃) (h.aligned p₄ hp₄) h₀
          interval_cases d
          · exact Option.some.inj ht' ▸ hret
          · exact Option.some.inj (hwalk.1.symm.trans ht') ▸ hp₃
          · exact Option.some.inj ((hwalk.2 h₁).symm.trans ht') ▸ hp₄
      exact h.unused t hmem w 3 ht

/-- **A new root shares exactly the kernel's windows**, and whatever is changed in one of them later,
    through either root, is seen through both. -/
theorem create_root_shares (h : Current k cur L) :
    (kmemCreateRoot cur k).2 ∈ L ∧
    SharesWindows k.phys (kmemCreateRoot cur k).1.phys cur (kmemCreateRoot cur k).2 ∧
    ∀ cs : List LeafChange,
      (∀ c ∈ cs, (c.root = cur ∨ c.root = (kmemCreateRoot cur k).2) ∧ InWindow c.va) →
      (∀ va, InWindow va →
        mapping (cs.foldl LeafChange.apply (kmemCreateRoot cur k).1.phys)
            (kmemCreateRoot cur k).2 va =
          mapping (cs.foldl LeafChange.apply (kmemCreateRoot cur k).1.phys) cur va) ∧
      ∀ c : LeafChange, (c.root = cur ∨ c.root = (kmemCreateRoot cur k).2) → InWindow c.va →
        ∀ r, r = cur ∨ r = (kmemCreateRoot cur k).2 →
          mapping (c.apply (cs.foldl LeafChange.apply (kmemCreateRoot cur k).1.phys)) r c.va =
            if Present c.entry then some c.entry else none := by
  obtain ⟨ret, p₁, p₂, p₃, p₄, rest, rfl, hret, f, -⟩ := h.fresh
  rw [hret]
  generalize (kmemCreateRoot cur k).1.phys = m' at f
  have hmem : ret ∈ ret :: p₁ :: p₂ :: p₃ :: p₄ :: rest := List.mem_cons_self
  have hp₁ : p₁ ∈ ret :: p₁ :: p₂ :: p₃ :: p₄ :: rest := by simp
  have hp₂ : p₂ ∈ ret :: p₁ :: p₂ :: p₃ :: p₄ :: rest := by simp
  have hp₃ : p₃ ∈ ret :: p₁ :: p₂ :: p₃ :: p₄ :: rest := by simp
  have hp₄ : p₄ ∈ ret :: p₁ :: p₂ :: p₃ :: p₄ :: rest := by simp
  have hjoined := h.joined f hmem hp₁ hp₂ hp₃ hp₄
  have hcurrent : ∀ va, translate m' cur va = translate k.phys cur va := by
    intro va
    refine (translate_of_agree fun d t ht => ?_).2
    exact f.intact t va d (tableAt_aligned h.root_aligned ht) fun hmem' => h.unused t hmem' va d ht
  refine ⟨hmem, ⟨fun va hva => ?_, fun va hva => ?_, fun va hslot hva => ?_, hcurrent⟩,
    fun cs hcs => ⟨fun va hva => ?_, fun c hroot hva => ?_⟩⟩
  · rw [h.slot_eq f hva, hcurrent]
  · rw [hjoined.mapping_eq hva, mapping, hcurrent, mapping]
  · exact h.unmapped f hp₁ hp₂ hp₃ hp₄ hslot hva
  · exact (hjoined.changes hcs).mapping_eq hva
  · exact ((hjoined.changes hcs).change hroot hva).2

end

/-- A root at `0x10000` with the tables of the windows, and five free pages from `0x30000` on. -/
def windowWords : List (Word × Word) :=
  [(0x10ff8, 0x11007), (0x11ff8, 0x12007), (0x12ff8, 0x13007), (0x12ff0, 0x14007),
    (0x12fe8, 0x15007), (0x10900, 0x16007), (0x16000, 0x17007), (0x17000, 0x18007),
    (0x18000, 0x8000000000019001), (0x30000, 0x31000), (0x31000, 0x32000), (0x32000, 0x33000),
    (0x33000, 0x34000)]

def windowKmem : Kmem := ⟨fun a => (windowWords.lookup a).getD 0, 0x30000, []⟩

/-- No free page is linked anywhere. -/
theorem windowKmem_present {a : Word} (hp : Present (windowKmem.phys a)) :
    windowKmem.phys a &&& pageMask ∉ [0x30000, 0x31000, 0x32000, 0x33000, 0x34000] := by
  have hwords : ∀ w ∈ windowWords, Present w.2 →
      w.2 &&& pageMask ∉ [0x30000, 0x31000, 0x32000, 0x33000, 0x34000] := by
    intro w hw
    fin_cases hw <;> decide
  have hread : windowKmem.phys a = (windowWords.lookup a).getD 0 := rfl
  rw [hread] at hp ⊢
  cases h : windowWords.lookup a with
  | none =>
    rw [h] at hp
    exact absurd hp (by decide)
  | some v =>
    rw [h] at hp
    obtain ⟨l₁, l₂, hl, -⟩ := List.lookup_eq_some_iff.mp h
    exact hwords (a, v) (by rw [hl]; simp) hp

theorem windowKmem_walk {w : Word} (t₁ t₂ t₃ : Word)
    (h₁ : windowKmem.phys (cell 0x10000 w 0) = t₁ ||| 7)
    (h₂ : windowKmem.phys (cell t₁ w 1) = t₂ ||| 7) (h₃ : windowKmem.phys (cell t₂ w 2) = t₃ ||| 7)
    (hal : PageAligned t₁ ∧ PageAligned t₂ ∧ PageAligned t₃) :
    tableAt windowKmem.phys 0x10000 w 1 = some t₁ ∧ tableAt windowKmem.phys 0x10000 w 2 = some t₂ ∧
      tableAt windowKmem.phys 0x10000 w 3 = some t₃ := by
  have ht₁ := tableAt_link_eq (d := 0) rfl (by omega) hal.1 h₁
  have ht₂ := tableAt_link_eq ht₁ (by omega) hal.2.1 h₂
  exact ⟨ht₁, ht₂, tableAt_link_eq ht₂ (by omega) hal.2.2 h₃⟩

/-- The windows' last tables, and those above them. -/
theorem windowKmem_tables {w : Word} (hw : w ∈ windows) : ∃ t₁ t₂ t₃,
    (tableAt windowKmem.phys 0x10000 w 1 = some t₁ ∧ tableAt windowKmem.phys 0x10000 w 2 = some t₂ ∧
      tableAt windowKmem.phys 0x10000 w 3 = some t₃) ∧
    t₁ ∈ [0x11000, 0x16000] ∧ t₂ ∈ [0x12000, 0x17000] ∧
      t₃ ∈ [0x13000, 0x14000, 0x15000, 0x18000] := by
  simp only [windows, List.mem_cons, List.not_mem_nil, or_false] at hw
  rcases hw with rfl | rfl | rfl | rfl
  · exact ⟨0x11000, 0x12000, 0x13000, windowKmem_walk _ _ _ (by decide) (by decide) (by decide)
      ⟨rfl, rfl, rfl⟩, by simp, by simp, by simp⟩
  · exact ⟨0x11000, 0x12000, 0x14000, windowKmem_walk _ _ _ (by decide) (by decide) (by decide)
      ⟨rfl, rfl, rfl⟩, by simp, by simp, by simp⟩
  · exact ⟨0x11000, 0x12000, 0x15000, windowKmem_walk _ _ _ (by decide) (by decide) (by decide)
      ⟨rfl, rfl, rfl⟩, by simp, by simp, by simp⟩
  · exact ⟨0x16000, 0x17000, 0x18000, windowKmem_walk _ _ _ (by decide) (by decide) (by decide)
      ⟨rfl, rfl, rfl⟩, by simp, by simp, by simp⟩

theorem windowKmem_current :
    Current windowKmem 0x10000 [0x30000, 0x31000, 0x32000, 0x33000, 0x34000] where
  root_aligned := by rfl
  tables := by
    intro w hw
    obtain ⟨-, -, t₃, ⟨-, -, ht₃⟩, -⟩ := windowKmem_tables hw
    exact ⟨t₃, ht₃⟩
  apart := by
    intro w hw t ht w' hw' d hd ht'
    obtain ⟨-, -, t₃, ⟨-, -, ht₃⟩, -, -, hlast⟩ := windowKmem_tables hw
    obtain ⟨t₁, t₂, -, ⟨ht₁, ht₂, -⟩, hfirst, hsecond, -⟩ := windowKmem_tables hw'
    obtain rfl := Option.some.inj (ht₃.symm.trans ht)
    have hapart : ∀ x ∈ [(0x13000 : Word), 0x14000, 0x15000, 0x18000],
        x ≠ 0x10000 ∧ x ∉ [(0x11000 : Word), 0x16000] ∧ x ∉ [(0x12000 : Word), 0x17000] := by
      simp
    obtain ⟨hroot, hnot₁, hnot₂⟩ := hapart t₃ hlast
    interval_cases d
    · exact hroot (Option.some.inj ht').symm
    · exact hnot₁ (Option.some.inj (ht₁.symm.trans ht') ▸ hfirst)
    · exact hnot₂ (Option.some.inj (ht₂.symm.trans ht') ▸ hsecond)
  pages := ⟨rfl, by decide, rfl, by decide, rfl, by decide, rfl, by decide, rfl, by decide, rfl⟩
  aligned := by
    intro p hp
    fin_cases hp <;> rfl
  nodup := by decide
  unused := by
    intro p hp va d ht
    cases d with
    | zero =>
      have hroot : ∀ p ∈ [(0x30000 : Word), 0x31000, 0x32000, 0x33000, 0x34000], p ≠ 0x10000 := by
        simp
      rw [tableAt, Option.some.injEq] at ht
      exact hroot p hp ht.symm
    | succ d =>
      obtain ⟨t, -, hpres, -, rfl⟩ := tableAt_succ_iff.mp ht
      exact windowKmem_present hpres hp
  enough := by decide

theorem windowKmem_status : mapping windowKmem.phys 0x10000 statusBase = some 0x8000000000019001 := by
  obtain ⟨-, -, ht⟩ := windowKmem_walk (w := statusBase) 0x16000 0x17000 0x18000 (by decide)
    (by decide) (by decide) ⟨rfl, rfl, rfl⟩
  have hentry : windowKmem.phys (cell 0x18000 statusBase 3) = 0x8000000000019001 := by decide
  rw [mapping_of_table ht (by rw [hentry]; decide), hentry]

/-- The status page of a root made from it; and when the current root maps another one there, the
    new root does. -/
theorem create_root_shares_of_windowKmem :
    mapping (kmemCreateRoot 0x10000 windowKmem).1.phys (kmemCreateRoot 0x10000 windowKmem).2
        statusBase = some 0x8000000000019001 ∧
      mapping (LeafChange.apply (kmemCreateRoot 0x10000 windowKmem).1.phys
        ⟨0x10000, statusBase, 0x800000000001a001⟩) (kmemCreateRoot 0x10000 windowKmem).2
        statusBase = some 0x800000000001a001 := by
  obtain ⟨-, hshares, hlater⟩ := create_root_shares windowKmem_current
  generalize kmemCreateRoot 0x10000 windowKmem = r at hshares hlater
  have hwindow : InWindow statusBase := ⟨statusBase, by simp [windows], fun _ _ => rfl⟩
  constructor
  · rw [hshares.window statusBase hwindow]
    exact windowKmem_status
  · have hchange := (hlater [] (by simp)).2 ⟨0x10000, statusBase, 0x800000000001a001⟩ (.inl rfl)
      hwindow r.2 (.inr rfl)
    rw [if_pos (by decide)] at hchange
    exact hchange

end Refk
