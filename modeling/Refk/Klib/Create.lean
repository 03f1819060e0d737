import Refk.Klib.Paging

/-!
# Creating intermediate tables

`pagingAddrCreate_rule` is the loop's rule: whatever every single link keeps, the whole
creation keeps, and afterwards the entry asked for is there. Everything about the loop is
proved through it.

What one link needs is a free page, so the rules below are stated against a free list from
which the creation takes as many pages as it asks for.
-/

namespace Refk

/-! ## The rule -/

section
variable {σ : Type} {phys : σ → Phys} {newTable : σ → Word → σ} {root vaddr : Word} {level : Nat}

/-- What every link keeps, the creation keeps. -/
theorem pagingAddrCreate_keeps (P : σ → Prop) {s : σ} (h₀ : P s)
    (hlink : ∀ s pa, P s → P (newTable s pa)) :
    P (pagingAddrCreate phys newTable s root vaddr level).1 := by
  have hloop : ∀ l : List Nat, ∀ st : σ × Word, P st.1 →
      P (l.foldl (createLevel phys newTable root vaddr) st).1 := by
    intro l
    induction l with
    | nil => exact fun st h => h
    | cons i l ih =>
      refine fun st h => ih _ ?_
      unfold createLevel
      cases kmemPagingAddr (phys st.1) root vaddr i with
      | some a => exact h
      | none => exact hlink _ _ h
  unfold pagingAddrCreate
  cases kmemPagingAddr (phys s) root vaddr level with
  | some a => exact h₀
  | none => exact hloop _ _ h₀

variable (phys newTable root vaddr level) in
/-- **The loop rule.** A link is made at an entry that the walk reaches and that has nothing
    below it. What such links keep holds after the creation, and the walk down to `level` is
    complete — in all states that are `Good`, where a state cannot become good by a link. -/
theorem pagingAddrCreate_rule (P Good : σ → Prop) {s : σ} (h₀ : P s)
    (hgood : ∀ s pa, Good (newTable s pa) → Good s)
    (hlink : ∀ s i pa, P s → i < level → kmemPagingAddr (phys s) root vaddr i = some pa →
      kmemPagingAddr (phys s) root vaddr (i + 1) = none → Good (newTable s pa) →
      P (newTable s pa) ∧
        ∃ addr, kmemPagingAddr (phys (newTable s pa)) root vaddr (i + 1) = some addr)
    (hfinal : Good (pagingAddrCreate phys newTable s root vaddr level).1) :
    P (pagingAddrCreate phys newTable s root vaddr level).1 ∧
      kmemPagingAddr (phys (pagingAddrCreate phys newTable s root vaddr level).1) root vaddr level
        = some (pagingAddrCreate phys newTable s root vaddr level).2 := by
  unfold pagingAddrCreate at hfinal ⊢
  cases hfound : kmemPagingAddr (phys s) root vaddr level with
  | some addr => exact ⟨h₀, hfound⟩
  | none =>
    rw [hfound] at hfinal
    -- after the turn for level `n`, the walk is complete down to `n` and `pa` is its entry
    have hloop : ∀ n ≤ level,
        Good ((List.range (n + 1)).foldl (createLevel phys newTable root vaddr) (s, -1)).1 →
        P ((List.range (n + 1)).foldl (createLevel phys newTable root vaddr) (s, -1)).1 ∧
        kmemPagingAddr
          (phys ((List.range (n + 1)).foldl (createLevel phys newTable root vaddr) (s, -1)).1)
          root vaddr n =
          some ((List.range (n + 1)).foldl (createLevel phys newTable root vaddr) (s, -1)).2 := by
      intro n hn
      induction n with
      | zero => exact fun _ => ⟨h₀, rfl⟩
      | succ n ih =>
        have ih := ih (by omega)
        rw [List.range_succ, List.foldl_append]
        generalize (List.range (n + 1)).foldl (createLevel phys newTable root vaddr) (s, -1) = st
          at ih
        simp only [List.foldl_cons, List.foldl_nil, createLevel]
        cases hnext : kmemPagingAddr (phys st.1) root vaddr (n + 1) with
        | some a => exact fun h => ⟨(ih h).1, hnext⟩
        | none =>
          intro h
          obtain ⟨hP, hpa⟩ := ih (hgood _ _ h)
          obtain ⟨hP', a, ha⟩ := hlink st.1 n st.2 hP (by omega) hpa hnext h
          exact ⟨hP', by simp only [ha, Option.getD_some]⟩
    obtain ⟨hP, hpa⟩ := hloop level le_rfl hfinal
    refine ⟨hP, ?_⟩
    simp only [hpa, Option.getD_some]

/-- **Two versions of the loop** that do the same to what the walk and the links go by leave
    the same, and answer the same. -/
theorem pagingAddrCreate_hom {τ : Type} {phys' : τ → Phys} {newTable' : τ → Word → τ} (f : σ → τ)
    (hphys : ∀ s, phys' (f s) = phys s) (hnew : ∀ s pa, newTable' (f s) pa = f (newTable s pa))
    (s : σ) : pagingAddrCreate phys' newTable' (f s) root vaddr level =
      Prod.map f id (pagingAddrCreate phys newTable s root vaddr level) := by
  have hturn : ∀ (st : σ × Word) (i : Nat),
      createLevel phys' newTable' root vaddr (Prod.map f id st) i =
        Prod.map f id (createLevel phys newTable root vaddr st i) := by
    intro st i
    simp only [createLevel, Prod.map_fst, Prod.map_snd, id, hphys, hnew]
    cases kmemPagingAddr (phys st.1) root vaddr i with
    | some a => rfl
    | none => rfl
  have hloop : ∀ st : σ × Word,
      (List.range (level + 1)).foldl (createLevel phys' newTable' root vaddr) (Prod.map f id st) =
        Prod.map f id ((List.range (level + 1)).foldl (createLevel phys newTable root vaddr) st) :=
    fun _ => List.foldl_hom (Prod.map f id) hturn
  unfold pagingAddrCreate
  rw [hphys]
  cases kmemPagingAddr (phys s) root vaddr level with
  | some a => rfl
  | none =>
    have hrun := hloop (s, -1)
    rw [Prod.map_apply, id] at hrun
    simp only [hrun, Prod.map_fst, Prod.map_apply, hphys, id]

end

/-! ## One link -/

theorem foldl_zero (m : Phys) (table a : Word) (l : List Nat) :
    l.foldl (fun m i => phyWrite64 m (table + BitVec.ofNat 64 i * 8) 0) m a =
      if ∃ i ∈ l, a = table + BitVec.ofNat 64 i * 8 then 0 else m a := by
  induction l generalizing m with
  | nil => simp
  | cons i l ih =>
    rw [List.foldl_cons, ih]
    by_cases hl : ∃ j ∈ l, a = table + BitVec.ofNat 64 j * 8
    · rw [if_pos hl, if_pos (hl.imp fun j hj => ⟨List.mem_cons_of_mem _ hj.1, hj.2⟩)]
    · rw [if_neg hl]
      by_cases hi : a = table + BitVec.ofNat 64 i * 8
      · rw [if_pos ⟨i, List.mem_cons_self, hi⟩, hi, phyWrite64, Function.update_self]
      · rw [phyWrite64, Function.update_of_ne hi, if_neg]
        rintro ⟨j, hj, ha⟩
        rcases List.mem_cons.mp hj with rfl | hj
        · exact hi ha
        · exact hl ⟨j, hj, ha⟩

theorem zeroTable_self (m : Phys) (table va : Word) (d : Nat) :
    zeroTable m table (cell table va d) = 0 := by
  rw [zeroTable, foldl_zero, if_pos]
  refine ⟨(pagingIndex va d).toNat, List.mem_range.mpr (pagingIndex_lt va d), ?_⟩
  rw [BitVec.ofNat_toNat, BitVec.setWidth_eq]
  rfl

/-- An index below 512 is the index of some address. -/
theorem exists_pagingIndex {i : Nat} (hi : i < 512) (d : Nat) :
    ∃ va, pagingIndex va d = BitVec.ofNat 64 i := by
  refine ⟨BitVec.ofNat 64 (i * 2 ^ (12 + (3 - d) * 9)), ?_⟩
  have hlt : i * 2 ^ (12 + (3 - d) * 9) < 2 ^ 64 := by
    calc i * 2 ^ (12 + (3 - d) * 9) < 2 ^ 9 * 2 ^ (12 + (3 - d) * 9) := by
          exact Nat.mul_lt_mul_of_pos_right hi (by positivity)
      _ ≤ 2 ^ 64 := by
          rw [← pow_add]
          exact Nat.pow_le_pow_right (by simp) (by omega)
  rw [← BitVec.toNat_inj, toNat_pagingIndex, BitVec.toNat_ofNat, BitVec.toNat_ofNat,
    Nat.mod_eq_of_lt hlt, Nat.mul_div_cancel _ (by positivity), Nat.mod_eq_of_lt hi,
    Nat.mod_eq_of_lt (by omega)]

theorem zeroTable_other (m : Phys) {table t va : Word} {d : Nat} (htab : PageAligned table)
    (ht : PageAligned t) (hne : t ≠ table) : zeroTable m table (cell t va d) = m (cell t va d) := by
  rw [zeroTable, foldl_zero, if_neg]
  rintro ⟨i, hi, heq⟩
  obtain ⟨va', hva'⟩ := exists_pagingIndex (List.mem_range.mp hi) d
  rw [← hva', ← cell, cell_inj ht htab] at heq
  exact hne heq.1

section
variable {k : Kmem} {p pa t root va : Word} {L : List Word} {d : Nat}

/-- `kmem_getpage`, zeroing and linking, on a list that has a page. -/
theorem newTable_linked (hfree : FreePages k (p :: L)) (hp : PageAligned p) (ht : PageAligned t)
    (hne : t ≠ p) : Linked k.phys (k.newTable (cell t va d)).1.phys (cell t va d) p := by
  have hpage : k.lastUnused = p := hfree.head_eq
  have hcell : ∀ va' d', cell p va' d' ≠ cell t va d := fun va' d' h =>
    hne ((cell_inj hp ht).mp h).1.symm
  refine ⟨?_, fun va' d' => ?_, fun t' va' d' ht' hne' hcell' => ?_⟩
  · simp [Kmem.newTable, kmemGetpage, hpage]
  · simp only [Kmem.newTable, kmemGetpage, hpage, phyWrite64,
      Function.update_of_ne (hcell va' d'), zeroTable_self]
  · simp only [Kmem.newTable, kmemGetpage, hpage, phyWrite64, Function.update_of_ne hcell',
      zeroTable_other k.phys hp ht' hne']

theorem newTable_free (hfree : FreePages k (p :: L)) (hp : PageAligned p)
    (hL : ∀ q ∈ L, PageAligned q) (hnd : (p :: L).Nodup) (ht : PageAligned t) (htL : t ∉ L) :
    FreePages (k.newTable (cell t va d)).1 L := by
  have hpage : k.lastUnused = p := hfree.head_eq
  have hrest : Lib.Chain (phyRead64 k.phys) 0 (phyRead64 k.phys k.lastUnused) L := hfree.getpage
  refine hrest.congr fun q hq => ?_
  have hqp : q ≠ p := fun h => (List.nodup_cons.mp hnd).1 (h ▸ hq)
  have hqt : q ≠ cell t va d := fun h => htL (cell_eq_page ht (hL q hq) h.symm ▸ hq)
  simp only [Kmem.newTable, kmemGetpage, hpage, phyRead64, phyWrite64,
    Function.update_of_ne hqt]
  rw [← cell_zero q 0]
  exact zeroTable_other k.phys hp (hL q hq) hqp

theorem kmemPagingAddr_of_absent {m : Phys} (h : tableAt m root va d = some t)
    (habs : ¬ Present (m (cell t va d))) : kmemPagingAddr m root va (d + 1) = none := by
  rw [kmemPagingAddr, kmemPagingAddr_of_table h]
  exact if_pos (not_not.mp habs)

/-- **A table is linked** below a walk whose tables are not on the list. -/
theorem newTable_tableAt (hfree : FreePages k (p :: L)) (hal : ∀ q ∈ p :: L, PageAligned q)
    (hnd : (p :: L).Nodup) (hd : d < 3) (ht : tableAt k.phys root va d = some t)
    (htables : ∀ j ≤ d, ∀ t', tableAt k.phys root va j = some t' →
      PageAligned t' ∧ t' ∉ p :: L ∧ (j < d → t' ≠ t)) :
    FreePages (k.newTable (cell t va d)).1 L ∧
    (∀ j ≤ d, tableAt (k.newTable (cell t va d)).1.phys root va j = tableAt k.phys root va j) ∧
    tableAt (k.newTable (cell t va d)).1.phys root va (d + 1) = some p ∧
    ¬ Present ((k.newTable (cell t va d)).1.phys (cell p va (d + 1))) ∧
    kmemPagingAddr (k.newTable (cell t va d)).1.phys root va (d + 1) = some (cell p va (d + 1)) := by
  obtain ⟨htal, htL, -⟩ := htables d le_rfl t ht
  rw [List.mem_cons, not_or] at htL
  have hp := hal p (by simp)
  have hlink := @newTable_linked k p t va L d hfree hp htal htL.1
  have hsame : ∀ j ≤ d, tableAt (k.newTable (cell t va d)).1.phys root va j =
      tableAt k.phys root va j := by
    intro j hj
    refine tableAt_congr fun i hi t' ht' => ?_
    obtain ⟨hal', hL', hne'⟩ := htables i (by omega) t' ht'
    rw [List.mem_cons, not_or] at hL'
    refine hlink.same t' va i hal' hL'.1 fun heq => ?_
    exact hne' (by omega) ((cell_inj hal' htal).mp heq).1
  have hnext : tableAt (k.newTable (cell t va d)).1.phys root va (d + 1) = some p := by
    refine tableAt_succ_iff.mpr ⟨t, (hsame d le_rfl).trans ht, ?_⟩
    rw [hlink.entry]
    exact ⟨linked_entry_present hp, linked_entry_table hp hd, linked_entry_frame hp⟩
  refine ⟨newTable_free hfree hp (fun q hq => hal q (by simp [hq])) hnd htal htL.2, hsame, hnext,
    ?_, kmemPagingAddr_of_table hnext⟩
  rw [hlink.zero]
  decide

@[simp] theorem newTable_taken : (k.newTable pa).1.taken = k.taken + 1 := rfl

end

end Refk
