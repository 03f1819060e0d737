import Refk.Scheduler.MmanRefs

/-!
# Importing and dismantling a root

`import_helper` and `remove_helper` walk everything below a table, one to count it and the
other to take the counts down again. While a root is taken down, pages go back to the free
list in the middle of the walk, and with them the first word of what may have been a table;
`Dismantling` says that this happens only to pages the rest of the walk does not need: those
whose count is gone.
-/

namespace Refk

open Lib

/-- No level-3 entry is loose. -/
def allHeld : Word → Bool := fun _ => false

/-- **The entry loop's rule**, over the slots that are left, for a state that may keep books on
    what it looks at. -/
theorem walk_rule {σ : Type} (phys : σ → Phys) (look : σ → σ) {n : Nat} {isRoot : Bool}
    (hroot : isRoot = decide (n = 4)) (table : Word) (body : σ → Word → σ)
    (Inv : List Nat → σ → Prop) {s : σ} (h₀ : Inv (walked.slots n) s)
    (habsent : ∀ i l s, i ∈ walked.slots n → Inv (i :: l) s →
      ¬ Present (phys s (slotAddr table i)) → Inv l (look s))
    (hpresent : ∀ i l s, i ∈ walked.slots n → Inv (i :: l) s →
      Present (phys s (slotAddr table i)) →
      Inv l (body (look s) (frameOf (phys s (slotAddr table i))))) :
    Inv [] ((List.range 512).foldl (fun s i =>
      if isRoot ∧ i = 384 then s
      else
        let entry := phyRead64 (phys s) (table + BitVec.ofNat 64 i * 8)
        if entry &&& 1 = 0 then look s else body (look s) (entry &&& kmemFrameMask)) s) := by
  have hfilter : (List.range 512).foldl (fun s i =>
      if isRoot ∧ i = 384 then s
      else
        let entry := phyRead64 (phys s) (table + BitVec.ofNat 64 i * 8)
        if entry &&& 1 = 0 then look s else body (look s) (entry &&& kmemFrameMask)) s =
      (walked.slots n).foldl (fun s i => if Present (phys s (slotAddr table i)) then
        body (look s) (frameOf (phys s (slotAddr table i))) else look s) s := by
    subst hroot
    simp only [walked, List.foldl_filter]
    congr 1
    funext s i
    by_cases hi : n = 4 ∧ i = 384
    · simp [hi]
    · by_cases hp : Present (phys s (slotAddr table i))
      · simp only [decide_eq_true_eq, hi, not_false_eq_true, if_true, if_false, if_pos hp]
        exact if_neg hp
      · simp only [decide_eq_true_eq, hi, not_false_eq_true, if_true, if_false, if_neg hp]
        exact if_pos (not_not.mp hp)
  have hloop : ∀ l : List Nat, (∀ i ∈ l, i ∈ walked.slots n) → ∀ s, Inv l s →
      Inv [] (l.foldl (fun s i => if Present (phys s (slotAddr table i)) then
        body (look s) (frameOf (phys s (slotAddr table i))) else look s) s) := by
    intro l
    induction l with
    | nil => exact fun _ s h => h
    | cons i l ih =>
      intro hl s h
      have hi := hl i (by simp)
      refine ih (fun j hj => hl j (by simp [hj])) _ ?_
      dsimp only
      by_cases hp : Present (phys s (slotAddr table i))
      · rw [if_pos hp]
        exact hpresent i l s hi h hp
      · rw [if_neg hp]
        exact habsent i l s hi h hp
  rw [hfilter]
  exact hloop _ (fun _ h => h) s h₀

/-- The rule for the manager's own state. -/
theorem forEntries_rule {n : Nat} {isRoot : Bool} (hroot : isRoot = decide (n = 4)) (table : Word)
    (body : Mman → Word → Mman) (Inv : List Nat → Mman → Prop) {s : Mman}
    (h₀ : Inv (walked.slots n) s)
    (habsent : ∀ i l s, i ∈ walked.slots n → Inv (i :: l) s →
      ¬ Present (s.phys (slotAddr table i)) → Inv l s)
    (hpresent : ∀ i l s, i ∈ walked.slots n → Inv (i :: l) s → Present (s.phys (slotAddr table i)) →
      Inv l (body s (frameOf (s.phys (slotAddr table i))))) :
    Inv [] (forEntries isRoot table body s) :=
  walk_rule Mman.phys id hroot table body Inv h₀ habsent hpresent

section
variable {s : Mman} {loose : Word → Bool} {R L : List Word} {slack f : Word → Nat} {K : Set Word}
  {m : Phys} {t p : Word}

/-! ## Importing -/

theorem sameRoots_incrementPage (s : Mman) (p : Word) : SameRoots s (incrementPage s p) :=
  ⟨rfl, rfl, rfl, rfl, rfl⟩

theorem refTo_allHeld {n i : Nat} {e : Word} :
    refTo allHeld p n t i e = if frameOf e = p then 1 else 0 := by
  simp only [refTo, allHeld, Bool.false_eq_true, and_false, not_false_eq_true, and_true]

/-- The loop of `import_helper`, for any body that counts an entry and what is behind it, and any
    notion `T` of a count. -/
theorem importTable_rule {T : Mman → (Word → Nat) → Prop} {n : Nat} {isRoot : Bool}
    (hroot : isRoot = decide (n + 1 = 4)) (body : Mman → Word → Mman) (h : T s f)
    (hbody : ∀ s' g i e, i ∈ walked.slots (n + 1) → entries s.phys t i = some e →
      s'.kmem = s.kmem → T s' g →
      T (body s' (frameOf e)) (fun p => g p + (if frameOf e = p then 1 else 0) +
        sumBelow walked (refTo allHeld p) (entries s.phys) n (frameOf e)) ∧
      (body s' (frameOf e)).kmem = s'.kmem ∧ SameRoots s' (body s' (frameOf e))) :
    T (forEntries isRoot t body s)
      (fun p => f p + sumBelow walked (refTo allHeld p) (entries s.phys) (n + 1) t) ∧
    (forEntries isRoot t body s).kmem = s.kmem ∧ SameRoots s (forEntries isRoot t body s) := by
  -- what is counted already, and what the slots that are left contribute
  have hrule := forEntries_rule hroot t body (fun l s' => s'.kmem = s.kmem ∧ SameRoots s s' ∧
    ∃ g, T s' g ∧ ∀ p,
      g p + (l.map (sumAt walked (refTo allHeld p) (entries s.phys) n t)).sum =
        f p + sumBelow walked (refTo allHeld p) (entries s.phys) (n + 1) t)
    (s := s) ⟨rfl, SameRoots.refl s, f, h, fun p => rfl⟩
    (by
      rintro i l s' - ⟨hkmem, hroots, g, htally, hg⟩ hp
      have hnone : entries s.phys t i = none := by
        rw [← show s'.phys = s.phys from congrArg Kmem.phys hkmem]
        exact entries_none.mpr hp
      refine ⟨hkmem, hroots, g, htally, fun p => ?_⟩
      rw [← hg p, List.map_cons, List.sum_cons, sumAt_none hnone, Nat.zero_add])
    (by
      rintro i l s' hi ⟨hkmem, hroots, g, htally, hg⟩ hp
      have hsome : entries s.phys t i = some (s'.phys (slotAddr t i)) := by
        rw [← show s'.phys = s.phys from congrArg Kmem.phys hkmem]
        exact entries_some.mpr ⟨hp, rfl⟩
      obtain ⟨htally', hkmem', hroots'⟩ := hbody s' g i _ hi hsome hkmem htally
      refine ⟨hkmem'.trans hkmem, hroots.trans hroots', _, htally', fun p => ?_⟩
      rw [← hg p, List.map_cons, List.sum_cons, sumAt_some hsome, refTo_allHeld]
      simp only [walked]
      omega)
  obtain ⟨hkmem, hroots, g, htally, hg⟩ := hrule
  have hcounts : (fun p => f p + sumBelow walked (refTo allHeld p) (entries s.phys) (n + 1) t) = g :=
    funext fun p => by simpa using (hg p).symm
  exact ⟨hcounts ▸ htally, hkmem, hroots⟩

/-- **`import_helper`** counts every entry below the table. -/
theorem importHelper_rule {T : Mman → (Word → Nat) → Prop} (Known : Word → Prop)
    (hinc : ∀ s' g p, Known p → s'.kmem = s.kmem → T s' g →
      T (incrementPage s' p) fun q => g q + if p = q then 1 else 0)
    (k : Nat) {s' : Mman} (hs : s'.kmem = s.kmem) (h : T s' f)
    (hK : ∀ p, sumBelow walked (refTo allHeld p) (entries s.phys) (k + 1) t ≠ 0 → Known p) :
    T (importHelper k t s')
      (fun p => f p + sumBelow walked (refTo allHeld p) (entries s.phys) (k + 1) t) ∧
    (importHelper k t s').kmem = s.kmem ∧ SameRoots s' (importHelper k t s') := by
  -- the page of an entry below the table is known
  have hpage : ∀ n t, (∀ p, sumBelow walked (refTo allHeld p) (entries s.phys) (n + 1) t ≠ 0 →
      Known p) → ∀ i e, i ∈ walked.slots (n + 1) → entries s.phys t i = some e →
      Known (frameOf e) ∧
      ∀ p, sumBelow walked (refTo allHeld p) (entries s.phys) n (frameOf e) ≠ 0 → Known p := by
    intro n t hK i e hi he
    have hle : ∀ p, (if frameOf e = p then 1 else 0) +
        sumBelow walked (refTo allHeld p) (entries s.phys) n (frameOf e) ≤
        sumBelow walked (refTo allHeld p) (entries s.phys) (n + 1) t := fun p => by
      have := sumAt_le_below (w := refTo allHeld p) (g := entries s.phys) (t := t) hi
      rwa [sumAt_some he, refTo_allHeld] at this
    refine ⟨hK _ ?_, fun p hp => hK p ?_⟩
    · have := hle (frameOf e)
      rw [if_pos rfl] at this
      omega
    · have := hle p
      omega
  have hphys : ∀ {s' : Mman}, s'.kmem = s.kmem → s'.phys = s.phys := congrArg Kmem.phys
  induction k generalizing s' f t with
  | zero =>
    obtain ⟨hT, hkmem, hroots⟩ := importTable_rule (T := T) (t := t)
      (show false = decide (0 + 1 = 4) by decide) incrementPage h fun s₁ g i e hi he hkmem hg => by
        rw [hphys hs] at he
        exact ⟨hinc s₁ g _ (hpage 0 t hK i e hi he).1 (hkmem.trans hs) hg, rfl,
          sameRoots_incrementPage s₁ _⟩
    rw [hphys hs] at hT
    exact ⟨hT, hkmem.trans hs, hroots⟩
  | succ k ih =>
    obtain ⟨hT, hkmem, hroots⟩ := importTable_rule (T := T) (t := t)
      (show decide (k + 1 = 3) = decide (k + 1 + 1 = 4) by simp only [Nat.reduceEqDiff])
      (fun s page => importHelper k page (incrementPage s page)) h
      fun s₁ g i e hi he hkmem hg => by
        rw [hphys hs] at he
        obtain ⟨hknown, hbelow⟩ := hpage (k + 1) t hK i e hi he
        have hsame : (incrementPage s₁ (frameOf e)).kmem = s.kmem := hkmem.trans hs
        obtain ⟨hT', hkmem', hroots'⟩ := ih hsame (hinc s₁ g _ hknown hsame hg) hbelow
        rw [hphys hs]
        exact ⟨hT', hkmem'.trans hsame.symm, (sameRoots_incrementPage s₁ _).trans hroots'⟩
    rw [hphys hs] at hT
    exact ⟨hT, hkmem.trans hs, hroots⟩

theorem importHelper_counts (k : Nat) (h : Tally s f K)
    (hK : ∀ p, sumBelow walked (refTo allHeld p) (entries s.phys) (k + 1) t ≠ 0 →
      p ∈ s.kmem.handedOut ∨ p ∈ K) :
    Tally (importHelper k t s)
      (fun p => f p + sumBelow walked (refTo allHeld p) (entries s.phys) (k + 1) t) K ∧
    (importHelper k t s).kmem = s.kmem ∧ SameRoots s (importHelper k t s) :=
  importHelper_rule (T := fun s f => Tally s f K) (fun p => p ∈ s.kmem.handedOut ∨ p ∈ K)
    (fun _ _ _ hp hs hg => hg.increment (hs ▸ hp)) k rfl h hK

/-! ## Dismantling -/

/-- The loose entries of pages that are counted. -/
def tangled (loose : Word → Bool) (count : Word → Nat) : Weight Word Nat Word := fun n t i e =>
  if n = 0 ∧ loose (slotAddr t i) ∧ count (frameOf e) ≠ 0 then 1 else 0

/-- The middle of a walk that takes counts down: `f` is what is still counted, pages that are
    have what they had in `m`, and those that no longer are have gone to the free list `L`. -/
structure Dismantling (m : Phys) (count : Word → Nat) (K : Set Word) (f : Word → Nat)
    (L : List Word) (s : Mman) : Prop where
  tally : Tally s f K
  agree : ∀ X i, IsFrame X → i < 512 → f X ≠ 0 → s.phys (slotAddr X i) = m (slotAddr X i)
  pages : FreePages s.kmem L
  frames : ∀ p ∈ L, IsFrame p
  nodup : L.Nodup
  unused : ∀ p ∈ L, f p = 0
  gone : ∀ p, count p ≠ 0 → f p = 0 → p ∈ L
  count_le : ∀ p, f p ≤ count p

theorem Dismantling.congr {count g : Word → Nat} (h : Dismantling m count K f L s)
    (hg : ∀ p, g p = f p) : Dismantling m count K g L s := (funext hg : g = f) ▸ h

/-- A counted entry is taken down. -/
theorem Dismantling.decrement {count : Word → Nat} (hp : IsFrame p) (h₀ : p ≠ 0)
    (h : Dismantling m count K (fun q => f q + if p = q then 1 else 0) L s) :
    ∃ L', Dismantling m count K f L' (decrementPage s p) ∧ L ⊆ L' ∧
      SameRoots s (decrementPage s p) ∧
      (decrementPage s p).kmem.handedOut = s.kmem.handedOut := by
  obtain ⟨htally, hroots, hkmem⟩ := h.tally.decrement
  have hmono : ∀ q, f q ≠ 0 → f q + (if p = q then 1 else 0) ≠ 0 := fun q hq => by omega
  have hle : ∀ q, f q ≤ count q := fun q => (Nat.le_add_right _ _).trans (h.count_le q)
  by_cases hlast : f p = 0
  · rw [if_pos hlast] at hkmem
    have hpL : p ∉ L := fun hmem => by simpa using h.unused p hmem
    refine ⟨p :: L, ⟨htally, fun X i hX hi hf => ?_, ?_, ?_, List.nodup_cons.mpr ⟨hpL, h.nodup⟩, ?_,
      fun q hq hq' => ?_, hle⟩, List.subset_cons_self p L, hroots, by rw [hkmem]; rfl⟩
    · -- only the first word of a page whose count is gone has changed
      have hne : slotAddr X i ≠ p := fun heq => by
        rw [slotAddr_eq_page hX.aligned hp.aligned hi heq] at hf
        exact hf hlast
      rw [Mman.phys, hkmem]
      exact (Function.update_of_ne hne _ _).trans (h.agree X i hX hi (hmono X hf))
    · rw [hkmem]
      exact h.pages.unuse h₀ hpL
    · simpa [hp] using h.frames
    · intro q hq
      rcases List.mem_cons.mp hq with rfl | hq
      · exact hlast
      · have := h.unused q hq
        omega
    · by_cases hpq : p = q
      · exact hpq ▸ List.mem_cons_self
      · exact List.mem_cons_of_mem _ (h.gone q hq (by simpa [hpq] using hq'))
  · rw [if_neg hlast] at hkmem
    refine ⟨L, ⟨htally, fun X i hX hi hf => ?_, hkmem ▸ h.pages, h.frames, h.nodup, fun q hq => ?_,
      fun q hq hq' => h.gone q hq ?_, hle⟩, List.Subset.refl L, hroots, by rw [hkmem]⟩
    · rw [Mman.phys, hkmem]
      exact h.agree X i hX hi (hmono X hf)
    · have := h.unused q hq
      omega
    · have hpq : p ≠ q := fun heq => hlast (heq ▸ hq')
      simpa [hpq] using hq'

/-- The loop of `remove_helper`, for any body that takes down an entry and what is behind it. -/
theorem removeTable_counts {count : Word → Nat} {n : Nat} {isRoot : Bool}
    (hroot : isRoot = decide (n + 1 = 4)) (body : Mman → Word → Mman) (ht : IsFrame t) (hpos : f t ≠ 0)
    (h : Dismantling m count K
      (fun p => f p + sumBelow walked (refTo loose p) (entries m) (n + 1) t) L s)
    (hbody : ∀ s' L' g i e, i ∈ walked.slots (n + 1) → entries m t i = some e →
      Dismantling m count K (fun p => g p + sumAt walked (refTo loose p) (entries m) n t i) L' s' →
      ∃ L'', Dismantling m count K g L'' (body s' (frameOf e)) ∧ L' ⊆ L'' ∧
        SameRoots s' (body s' (frameOf e)) ∧
        (body s' (frameOf e)).kmem.handedOut = s'.kmem.handedOut) :
    ∃ L', Dismantling m count K f L' (forEntries isRoot t body s) ∧ L ⊆ L' ∧
      SameRoots s (forEntries isRoot t body s) ∧
      (forEntries isRoot t body s).kmem.handedOut = s.kmem.handedOut := by
  have hrule := forEntries_rule hroot t body (fun l s' => ∃ L', Dismantling m count K
      (fun p => f p + (l.map (sumAt walked (refTo loose p) (entries m) n t)).sum) L' s' ∧
      L ⊆ L' ∧ SameRoots s s' ∧ s'.kmem.handedOut = s.kmem.handedOut)
    (s := s) ⟨L, h, List.Subset.refl L, SameRoots.refl s, rfl⟩
    (by
      rintro i l s' hi ⟨L', hD, hsub, hroots, hout⟩ hp
      rw [hD.agree t i ht (lt_of_mem_slots hi) (by omega)] at hp
      refine ⟨L', hD.congr fun p => ?_, hsub, hroots, hout⟩
      rw [List.map_cons, List.sum_cons, sumAt_none (entries_none.mpr hp), Nat.zero_add])
    (by
      rintro i l s' hi ⟨L', hD, hsub, hroots, hout⟩ hp
      have hread := hD.agree t i ht (lt_of_mem_slots hi) (by omega)
      obtain ⟨L'', hD', hsub', hroots', hout'⟩ := hbody s' L'
        (fun p => f p + (l.map (sumAt walked (refTo loose p) (entries m) n t)).sum) i
        (s'.phys (slotAddr t i)) hi (entries_some.mpr ⟨hread ▸ hp, hread.symm⟩)
        (hD.congr fun p => by
          rw [List.map_cons, List.sum_cons]
          omega)
      exact ⟨L'', hD', List.Subset.trans hsub hsub', hroots.trans hroots', hout'.trans hout⟩)
  obtain ⟨L', hD, hsub, hroots, hout⟩ := hrule
  exact ⟨L', hD.congr fun p => by simp, hsub, hroots, hout⟩

/-- **`remove_helper`** takes down every count below the table, and nothing else. -/
theorem removeHelper_counts {count : Word → Nat} (k : Nat) (ht : IsFrame t) (hpos : f t ≠ 0)
    (h : Dismantling m count K
      (fun p => f p + sumBelow walked (refTo loose p) (entries m) (k + 1) t) L s)
    (hsane : sumBelow walked (illFormed loose) (entries m) (k + 1) t = 0)
    (hloose : sumBelow walked (tangled loose count) (entries m) (k + 1) t = 0) :
    ∃ L', Dismantling m count K f L' (removeHelper k t s) ∧ L ⊆ L' ∧
      SameRoots s (removeHelper k t s) ∧
      (removeHelper k t s).kmem.handedOut = s.kmem.handedOut := by
  induction k generalizing s f t L with
  | zero =>
    rw [show removeHelper 0 t s = forEntries false t decrementPage s from rfl]
    refine removeTable_counts (n := 0) (by decide) decrementPage ht hpos h
      fun s' L' g i e hi he hD => ?_
    have hwell := (sumBelow_succ_eq_zero.mp hsane i hi e he).1
    have hfree := (sumBelow_succ_eq_zero.mp hloose i hi e he).1
    by_cases hc : loose (slotAddr t i)
    · -- a loose entry of a page that is not counted
      have hzero : count (frameOf e) = 0 := by
        by_contra hne
        exact absurd hfree (by simp [tangled, hc, hne])
      have hcount : s'.pageCount (frameOf e) = 0 := by
        rw [hD.tally.counts]
        exact Nat.eq_zero_of_le_zero ((hD.count_le _).trans hzero.le)
      rw [decrementPage_of_zero hcount]
      refine ⟨L', hD.congr fun p => ?_, List.Subset.refl L', SameRoots.refl s', rfl⟩
      rw [sumAt_some he]
      simp [refTo, hc, sumBelow]
    · refine (hD.congr fun p => ?_).decrement (isFrame_and e) ((illFormed_eq_zero.mp hwell).2 (by simp [hc]))
      rw [sumAt_some he]
      simp [refTo, hc, sumBelow]
  | succ k ih =>
    rw [show removeHelper (k + 1) t s = forEntries (k + 1 = 3) t
      (fun s page => decrementPage (removeHelper k page s) page) s from rfl]
    refine removeTable_counts (n := k + 1) ?_ _ ht hpos h fun s' L' g i e hi he hD => ?_
    · simp only [Nat.reduceEqDiff]
    · obtain ⟨hwell, hsane'⟩ := sumBelow_succ_eq_zero.mp hsane i hi e he
      have hloose' := (sumBelow_succ_eq_zero.mp hloose i hi e he).2
      -- the table's own entry is still counted while everything below it is taken down
      obtain ⟨L'', hD', hsub, hroots, hout⟩ := ih (s := s') (t := frameOf e)
        (f := fun q => g q + if frameOf e = q then 1 else 0) (isFrame_and e) (by simp)
        (hD.congr fun p => by
          rw [sumAt_some he]
          simp only [refTo, Nat.succ_ne_zero, false_and, not_false_eq_true, and_true, walked]
          omega) hsane' hloose'
      obtain ⟨L₃, hD'', hsub', hroots', hout'⟩ := hD'.decrement (isFrame_and e)
        ((illFormed_eq_zero.mp hwell).2 fun h => absurd h.1 (Nat.succ_ne_zero k))
      exact ⟨L₃, hD'', List.Subset.trans hsub hsub', hroots.trans hroots', hout'.trans hout⟩

end

end Refk
