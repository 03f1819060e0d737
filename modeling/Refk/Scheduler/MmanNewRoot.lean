import Refk.Scheduler.MmanIsolated

/-!
# A new root has tables of its own

The tables that a walk from a new root uses are the root, two for each of its two slots, and those
of the current root below the entries that were copied (`NewTable`). None of the latter is used for
a private address, so that `kmem_create_root` adds a root to isolated ones.
-/

namespace Refk

open Lib

section
variable {k : Kmem} {m m' : Phys} {R : Set Word} {cur ret va t p₁ p₂ p₃ p₄ : Word} {L : List Word}
  {d : Nat}

/-- A window has neighbours behind the same level-2 table that nobody shares. -/
theorem window_neighbour {w : Word} (hw : w ∈ windows) : ∃ va ∈ privateAddresses,
    SamePrefix 2 va w := by
  have hprefix : ∀ va w : Word, pagingIndex va 0 = pagingIndex w 0 →
      pagingIndex va 1 = pagingIndex w 1 → SamePrefix 2 va w := by
    intro va w h₀ h₁ j hj
    interval_cases j
    · exact h₀
    · exact h₁
  have hhigh : (0xffffffffc0000000 : Word) ∈ privateAddresses := by
    refine ⟨by decide, fun h => ?_⟩
    rw [inWindow_iff] at h
    revert h
    decide
  have hstatus : statusBase + 0x200000 ∈ privateAddresses := by
    refine ⟨by decide, fun h => ?_⟩
    rw [inWindow_iff] at h
    revert h
    decide
  simp only [windows, List.mem_cons, List.not_mem_nil, or_false] at hw
  rcases hw with rfl | rfl | rfl | rfl
  · exact ⟨_, hhigh, hprefix _ _ (by decide) (by decide)⟩
  · exact ⟨_, hhigh, hprefix _ _ (by decide) (by decide)⟩
  · exact ⟨_, hhigh, hprefix _ _ (by decide) (by decide)⟩
  · exact ⟨_, hstatus, hprefix _ _ (by decide) (by decide)⟩

/-- The current root is as `kmem_create_root` needs it. -/
theorem Isolated.current (h : Isolated k R L) (hcur : cur ∈ R) (henough : 5 ≤ L.length) :
    Current k cur L where
  root_aligned := h.root_aligned hcur
  tables := fun w hw => h.windows cur hcur w ⟨w, hw, fun _ _ => rfl⟩
  apart := by
    intro w hw t ht w' hw' d hd ht'
    obtain ⟨va, hva, hpre⟩ := window_neighbour hw'
    rw [← tableAt_samePrefix fun j hj => hpre j (by omega)] at ht'
    obtain ⟨-, hlevel, -⟩ := (h.tables cur hcur).priv va hva d t ht' cur hcur w 3 ht
    omega
  pages := h.free.pages
  aligned := fun p hp => (h.free.frames p hp).aligned
  nodup := h.free.nodup
  unused := fun p hp va d => h.free.unused p hp cur hcur va d
  enough := henough

/-- The second tables of the new root. -/
theorem Fresh.table_one (f : Fresh k.phys m' cur ret p₁ p₂ p₃ p₄ L) (hp₁ : PageAligned p₁)
    (hp₃ : PageAligned p₃) (hslot : pagingIndex va 0 ≠ 384) (ht : tableAt m' ret va 1 = some t) :
    pagingIndex va 0 = 511 ∧ t = p₁ ∨ pagingIndex va 0 = 288 ∧ t = p₃ := by
  obtain ⟨t₀, ht₀, hpres, -, rfl⟩ := tableAt_succ_iff.mp ht
  obtain rfl := Option.some.inj ht₀
  rw [f.root, if_neg hslot] at hpres ⊢
  by_cases hs : pagingIndex va 0 = 288
  · rw [if_pos hs]
    exact .inr ⟨hs, linked_entry_frame hp₃⟩
  · rw [if_neg hs] at hpres ⊢
    by_cases hh : pagingIndex va 0 = 511
    · rw [if_pos hh]
      exact .inl ⟨hh, linked_entry_frame hp₁⟩
    · rw [if_neg hh] at hpres
      exact absurd hpres (by decide)

/-- And the third ones. -/
theorem Fresh.table_two (f : Fresh k.phys m' cur ret p₁ p₂ p₃ p₄ L) (hp₁ : PageAligned p₁)
    (hp₂ : PageAligned p₂) (hp₃ : PageAligned p₃) (hp₄ : PageAligned p₄)
    (hslot : pagingIndex va 0 ≠ 384) (ht : tableAt m' ret va 2 = some t) :
    pagingIndex va 0 = 511 ∧ pagingIndex va 1 = 511 ∧ t = p₂ ∨
      pagingIndex va 0 = 288 ∧ pagingIndex va 1 = 0 ∧ t = p₄ := by
  obtain ⟨t₁, ht₁, hpres, -, rfl⟩ := tableAt_succ_iff.mp ht
  rcases f.table_one hp₁ hp₃ hslot ht₁ with ⟨hh, rfl⟩ | ⟨hs, rfl⟩
  · rw [f.high] at hpres ⊢
    by_cases hh₁ : pagingIndex va 1 = 511
    · rw [if_pos hh₁]
      exact .inl ⟨hh, hh₁, linked_entry_frame hp₂⟩
    · rw [if_neg hh₁] at hpres
      exact absurd hpres (by decide)
  · rw [f.status] at hpres ⊢
    by_cases hs₁ : pagingIndex va 1 = 0
    · rw [if_pos hs₁]
      exact .inr ⟨hs, hs₁, linked_entry_frame hp₄⟩
    · rw [if_neg hs₁] at hpres
      exact absurd hpres (by decide)

/-- Off the slot of the physical memory map, only the windows have a last table. -/
theorem Fresh.inWindow (f : Fresh k.phys m' cur ret p₁ p₂ p₃ p₄ L) (hp₁ : PageAligned p₁)
    (hp₂ : PageAligned p₂) (hp₃ : PageAligned p₃) (hp₄ : PageAligned p₄)
    (hslot : pagingIndex va 0 ≠ 384) (ht : tableAt m' ret va 2 = some t)
    (hpres : Present (m' (cell t va 2))) : InWindow va := by
  rw [inWindow_iff]
  rcases f.table_two hp₁ hp₂ hp₃ hp₄ hslot ht with ⟨hh₀, hh₁, rfl⟩ | ⟨hs₀, hs₁, rfl⟩
  · refine .inl ⟨hh₀, hh₁, ?_⟩
    by_contra hnot
    rw [not_or, not_or] at hnot
    rw [f.high_windows, if_neg hnot.2.2, if_neg hnot.2.1, if_neg hnot.1] at hpres
    exact absurd hpres (by decide)
  · refine .inr ⟨hs₀, hs₁, ?_⟩
    by_contra hnot
    rw [f.status_window, if_neg hnot] at hpres
    exact absurd hpres (by decide)

/-- A table of the new root is one of its own five, by its level and the indices that lead to it,
    or one of the current root's, below an entry that was copied. -/
inductive NewTable (m : Phys) (cur ret p₁ p₂ p₃ p₄ va : Word) : Nat → Word → Prop
  | root : NewTable m cur ret p₁ p₂ p₃ p₄ va 0 ret
  | high : pagingIndex va 0 = 511 → NewTable m cur ret p₁ p₂ p₃ p₄ va 1 p₁
  | windows : pagingIndex va 0 = 511 → pagingIndex va 1 = 511 →
      NewTable m cur ret p₁ p₂ p₃ p₄ va 2 p₂
  | low : pagingIndex va 0 = 288 → NewTable m cur ret p₁ p₂ p₃ p₄ va 1 p₃
  | status : pagingIndex va 0 = 288 → pagingIndex va 1 = 0 →
      NewTable m cur ret p₁ p₂ p₃ p₄ va 2 p₄
  | slot {d : Nat} {t : Word} : 1 ≤ d → pagingIndex va 0 = 384 → tableAt m cur va d = some t →
      NewTable m cur ret p₁ p₂ p₃ p₄ va d t
  | window {t : Word} : InWindow va → tableAt m cur va 3 = some t →
      NewTable m cur ret p₁ p₂ p₃ p₄ va 3 t

theorem Current.newTable (h : Current k cur L) (f : Fresh k.phys m' cur ret p₁ p₂ p₃ p₄ L)
    (hp₁ : p₁ ∈ L) (hp₂ : p₂ ∈ L) (hp₃ : p₃ ∈ L) (hp₄ : p₄ ∈ L)
    (ht : tableAt m' ret va d = some t) : NewTable k.phys cur ret p₁ p₂ p₃ p₄ va d t := by
  have hal₁ := h.aligned p₁ hp₁
  have hal₂ := h.aligned p₂ hp₂
  have hal₃ := h.aligned p₃ hp₃
  have hal₄ := h.aligned p₄ hp₄
  have hd := tableAt_le_three ht
  by_cases hslot : pagingIndex va 0 = 384
  · by_cases hd₀ : 1 ≤ d
    · rw [(h.slot_table f hslot).2 d hd₀, h.tableAt_eq f.intact] at ht
      exact .slot hd₀ hslot ht
    · obtain rfl : d = 0 := by omega
      obtain rfl := Option.some.inj ht
      exact .root
  interval_cases d
  · obtain rfl := Option.some.inj ht
    exact .root
  · rcases f.table_one hal₁ hal₃ hslot ht with ⟨hh, rfl⟩ | ⟨hs, rfl⟩
    · exact .high hh
    · exact .low hs
  · rcases f.table_two hal₁ hal₂ hal₃ hal₄ hslot ht with ⟨hh₀, hh₁, rfl⟩ | ⟨hs₀, hs₁, rfl⟩
    · exact .windows hh₀ hh₁
    · exact .status hs₀ hs₁
  · obtain ⟨t₂, ht₂, hpres, -, -⟩ := tableAt_succ_iff.mp ht
    have hwindow := f.inWindow hal₁ hal₂ hal₃ hal₄ hslot ht₂ hpres
    obtain ⟨t', hcur, hret⟩ := h.shared_table f hp₁ hp₂ hp₃ hp₄ hwindow
    rw [h.tableAt_eq f.intact] at hcur
    obtain rfl := Option.some.inj (hret.symm.trans ht)
    exact .window hwindow hcur

/-- At an address of its own it is one of the five. -/
theorem NewTable.own (h : NewTable m cur ret p₁ p₂ p₃ p₄ va d t) (hva : va ∈ privateAddresses) :
    t ∈ [ret, p₁, p₂, p₃, p₄] := by
  cases h with
  | root => simp
  | high => simp
  | windows => simp
  | low => simp
  | status => simp
  | slot _ hslot => exact absurd hslot hva.1
  | window hwindow => exact absurd hwindow hva.2

/-- And each of the five is met in one place only. -/
theorem NewTable.same {va' : Word} {d' : Nat} (h : NewTable m cur ret p₁ p₂ p₃ p₄ va d t)
    (h' : NewTable m cur ret p₁ p₂ p₃ p₄ va' d' t) (hnd : [ret, p₁, p₂, p₃, p₄].Nodup)
    (hcur : ∀ va d, tableAt m cur va d ≠ some t) : d' = d ∧ SamePrefix d va' va := by
  have hone : ∀ n, pagingIndex va 0 = n → pagingIndex va' 0 = n → SamePrefix 1 va' va := by
    intro n hva hva' j hj
    obtain rfl : j = 0 := by omega
    exact hva'.trans hva.symm
  have htwo : ∀ n n', pagingIndex va 0 = n → pagingIndex va' 0 = n → pagingIndex va 1 = n' →
      pagingIndex va' 1 = n' → SamePrefix 2 va' va := by
    intro n n' hva hva' hva₁ hva₁' j hj
    interval_cases j
    · exact hva'.trans hva.symm
    · exact hva₁'.trans hva₁.symm
  cases h with
  | root =>
    cases h' with
    | root => exact ⟨rfl, fun j hj => absurd hj (Nat.not_lt_zero j)⟩
    | slot _ _ ht => exact absurd ht (hcur va' d')
    | window _ ht => exact absurd ht (hcur va' 3)
    | _ => simp at hnd
  | high hva =>
    cases h' with
    | high hva' => exact ⟨rfl, hone 511 hva hva'⟩
    | slot _ _ ht => exact absurd ht (hcur va' d')
    | window _ ht => exact absurd ht (hcur va' 3)
    | _ => simp at hnd
  | windows hva hva₁ =>
    cases h' with
    | windows hva' hva₁' => exact ⟨rfl, htwo 511 511 hva hva' hva₁ hva₁'⟩
    | slot _ _ ht => exact absurd ht (hcur va' d')
    | window _ ht => exact absurd ht (hcur va' 3)
    | _ => simp at hnd
  | low hva =>
    cases h' with
    | low hva' => exact ⟨rfl, hone 288 hva hva'⟩
    | slot _ _ ht => exact absurd ht (hcur va' d')
    | window _ ht => exact absurd ht (hcur va' 3)
    | _ => simp at hnd
  | status hva hva₁ =>
    cases h' with
    | status hva' hva₁' => exact ⟨rfl, htwo 288 0 hva hva' hva₁ hva₁'⟩
    | slot _ _ ht => exact absurd ht (hcur va' d')
    | window _ ht => exact absurd ht (hcur va' 3)
    | _ => simp at hnd
  | slot _ _ ht => exact absurd ht (hcur va d)
  | window _ ht => exact absurd ht (hcur va 3)

/-- No walk from the new root meets a large page off the slot of the physical memory map. -/
theorem Fresh.small (f : Fresh k.phys m' cur ret p₁ p₂ p₃ p₄ L) (hp₁ : PageAligned p₁)
    (hp₂ : PageAligned p₂) (hp₃ : PageAligned p₃) (hp₄ : PageAligned p₄)
    (hva : va ∈ privateAddresses) (hd : d < 3) (ht : tableAt m' ret va d = some t)
    (hpres : Present (m' (cell t va d))) : ¬ IsPage d (m' (cell t va d)) := by
  obtain ⟨hslot, hwindow⟩ := hva
  have habsent : ¬ Present (0 : Word) := by decide
  interval_cases d
  · obtain rfl := Option.some.inj ht
    rw [f.root, if_neg hslot] at hpres ⊢
    split_ifs at hpres ⊢
    · exact linked_entry_table hp₃ hd
    · exact linked_entry_table hp₁ hd
    · exact absurd hpres habsent
  · rcases f.table_one hp₁ hp₃ hslot ht with ⟨-, rfl⟩ | ⟨-, rfl⟩
    · rw [f.high] at hpres ⊢
      split_ifs at hpres ⊢
      · exact linked_entry_table hp₂ hd
      · exact absurd hpres habsent
    · rw [f.status] at hpres ⊢
      split_ifs at hpres ⊢
      · exact linked_entry_table hp₄ hd
      · exact absurd hpres habsent
  · exact absurd (f.inWindow hp₁ hp₂ hp₃ hp₄ hslot ht hpres) hwindow

/-- **`kmem_create_root`** adds a root, and leaves the others alone. -/
theorem Isolated.createRoot (h : Isolated k R L) (hcur : cur ∈ R) (henough : 5 ≤ L.length) :
    (∃ rest, L.length = rest.length + 5 ∧
      Isolated (kmemCreateRoot cur k).1 (insert (kmemCreateRoot cur k).2 R) rest) ∧
      ∀ r ∈ R, ∀ va, translate (kmemCreateRoot cur k).1.phys r va = translate k.phys r va := by
  have hc := h.current hcur henough
  obtain ⟨ret, p₁, p₂, p₃, p₄, rest, rfl, hret, f, hpages⟩ := hc.fresh
  rw [hret]
  generalize (kmemCreateRoot cur k).1 = k' at f hpages
  have hp₁ : p₁ ∈ ret :: p₁ :: p₂ :: p₃ :: p₄ :: rest := by simp
  have hp₂ : p₂ ∈ ret :: p₁ :: p₂ :: p₃ :: p₄ :: rest := by simp
  have hp₃ : p₃ ∈ ret :: p₁ :: p₂ :: p₃ :: p₄ :: rest := by simp
  have hp₄ : p₄ ∈ ret :: p₁ :: p₂ :: p₃ :: p₄ :: rest := by simp
  have hal := hc.aligned
  have hsplit : ret :: p₁ :: p₂ :: p₃ :: p₄ :: rest = [ret, p₁, p₂, p₃, p₄] ++ rest := rfl
  obtain ⟨hfive, hrest, hdisj⟩ := List.nodup_append.mp (hsplit ▸ h.free.nodup)
  -- the walks of the others read no free page
  have hcell : ∀ r ∈ R, ∀ va d t, tableAt k.phys r va d = some t →
      k'.phys (cell t va d) = k.phys (cell t va d) := by
    intro r hr va d t ht
    apply f.intact t va d (tableAt_aligned (h.root_aligned hr) ht)
    intro hmem
    exact h.free.unused t hmem r hr va d ht
  have hagree : ∀ r ∈ R, ∀ va, _ := fun r hr va => translate_of_agree (hcell r hr va)
  have hnew : ∀ va d t, tableAt k'.phys ret va d = some t →
      NewTable k.phys cur ret p₁ p₂ p₃ p₄ va d t :=
    fun va d t ht => hc.newTable f hp₁ hp₂ hp₃ hp₄ ht
  have hroots : ∀ r ∈ insert ret R, PageAligned r := by
    intro r hr
    rcases hr with rfl | hr
    · exact hal r List.mem_cons_self
    · exact h.root_aligned hr
  refine ⟨⟨rest, rfl, fun r hr => ?_, fun r hr va hva => ?_, hpages, ?_, hrest, ?_⟩,
    fun r hr va => (hagree r hr va).2⟩
  · rcases hr with rfl | hr
    · refine ⟨hroots, .inl rfl, fun va hva d t ht r' hr' va' d' ht' => ?_,
        fun va hva d hd t ht => ?_⟩
      · have hmem : t ∈ [r, p₁, p₂, p₃, p₄] := (hnew va d t ht).own hva
        have hfree : t ∈ r :: p₁ :: p₂ :: p₃ :: p₄ :: rest := List.mem_append_left rest hmem
        rcases hr' with rfl | hr'
        · exact ⟨rfl, (hnew va d t ht).same (hnew va' d' t ht') hfive (hc.unused t hfree)⟩
        · rw [(hagree r' hr' va').1 d'] at ht'
          exact absurd ht' (h.free.unused t hfree r' hr' va' d')
      · exact f.small (hal p₁ hp₁) (hal p₂ hp₂) (hal p₃ hp₃) (hal p₄ hp₄) hva hd ht
    · have htab := h.tables r hr
      refine ⟨hroots, .inr hr, fun va hva d t ht r' hr' va' d' ht' => ?_,
        fun va hva d hd t ht => ?_⟩
      · rw [(hagree r hr va).1 d] at ht
        rcases hr' with rfl | hr'
        · -- what the new root shares is not private
          have hshared : tableAt k.phys cur va' d' = some t →
              SamePrefix d' va' va := fun hold =>
            (htab.priv va hva d t ht cur hcur va' d' hold).2.1 ▸
              (htab.priv va hva d t ht cur hcur va' d' hold).2.2
          have hown : t ∈ [r', p₁, p₂, p₃, p₄] → False := fun hmem =>
            h.free.unused t (List.mem_append_left rest hmem) r hr va d ht
          cases hnew va' d' t ht' with
          | slot hd' hslot hold =>
            exact absurd ((hshared hold 0 hd').symm.trans hslot) hva.1
          | window hwindow hold =>
            obtain ⟨w, hw, hpre⟩ := hwindow
            refine absurd ⟨w, hw, fun j hj => ?_⟩ hva.2
            exact (hshared hold j hj).symm.trans (hpre j hj)
          | _ => exact (hown (by simp)).elim
        · rw [(hagree r' hr' va').1 d'] at ht'
          exact htab.priv va hva d t ht r' hr' va' d' ht'
      · rw [(hagree r hr va).1 d] at ht
        rw [hcell r hr va d t ht]
        exact htab.small va hva d hd t ht
  · rcases hr with rfl | hr
    · obtain ⟨t, -, ht⟩ := hc.shared_table f hp₁ hp₂ hp₃ hp₄ hva
      exact ⟨t, ht⟩
    · rw [(hagree r hr va).1 3]
      exact h.windows r hr va hva
  · exact fun p hp => h.free.frames p (List.mem_append_right [ret, p₁, p₂, p₃, p₄] hp)
  · intro p hp r hr va d ht
    have hfree : p ∈ ret :: p₁ :: p₂ :: p₃ :: p₄ :: rest :=
      List.mem_append_right [ret, p₁, p₂, p₃, p₄] hp
    rcases hr with rfl | hr
    · have hown : p ∈ [r, p₁, p₂, p₃, p₄] → False := fun hmem => hdisj p hmem p hp rfl
      cases hnew va d p ht with
      | slot _ _ hold => exact hc.unused p hfree va d hold
      | window _ hold => exact hc.unused p hfree va 3 hold
      | _ => exact hown (by simp)
    · rw [(hagree r hr va).1 d] at ht
      exact h.free.unused p hfree r hr va d ht

end

end Refk
