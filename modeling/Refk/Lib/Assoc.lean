import Mathlib.Tactic

/-!
# Sorted association lists over a C comparator

The abstract side of every ordered table in this development: a list of `(key, data)`
pairs, strictly increasing under a three-way comparator, and the three operations a table
has on it. Nothing here knows about trees.

A comparator is an `Int`-valued function read by its sign, as in C, and `TotalCmp` is what
"total order" means for one. Two keys that compare equal need not be the same value — two
pointers to equal strings do — so `TotalCmp` is a total *pre*order and every statement is
about keys up to `cmp a b = 0`.
-/

namespace Refk.Lib

variable {κ δ : Type}

/-- A three-way comparator that is a total order on its keys: exchanging the arguments
    exchanges the sign, and `≤ 0` is transitive. -/
class TotalCmp (cmp : κ → κ → Int) : Prop where
  swap : ∀ a b, cmp a b < 0 ↔ 0 < cmp b a
  trans : ∀ a b c, cmp a b ≤ 0 → cmp b c ≤ 0 → cmp a c ≤ 0

namespace TotalCmp

variable {cmp : κ → κ → Int}

theorem self (h : TotalCmp cmp) (a : κ) : cmp a a = 0 := by
  have := h.swap a a
  omega

theorem eq_comm (h : TotalCmp cmp) (a b : κ) : cmp a b = 0 ↔ cmp b a = 0 := by
  have h₁ := h.swap a b
  have h₂ := h.swap b a
  omega

theorem le_swap (h : TotalCmp cmp) (a b : κ) : 0 ≤ cmp a b ↔ cmp b a ≤ 0 := by
  have := h.swap a b
  omega

theorem lt_of_lt_of_le (h : TotalCmp cmp) {a b c : κ} (hab : cmp a b < 0) (hbc : cmp b c ≤ 0) :
    cmp a c < 0 := by
  by_contra hac
  have hca : cmp c a ≤ 0 := (h.le_swap a c).mp (by omega)
  have hba : cmp b a ≤ 0 := h.trans b c a hbc hca
  have := h.swap a b
  omega

theorem lt_of_le_of_lt (h : TotalCmp cmp) {a b c : κ} (hab : cmp a b ≤ 0) (hbc : cmp b c < 0) :
    cmp a c < 0 := by
  by_contra hac
  have hca : cmp c a ≤ 0 := (h.le_swap a c).mp (by omega)
  have hcb : cmp c b ≤ 0 := h.trans c a b hca hab
  have := h.swap b c
  omega

/-- Comparing against either of two equal keys gives the same sign. -/
theorem neg_congr (h : TotalCmp cmp) {a b : κ} (c : κ) (hab : cmp a b = 0) :
    cmp a c < 0 ↔ cmp b c < 0 :=
  ⟨fun hac => h.lt_of_le_of_lt ((h.eq_comm a b).mp hab).le hac,
   fun hbc => h.lt_of_le_of_lt hab.le hbc⟩

theorem pos_congr (h : TotalCmp cmp) {a b : κ} (c : κ) (hab : cmp a b = 0) :
    0 < cmp a c ↔ 0 < cmp b c := by
  rw [← h.swap c a, ← h.swap c b]
  exact ⟨fun hca => h.lt_of_lt_of_le hca hab.le,
    fun hcb => h.lt_of_lt_of_le hcb ((h.eq_comm a b).mp hab).le⟩

theorem eq_congr (h : TotalCmp cmp) {a b : κ} (c : κ) (hab : cmp a b = 0) :
    cmp a c = 0 ↔ cmp b c = 0 := by
  have h₁ := h.neg_congr c hab
  have h₂ := h.pos_congr c hab
  omega

end TotalCmp

/-! ## The list operations -/

namespace Assoc

variable (cmp : κ → κ → Int)

/-- Strictly increasing keys. -/
def Sorted (l : List (κ × δ)) : Prop := l.Pairwise fun a b => cmp a.1 b.1 < 0

/-- The entry stored under `k`, key and all. -/
def find (k : κ) : List (κ × δ) → Option (κ × δ)
  | [] => none
  | e :: l => if cmp k e.1 = 0 then some e else find k l

/-- Bind `k` to `d`. A key that is already there keeps its stored copy. -/
def insert (k : κ) (d : δ) : List (κ × δ) → List (κ × δ)
  | [] => [(k, d)]
  | e :: l =>
    if cmp k e.1 = 0 then (e.1, d) :: l
    else if cmp k e.1 < 0 then (k, d) :: e :: l
    else e :: insert k d l

/-- Drop the entry stored under `k`. -/
def erase (k : κ) : List (κ × δ) → List (κ × δ)
  | [] => []
  | e :: l => if cmp k e.1 = 0 then l else e :: erase k l

/-- What `insert` leaves stored under its key: the copy that was there, or the new one. -/
def stored (k : κ) (d : δ) (old : Option (κ × δ)) : κ × δ := (old.elim k (·.1), d)

variable {cmp}

/-! ### Splitting a list at a node

A search tree's inorder list is `L ++ e :: R`; these say which part an operation works on. -/

theorem find_append_of_ne {k : κ} {l m : List (κ × δ)} (h : ∀ e ∈ l, cmp k e.1 ≠ 0) :
    find cmp k (l ++ m) = find cmp k m := by
  induction l with
  | nil => rfl
  | cons e l ih =>
    simp only [List.mem_cons, forall_eq_or_imp] at h
    simp [find, h.1, ih h.2]

theorem find_eq_none {k : κ} {l : List (κ × δ)} (h : ∀ e ∈ l, cmp k e.1 ≠ 0) :
    find cmp k l = none := by
  simpa [find] using find_append_of_ne (m := []) h

theorem find_append_left {k : κ} {l m : List (κ × δ)} (h : ∀ e ∈ m, cmp k e.1 ≠ 0) :
    find cmp k (l ++ m) = find cmp k l := by
  induction l with
  | nil => simpa [find] using find_eq_none h
  | cons e l ih => simp [find, ih]

theorem insert_append_right {k : κ} {d : δ} {l m : List (κ × δ)} (h : ∀ e ∈ l, 0 < cmp k e.1) :
    insert cmp k d (l ++ m) = l ++ insert cmp k d m := by
  induction l with
  | nil => rfl
  | cons e l ih =>
    simp only [List.mem_cons, forall_eq_or_imp] at h
    have h₀ := h.1
    simp [insert, ih h.2, show ¬ cmp k e.1 = 0 by omega, show ¬ cmp k e.1 < 0 by omega]

theorem insert_append_left {k : κ} {d : δ} {e : κ × δ} {l m : List (κ × δ)} (h : cmp k e.1 < 0) :
    insert cmp k d (l ++ e :: m) = insert cmp k d l ++ e :: m := by
  induction l with
  | nil => simp [insert, h, show ¬ cmp k e.1 = 0 by omega]
  | cons e' l ih =>
    simp only [List.cons_append, insert, ih]
    split_ifs <;> rfl

theorem erase_append_right {k : κ} {l m : List (κ × δ)} (h : ∀ e ∈ l, cmp k e.1 ≠ 0) :
    erase cmp k (l ++ m) = l ++ erase cmp k m := by
  induction l with
  | nil => rfl
  | cons e l ih =>
    simp only [List.mem_cons, forall_eq_or_imp] at h
    simp [erase, h.1, ih h.2]

theorem erase_eq_self {k : κ} {l : List (κ × δ)} (h : ∀ e ∈ l, cmp k e.1 ≠ 0) :
    erase cmp k l = l := by
  simpa [erase] using erase_append_right (m := []) h

theorem erase_append_left {k : κ} {l m : List (κ × δ)} (h : ∀ e ∈ m, cmp k e.1 ≠ 0) :
    erase cmp k (l ++ m) = erase cmp k l ++ m := by
  induction l with
  | nil => simpa [erase] using erase_eq_self h
  | cons e l ih =>
    simp only [List.cons_append, erase, ih]
    split_ifs <;> rfl

/-! ### The map laws -/

theorem mem_of_find {k : κ} {l : List (κ × δ)} {e : κ × δ} (h : find cmp k l = some e) :
    e ∈ l ∧ cmp k e.1 = 0 := by
  induction l with
  | nil => simp [find] at h
  | cons e' l ih =>
    by_cases hk : cmp k e'.1 = 0
    · simp only [find, hk, if_true, Option.some.injEq] at h
      subst h
      exact ⟨List.mem_cons_self, hk⟩
    · simp only [find, hk, if_false] at h
      exact ⟨List.mem_cons_of_mem _ (ih h).1, (ih h).2⟩

/-- In a sorted list the first hit is the only one. -/
theorem find_of_mem (hc : TotalCmp cmp) {k : κ} {l : List (κ × δ)} {e : κ × δ}
    (hs : Sorted cmp l) (hm : e ∈ l) (hk : cmp k e.1 = 0) : find cmp k l = some e := by
  induction l with
  | nil => simp at hm
  | cons e' l ih =>
    obtain ⟨hlt, hs'⟩ := List.pairwise_cons.mp hs
    rcases List.mem_cons.mp hm with rfl | hm
    · simp [find, hk]
    · have hne : ¬ cmp k e'.1 = 0 := by
        have h₁ : cmp e'.1 k < 0 := hc.lt_of_lt_of_le (hlt e hm) ((hc.eq_comm _ _).mp hk).le
        have h₂ := hc.swap e'.1 k
        omega
      simp [find, hne, ih hs' hm]

theorem find_congr (hc : TotalCmp cmp) {k k' : κ} (hk : cmp k k' = 0) (l : List (κ × δ)) :
    find cmp k l = find cmp k' l := by
  induction l with
  | nil => rfl
  | cons e l ih => simp only [find, ih, hc.eq_congr e.1 hk]

/-- Every key of the result is an old one or compares equal to the new one. -/
theorem insert_keys (P : κ → Prop) {k : κ} {d : δ} {l : List (κ × δ)} (hk : P k)
    (hl : ∀ e ∈ l, P e.1) : ∀ e ∈ insert cmp k d l, P e.1 := by
  induction l with
  | nil => simpa [insert] using hk
  | cons e' l ih =>
    simp only [List.mem_cons, forall_eq_or_imp] at hl
    simp only [insert]
    split_ifs
    · exact List.forall_mem_cons.mpr hl
    · exact List.forall_mem_cons.mpr ⟨hk, List.forall_mem_cons.mpr hl⟩
    · exact List.forall_mem_cons.mpr ⟨hl.1, ih hl.2⟩

theorem sorted_insert (hc : TotalCmp cmp) {k : κ} {d : δ} {l : List (κ × δ)}
    (hs : Sorted cmp l) : Sorted cmp (insert cmp k d l) := by
  induction l with
  | nil => simp [insert, Sorted]
  | cons e l ih =>
    obtain ⟨hlt, hs'⟩ := List.pairwise_cons.mp hs
    simp only [insert]
    split_ifs with h₁ h₂
    · exact List.pairwise_cons.mpr ⟨hlt, hs'⟩
    · refine List.pairwise_cons.mpr ⟨fun a ha => ?_, hs⟩
      rcases List.mem_cons.mp ha with rfl | ha
      · exact h₂
      · exact hc.lt_of_lt_of_le h₂ (hlt a ha).le
    · have hek : cmp e.1 k < 0 := by
        have := hc.swap e.1 k
        omega
      exact List.pairwise_cons.mpr ⟨insert_keys (fun x => cmp e.1 x < 0) hek hlt, ih hs'⟩

theorem sorted_erase {k : κ} {l : List (κ × δ)} (hs : Sorted cmp l) :
    Sorted cmp (erase cmp k l) := by
  have hsub : (erase cmp k l).Sublist l := by
    clear hs
    induction l with
    | nil => exact List.Sublist.refl _
    | cons e l ih =>
      simp only [erase]
      split_ifs
      · exact List.sublist_cons_self e l
      · exact ih.cons_cons e
  exact List.Pairwise.sublist hsub hs

theorem find_insert (hc : TotalCmp cmp) {k k' : κ} {d : δ} {l : List (κ × δ)}
    (hs : Sorted cmp l) : find cmp k' (insert cmp k d l) =
      if cmp k' k = 0 then some (stored k d (find cmp k l)) else find cmp k' l := by
  induction l with
  | nil => simp only [insert, find, stored, Option.elim]
  | cons e l ih =>
    obtain ⟨hlt, hs'⟩ := List.pairwise_cons.mp hs
    by_cases h₁ : cmp k e.1 = 0
    · have h₂ : cmp k' e.1 = 0 ↔ cmp k' k = 0 := by
        rw [hc.eq_comm k' e.1, hc.eq_comm k' k]
        exact hc.eq_congr k' ((hc.eq_comm _ _).mp h₁)
      by_cases h₃ : cmp k' k = 0
      · simp [insert, find, stored, h₁, h₂.mpr h₃, h₃]
      · simp [insert, find, h₁, h₃, mt h₂.mp h₃]
    · by_cases h₂ : cmp k e.1 < 0
      · -- nothing at or above `e` is equal to `k`
        have hnone : find cmp k (e :: l) = none := by
          refine find_eq_none fun a ha => ?_
          rcases List.mem_cons.mp ha with rfl | ha
          · exact h₁
          · exact (hc.lt_of_lt_of_le h₂ (hlt a ha).le).ne
        by_cases h₃ : cmp k' k = 0
        · rw [hnone]
          simp [insert, find, stored, h₁, h₂, h₃]
        · simp [insert, find, h₁, h₂, h₃]
      · by_cases h₃ : cmp k' e.1 = 0
        · have h₄ : ¬ cmp k' k = 0 := fun h =>
            h₁ ((hc.eq_congr e.1 ((hc.eq_comm _ _).mp h)).mpr h₃)
          simp [insert, find, h₁, h₂, h₃, h₄]
        · simp [insert, find, h₁, h₂, h₃, ih hs']

theorem find_erase (hc : TotalCmp cmp) {k k' : κ} {l : List (κ × δ)} (hs : Sorted cmp l) :
    find cmp k' (erase cmp k l) = if cmp k' k = 0 then none else find cmp k' l := by
  induction l with
  | nil => simp [erase, find]
  | cons e l ih =>
    obtain ⟨hlt, hs'⟩ := List.pairwise_cons.mp hs
    by_cases h₁ : cmp k e.1 = 0
    · simp only [erase, h₁, if_true]
      by_cases h₂ : cmp k' k = 0
      · simp only [h₂, if_true]
        refine find_eq_none fun a ha => ?_
        have h₃ : cmp k' a.1 < 0 := by
          have h₄ : cmp k' e.1 ≤ 0 := ((hc.eq_congr e.1 h₂).mpr h₁).le
          exact hc.lt_of_le_of_lt h₄ (hlt a ha)
        omega
      · have h₃ : ¬ cmp k' e.1 = 0 := fun h =>
          h₂ ((hc.eq_congr k h).mpr ((hc.eq_comm _ _).mp h₁))
        simp [find, h₂, h₃]
    · by_cases h₂ : cmp k' k = 0
      · have h₃ : ¬ cmp k' e.1 = 0 := fun h =>
          h₁ ((hc.eq_congr e.1 h₂).mp h)
        simpa [erase, find, h₁, h₂, h₃] using ih hs'
      · simp only [erase, h₁, if_false, find, ih hs', h₂]

/-- Inserting leaves exactly one entry for the key … -/
theorem filter_eq_insert (hc : TotalCmp cmp) {k : κ} {d : δ} {l : List (κ × δ)}
    (hs : Sorted cmp l) : (insert cmp k d l).filter (fun e => cmp k e.1 = 0) =
      [stored k d (find cmp k l)] := by
  induction l with
  | nil => simp [insert, find, stored, hc.self]
  | cons e l ih =>
    obtain ⟨hlt, hs'⟩ := List.pairwise_cons.mp hs
    by_cases h₁ : cmp k e.1 ≤ 0
    · have hnone : l.filter (fun a => decide (cmp k a.1 = 0)) = [] :=
        List.filter_eq_nil_iff.mpr fun a ha => by
          simpa using (hc.lt_of_le_of_lt h₁ (hlt a ha)).ne
      by_cases h₂ : cmp k e.1 = 0
      · simp [insert, find, stored, h₂, hnone]
      · have hfind : find cmp k l = none := find_eq_none fun a ha =>
          (hc.lt_of_le_of_lt h₁ (hlt a ha)).ne
        simp [insert, find, stored, h₂, show cmp k e.1 < 0 by omega, hc.self, hnone, hfind]
    · have h₂ : cmp k e.1 ≠ 0 := by omega
      simp [insert, find, h₂, show ¬ cmp k e.1 < 0 by omega, ih hs']

/-- … and every other entry as it was. -/
theorem filter_ne_insert (hc : TotalCmp cmp) {k : κ} {d : δ} {l : List (κ × δ)} :
    (insert cmp k d l).filter (fun e => cmp k e.1 ≠ 0) = l.filter fun e => cmp k e.1 ≠ 0 := by
  induction l with
  | nil => simp [insert, hc.self]
  | cons e l ih =>
    by_cases h₁ : cmp k e.1 = 0
    · simp [insert, h₁]
    · by_cases h₂ : cmp k e.1 < 0
      · simp [insert, h₁, h₂, hc.self]
      · simpa [insert, h₁, h₂] using ih

/-- Erasing removes that entry and no other. -/
theorem erase_eq_filter (hc : TotalCmp cmp) {k : κ} {l : List (κ × δ)} (hs : Sorted cmp l) :
    erase cmp k l = l.filter fun e => cmp k e.1 ≠ 0 := by
  induction l with
  | nil => rfl
  | cons e l ih =>
    obtain ⟨hlt, hs'⟩ := List.pairwise_cons.mp hs
    by_cases h₁ : cmp k e.1 = 0
    · have hall : ∀ a ∈ l, cmp k a.1 ≠ 0 := fun a ha =>
        (hc.lt_of_le_of_lt h₁.le (hlt a ha)).ne
      have hf : l.filter (fun a => decide (cmp k a.1 ≠ 0)) = l :=
        List.filter_eq_self.mpr fun a ha => by simpa using hall a ha
      simp only [erase, h₁, if_true, List.filter_cons]
      simpa using hf.symm
    · simp only [erase, h₁, if_false, ih hs', List.filter_cons]
      simp [h₁]

/-- A new key adds its entry … -/
theorem insert_perm {k : κ} {d : δ} {l : List (κ × δ)} (h : find cmp k l = none) :
    (insert cmp k d l).Perm ((k, d) :: l) := by
  induction l with
  | nil => exact List.Perm.refl _
  | cons e l ih =>
    simp only [find] at h
    split_ifs at h with h₁
    simp only [insert, h₁, if_false]
    split_ifs
    · exact List.Perm.refl _
    · exact ((ih h).cons e).trans (List.Perm.swap _ _ l)

/-- … and erasing a key takes its entry away. -/
theorem erase_perm {k : κ} {e : κ × δ} {l : List (κ × δ)} (h : find cmp k l = some e) :
    l.Perm (e :: erase cmp k l) := by
  induction l with
  | nil => cases h
  | cons a l ih =>
    simp only [find] at h
    split_ifs at h with h₁
    · obtain rfl : a = e := Option.some.inj h
      simp only [erase, h₁, if_true]
      exact List.Perm.refl _
    · simp only [erase, h₁, if_false]
      exact ((ih h).cons a).trans (List.Perm.swap _ _ _)

end Assoc

end Refk.Lib
