import Refk.Clib.AvlMap

/-!
# The window search of `clib/avl.c`

`avl_search_window` goes down from the root until it is at a node inside the window, and visits
that node. It does not go on below it: of a window with several entries it visits the one nearest
to the root.
-/

namespace Refk

open Lib Avl Node

namespace Avl

variable {κ δ : Type}

/-- `search_window_helper`: the entries that the visitor is called on, in order. -/
def searchWindowHelper (cmp : κ → κ → Int) (key1 key2 : κ) : Node κ δ → List (κ × δ)
  | null => []
  | node l r _ k x =>
    let cmp1 := cmp key1 k
    let cmp2 := cmp key2 k
    if cmp1 ≥ 0 ∧ cmp2 ≤ 0 then [(k, x)]
    else if cmp2 > 0 then searchWindowHelper cmp key1 key2 r
    else if cmp1 < 0 then searchWindowHelper cmp key1 key2 l
    else []

end Avl

variable {κ δ : Type} {cmp : κ → κ → Int}

/-- `avl_search_window` -/
def avlSearchWindow (tree : AvlTree κ δ) (key1 key2 : κ) : List (κ × δ) :=
  searchWindowHelper tree.comparator key1 key2 tree.root

/-- A key in the window, which is from `key2` up to `key1`. -/
def KeyBetween (cmp : κ → κ → Int) (key1 key2 k : κ) : Prop := cmp key1 k ≥ 0 ∧ cmp key2 k ≤ 0

instance (cmp : κ → κ → Int) (key1 key2 k : κ) : Decidable (KeyBetween cmp key1 key2 k) :=
  inferInstanceAs (Decidable (_ ∧ _))

/-- The entries of a window. -/
def window (cmp : κ → κ → Int) (key1 key2 : κ) (entries : List (κ × δ)) : List (κ × δ) :=
  entries.filter fun e => KeyBetween cmp key1 key2 e.1

section
variable {key1 key2 k : κ} {x : δ} {l r : List (κ × δ)}

theorem window_eq_nil {entries : List (κ × δ)}
    (h : ∀ e ∈ entries, ¬ KeyBetween cmp key1 key2 e.1) : window cmp key1 key2 entries = [] := by
  apply List.filter_eq_nil_iff.mpr
  intro e he
  simpa using h e he

theorem window_split : window cmp key1 key2 (l ++ (k, x) :: r) = window cmp key1 key2 l ++
    window cmp key1 key2 [(k, x)] ++ window cmp key1 key2 r := by
  rw [window, window, window, window, ← List.filter_append, ← List.filter_append,
    List.append_assoc, List.singleton_append]

/-- A key below the window has nothing of it on its left. -/
theorem window_right (hc : TotalCmp cmp) (hs : Assoc.Sorted cmp (l ++ (k, x) :: r))
    (hk : cmp key2 k > 0) :
    window cmp key1 key2 (l ++ (k, x) :: r) = window cmp key1 key2 r := by
  obtain ⟨-, -, hlt⟩ := List.pairwise_append.mp hs
  have hl : window cmp key1 key2 l = [] := by
    apply window_eq_nil
    intro e he hin
    have hek : cmp e.1 k < 0 := hlt e he (k, x) (by simp)
    have hkk : cmp key2 k < 0 := hc.lt_of_le_of_lt hin.2 hek
    omega
  have hself : window cmp key1 key2 [(k, x)] = [] := by
    apply window_eq_nil
    intro e he hin
    rw [List.mem_singleton.mp he] at hin
    have hle : cmp key2 k ≤ 0 := hin.2
    omega
  rw [window_split, hl, hself, List.nil_append, List.nil_append]

/-- A key above the window has nothing of it on its right. -/
theorem window_left (hc : TotalCmp cmp) (hs : Assoc.Sorted cmp (l ++ (k, x) :: r))
    (hk : cmp key1 k < 0) :
    window cmp key1 key2 (l ++ (k, x) :: r) = window cmp key1 key2 l := by
  obtain ⟨-, hkr, -⟩ := List.pairwise_append.mp hs
  have hr : window cmp key1 key2 r = [] := by
    apply window_eq_nil
    intro e he hin
    have hke : cmp k e.1 < 0 := (List.pairwise_cons.mp hkr).1 e he
    have hlt : cmp key1 e.1 < 0 := hc.lt_of_lt_of_le hk hke.le
    exact absurd hin.1 (by omega)
  have hself : window cmp key1 key2 [(k, x)] = [] := by
    apply window_eq_nil
    intro e he hin
    rw [List.mem_singleton.mp he] at hin
    have hge : cmp key1 k ≥ 0 := hin.1
    omega
  rw [window_split, hr, hself, List.append_nil, List.append_nil]

end

/-- **The search visits one entry of the window**, if there is any. -/
theorem searchWindowHelper_spec (hc : TotalCmp cmp) (key1 key2 : κ) {t : Node κ δ}
    (hs : Assoc.Sorted cmp t.toList) :
    (window cmp key1 key2 t.toList = [] ∧ searchWindowHelper cmp key1 key2 t = []) ∨
      ∃ e ∈ window cmp key1 key2 t.toList, searchWindowHelper cmp key1 key2 t = [e] := by
  induction t with
  | null => exact Or.inl ⟨rfl, rfl⟩
  | node l r d k x ihl ihr =>
    obtain ⟨hl, hkr, -⟩ := List.pairwise_append.mp hs
    by_cases hin : KeyBetween cmp key1 key2 k
    · right
      refine ⟨(k, x), ?_, ?_⟩
      · exact List.mem_filter.mpr ⟨by simp, by simpa using hin⟩
      · rw [searchWindowHelper]
        exact if_pos hin
    · have hnode : searchWindowHelper cmp key1 key2 (node l r d k x) =
          if cmp key2 k > 0 then searchWindowHelper cmp key1 key2 r
          else if cmp key1 k < 0 then searchWindowHelper cmp key1 key2 l else [] := by
        rw [searchWindowHelper]
        exact if_neg hin
      rw [hnode]
      by_cases hright : cmp key2 k > 0
      · rw [if_pos hright, toList_node, window_right hc hs hright]
        exact ihr (List.pairwise_cons.mp hkr).2
      · have hleft : cmp key1 k < 0 := by
          by_contra hge
          exact hin ⟨by omega, by omega⟩
        rw [if_neg hright, if_pos hleft, toList_node, window_left hc hs hleft]
        exact ihl hl

/-- **The window search visits the whole window** exactly if there is at most one entry in it. -/
theorem search_window_visits (hc : TotalCmp cmp) {destructor : Bool}
    {tr : List (AvlOp κ δ × Option δ × List κ)} {tree : AvlTree κ δ}
    (h : Run avlStep (avlInitialize cmp destructor) tr tree) (key1 key2 : κ) :
    (avlSearchWindow tree key1 key2).Perm (window cmp key1 key2 tree.root.toList) ↔
      (window cmp key1 key2 tree.root.toList).length ≤ 1 := by
  have hinv := avlInv_of_run hc h
  rw [avlSearchWindow, hinv.comparator]
  cases searchWindowHelper_spec hc key1 key2 hinv.sorted with
  | inl hnone =>
    obtain ⟨hempty, hvisit⟩ := hnone
    rw [hempty, hvisit]
    simp
  | inr hone =>
    obtain ⟨e, he, hvisit⟩ := hone
    rw [hvisit]
    constructor
    · intro hperm
      exact hperm.length_eq.symm.le
    · intro hlen
      obtain ⟨e', he'⟩ := List.length_eq_one_iff.mp
        (Nat.le_antisymm hlen (List.length_pos_of_mem he))
      rw [he'] at he ⊢
      rw [List.mem_singleton.mp he]

/-- One entry in the window of three. -/
theorem search_window_visits_of_three : ∃ tree : AvlTree Nat Nat,
    Run avlStep (avlInitialize avlPtrcmp false)
      [(.insert 2 20, none, []), (.insert 1 10, none, []), (.insert 5 50, none, [])] tree ∧
    (avlSearchWindow tree 7 3).Perm (window avlPtrcmp 7 3 tree.root.toList) := by
  have h : Run avlStep (avlInitialize avlPtrcmp false) _ _ :=
    RunIf.of_exec avlStep _ _ [.insert 2 20, .insert 1 10, .insert 5 50] rfl
  exact ⟨_, h, (search_window_visits (avlPtrcmp_total (α := Nat)) h 7 3).mpr (by decide)⟩

/-- Two entries in the window, one of them visited. -/
theorem search_window_stops : ∃ tree : AvlTree Nat Nat,
    Run avlStep (avlInitialize avlPtrcmp false)
      [(.insert 1 10, none, []), (.insert 2 20, none, [])] tree ∧
    window avlPtrcmp 2 1 tree.root.toList = [(1, 10), (2, 20)] ∧
    avlSearchWindow tree 2 1 = [(1, 10)] ∧
    ¬ (avlSearchWindow tree 2 1).Perm (window avlPtrcmp 2 1 tree.root.toList) := by
  have h : Run avlStep (avlInitialize avlPtrcmp false) _ _ :=
    RunIf.of_exec avlStep _ _ [.insert 1 10, .insert 2 20] rfl
  refine ⟨_, h, by decide, by decide, ?_⟩
  intro hperm
  exact absurd hperm.length_eq (by decide)

end Refk
