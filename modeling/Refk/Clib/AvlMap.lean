import Refk.Clib.Avl
import Refk.Lib.Run

/-!
# The AVL tree is a finite map

Everything the tree stores is in its inorder list, and every operation is one operation of
`Lib/Assoc.lean` on that list. Two facts carry the file:

* **rotations do not move entries** — `rotate`, `rebalance` and `update_depth` leave
  `toList` alone, so order and uniqueness never depend on when a rotation happens;
* **`Stamped`** — every stored depth is at least `1`, which is all it takes for a rotation
  never to follow a null child: `balance_factor` can only answer `2` on the side that is
  there. Nothing is assumed about the depths being right.
-/

namespace Refk.Avl

open Lib Node

variable {κ δ : Type}

/-- Every stored depth is positive. -/
def Stamped : Node κ δ → Prop
  | null => True
  | node l r d _ _ => 1 ≤ d ∧ Stamped l ∧ Stamped r

@[simp] theorem stamped_null : Stamped (null : Node κ δ) := trivial

@[simp] theorem stamped_node {l r : Node κ δ} {d : Int} {k : κ} {x : δ} :
    Stamped (node l r d k x) ↔ 1 ≤ d ∧ Stamped l ∧ Stamped r := Iff.rfl

@[simp] theorem toList_null : (null : Node κ δ).toList = [] := rfl

@[simp] theorem toList_node {l r : Node κ δ} {d : Int} {k : κ} {x : δ} :
    (node l r d k x).toList = l.toList ++ (k, x) :: r.toList := rfl

@[simp] theorem depth_null : (null : Node κ δ).depth = 0 := rfl

@[simp] theorem depth_node {l r : Node κ δ} {d : Int} {k : κ} {x : δ} :
    (node l r d k x).depth = d := rfl

theorem Stamped.depth_nonneg {t : Node κ δ} (h : Stamped t) : 0 ≤ t.depth := by
  cases t with
  | null => simp
  | node l r d k x => simp at h ⊢; omega

theorem newDepth_pos {l r : Node κ δ} (hl : Stamped l) (hr : Stamped r) : 1 ≤ newDepth l r := by
  cases l <;> cases r <;> simp [newDepth] at * <;> (try split_ifs) <;> omega

/-- `t'` holds what `t` holds and is safe to go on with. -/
structure Keeps (t t' : Node κ δ) : Prop where
  toList : t'.toList = t.toList
  stamped : Stamped t'
  ne_null : t' ≠ null

/-- A node whose depth has just been updated. -/
def stamp (l r : Node κ δ) (k : κ) (x : δ) : Node κ δ := node l r (newDepth l r) k x

@[simp] theorem updateDepth_node {l r : Node κ δ} {d : Int} {k : κ} {x : δ} :
    updateDepth (node l r d k x) = some (stamp l r k x) := rfl

@[simp] theorem toList_stamp {l r : Node κ δ} {k : κ} {x : δ} :
    (stamp l r k x).toList = l.toList ++ (k, x) :: r.toList := rfl

theorem stamped_stamp {l r : Node κ δ} {k : κ} {x : δ} (hl : Stamped l) (hr : Stamped r) :
    Stamped (stamp l r k x) := ⟨newDepth_pos hl hr, hl, hr⟩

theorem stamp_ne_null {l r : Node κ δ} {k : κ} {x : δ} : stamp l r k x ≠ null := by
  simp [stamp]

/-! ## Rotations

The five things `rebalance` can do, one equation each. -/

theorem rotate_left {l rl rr : Node κ δ} {d rd : Int} {k rk : κ} {x rx : δ} :
    rotate (node l (node rl rr rd rk rx) d k x) .left =
      some (stamp (stamp l rl k x) rr rk rx) := rfl

theorem rotate_right {ll lr r : Node κ δ} {d ld : Int} {k lk : κ} {x lx : δ} :
    rotate (node (node ll lr ld lk lx) r d k x) .right =
      some (stamp ll (stamp lr r k x) lk lx) := by
  cases r <;> rfl

section
variable {l r ll lr rl rr a b : Node κ δ} {d ld rd ad : Int} {k lk rk ak : κ} {x lx rx ax : δ}

theorem rebalance_none (h₁ : l.depth - r.depth ≠ 2) (h₂ : l.depth - r.depth ≠ -2) :
    rebalance (node l r d k x) = some (node l r d k x) := by
  simp [rebalance, balanceFactor, h₁, h₂]

theorem rebalance_left_single (h₁ : ld - r.depth = 2) (h₂ : ¬ ll.depth - lr.depth < 0) :
    rebalance (node (node ll lr ld lk lx) r d k x) =
      some (stamp ll (stamp lr r k x) lk lx) := by
  simp [rebalance, balanceFactor, h₁, h₂, rotate_right]

theorem rebalance_left_double (h₁ : ld - r.depth = 2) (h₂ : ll.depth - ad < 0) :
    rebalance (node (node ll (node a b ad ak ax) ld lk lx) r d k x) =
      some (stamp (stamp ll a lk lx) (stamp b r k x) ak ax) := by
  simp only [rebalance, balanceFactor, depth_node, h₁, h₂, if_true, Option.bind_eq_bind,
    Option.bind_some, rotate_left]
  exact rotate_right

theorem rebalance_right_single (h₁ : l.depth - rd = -2) (h₂ : ¬ rl.depth - rr.depth > 0) :
    rebalance (node l (node rl rr rd rk rx) d k x) =
      some (stamp (stamp l rl k x) rr rk rx) := by
  have h₃ : ¬ rr.depth < rl.depth := by omega
  simp [rebalance, balanceFactor, h₁, h₃, rotate_left]

theorem rebalance_right_double (h₁ : l.depth - rd = -2) (h₂ : ad - rr.depth > 0) :
    rebalance (node l (node (node a b ad ak ax) rr rd rk rx) d k x) =
      some (stamp (stamp l a k x) (stamp b rr rk rx) ak ax) := by
  have h₃ : rr.depth < ad := by omega
  simp only [rebalance, balanceFactor, depth_node, h₁, Option.bind_eq_bind, Option.bind_some,
    show ¬ (-2 : Int) = 2 by decide, if_true, if_false, h₂, rotate_right]
  exact rotate_left

end

/-- A stored depth that exceeds another is not the `0` of a null pointer. -/
theorem ne_null_of_depth {t u : Node κ δ} (hu : Stamped u) (h : t.depth - u.depth > 0) :
    t ≠ null := by
  rintro rfl
  have := hu.depth_nonneg
  simp at h
  omega

/-- **`rebalance` never follows a null child**, whatever the stored depths are, and only
    rearranges. The inner rotation has a grandchild to lift because its balance factor has
    the sign that says so. -/
theorem rebalance_keeps {l r : Node κ δ} {d : Int} {k : κ} {x : δ}
    (h : Stamped (node l r d k x)) :
    ∃ t', rebalance (node l r d k x) = some t' ∧ Keeps (node l r d k x) t' := by
  obtain ⟨hd, hl, hr⟩ := h
  by_cases h₂ : l.depth - r.depth = 2
  · cases l with
    | null => exact absurd rfl (ne_null_of_depth hr (t := null) (by omega))
    | node ll lr ld lk lx =>
      obtain ⟨-, hll, hlr⟩ := hl
      by_cases h₃ : ll.depth - lr.depth < 0
      · cases lr with
        | null => exact absurd rfl (ne_null_of_depth hll (t := null) (by omega))
        | node a b ad ak ax =>
          exact ⟨_, rebalance_left_double h₂ h₃, by simp,
            stamped_stamp (stamped_stamp hll hlr.2.1) (stamped_stamp hlr.2.2 hr), stamp_ne_null⟩
      · exact ⟨_, rebalance_left_single h₂ h₃, by simp,
          stamped_stamp hll (stamped_stamp hlr hr), stamp_ne_null⟩
  · by_cases h₃ : l.depth - r.depth = -2
    · cases r with
      | null => exact absurd rfl (ne_null_of_depth hl (t := null) (by omega))
      | node rl rr rd rk rx =>
        obtain ⟨-, hrl, hrr⟩ := hr
        by_cases h₄ : rl.depth - rr.depth > 0
        · cases rl with
          | null => exact absurd rfl (ne_null_of_depth hrr (t := null) (by omega))
          | node a b ad ak ax =>
            exact ⟨_, rebalance_right_double h₃ h₄, by simp,
              stamped_stamp (stamped_stamp hl hrl.2.1) (stamped_stamp hrl.2.2 hrr),
              stamp_ne_null⟩
        · exact ⟨_, rebalance_right_single h₃ h₄, by simp,
            stamped_stamp (stamped_stamp hl hrl) hrr, stamp_ne_null⟩
    · exact ⟨_, rebalance_none h₂ h₃, rfl, ⟨hd, hl, hr⟩, by simp⟩

theorem insertTail_keeps {l r : Node κ δ} {d : Int} {k : κ} {x : δ}
    (h : Stamped (node l r d k x)) :
    ∃ t', insertTail (node l r d k x) = some t' ∧ Keeps (node l r d k x) t' := by
  obtain ⟨t₁, h₁, k₁⟩ := rebalance_keeps h
  cases t₁ with
  | null => exact absurd rfl k₁.ne_null
  | node l₁ r₁ d₁ k₁' x₁ =>
    exact ⟨stamp l₁ r₁ k₁' x₁, by simp [insertTail, h₁], k₁.toList,
      stamped_stamp k₁.stamped.2.1 k₁.stamped.2.2, stamp_ne_null⟩

theorem removeTail_keeps {t : Node κ δ} (h : Stamped t) :
    ∃ t', removeTail t = some t' ∧ t'.toList = t.toList ∧ Stamped t' := by
  cases t with
  | null => exact ⟨null, rfl, rfl, trivial⟩
  | node l r d k x =>
    obtain ⟨t', ht', hk⟩ := rebalance_keeps (stamped_stamp (k := k) (x := x) h.2.1 h.2.2)
    exact ⟨t', ht', hk.toList, hk.stamped⟩

/-! ## Insertion -/

variable {cmp : κ → κ → Int}

/-- The two halves of a sorted inorder list, compared with the node between them. -/
theorem sorted_node {l r : Node κ δ} {d : Int} {k : κ} {x : δ}
    (h : Assoc.Sorted cmp (node l r d k x).toList) :
    Assoc.Sorted cmp l.toList ∧ Assoc.Sorted cmp r.toList ∧
      (∀ e ∈ l.toList, cmp e.1 k < 0) ∧ (∀ e ∈ r.toList, cmp k e.1 < 0) := by
  obtain ⟨hl, hkr, hlt⟩ := List.pairwise_append.mp h
  obtain ⟨hr, hr'⟩ := List.pairwise_cons.mp hkr
  exact ⟨hl, hr', fun e he => hlt e he _ List.mem_cons_self, hr⟩

theorem insertHelper_spec (hc : TotalCmp cmp) (key : κ) (data : δ) :
    ∀ {t : Node κ δ}, Stamped t → Assoc.Sorted cmp t.toList →
      ∃ t', insertHelper cmp key data t
          = some (t', (Assoc.find cmp key t.toList).map (·.2)) ∧
        t'.toList = Assoc.insert cmp key data t.toList ∧ Stamped t' ∧ t' ≠ null := by
  intro t
  induction t with
  | null => intro _ _; exact ⟨_, rfl, rfl, by simp, by simp⟩
  | node l r d k x ihl ihr =>
    intro hst hs
    obtain ⟨hd, hl, hr⟩ := hst
    obtain ⟨hsl, hsr, hlt, hgt⟩ := sorted_node hs
    by_cases h₀ : cmp key k = 0
    · -- the node with this key: its left part is skipped, its data replaced
      have hpos : ∀ e ∈ l.toList, 0 < cmp key e.1 := fun e he =>
        (hc.swap e.1 key).mp (hc.lt_of_lt_of_le (hlt e he) ((hc.eq_comm _ _).mp h₀).le)
      have hfind : Assoc.find cmp key (node l r d k x).toList = some (k, x) := by
        rw [toList_node, Assoc.find_append_of_ne fun e he => (hpos e he).ne']
        simp [Assoc.find, h₀]
      refine ⟨node l r d k data, ?_, ?_, ⟨hd, hl, hr⟩, by simp⟩
      · rw [hfind]
        simp [insertHelper, h₀]
      · simp [Assoc.insert_append_right hpos, Assoc.insert, h₀]
    · by_cases h₁ : cmp key k < 0
      · obtain ⟨l', hl', hlist, hst', -⟩ := ihl hl hsl
        obtain ⟨t', ht', hk⟩ := insertTail_keeps (l := l') (r := r) (d := d) (k := k) (x := x)
          ⟨hd, hst', hr⟩
        have hne : ∀ e ∈ (k, x) :: r.toList, cmp key e.1 ≠ 0 := by
          refine List.forall_mem_cons.mpr ⟨h₀, fun e he => ?_⟩
          exact (hc.lt_of_lt_of_le h₁ (hgt e he).le).ne
        refine ⟨t', ?_, ?_, hk.stamped, hk.ne_null⟩
        · simp [insertHelper, h₀, h₁, hl', ht', Assoc.find_append_left hne]
        · rw [hk.toList, toList_node, toList_node, hlist,
            Assoc.insert_append_left (e := (k, x)) h₁]
      · have hk' : cmp k key < 0 := (hc.swap k key).mpr (by omega)
        have hpos : ∀ e ∈ l.toList, 0 < cmp key e.1 := fun e he =>
          (hc.swap e.1 key).mp (hc.lt_of_lt_of_le (hlt e he) hk'.le)
        obtain ⟨r', hr', hlist, hst', -⟩ := ihr hr hsr
        obtain ⟨t', ht', hk⟩ := insertTail_keeps (l := l) (r := r') (d := d) (k := k) (x := x)
          ⟨hd, hl, hst'⟩
        refine ⟨t', ?_, ?_, hk.stamped, hk.ne_null⟩
        · rw [toList_node, Assoc.find_append_of_ne fun e he => (hpos e he).ne']
          simp [insertHelper, h₀, h₁, hr', ht', Assoc.find]
        · rw [hk.toList, toList_node, toList_node, hlist, Assoc.insert_append_right hpos]
          simp [Assoc.insert, h₀, h₁]

theorem searchFrom_spec (hc : TotalCmp cmp) (key : κ) :
    ∀ {t : Node κ δ}, Assoc.Sorted cmp t.toList →
      searchFrom cmp key t = (Assoc.find cmp key t.toList).map (·.2) := by
  intro t
  induction t with
  | null => intro _; rfl
  | node l r d k x ihl ihr =>
    intro hs
    obtain ⟨hsl, hsr, hlt, hgt⟩ := sorted_node hs
    by_cases h₀ : cmp key k ≤ 0
    · have hne : cmp key k ≠ 0 → ∀ e ∈ (k, x) :: r.toList, cmp key e.1 ≠ 0 := fun h =>
        List.forall_mem_cons.mpr ⟨h, fun e he => (hc.lt_of_le_of_lt h₀ (hgt e he)).ne⟩
      by_cases h₁ : cmp key k = 0
      · have hpos : ∀ e ∈ l.toList, cmp key e.1 ≠ 0 := fun e he =>
          ((hc.swap e.1 key).mp (hc.lt_of_lt_of_le (hlt e he) ((hc.eq_comm _ _).mp h₁).le)).ne'
        rw [toList_node, Assoc.find_append_of_ne hpos]
        simp [searchFrom, Assoc.find, h₁]
      · rw [toList_node, Assoc.find_append_left (hne h₁), ← ihl hsl]
        simp [searchFrom, h₁, show cmp key k < 0 by omega]
    · have hk' : cmp k key < 0 := (hc.swap k key).mpr (by omega)
      have hpos : ∀ e ∈ l.toList, cmp key e.1 ≠ 0 := fun e he =>
        ((hc.swap e.1 key).mp (hc.lt_of_lt_of_le (hlt e he) hk'.le)).ne'
      rw [toList_node, Assoc.find_append_of_ne hpos]
      simp [searchFrom, Assoc.find, ihr hsr, show ¬ cmp key k = 0 by omega,
        show ¬ cmp key k < 0 by omega]

/-! ## Removal -/

theorem takeMax_spec : ∀ {t : Node κ δ}, Stamped t → t ≠ null →
    ∃ k x t', takeMax t = some (k, x, t') ∧ t'.toList ++ [(k, x)] = t.toList ∧ Stamped t' := by
  intro t
  induction t with
  | null => intro _ h; exact absurd rfl h
  | node l r d k x _ ihr =>
    intro hst _
    obtain ⟨hd, hl, hr⟩ := hst
    cases r with
    | null => exact ⟨k, x, l, rfl, by simp, hl⟩
    | node rl rr rd rk rx =>
      obtain ⟨k', x', r', hr', hlist, hst'⟩ := ihr hr (by simp)
      refine ⟨k', x', node l r' d k x, by simp [takeMax, hr'], ?_, hd, hl, hst'⟩
      rw [toList_node, toList_node, ← hlist]
      simp

theorem removeDepthHelper_spec : ∀ {t : Node κ δ}, Stamped t →
    ∃ t', removeDepthHelper t = some t' ∧ t'.toList = t.toList ∧ Stamped t' := by
  intro t
  induction t with
  | null => intro _; exact ⟨null, rfl, rfl, trivial⟩
  | node l r d k x _ ihr =>
    intro hst
    obtain ⟨hd, hl, hr⟩ := hst
    obtain ⟨r', hr', hlist, hst'⟩ := ihr hr
    exact ⟨stamp l r' k x, by simp [removeDepthHelper, hr'], by simp [hlist],
      stamped_stamp hl hst'⟩

/-- Whatever shape the found node has, exactly its own entry goes. -/
theorem removeFound_spec {l r : Node κ δ} {d : Int} (hd : 1 ≤ d) (hl : Stamped l)
    (hr : Stamped r) :
    ∃ t', removeFound l r d = some t' ∧ t'.toList = l.toList ++ r.toList ∧ Stamped t' := by
  cases l with
  | null => exact ⟨r, by cases r <;> rfl, by simp, hr⟩
  | node ll lr ld lk lx =>
    cases r with
    | null => exact ⟨_, rfl, by simp, hl⟩
    | node rl rr rd rk rx =>
      obtain ⟨k', x', l', h₁, hlist, hst⟩ := takeMax_spec hl (by simp)
      obtain ⟨l'', h₂, hlist', hst'⟩ := removeDepthHelper_spec hst
      refine ⟨node l'' (node rl rr rd rk rx) d k' x', by simp [removeFound, h₁, h₂], ?_, hd, hst',
        hr⟩
      rw [toList_node, hlist', ← hlist]
      simp

theorem removeHelper_spec (hc : TotalCmp cmp) (destructor : Bool) (key : κ) :
    ∀ {t : Node κ δ}, Stamped t → Assoc.Sorted cmp t.toList →
      ∃ t', removeHelper cmp destructor key t
          = some ⟨t', (Assoc.find cmp key t.toList).map (·.2),
              if destructor then ((Assoc.find cmp key t.toList).map (·.1)).toList else []⟩ ∧
        t'.toList = Assoc.erase cmp key t.toList ∧ Stamped t' := by
  intro t
  induction t with
  | null => intro _ _; exact ⟨null, by simp [removeHelper, Assoc.find], rfl, trivial⟩
  | node l r d k x ihl ihr =>
    intro hst hs
    obtain ⟨hd, hl, hr⟩ := hst
    obtain ⟨hsl, hsr, hlt, hgt⟩ := sorted_node hs
    by_cases h₁ : cmp key k < 0
    · obtain ⟨l', hl', hlist, hst'⟩ := ihl hl hsl
      obtain ⟨t', ht', hk, hst''⟩ := removeTail_keeps (t := node l' r d k x) ⟨hd, hst', hr⟩
      have hne : ∀ e ∈ (k, x) :: r.toList, cmp key e.1 ≠ 0 :=
        List.forall_mem_cons.mpr ⟨h₁.ne, fun e he => (hc.lt_of_lt_of_le h₁ (hgt e he).le).ne⟩
      refine ⟨t', ?_, ?_, hst''⟩
      · rw [toList_node, Assoc.find_append_left hne]
        simp [removeHelper, h₁, hl', ht']
      · rw [hk, toList_node, toList_node, hlist, Assoc.erase_append_left hne]
    · have hpos : ∀ e ∈ l.toList, cmp key e.1 ≠ 0 := fun e he => by
        have h₂ : cmp k key ≤ 0 := (hc.le_swap key k).mp (by omega)
        exact ((hc.swap e.1 key).mp (hc.lt_of_lt_of_le (hlt e he) h₂)).ne'
      by_cases h₂ : cmp key k > 0
      · obtain ⟨r', hr', hlist, hst'⟩ := ihr hr hsr
        obtain ⟨t', ht', hk, hst''⟩ := removeTail_keeps (t := node l r' d k x) ⟨hd, hl, hst'⟩
        refine ⟨t', ?_, ?_, hst''⟩
        · rw [toList_node, Assoc.find_append_of_ne hpos]
          simp [removeHelper, h₁, h₂, hr', ht', Assoc.find, h₂.ne']
        · rw [hk, toList_node, toList_node, hlist, Assoc.erase_append_right hpos]
          simp [Assoc.erase, h₂.ne']
      · have h₀ : cmp key k = 0 := by omega
        obtain ⟨n, hn, hlist, hstn⟩ := removeFound_spec hd hl hr
        obtain ⟨t', ht', hk, hst'⟩ := removeTail_keeps hstn
        refine ⟨t', ?_, ?_, hst'⟩
        · rw [toList_node, Assoc.find_append_of_ne hpos]
          simp [removeHelper, hn, ht', Assoc.find, h₀]
        · rw [hk, hlist, toList_node, Assoc.erase_append_right hpos]
          simp [Assoc.erase, h₀]

/-- Left keys smaller, right keys larger, at every node. -/
def Ordered (cmp : κ → κ → Int) : Node κ δ → Prop
  | null => True
  | node l r _ k _ => (∀ e ∈ l.toList, cmp e.1 k < 0) ∧ (∀ e ∈ r.toList, cmp k e.1 < 0) ∧
      Ordered cmp l ∧ Ordered cmp r

theorem ordered_of_sorted : ∀ {t : Node κ δ}, Assoc.Sorted cmp t.toList → Ordered cmp t := by
  intro t
  induction t with
  | null => exact fun _ => trivial
  | node l r d k x ihl ihr =>
    intro hs
    obtain ⟨hsl, hsr, hlt, hgt⟩ := sorted_node hs
    exact ⟨hlt, hgt, ihl hsl, ihr hsr⟩

end Refk.Avl

namespace Refk

open Lib Avl

variable {κ δ : Type} {cmp : κ → κ → Int}

/-! ## Histories

A run of a tree is a history of `avl_insert` and `avl_remove` from `avl_initialize`. -/

inductive AvlOp (κ δ : Type) where
  | insert (key : κ) (data : δ)
  | remove (key : κ)

/-- One call; the output is the returned data and the keys the destructor was called on. -/
def avlStep (tree : AvlTree κ δ) : AvlOp κ δ → Option (AvlTree κ δ × Option δ × List κ)
  | .insert key data => do
    let (tree', ret) ← avlInsert tree key data
    return (tree', ret, [])
  | .remove key => avlRemove tree key

/-- What a history says about `key`: the data of the last insertion that no removal
    followed, under the copy of the key that the first of those insertions stored. -/
def boundBy (cmp : κ → κ → Int) (key : κ) (ops : List (AvlOp κ δ)) : Option (κ × δ) :=
  ops.foldl (fun cur op => match op with
    | .insert k d => if cmp key k = 0 then some (Assoc.stored k d cur) else cur
    | .remove k => if cmp key k = 0 then none else cur) none

/-- The invariant of a run: the shape facts that make the next call safe, and the history as
    the tree's list has it. -/
structure AvlInv (cmp : κ → κ → Int) (destructor : Bool) (ops : List (AvlOp κ δ))
    (tree : AvlTree κ δ) : Prop where
  comparator : tree.comparator = cmp
  destructor : tree.destructor = destructor
  stamped : Stamped tree.root
  sorted : Assoc.Sorted cmp tree.root.toList
  find : ∀ key, Assoc.find cmp key tree.root.toList = boundBy cmp key ops

theorem avlInsert_spec (hc : TotalCmp cmp) {tree : AvlTree κ δ} (hcmp : tree.comparator = cmp)
    (hst : Stamped tree.root) (hs : Assoc.Sorted cmp tree.root.toList) (key : κ) (data : δ) :
    ∃ n, avlInsert tree key data = some ({ tree with root := n },
        (Assoc.find cmp key tree.root.toList).map (·.2)) ∧
      n.toList = Assoc.insert cmp key data tree.root.toList ∧ Stamped n := by
  obtain ⟨n, hn, hlist, hst', -⟩ := insertHelper_spec hc key data hst hs
  exact ⟨n, by simp [avlInsert, hcmp, hn], hlist, hst'⟩

theorem avlRemove_spec (hc : TotalCmp cmp) {tree : AvlTree κ δ} (hcmp : tree.comparator = cmp)
    (hst : Stamped tree.root) (hs : Assoc.Sorted cmp tree.root.toList) (key : κ) :
    ∃ n, avlRemove tree key = some ({ tree with root := n },
        (Assoc.find cmp key tree.root.toList).map (·.2),
        if tree.destructor then ((Assoc.find cmp key tree.root.toList).map (·.1)).toList
        else []) ∧
      n.toList = Assoc.erase cmp key tree.root.toList ∧ Stamped n := by
  obtain ⟨n, hn, hlist, hst'⟩ := removeHelper_spec hc tree.destructor key hst hs
  exact ⟨n, by simp [avlRemove, hcmp, hn], hlist, hst'⟩

theorem avlInv_step (hc : TotalCmp cmp) {destructor : Bool} {ops : List (AvlOp κ δ)}
    {tree tree' : AvlTree κ δ} {op : AvlOp κ δ} {out : Option δ × List κ}
    (h : AvlInv cmp destructor ops tree) (hstep : avlStep tree op = some (tree', out)) :
    AvlInv cmp destructor (ops ++ [op]) tree' := by
  cases op with
  | insert key data =>
    obtain ⟨n, hn, hlist, hst⟩ := avlInsert_spec hc h.comparator h.stamped h.sorted key data
    simp only [avlStep, hn, Option.bind_eq_bind, Option.bind_some, Option.pure_def,
      Option.some.injEq, Prod.mk.injEq] at hstep
    obtain ⟨rfl, -⟩ := hstep
    refine ⟨h.comparator, h.destructor, hst, ?_, fun k => ?_⟩
    · exact hlist ▸ Assoc.sorted_insert hc h.sorted
    · rw [hlist, Assoc.find_insert hc h.sorted, boundBy, List.foldl_append]
      simp only [List.foldl_cons, List.foldl_nil]
      rw [← boundBy, ← h.find]
      split_ifs with hk
      · rw [Assoc.find_congr hc hk]
      · rfl
  | remove key =>
    obtain ⟨n, hn, hlist, hst⟩ := avlRemove_spec hc h.comparator h.stamped h.sorted key
    simp only [avlStep, hn, Option.some.injEq, Prod.mk.injEq] at hstep
    obtain ⟨rfl, -⟩ := hstep
    refine ⟨h.comparator, h.destructor, hst, ?_, fun k => ?_⟩
    · exact hlist ▸ Assoc.sorted_erase h.sorted
    · rw [hlist, Assoc.find_erase hc h.sorted, boundBy, List.foldl_append]
      simp only [List.foldl_cons, List.foldl_nil]
      rw [← boundBy, ← h.find]

theorem avlInv_of_run (hc : TotalCmp cmp) {destructor : Bool}
    {tr : List (AvlOp κ δ × Option δ × List κ)} {tree : AvlTree κ δ}
    (h : Run avlStep (avlInitialize cmp destructor) tr tree) :
    AvlInv cmp destructor (tr.map (·.1)) tree :=
  h.invariant (fun tr tree => AvlInv cmp destructor (tr.map (·.1)) tree)
    ⟨rfl, rfl, stamped_null, by simp [avlInitialize, Assoc.Sorted], fun _ => rfl⟩
    fun tr tree op tree' out hinv _ hstep => by
      simpa using avlInv_step hc hinv hstep

/-- **The AVL tree is a finite map.** In every state a history reaches, the keys are in
    order, a search answers what the history says, and neither operation can follow a null
    pointer. An insertion returns the previous data and leaves one entry for its key; a
    removal returns the removed data, drops that entry alone, and hands the destructor the
    stored copy of the key, once, with no equal key left in the tree. -/
theorem avl_finite_map (hc : TotalCmp cmp) {destructor : Bool}
    {tr : List (AvlOp κ δ × Option δ × List κ)} {tree : AvlTree κ δ}
    (h : Run avlStep (avlInitialize cmp destructor) tr tree) :
    Ordered cmp tree.root ∧
    (∀ key, avlSearch tree key = (boundBy cmp key (tr.map (·.1))).map (·.2)) ∧
    (∀ key data, ∃ tree', avlInsert tree key data
        = some (tree', (boundBy cmp key (tr.map (·.1))).map (·.2)) ∧
      Ordered cmp tree'.root ∧
      tree'.root.toList.filter (fun e => cmp key e.1 = 0)
        = [Assoc.stored key data (boundBy cmp key (tr.map (·.1)))] ∧
      tree'.root.toList.filter (fun e => cmp key e.1 ≠ 0)
        = tree.root.toList.filter (fun e => cmp key e.1 ≠ 0)) ∧
    (∀ key, ∃ tree' destroyed, avlRemove tree key
        = some (tree', (boundBy cmp key (tr.map (·.1))).map (·.2), destroyed) ∧
      Ordered cmp tree'.root ∧
      tree'.root.toList = tree.root.toList.filter (fun e => cmp key e.1 ≠ 0) ∧
      destroyed = (if destructor then ((boundBy cmp key (tr.map (·.1))).map (·.1)).toList
        else []) ∧
      ∀ k ∈ destroyed, ∀ e ∈ tree'.root.toList, cmp k e.1 ≠ 0) := by
  have hinv := avlInv_of_run hc h
  refine ⟨ordered_of_sorted hinv.sorted, fun key => ?_, fun key data => ?_, fun key => ?_⟩
  · rw [avlSearch, hinv.comparator, searchFrom_spec hc key hinv.sorted, hinv.find]
  · obtain ⟨n, hn, hlist, hst⟩ := avlInsert_spec hc hinv.comparator hinv.stamped hinv.sorted key
      data
    refine ⟨_, hinv.find key ▸ hn, ?_, ?_, ?_⟩
    · exact ordered_of_sorted (hlist ▸ Assoc.sorted_insert hc hinv.sorted)
    · rw [hlist, Assoc.filter_eq_insert hc hinv.sorted, hinv.find]
    · rw [hlist, Assoc.filter_ne_insert hc]
  · obtain ⟨n, hn, hlist, hst⟩ := avlRemove_spec hc hinv.comparator hinv.stamped hinv.sorted key
    rw [hinv.find, hinv.destructor] at hn
    rw [Assoc.erase_eq_filter hc hinv.sorted] at hlist
    refine ⟨_, _, hn, ?_, hlist, rfl, fun k hk e he => ?_⟩
    · refine ordered_of_sorted ?_
      rw [hlist, ← Assoc.erase_eq_filter hc hinv.sorted]
      exact Assoc.sorted_erase hinv.sorted
    · -- the destroyed key is the one the removal looked up
      rw [hlist] at he
      have hne : cmp key e.1 ≠ 0 := by simpa using (List.mem_filter.mp he).2
      rw [← hinv.find] at hk
      cases hf : Assoc.find cmp key tree.root.toList with
      | none => simp [hf] at hk
      | some e' =>
        have hkey : k = e'.1 := by
          split_ifs at hk <;> simp_all
        rw [hkey]
        exact fun h₀ => hne ((hc.eq_congr e.1 (Assoc.mem_of_find hf).2).mpr h₀)

theorem avlPtrcmp_total {α : Type} [LinearOrder α] : TotalCmp (avlPtrcmp : α → α → Int) where
  swap a b := by
    rcases lt_trichotomy a b with h | rfl | h
    · simp [avlPtrcmp, h, h.not_gt]
    · simp [avlPtrcmp]
    · simp [avlPtrcmp, h, h.not_gt]
  trans a b c := by
    have key : ∀ x y : α, avlPtrcmp x y ≤ 0 ↔ x ≤ y := fun x y => by
      rcases lt_trichotomy x y with h | rfl | h
      · simp [avlPtrcmp, h, h.le]
      · simp [avlPtrcmp]
      · simp [avlPtrcmp, h, h.not_gt, h.not_ge]
    simp only [key]
    exact le_trans

instance {α : Type} [LinearOrder α] : TotalCmp (avlPtrcmp : α → α → Int) := avlPtrcmp_total

/-- Insert, insert, remove: the theorem at a history that has all three kinds of answer. -/
theorem avl_finite_map_of_three : ∃ tree : AvlTree Nat Nat,
    Run avlStep (avlInitialize avlPtrcmp true)
      [(.insert 2 20, none, []), (.insert 1 10, none, []), (.remove 2, some 20, [2])] tree ∧
    avlSearch tree 1 = some 10 ∧ avlSearch tree 2 = none := by
  have h : Run avlStep (avlInitialize avlPtrcmp true) _ _ :=
    RunIf.of_exec avlStep _ _ [.insert 2 20, .insert 1 10, .remove 2] rfl
  have hsearch := (avl_finite_map (avlPtrcmp_total (α := Nat)) h).2.1
  exact ⟨_, h, (hsearch 1).trans (by decide), (hsearch 2).trans (by decide)⟩

/-! ## The tree as a map type

What the kernel's own tables are: a root that the operations can be called on safely, so
that an ill-formed tree cannot be built and the operations are total. -/

/-- A tree under the comparator `cmp`, without a key destructor, together with the two facts
    that make its operations safe. -/
structure AvlMap (κ δ : Type) (cmp : κ → κ → Int) where
  root : Node κ δ
  stamped : Stamped root
  sorted : Assoc.Sorted cmp root.toList

namespace AvlMap

/-- `avl_initialize` -/
def empty : AvlMap κ δ cmp := ⟨.null, trivial, List.Pairwise.nil⟩

/-- `avl_search` -/
def search (m : AvlMap κ δ cmp) (key : κ) : Option δ := searchFrom cmp key m.root

theorem insertHelper_isSome (hc : TotalCmp cmp) (m : AvlMap κ δ cmp) (key : κ) (data : δ) :
    (insertHelper cmp key data m.root).isSome := by
  obtain ⟨n, hn, -⟩ := insertHelper_spec hc key data m.stamped m.sorted
  simp [hn]

theorem removeHelper_isSome (hc : TotalCmp cmp) (m : AvlMap κ δ cmp) (key : κ) :
    (removeHelper cmp false key m.root).isSome := by
  obtain ⟨n, hn, -⟩ := removeHelper_spec hc false key m.stamped m.sorted
  simp [hn]

@[simp] theorem search_empty (key : κ) : (empty : AvlMap κ δ cmp).search key = none := rfl

variable [hc : TotalCmp cmp]

/-- `avl_insert`: the new tree and the returned data. -/
def insert (m : AvlMap κ δ cmp) (key : κ) (data : δ) : AvlMap κ δ cmp × Option δ :=
  let out := (insertHelper cmp key data m.root).get (insertHelper_isSome hc m key data)
  have h : Stamped out.1 ∧ Assoc.Sorted cmp out.1.toList := by
    obtain ⟨n, hn, hlist, hst, -⟩ := insertHelper_spec hc key data m.stamped m.sorted
    simp only [out, hn, Option.get_some]
    exact ⟨hst, hlist ▸ Assoc.sorted_insert hc m.sorted⟩
  (⟨out.1, h.1, h.2⟩, out.2)

/-- `avl_remove`: the new tree and the returned data. -/
def remove (m : AvlMap κ δ cmp) (key : κ) : AvlMap κ δ cmp × Option δ :=
  let out := (removeHelper cmp false key m.root).get (removeHelper_isSome hc m key)
  have h : Stamped out.node ∧ Assoc.Sorted cmp out.node.toList := by
    obtain ⟨n, hn, hlist, hst⟩ := removeHelper_spec hc false key m.stamped m.sorted
    simp only [out, hn, Option.get_some]
    exact ⟨hst, hlist ▸ Assoc.sorted_erase m.sorted⟩
  (⟨out.node, h.1, h.2⟩, out.ret)

/-- The entries in key order. -/
def toList (m : AvlMap κ δ cmp) : List (κ × δ) := m.root.toList

theorem toList_insert (m : AvlMap κ δ cmp) (key : κ) (data : δ) :
    (m.insert key data).1.toList = Assoc.insert cmp key data m.toList := by
  obtain ⟨n, hn, hlist, -⟩ := insertHelper_spec hc key data m.stamped m.sorted
  simp only [insert, toList, hn, Option.get_some, hlist]

theorem toList_remove (m : AvlMap κ δ cmp) (key : κ) :
    (m.remove key).1.toList = Assoc.erase cmp key m.toList := by
  obtain ⟨n, hn, hlist, -⟩ := removeHelper_spec hc false key m.stamped m.sorted
  simp only [remove, toList, hn, Option.get_some, hlist]

theorem search_eq (m : AvlMap κ δ cmp) (key : κ) :
    m.search key = (Assoc.find cmp key m.toList).map (·.2) := searchFrom_spec hc key m.sorted

theorem remove_snd (m : AvlMap κ δ cmp) (key : κ) : (m.remove key).2 = m.search key := by
  obtain ⟨n, hn, -⟩ := removeHelper_spec hc false key m.stamped m.sorted
  simp only [remove, hn, Option.get_some, search_eq, toList]

theorem search_insert (m : AvlMap κ δ cmp) (key key' : κ) (data : δ) :
    (m.insert key data).1.search key' =
      if cmp key' key = 0 then some data else m.search key' := by
  rw [search_eq, search_eq, toList_insert, Assoc.find_insert (l := m.toList) hc m.sorted]
  split_ifs <;> rfl

theorem search_remove (m : AvlMap κ δ cmp) (key key' : κ) :
    (m.remove key).1.search key' = if cmp key' key = 0 then none else m.search key' := by
  rw [search_eq, search_eq, toList_remove, Assoc.find_erase (l := m.toList) hc m.sorted]
  split_ifs <;> rfl

section
variable {α : Type} [LinearOrder α] {p q : α}

theorem avlPtrcmp_eq_zero : avlPtrcmp p q = 0 ↔ p = q := by
  rcases lt_trichotomy p q with h | rfl | h
  · simp [avlPtrcmp, h, h.ne]
  · simp [avlPtrcmp]
  · simp [avlPtrcmp, h, h.not_gt, h.ne']

theorem search_insert_ptr [DecidableEq α] (m : AvlMap α δ avlPtrcmp) (d : δ) :
    (m.insert p d).1.search q = if p = q then some d else m.search q := by
  rw [AvlMap.search_insert]
  exact if_congr (avlPtrcmp_eq_zero.trans eq_comm) rfl rfl

theorem search_remove_ptr [DecidableEq α] (m : AvlMap α δ avlPtrcmp) :
    (m.remove p).1.search q = if p = q then none else m.search q := by
  rw [AvlMap.search_remove]
  exact if_congr (avlPtrcmp_eq_zero.trans eq_comm) rfl rfl

end

/-- A new key adds its entry. -/
theorem toList_insert_perm {m : AvlMap κ δ cmp} {key : κ} (data : δ) (h : m.search key = none) :
    (m.insert key data).1.toList.Perm ((key, data) :: m.toList) := by
  rw [search_eq, Option.map_eq_none_iff] at h
  rw [toList_insert]
  exact Assoc.insert_perm h

/-- Removing a key takes its entry away. -/
theorem toList_remove_perm {m : AvlMap κ δ cmp} {key : κ} {data : δ} (h : m.search key = some data) :
    ∃ key', m.toList.Perm ((key', data) :: (m.remove key).1.toList) := by
  rw [search_eq, Option.map_eq_some_iff] at h
  obtain ⟨⟨key', data'⟩, he, rfl⟩ := h
  rw [toList_remove]
  exact ⟨key', Assoc.erase_perm he⟩

end AvlMap

end Refk
