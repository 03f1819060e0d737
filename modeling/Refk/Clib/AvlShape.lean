import Refk.Clib.AvlMap
import Mathlib.Data.Nat.Log

/-!
# The AVL shape invariant

`insert_helper` gives a new leaf depth `1`; `update_depth` gives a childless node depth `2`.
So the stored depths are the real heights exactly as long as `update_depth` never runs on a
childless node, and `remove_helper` keeps the balance exactly as long as shortening the left
subtree's right spine (which is restamped but not rebalanced) does not unbalance it.

Both are properties of the tree *before* the call and of the path the key takes through it,
and `insertMisstamps` and `removeMisstamps` are those properties. `avl_shape` is what holds
of every history that stays clear of them; `avl_shape_breaks` is the three insertions that
do not.
-/

namespace Refk.Avl

open Lib Node

variable {κ δ : Type}

namespace Node

/-- The real height. -/
def height : Node κ δ → Nat
  | null => 0
  | node l r _ _ _ => max l.height r.height + 1

/-- The number of entries. -/
def count : Node κ δ → Nat
  | null => 0
  | node l r _ _ _ => l.count + r.count + 1

def isNull : Node κ δ → Bool
  | null => true
  | node .. => false

def isLeaf : Node κ δ → Bool
  | node l r _ _ _ => l.isNull && r.isNull
  | null => false

/-- Both children are there. -/
def isFull : Node κ δ → Bool
  | node l r _ _ _ => !l.isNull && !r.isNull
  | null => false

end Node

/-- The shape invariant: stored depths are heights, and sibling heights differ by at most
    one. -/
def Shaped : Node κ δ → Prop
  | null => True
  | node l r d _ _ => d = max l.height r.height + 1 ∧ l.height ≤ r.height + 1 ∧
      r.height ≤ l.height + 1 ∧ Shaped l ∧ Shaped r

@[simp] theorem height_null : (null : Node κ δ).height = 0 := rfl

@[simp] theorem height_node {l r : Node κ δ} {d : Int} {k : κ} {x : δ} :
    (node l r d k x).height = max l.height r.height + 1 := rfl

@[simp] theorem isNull_null : (null : Node κ δ).isNull = true := rfl

@[simp] theorem isNull_node {l r : Node κ δ} {d : Int} {k : κ} {x : δ} :
    (node l r d k x).isNull = false := rfl

@[simp] theorem isLeaf_null : (null : Node κ δ).isLeaf = false := rfl

@[simp] theorem isLeaf_node {l r : Node κ δ} {d : Int} {k : κ} {x : δ} :
    (node l r d k x).isLeaf = (l.isNull && r.isNull) := rfl

@[simp] theorem isFull_null : (null : Node κ δ).isFull = false := rfl

@[simp] theorem isFull_node {l r : Node κ δ} {d : Int} {k : κ} {x : δ} :
    (node l r d k x).isFull = (!l.isNull && !r.isNull) := rfl

@[simp] theorem shaped_null : Shaped (null : Node κ δ) := trivial

theorem isNull_iff {t : Node κ δ} : t.isNull = true ↔ t.height = 0 := by
  cases t <;> simp

theorem isLeaf_iff {t : Node κ δ} : t.isLeaf = true ↔ t.height = 1 := by
  cases t <;> simp [isNull_iff]

theorem Shaped.depth_eq {t : Node κ δ} (h : Shaped t) : t.depth = t.height := by
  cases t with
  | null => rfl
  | node l r d k x => simpa using h.1

/-- `update_depth` is right about every node that has a child. -/
theorem newDepth_eq {l r : Node κ δ} (hl : Shaped l) (hr : Shaped r)
    (h : 0 < max l.height r.height) : newDepth l r = max l.height r.height + 1 := by
  cases l with
  | null =>
    cases r with
    | null => simp at h
    | node rl rr rd rk rx =>
      have := hr.depth_eq
      simp only [newDepth, depth_node, height_node, height_null] at this ⊢
      split_ifs <;> push_cast at this ⊢ <;> omega
  | node ll lr ld lk lx =>
    have h₁ := hl.depth_eq
    cases r with
    | null =>
      simp only [newDepth, depth_node, height_node, height_null] at h₁ ⊢
      push_cast at h₁ ⊢
      omega
    | node rl rr rd rk rx =>
      have h₂ := hr.depth_eq
      simp only [newDepth, depth_node, height_node] at h₁ h₂ ⊢
      split_ifs <;> push_cast at h₁ h₂ ⊢ <;> omega

/-- Stamping a node is right when its children are shaped, of neighbouring heights, and
    not both null. -/
theorem shaped_stamp {l r : Node κ δ} {k : κ} {x : δ} (hl : Shaped l) (hr : Shaped r)
    (h₁ : l.height ≤ r.height + 1) (h₂ : r.height ≤ l.height + 1)
    (h₃ : 0 < max l.height r.height) : Shaped (stamp l r k x) :=
  ⟨newDepth_eq hl hr h₃, h₁, h₂, hl, hr⟩

@[simp] theorem height_stamp {l r : Node κ δ} {k : κ} {x : δ} :
    (stamp l r k x).height = max l.height r.height + 1 := rfl

/-! ## Rebalancing

`Fixable l r` is what the children of a node must be for the tail of `insert_helper` or
`remove_helper` to leave a shaped subtree: a rotation at a node that has lost its other
child is only right when the risen child brings a grandchild for it. -/

structure Fixable (l r : Node κ δ) : Prop where
  left : Shaped l
  right : Shaped r
  some_child : 0 < max l.height r.height
  left_le : l.height ≤ r.height + 2
  right_le : r.height ≤ l.height + 2
  left_heavy : l.height = r.height + 2 → 0 < r.height ∨ l.isFull = true
  right_heavy : r.height = l.height + 2 → 0 < l.height ∨ r.isFull = true

/-- The result of a tail: shaped, and as high as its children say, or one lower when a
    rotation took place. -/
structure Fixed (l r t : Node κ δ) : Prop where
  shaped : Shaped t
  inner : 1 < t.height
  le : t.height ≤ max l.height r.height + 1
  ge : max l.height r.height ≤ t.height
  eq : l.height ≤ r.height + 1 → r.height ≤ l.height + 1 → t.height = max l.height r.height + 1

section
variable {l r : Node κ δ} {d : Int} {k : κ} {x : δ}

theorem rebalance_left_fixed (h : Fixable l r) (hh : l.height = r.height + 2) :
    ∃ t, rebalance (node l r d k x) = some t ∧ Fixed l r t := by
  have hr := h.right
  have hfull := h.left_heavy hh
  have hl := h.left
  cases l with
  | null => simp at hh
  | node ll lr ld lk lx =>
    have hdelta : ld - r.depth = 2 := by
      have := hl.depth_eq
      rw [depth_node] at this
      rw [hr.depth_eq]
      omega
    obtain ⟨-, hb₁, hb₂, hll, hlr⟩ := hl
    simp only [height_node] at hh
    by_cases h₃ : ll.depth - lr.depth < 0
    · cases lr with
      | null => rw [hll.depth_eq, depth_null] at h₃; omega
      | node a b ad ak ax =>
        refine ⟨_, rebalance_left_double hdelta h₃, ?_⟩
        rw [hll.depth_eq, hlr.depth_eq] at h₃
        obtain ⟨-, hc₁, hc₂, ha, hb⟩ := hlr
        simp only [height_node] at h₃ hh hb₁ hb₂
        have hr₁ : 0 < r.height := by
          rcases hfull with h | h
          · exact h
          · -- a null `r` would leave `l` too low to be full here
            have h₀ : ¬ ll.isNull = true := by simpa using h
            rw [isNull_iff] at h₀
            omega
        refine ⟨shaped_stamp (shaped_stamp hll ha ?_ ?_ ?_) (shaped_stamp hb hr ?_ ?_ ?_)
          ?_ ?_ ?_, ?_, ?_, ?_, ?_⟩ <;> (try simp only [height_stamp, height_node]) <;> omega
    · refine ⟨_, rebalance_left_single hdelta h₃, ?_⟩
      rw [hll.depth_eq, hlr.depth_eq] at h₃
      have hne : 0 < max lr.height r.height := by
        rcases hfull with h | h
        · omega
        · have h₀ : ¬ lr.isNull = true := by simp at h; simp [h]
          rw [isNull_iff] at h₀
          omega
      refine ⟨shaped_stamp hll (shaped_stamp hlr hr ?_ ?_ hne) ?_ ?_ ?_, ?_, ?_, ?_, ?_⟩ <;>
        (try simp only [height_stamp, height_node]) <;> omega

theorem rebalance_right_fixed (h : Fixable l r) (hh : r.height = l.height + 2) :
    ∃ t, rebalance (node l r d k x) = some t ∧ Fixed l r t := by
  have hl := h.left
  have hfull := h.right_heavy hh
  have hr := h.right
  cases r with
  | null => simp at hh
  | node rl rr rd rk rx =>
    have hdelta : l.depth - rd = -2 := by
      have := hr.depth_eq
      rw [depth_node] at this
      rw [hl.depth_eq]
      omega
    obtain ⟨-, hb₁, hb₂, hrl, hrr⟩ := hr
    simp only [height_node] at hh
    by_cases h₃ : rl.depth - rr.depth > 0
    · cases rl with
      | null => rw [hrr.depth_eq, depth_null] at h₃; omega
      | node a b ad ak ax =>
        refine ⟨_, rebalance_right_double hdelta h₃, ?_⟩
        rw [hrr.depth_eq, hrl.depth_eq] at h₃
        obtain ⟨-, hc₁, hc₂, ha, hb⟩ := hrl
        simp only [height_node] at h₃ hh hb₁ hb₂
        have hl₁ : 0 < l.height := by
          rcases hfull with h | h
          · exact h
          · have h₀ : ¬ rr.isNull = true := by simpa using h
            rw [isNull_iff] at h₀
            omega
        refine ⟨shaped_stamp (shaped_stamp hl ha ?_ ?_ ?_) (shaped_stamp hb hrr ?_ ?_ ?_)
          ?_ ?_ ?_, ?_, ?_, ?_, ?_⟩ <;> (try simp only [height_stamp, height_node]) <;> omega
    · refine ⟨_, rebalance_right_single hdelta h₃, ?_⟩
      rw [hrl.depth_eq, hrr.depth_eq] at h₃
      have hne : 0 < max l.height rl.height := by
        rcases hfull with h | h
        · omega
        · have h₀ : ¬ rl.isNull = true := by simp at h; simp [h]
          rw [isNull_iff] at h₀
          omega
      refine ⟨shaped_stamp (shaped_stamp hl hrl ?_ ?_ hne) hrr ?_ ?_ ?_, ?_, ?_, ?_, ?_⟩ <;>
        (try simp only [height_stamp, height_node]) <;> omega

theorem rebalance_fixed (h : Fixable l r) :
    (∃ t, rebalance (node l r d k x) = some t ∧ Fixed l r t) ∨
    (rebalance (node l r d k x) = some (node l r d k x) ∧ l.height ≤ r.height + 1 ∧
      r.height ≤ l.height + 1) := by
  by_cases h₁ : l.height = r.height + 2
  · exact Or.inl (rebalance_left_fixed h h₁)
  · by_cases h₂ : r.height = l.height + 2
    · exact Or.inl (rebalance_right_fixed h h₂)
    · have h₃ := h.left_le
      have h₄ := h.right_le
      refine Or.inr ⟨rebalance_none ?_ ?_, by omega, by omega⟩ <;>
        rw [h.left.depth_eq, h.right.depth_eq] <;> omega

theorem fixed_stamp (h : Fixable l r) (h₁ : l.height ≤ r.height + 1)
    (h₂ : r.height ≤ l.height + 1) : Fixed l r (stamp l r k x) := by
  have h₃ := h.some_child
  exact ⟨shaped_stamp h.left h.right h₁ h₂ h₃, by simp only [height_stamp]; omega, le_rfl,
    Nat.le_succ _, fun _ _ => rfl⟩

/-- A shaped node that is not a leaf is left alone by `update_depth`. -/
theorem updateDepth_of_shaped {t : Node κ δ} (h : Shaped t) (hi : 1 < t.height) :
    updateDepth t = some t := by
  cases t with
  | null => simp at hi
  | node l r d k x =>
    obtain ⟨hd, -, -, hl, hr⟩ := h
    simp only [height_node] at hi
    simp [updateDepth, newDepth_eq hl hr (by omega), hd]

theorem insertTail_fixed (h : Fixable l r) :
    ∃ t, insertTail (node l r d k x) = some t ∧ Fixed l r t := by
  rcases rebalance_fixed (d := d) (k := k) (x := x) h with ⟨t, ht, hf⟩ | ⟨ht, h₁, h₂⟩
  · exact ⟨t, by simp [insertTail, ht, updateDepth_of_shaped hf.shaped hf.inner], hf⟩
  · exact ⟨stamp l r k x, by simp [insertTail, ht], fixed_stamp h h₁ h₂⟩

theorem removeTail_fixed (h : Fixable l r) :
    ∃ t, removeTail (node l r d k x) = some t ∧ Fixed l r t := by
  have hrw : removeTail (node l r d k x) = rebalance (stamp l r k x) := rfl
  rcases rebalance_fixed (d := newDepth l r) (k := k) (x := x) h with ⟨t, ht, hf⟩ | ⟨ht, h₁, h₂⟩
  · exact ⟨t, hrw ▸ ht, hf⟩
  · exact ⟨stamp l r k x, hrw ▸ ht, fixed_stamp h h₁ h₂⟩

end

/-! ## The calls that misstamp

Each predicate is read off the tree before the call and the path of the key. -/

variable (cmp : κ → κ → Int) (key : κ)

/-- `key` would be hung below this leaf. -/
def hangsBelow : Node κ δ → Bool
  | node l r _ k _ => l.isNull && r.isNull && cmp key k != 0
  | null => false

/-- The new leaf would be hung below a leaf that is its parent's only child: the rotation at
    that parent leaves childless nodes behind, and stamps them `2`. -/
def insertMisstamps : Node κ δ → Bool
  | null => false
  | node l r _ k _ =>
    if cmp key k = 0 then false
    else if cmp key k < 0 then (r.isNull && hangsBelow cmp key l) || insertMisstamps l
    else (l.isNull && hangsBelow cmp key r) || insertMisstamps r

/-- `s` cannot be left as an only child: there is none, or it is too high for a single node
    beside it and has only one child itself. -/
def badOnly (s : Node κ δ) : Bool := s.isNull || (s.height == 2 && !s.isFull)

/-- The removal goes into `c`, and `c` is or becomes null. -/
def vanishes : Node κ δ → Bool
  | null => true
  | node l r _ k _ => l.isNull && r.isNull && cmp key k == 0

/-- Taking the maximum out of this subtree, whose root has a right child, restamps a
    childless node or unbalances the spine. -/
def spineMisstamps : Node κ δ → Bool
  | node ll (node rl null _ _ _) _ _ _ => !rl.isNull || !ll.isLeaf
  | node _ (node rl (node a b d k x) rd rk rx) _ _ _ =>
    spineMisstamps (node rl (node a b d k x) rd rk rx)
  | _ => false

/-- Removing the contents of a node with these children misstamps: a node with one child is
    replaced by that child, a leaf, which is then stamped `2`. -/
def foundMisstamps : Node κ δ → Node κ δ → Bool
  | null, null => false
  | null, node .. => true
  | node .., null => true
  | node ll null _ _ _, r => !ll.isNull || badOnly r
  | node ll (node a b d k x) ld lk lx, _ => spineMisstamps (node ll (node a b d k x) ld lk lx)

/-- The removal makes `update_depth` run on a childless node, or leaves the spine of a
    predecessor unbalanced. -/
def removeMisstamps : Node κ δ → Bool
  | null => false
  | node l r _ k _ =>
    if cmp key k < 0 then
      if vanishes cmp key l then l.isNull && r.isNull || !l.isNull && badOnly r
      else removeMisstamps l
    else if cmp key k > 0 then
      if vanishes cmp key r then l.isNull && r.isNull || !r.isNull && badOnly l
      else removeMisstamps r
    else foundMisstamps l r

variable {cmp key}

/-! ## Insertion -/

theorem insertHelper_of_eq {l r : Node κ δ} {d : Int} {k : κ} {x data : δ} (h : cmp key k = 0) :
    insertHelper cmp key data (node l r d k x) = some (node l r d k data, some x) := by
  simp [insertHelper, h]

theorem insertHelper_leaf {l : Node κ δ} (data : δ) (h : l.height = 1)
    (hh : hangsBelow cmp key l = false) :
    ∃ l' ret, insertHelper cmp key data l = some (l', ret) ∧ l'.height = 1 := by
  cases l with
  | null => simp at h
  | node a b d k x =>
    have ha : a.height = 0 := by rw [height_node] at h; omega
    have hb : b.height = 0 := by rw [height_node] at h; omega
    have h₀ : cmp key k = 0 := by simpa [hangsBelow, isNull_iff.mpr ha, isNull_iff.mpr hb] using hh
    exact ⟨_, _, insertHelper_of_eq h₀, by simp [ha, hb]⟩

theorem insertHelper_shaped (data : δ) : ∀ {t : Node κ δ}, Shaped t →
    insertMisstamps cmp key t = false →
    ∃ t' ret, insertHelper cmp key data t = some (t', ret) ∧ Shaped t' ∧
      (t'.height = t.height ∨ t'.height = t.height + 1) ∧ 0 < t'.height := by
  intro t
  induction t with
  | null =>
    intro _ _
    exact ⟨_, _, rfl, ⟨rfl, by simp, by simp, trivial, trivial⟩, Or.inr rfl, by simp⟩
  | node l r d k x ihl ihr =>
    intro hs hm
    obtain ⟨hd, hb₁, hb₂, hl, hr⟩ := hs
    by_cases h₀ : cmp key k = 0
    · exact ⟨node l r d k data, _, insertHelper_of_eq h₀,
        ⟨hd, hb₁, hb₂, hl, hr⟩, Or.inl rfl, by simp⟩
    · by_cases h₁ : cmp key k < 0
      · simp only [insertMisstamps, h₀, h₁, if_true, if_false, Bool.or_eq_false_iff] at hm
        obtain ⟨l', ret, hl', hsl', hh, hpos⟩ := ihl hl hm.2
        have hfix : Fixable l' r := by
          refine ⟨hsl', hr, by omega, by omega, by omega, fun h => ?_, fun h => ?_⟩
          · -- too high beside nothing: `l` was a leaf and the key went below it
            by_contra hcon
            have hr₀ : r.height = 0 := by omega
            have hl₁ : l.height = 1 := by omega
            have hb : hangsBelow cmp key l = false := by
              simpa [isNull_iff.mpr hr₀] using hm.1
            obtain ⟨l'', ret', hl'', hh''⟩ := insertHelper_leaf data hl₁ hb
            rw [hl''] at hl'
            simp only [Option.some.injEq, Prod.mk.injEq] at hl'
            rw [← hl'.1] at h
            omega
          · omega
        obtain ⟨t', ht', hf⟩ := insertTail_fixed (d := d) (k := k) (x := x) hfix
        have h₂ := hf.le
        have h₃ := hf.ge
        have h₄ := hf.eq
        refine ⟨t', ret, by simp [insertHelper, h₀, h₁, hl', ht'], hf.shaped, ?_,
          by have := hf.inner; omega⟩
        simp only [height_node]
        omega
      · simp only [insertMisstamps, h₀, h₁, if_false, Bool.or_eq_false_iff] at hm
        obtain ⟨r', ret, hr', hsr', hh, hpos⟩ := ihr hr hm.2
        have hfix : Fixable l r' := by
          refine ⟨hl, hsr', by omega, by omega, by omega, fun h => ?_, fun h => ?_⟩
          · omega
          · by_contra hcon
            have hl₀ : l.height = 0 := by omega
            have hr₁ : r.height = 1 := by omega
            have hb : hangsBelow cmp key r = false := by
              simpa [isNull_iff.mpr hl₀] using hm.1
            obtain ⟨r'', ret', hr'', hh''⟩ := insertHelper_leaf data hr₁ hb
            rw [hr''] at hr'
            simp only [Option.some.injEq, Prod.mk.injEq] at hr'
            rw [← hr'.1] at h
            omega
        obtain ⟨t', ht', hf⟩ := insertTail_fixed (d := d) (k := k) (x := x) hfix
        have h₂ := hf.le
        have h₃ := hf.ge
        have h₄ := hf.eq
        refine ⟨t', ret, by simp [insertHelper, h₀, h₁, hr', ht'], hf.shaped, ?_,
          by have := hf.inner; omega⟩
        simp only [height_node]
        omega

/-! ## Removal -/

theorem vanishes_spec {c : Node κ δ} (destructor : Bool) (h : vanishes cmp key c = true) :
    ∃ s, removeHelper cmp destructor key c = some s ∧ s.node = null ∧ c.height ≤ 1 := by
  cases c with
  | null => exact ⟨_, rfl, rfl, Nat.zero_le _⟩
  | node l r d k x =>
    simp only [vanishes, Bool.and_eq_true, beq_iff_eq] at h
    obtain ⟨⟨hl, hr⟩, h₀⟩ := h
    have hl' : l = null := by cases l <;> simp_all
    have hr' : r = null := by cases r <;> simp_all
    subst hl' hr'
    exact ⟨⟨null, some x, if destructor then [k] else []⟩,
      by simp [removeHelper, h₀, removeFound, removeTail], rfl, by simp⟩

theorem badOnly_false {s : Node κ δ} (h : badOnly s = false) :
    0 < s.height ∧ (s.height = 2 → s.isFull = true) := by
  simp only [badOnly, Bool.or_eq_false_iff, Bool.and_eq_false_iff, Bool.not_eq_false'] at h
  refine ⟨?_, fun h₂ => ?_⟩
  · have := h.1
    rw [← Bool.not_eq_true, isNull_iff] at this
    omega
  · rcases h.2 with h₃ | h₃
    · simp [h₂] at h₃
    · exact h₃

/-- Down a spine that does not misstamp nothing changes height: the rightmost node goes and
    its parent's other child keeps the parent where it was. -/
theorem spine_shaped : ∀ {l : Node κ δ}, Shaped l → spineMisstamps l = false →
    ∀ {ll lr : Node κ δ} {d : Int} {k : κ} {x : δ}, l = node ll lr d k x → lr ≠ null →
    ∃ k' x' l' l'', takeMax l = some (k', x', l') ∧ removeDepthHelper l' = some l'' ∧
      Shaped l'' ∧ l''.height = l.height := by
  intro l
  induction l with
  | null => intro _ _ _ _ _ _ _ h; cases h
  | node ll lr d k x _ ih =>
    rintro hs hm _ _ _ _ _ ⟨⟩ hne
    obtain ⟨hd, hb₁, hb₂, hll, hlr⟩ := hs
    cases lr with
    | null => exact absurd rfl hne
    | node rl rr rd rk rx =>
      cases rr with
      | null =>
        simp only [spineMisstamps, Bool.or_eq_false_iff, Bool.not_eq_false', isLeaf_iff] at hm
        obtain ⟨hrl, hll₁⟩ := hm
        have hrl' : rl = null := by cases rl <;> simp_all
        subst hrl'
        refine ⟨rk, rx, node ll null d k x, stamp ll null k x, rfl, rfl, ?_, ?_⟩
        · exact shaped_stamp hll trivial (by simp [hll₁]) (by simp) (by simp [hll₁])
        · simp [hll₁]
      | node a b ad ak ax =>
        obtain ⟨k', x', l', l'', ht, hd', hs', hh⟩ := ih hlr (by simpa [spineMisstamps] using hm)
          rfl (by simp)
        refine ⟨k', x', node ll l' d k x, stamp ll l'' k x, ?_, ?_, ?_, ?_⟩
        · rw [takeMax]
          simp [ht]
        · simp [removeDepthHelper, hd']
        · exact shaped_stamp hll hs' (by omega) (by omega) (by
            have : 0 < l''.height := by rw [hh]; simp
            omega)
        · rw [height_stamp, hh, ← height_node (d := d) (k := k) (x := x)]

theorem removeFound_shaped {l r : Node κ δ} {d : Int} (hl : Shaped l) (hr : Shaped r)
    (hb₁ : l.height ≤ r.height + 1) (hb₂ : r.height ≤ l.height + 1)
    (hm : foundMisstamps l r = false) :
    ∃ n t, removeFound l r d = some n ∧ removeTail n = some t ∧ Shaped t ∧
      (t.height = max l.height r.height + 1 ∨ t.height = max l.height r.height) := by
  cases l with
  | null =>
    cases r with
    | null => exact ⟨null, null, rfl, rfl, trivial, Or.inr rfl⟩
    | node => simp [foundMisstamps] at hm
  | node ll lr ld lk lx =>
    cases r with
    | null => cases lr <;> simp [foundMisstamps] at hm
    | node rl rr rd rk rx =>
      cases lr with
      | null =>
        simp only [foundMisstamps, Bool.or_eq_false_iff, Bool.not_eq_false'] at hm
        obtain ⟨hll, hbad⟩ := hm
        have hll' : ll = null := by cases ll <;> simp_all
        subst hll'
        obtain ⟨hpos, hfull⟩ := badOnly_false hbad
        simp only [height_node (l := null) (r := null), height_null] at hb₁ hb₂
        obtain ⟨t, ht, hf⟩ := removeTail_fixed (l := null) (r := node rl rr rd rk rx) (d := d)
          (k := lk) (x := lx) ⟨trivial, hr, by simp, by simp, by rw [height_null]; omega,
            by simp, fun h => Or.inr (hfull h)⟩
        have h₁ := hf.le
        have h₂ := hf.ge
        refine ⟨_, t, by simp [removeFound, takeMax, removeDepthHelper], ht, hf.shaped, ?_⟩
        simp only [height_null, height_node] at *
        omega
      | node a b ad ak ax =>
        obtain ⟨k', x', l', l'', htake, hdep, hs', hh⟩ := spine_shaped hl
          (by simpa [foundMisstamps] using hm) rfl (by simp)
        obtain ⟨t, ht, hf⟩ := removeTail_fixed (l := l'') (r := node rl rr rd rk rx) (d := d)
          (k := k') (x := x') ⟨hs', hr, by rw [height_node (l := rl)]; omega, by omega, by omega,
            by omega, by omega⟩
        refine ⟨_, t, by simp [removeFound, htake, hdep], ht, hf.shaped, Or.inl ?_⟩
        rw [hf.eq (by omega) (by omega), hh]

/-- The tail at a node one of whose subtrees has got at most one lower. -/
theorem removeTail_lowered {l r l' r' : Node κ δ} {d : Int} {k : κ} {x : δ}
    (hfix : Fixable l' r') (hb₁ : l.height ≤ r.height + 1) (hb₂ : r.height ≤ l.height + 1)
    (hl : l'.height ≤ l.height) (hr : r'.height ≤ r.height)
    (hh : l.height + r.height ≤ l'.height + r'.height + 1) :
    ∃ t, removeTail (node l' r' d k x) = some t ∧ Shaped t ∧ 0 < t.height ∧
      (t.height = max l.height r.height + 1 ∨ t.height + 1 = max l.height r.height + 1) := by
  obtain ⟨t, ht, hf⟩ := removeTail_fixed (d := d) (k := k) (x := x) hfix
  have h₁ := hf.le
  have h₂ := hf.ge
  have h₃ := hf.eq
  have h₄ := hf.inner
  exact ⟨t, ht, hf.shaped, by omega, by omega⟩

theorem removeHelper_shaped (destructor : Bool) : ∀ {t : Node κ δ}, Shaped t →
    removeMisstamps cmp key t = false →
    ∃ s, removeHelper cmp destructor key t = some s ∧ Shaped s.node ∧
      (s.node.height = t.height ∨ s.node.height + 1 = t.height) ∧
      (vanishes cmp key t = false → 0 < s.node.height) := by
  intro t
  induction t with
  | null => intro _ _; exact ⟨_, rfl, trivial, Or.inl rfl, by simp [vanishes]⟩
  | node l r d k x ihl ihr =>
    intro hs hm
    obtain ⟨hd, hb₁, hb₂, hl, hr⟩ := hs
    by_cases h₁ : cmp key k < 0
    · simp only [removeMisstamps, h₁, if_true] at hm
      have hfix : ∃ s, removeHelper cmp destructor key l = some s ∧ Fixable s.node r ∧
          s.node.height ≤ l.height ∧ l.height ≤ s.node.height + 1 := by
        cases hv : vanishes cmp key l with
        | true =>
          -- nothing is left on the left: `r` has to stand alone
          obtain ⟨s, hs', hnull, hle⟩ := vanishes_spec destructor hv
          simp only [hv, if_true, Bool.or_eq_false_iff, Bool.and_eq_false_iff] at hm
          have hr₀ : 0 < r.height ∧ (r.height = 2 → r.isFull = true) := by
            cases hn : l.isNull with
            | true =>
              have h₂ := isNull_iff.mp hn
              have h₃ : ¬ r.isNull = true := by simpa [hn] using hm.1
              rw [isNull_iff] at h₃
              exact ⟨by omega, by omega⟩
            | false => exact badOnly_false (by simpa [hn] using hm.2)
          refine ⟨s, hs', ?_, by simp [hnull], by simp [hnull, hle]⟩
          rw [hnull]
          exact ⟨trivial, hr, by simpa using hr₀.1, by simp, by rw [height_null]; omega, by simp,
            fun h => Or.inr (hr₀.2 (by simpa using h))⟩
        | false =>
          obtain ⟨s, hs', hsh, hh, hpos⟩ := ihl hl (by simpa [hv] using hm)
          have h₀ := hpos hv
          exact ⟨s, hs', ⟨hsh, hr, by omega, by omega, by omega, by omega, by omega⟩, by omega,
            by omega⟩
      obtain ⟨s, hs', hfix, hle, hge⟩ := hfix
      obtain ⟨t', ht', hsh, hpos, hh⟩ := removeTail_lowered (d := d) (k := k) (x := x) hfix hb₁ hb₂
        hle le_rfl (by omega)
      exact ⟨{ s with node := t' }, by simp [removeHelper, h₁, hs', ht'], hsh, hh, fun _ => hpos⟩
    · by_cases h₂ : cmp key k > 0
      · simp only [removeMisstamps, h₁, h₂, if_true, if_false] at hm
        have hfix : ∃ s, removeHelper cmp destructor key r = some s ∧ Fixable l s.node ∧
            s.node.height ≤ r.height ∧ r.height ≤ s.node.height + 1 := by
          cases hv : vanishes cmp key r with
          | true =>
            obtain ⟨s, hs', hnull, hle⟩ := vanishes_spec destructor hv
            simp only [hv, if_true, Bool.or_eq_false_iff, Bool.and_eq_false_iff] at hm
            have hl₀ : 0 < l.height ∧ (l.height = 2 → l.isFull = true) := by
              cases hn : r.isNull with
              | true =>
                have h₂ := isNull_iff.mp hn
                have h₃ : ¬ l.isNull = true := by simpa [hn] using hm.1
                rw [isNull_iff] at h₃
                exact ⟨by omega, by omega⟩
              | false => exact badOnly_false (by simpa [hn] using hm.2)
            refine ⟨s, hs', ?_, by simp [hnull], by simp [hnull, hle]⟩
            rw [hnull]
            exact ⟨hl, trivial, by simpa using hl₀.1, by rw [height_null]; omega, by simp,
              fun h => Or.inr (hl₀.2 (by simpa using h)), by simp⟩
          | false =>
            obtain ⟨s, hs', hsh, hh, hpos⟩ := ihr hr (by simpa [hv] using hm)
            have h₀ := hpos hv
            exact ⟨s, hs', ⟨hl, hsh, by omega, by omega, by omega, by omega, by omega⟩, by omega,
              by omega⟩
        obtain ⟨s, hs', hfix, hle, hge⟩ := hfix
        obtain ⟨t', ht', hsh, hpos, hh⟩ := removeTail_lowered (d := d) (k := k) (x := x) hfix hb₁
          hb₂ le_rfl hle (by omega)
        exact ⟨{ s with node := t' }, by simp [removeHelper, h₁, h₂, hs', ht'], hsh, hh,
          fun _ => hpos⟩
      · simp only [removeMisstamps, h₁, h₂, if_false] at hm
        obtain ⟨n, t', hn, ht', hsh, hh⟩ := removeFound_shaped (d := d) hl hr hb₁ hb₂ hm
        have h₀ : cmp key k = 0 := by omega
        refine ⟨⟨t', some x, if destructor then [k] else []⟩, ?_, hsh, ?_, fun hv => ?_⟩
        · simp [removeHelper, h₀, hn, ht']
        · simp only [height_node]
          omega
        · -- a leaf would vanish
          have h₃ : ¬ (l.height = 0 ∧ r.height = 0) := fun h => by
            simp [vanishes, h₀, isNull_iff.mpr h.1, isNull_iff.mpr h.2] at hv
          show 0 < t'.height
          omega

/-! ## Height is logarithmic -/

/-- A shaped tree doubles its entries every two levels. -/
theorem two_pow_le_count : ∀ {t : Node κ δ}, Shaped t → 2 ^ (t.height / 2) ≤ t.count + 1 := by
  intro t
  induction t with
  | null => intro _; simp [Node.count]
  | node l r d k x ihl ihr =>
    intro hs
    obtain ⟨-, hb₁, hb₂, hl, hr⟩ := hs
    have h₁ := ihl hl
    have h₂ := ihr hr
    rw [height_node, Node.count]
    generalize hm : max l.height r.height = m
    cases m with
    | zero => simp
    | succ m =>
      have h₃ : 2 ^ (m / 2) ≤ 2 ^ (l.height / 2) := Nat.pow_le_pow_right (by simp) (by omega)
      have h₄ : 2 ^ (m / 2) ≤ 2 ^ (r.height / 2) := Nat.pow_le_pow_right (by simp) (by omega)
      rw [show (m + 1 + 1) / 2 = m / 2 + 1 by omega, pow_succ]
      omega

theorem height_le_log {t : Node κ δ} (h : Shaped t) :
    t.height ≤ 2 * Nat.log 2 (t.count + 1) + 1 := by
  have := Nat.le_log_of_pow_le (by simp) (two_pow_le_count h)
  omega

/-- Comparator calls made by a search for `key`. -/
def comparisons (cmp : κ → κ → Int) (key : κ) : Node κ δ → Nat
  | null => 0
  | node l r _ k _ =>
    if cmp key k = 0 then 1
    else if cmp key k < 0 then comparisons cmp key l + 1
    else comparisons cmp key r + 1

theorem comparisons_le_height (t : Node κ δ) : comparisons cmp key t ≤ t.height := by
  induction t with
  | null => rfl
  | node l r d k x ihl ihr =>
    simp only [comparisons, height_node]
    split_ifs <;> omega

end Refk.Avl

namespace Refk

open Lib Avl

variable {κ δ : Type}

/-- The step restamps every node correctly and leaves no spine unbalanced. -/
def AvlStepSound (tree : AvlTree κ δ) : AvlOp κ δ → Prop
  | .insert key _ => insertMisstamps tree.comparator key tree.root = false
  | .remove key => removeMisstamps tree.comparator key tree.root = false

instance (tree : AvlTree κ δ) : DecidablePred (AvlStepSound tree)
  | .insert _ _ => inferInstanceAs (Decidable (_ = false))
  | .remove _ => inferInstanceAs (Decidable (_ = false))

/-- The shape property of a whole tree: stored depths are heights, `avl_tree_depth` answers
    the height, siblings are within one of each other, and searches are logarithmic. -/
structure AvlShape (tree : AvlTree κ δ) : Prop where
  shaped : Shaped tree.root
  treeDepth : avlTreeDepth tree = tree.root.height
  comparisons_le : ∀ key, comparisons tree.comparator key tree.root ≤
    2 * Nat.log 2 (tree.root.count + 1) + 1

theorem AvlShape.of_shaped {tree : AvlTree κ δ} (h : Shaped tree.root) : AvlShape tree :=
  ⟨h, h.depth_eq, fun _ => (comparisons_le_height _).trans (height_le_log h)⟩

theorem shaped_step {tree tree' : AvlTree κ δ} {op : AvlOp κ δ} {out : Option δ × List κ}
    (h : Shaped tree.root) (hok : AvlStepSound tree op)
    (hstep : avlStep tree op = some (tree', out)) : Shaped tree'.root := by
  cases op with
  | insert key data =>
    obtain ⟨n, ret, hn, hsh, -⟩ := insertHelper_shaped data h hok
    simp only [avlStep, avlInsert, hn, Option.bind_eq_bind, Option.bind_some, Option.pure_def,
      Option.some.injEq, Prod.mk.injEq] at hstep
    obtain ⟨rfl, -⟩ := hstep
    exact hsh
  | remove key =>
    obtain ⟨s, hs, hsh, -⟩ := removeHelper_shaped tree.destructor h hok
    simp only [avlStep, avlRemove, hs, Option.bind_eq_bind, Option.bind_some, Option.pure_def,
      Option.some.injEq, Prod.mk.injEq] at hstep
    obtain ⟨rfl, -⟩ := hstep
    exact hsh

/-- **The shape invariant of every history of sound steps.** -/
theorem avl_shape {cmp : κ → κ → Int} {destructor : Bool}
    {tr : List (AvlOp κ δ × Option δ × List κ)} {tree : AvlTree κ δ}
    (h : RunIf avlStep AvlStepSound (avlInitialize cmp destructor) tr tree) : AvlShape tree :=
  AvlShape.of_shaped (h.invariant_state (fun tree => Shaped tree.root) shaped_null
    fun _ _ _ _ hs hok hstep => shaped_step hs hok hstep)

/-- The theorem at a history of three insertions and a removal. -/
theorem avl_shape_of_three : ∃ (tr : List (AvlOp Nat Nat × Option Nat × List Nat))
    (tree : AvlTree Nat Nat), RunIf avlStep AvlStepSound (avlInitialize avlPtrcmp false) tr tree ∧
    tr.length = 4 ∧ tree.root.count = 2 ∧ AvlShape tree := by
  have h := RunIf.of_exec avlStep AvlStepSound (avlInitialize avlPtrcmp false)
    [.insert 2 20, .insert 1 10, .insert 3 30, .remove 1] rfl
  exact ⟨_, _, h, rfl, rfl, avl_shape h⟩

/-- **Three insertions in key order break it**: the rotation leaves the first node without
    children and stamps it `2`, so the stored depth of the whole tree is `3` at height `2`. -/
theorem avl_shape_breaks : ∃ (tr : List (AvlOp Nat Nat × Option Nat × List Nat))
    (tree : AvlTree Nat Nat), Run avlStep (avlInitialize avlPtrcmp false) tr tree ∧
    avlTreeDepth tree = 3 ∧ tree.root.height = 2 ∧ ¬ AvlShape tree := by
  have h : Run avlStep (avlInitialize avlPtrcmp false) _ _ :=
    RunIf.of_exec avlStep _ _ [.insert 1 10, .insert 2 20, .insert 3 30] rfl
  exact ⟨_, _, h, rfl, rfl, fun h => absurd h.treeDepth (by decide)⟩

end Refk
