import Mathlib.Tactic

/-!
# Counting over forests kept in a memory

A memory that holds tables is a graph: a node has slots, and a slot may hold an edge to
another node. Below a node, down to a fixed depth, the memory looks like a tree, in which a
node that is shared is met once for every path that leads to it. `sumBelow w g n t` adds up the
weight of all edges met in the `n` levels from the node `t` on, so a number of references is
a `sumBelow`, and so is the number of edges of some undesirable kind.

The rules are about what a write to the memory does to such a sum: nothing where the nodes
written to are not met (`sumBelow_congr`), and where a node is met exactly once, one slot's
contribution is exchanged for another (`Path.replace`).
-/

namespace Refk.Lib

/-- Where an edge leads, and which slots a node of a given level has. -/
structure Shape (ν ι ε : Type) where
  target : ε → ν
  slots : Nat → List ι
  nodup : ∀ n, (slots n).Nodup

/-- What a node's slots hold. -/
abbrev Graph (ν ι ε : Type) := ν → ι → Option ε

/-- The weight of an edge: of the level it leads to, its node, its slot and itself. -/
abbrev Weight (ν ι ε : Type) := Nat → ν → ι → ε → Nat

variable {ν ι ε : Type} (S : Shape ν ι ε)

/-- The weight of everything in the `n` levels from `t` on. -/
def sumBelow (w : Weight ν ι ε) (g : Graph ν ι ε) : Nat → ν → Nat
  | 0, _ => 0
  | n + 1, t => ((S.slots (n + 1)).map fun i =>
      ((g t i).map fun e => w n t i e + sumBelow w g n (S.target e)).getD 0).sum

/-- One slot's part of that: its edge, and everything in the `n` levels behind it. -/
def sumAt (w : Weight ν ι ε) (g : Graph ν ι ε) (n : Nat) (t : ν) (i : ι) : Nat :=
  ((g t i).map fun e => w n t i e + sumBelow S w g n (S.target e)).getD 0

/-- The weight that counts the edges to a node `T`. -/
def edgesTo [DecidableEq ν] (T : ν) : Weight ν ι ε := fun n _ _ e =>
  if 1 ≤ n ∧ S.target e = T then 1 else 0

/-- How often `T` is met, `t` itself included. -/
def visits [DecidableEq ν] (g : Graph ν ι ε) (n : Nat) (t T : ν) : Nat :=
  (if t = T then 1 else 0) + sumBelow S (edgesTo S T) g n t

/-- The slots of a way down from `t`, which has `n` levels below it, to `T`, which has `k`. -/
inductive Path (g : Graph ν ι ε) : Nat → ν → List ι → Nat → ν → Prop
  | here (n : Nat) (t : ν) : Path g n t [] n t
  | down {n k : Nat} {t T : ν} {i : ι} {is : List ι} {e : ε} (mem : i ∈ S.slots (n + 1))
      (edge : g t i = some e) (pos : 1 ≤ n) (rest : Path g n (S.target e) is k T) :
      Path g (n + 1) t (i :: is) k T

/-- `g'` and `w'` have the edge at a slot that `g` and `w` have. -/
def SameAt (w w' : Weight ν ι ε) (g g' : Graph ν ι ε) (t : ν) (i : ι) : Prop :=
  g' t i = g t i ∧ ∀ k e, g t i = some e → w' k t i e = w k t i e

section
variable {S} {w w' : Weight ν ι ε} {g g' : Graph ν ι ε} {n k k' : Nat} {t T : ν} {i : ι} {e : ε}
  {is js : List ι}

theorem sumBelow_succ : sumBelow S w g (n + 1) t = ((S.slots (n + 1)).map (sumAt S w g n t)).sum := rfl

theorem sumAt_some (h : g t i = some e) :
    sumAt S w g n t i = w n t i e + sumBelow S w g n (S.target e) := by simp [sumAt, h]

theorem sumAt_none (h : g t i = none) : sumAt S w g n t i = 0 := by simp [sumAt, h]

theorem sumAt_le_below (hi : i ∈ S.slots (n + 1)) :
    sumAt S w g n t i ≤ sumBelow S w g (n + 1) t :=
  List.le_sum_of_mem (List.mem_map.mpr ⟨i, hi, rfl⟩)

theorem sumBelow_mono (h : ∀ n t i e, w n t i e ≤ w' n t i e) :
    sumBelow S w g n t ≤ sumBelow S w' g n t := by
  induction n generalizing t with
  | zero => exact le_rfl
  | succ n ih =>
    rw [sumBelow_succ, sumBelow_succ]
    refine List.sum_le_sum fun i _ => ?_
    cases hg : g t i with
    | none => rw [sumAt_none hg, sumAt_none hg]
    | some e =>
      rw [sumAt_some hg, sumAt_some hg]
      exact Nat.add_le_add (h n t i e) ih

/-- Nothing weighs anything: no edge that is met does. -/
theorem sumBelow_succ_eq_zero : sumBelow S w g (n + 1) t = 0 ↔
    ∀ i ∈ S.slots (n + 1), ∀ e, g t i = some e →
      w n t i e = 0 ∧ sumBelow S w g n (S.target e) = 0 := by
  rw [sumBelow_succ, List.sum_eq_zero_iff]
  simp only [List.mem_map, forall_exists_index, and_imp, forall_apply_eq_imp_iff₂]
  refine forall₂_congr fun i _ => ?_
  cases hg : g t i with
  | none => simp [sumAt_none hg]
  | some e => simp [sumAt_some hg]

theorem sumBelow_weightless (h : ∀ n t i e, w n t i e = 0) : sumBelow S w g n t = 0 := by
  induction n generalizing t with
  | zero => rfl
  | succ n ih => exact sumBelow_succ_eq_zero.mpr fun i _ e _ => ⟨h n t i e, ih⟩

theorem sumBelow_of_empty (h : ∀ i ∈ S.slots n, g t i = none) : sumBelow S w g n t = 0 := by
  cases n with
  | zero => rfl
  | succ n => exact sumBelow_succ_eq_zero.mpr fun i hi e he => by simp [h i hi] at he

/-- One slot among those of a node. -/
theorem sumBelow_split (w w' : Weight ν ι ε) (g g' : Graph ν ι ε) (hi : i ∈ S.slots (n + 1))
    (hrest : ∀ j ∈ S.slots (n + 1), j ≠ i → sumAt S w' g' n t j = sumAt S w g n t j) :
    sumBelow S w' g' (n + 1) t + sumAt S w g n t i =
      sumBelow S w g (n + 1) t + sumAt S w' g' n t i := by
  classical
  rw [sumBelow_succ, sumBelow_succ, ← List.sum_map_erase (sumAt S w g n t) hi,
    ← List.sum_map_erase (sumAt S w' g' n t) hi]
  have heq : ((S.slots (n + 1)).erase i).map (sumAt S w' g' n t) =
      ((S.slots (n + 1)).erase i).map (sumAt S w g n t) := by
    refine List.map_congr_left fun j hj => ?_
    obtain ⟨hne, hmem⟩ := ((S.nodup (n + 1)).mem_erase_iff).mp hj
    exact hrest j hmem hne
  rw [heq]
  omega

/-- A slot whose edge stays and behind which nothing changes contributes what it did. -/
theorem sumAt_congr (hsame : SameAt w w' g g' t i) (hbelow : ∀ e, g t i = some e →
    sumBelow S w' g' n (S.target e) = sumBelow S w g n (S.target e)) :
    sumAt S w' g' n t i = sumAt S w g n t i := by
  obtain ⟨hedge, hw⟩ := hsame
  cases hg : g t i with
  | none => rw [sumAt_none hg, sumAt_none (hedge.trans hg)]
  | some e => rw [sumAt_some hg, sumAt_some (hedge.trans hg), hw n e hg, hbelow e hg]

/-- Of two different slots, at most one has anything if the sum is at most one. -/
theorem sumAt_unique {j : ι} (hi : i ∈ S.slots (n + 1)) (hj : j ∈ S.slots (n + 1))
    (hone : sumBelow S w g (n + 1) t ≤ 1) (hwi : 1 ≤ sumAt S w g n t i)
    (hwj : 1 ≤ sumAt S w g n t j) : i = j := by
  classical
  by_contra hne
  rw [sumBelow_succ, ← List.sum_map_erase _ hi] at hone
  have hmem : j ∈ (S.slots (n + 1)).erase i := (List.mem_erase_of_ne (Ne.symm hne)).mpr hj
  have := List.le_sum_of_mem (List.mem_map.mpr ⟨j, hmem, rfl⟩ :
    sumAt S w g n t j ∈ ((S.slots (n + 1)).erase i).map (sumAt S w g n t))
  omega

/-! ## Paths -/

theorem Path.snoc (h : Path S g n t is (k + 1) T) (hi : i ∈ S.slots (k + 1)) (hg : g T i = some e)
    (hk : 1 ≤ k) : Path S g n t (is ++ [i]) k (S.target e) := by
  generalize hm : k + 1 = m at h
  induction h with
  | here n t =>
    subst hm
    exact .down hi hg hk (.here _ _)
  | down hmem hedge hpos _ ih => exact .down hmem hedge hpos (ih hg hm)

/-- What is below a node at the end of a path is below its start. -/
theorem Path.sumBelow_le (h : Path S g n t is k T) : sumBelow S w g k T ≤ sumBelow S w g n t := by
  induction h with
  | here n t => exact le_rfl
  | @down n k t T i is e hi hg _ _ ih =>
    refine ih.trans (le_trans ?_ (sumAt_le_below (i := i) hi))
    rw [sumAt_some hg]
    exact Nat.le_add_left _ _

/-! ## Nodes that are met -/

section
variable [DecidableEq ν]

theorem visits_self_pos : 1 ≤ visits S g n t t := by simp [visits]

/-- A node that is met once is not met again below itself. -/
theorem sumBelow_self (hone : visits S g n t t ≤ 1) : sumBelow S (edgesTo S t) g n t = 0 := by
  simp only [visits, if_true] at hone
  omega

theorem visits_eq_zero : visits S g n t T = 0 ↔ t ≠ T ∧ sumBelow S (edgesTo S T) g n t = 0 := by
  simp [visits]

/-- What is met behind a slot is met. -/
theorem visits_eq_sumAt (hg : g t i = some e) (hn : 1 ≤ n) :
    visits S g n (S.target e) T = sumAt S (edgesTo S T) g n t i := by
  rw [sumAt_some hg]
  simp [visits, edgesTo, hn]

theorem visits_child_le (hi : i ∈ S.slots (n + 1)) (hg : g t i = some e) (hn : 1 ≤ n) :
    visits S g n (S.target e) T ≤ sumBelow S (edgesTo S T) g (n + 1) t := by
  rw [visits_eq_sumAt hg hn]
  exact sumAt_le_below hi

theorem visits_of_child (hi : i ∈ S.slots (n + 1)) (hg : g t i = some e) (hn : 1 ≤ n)
    (h : visits S g n (S.target e) T ≠ 0) : visits S g (n + 1) t T ≠ 0 := by
  have := visits_child_le (T := T) hi hg hn
  intro h₀
  have := (visits_eq_zero.mp h₀).2
  omega

/-- **The frame rule**: a sum depends on the slots of the nodes that are met. -/
theorem sumBelow_congr
    (h : ∀ X, visits S g n t X ≠ 0 → ∀ m, ∀ j ∈ S.slots m, SameAt w w' g g' X j) :
    sumBelow S w' g' n t = sumBelow S w g n t := by
  induction n generalizing t with
  | zero => rfl
  | succ n ih =>
    rw [sumBelow_succ, sumBelow_succ]
    refine congrArg List.sum (List.map_congr_left fun i hi => ?_)
    obtain ⟨hedge, hw⟩ := h t (Nat.one_le_iff_ne_zero.mp visits_self_pos) _ i hi
    cases hg : g t i with
    | none => rw [sumAt_none hg, sumAt_none (hedge.trans hg)]
    | some e =>
      rw [sumAt_some hg, sumAt_some (hedge.trans hg), hw n e hg]
      cases n with
      | zero => rfl
      | succ n =>
        rw [ih fun X hX => h X (visits_of_child hi hg (Nat.succ_pos n) hX)]

theorem Path.visits_pos (h : Path S g n t is k T) : 1 ≤ visits S g n t T := by
  induction h with
  | here n t => exact visits_self_pos
  | down hi hg hn _ ih =>
    refine ih.trans ((visits_child_le hi hg hn).trans ?_)
    exact Nat.le_add_left _ _

/-- **A node that is met once is met in one way.** -/
theorem Path.unique (h : Path S g n t is k T) (h' : Path S g n t js k' T)
    (hone : visits S g n t T ≤ 1) : is = js ∧ k = k' := by
  induction h generalizing js with
  | here n t =>
    cases h' with
    | here => exact ⟨rfl, rfl⟩
    | down hi hg hn rest =>
      have := rest.visits_pos.trans (visits_child_le hi hg hn)
      have := sumBelow_self hone
      omega
  | @down n k t T i is e hi hg hn rest ih =>
    cases h' with
    | here =>
      have := rest.visits_pos.trans (visits_child_le hi hg hn)
      have := sumBelow_self hone
      omega
    | @down _ _ _ _ j js e' hj hg' _ rest' =>
      have hbelow : sumBelow S (edgesTo S T) g (n + 1) t ≤ 1 := (Nat.le_add_left _ _).trans hone
      obtain rfl : i = j := by
        refine sumAt_unique hi hj hbelow ?_ ?_
        · rw [← visits_eq_sumAt hg hn]
          exact rest.visits_pos
        · rw [← visits_eq_sumAt hg' hn]
          exact rest'.visits_pos
      obtain rfl : e = e' := Option.some.inj (hg.symm.trans hg')
      obtain ⟨rfl, rfl⟩ := ih rest' ((visits_child_le hi hg hn).trans hbelow)
      exact ⟨rfl, rfl⟩

/-- **The write rule**: if the only slot that differs, among those of nodes that are met, is
    slot `i` of a node that is met once, then the sum differs by what that slot contributes. -/
theorem Path.replace (h : Path S g n t is (k + 1) T) (hi : i ∈ S.slots (k + 1))
    (hone : visits S g n t T ≤ 1)
    (hsame : ∀ X, visits S g n t X ≠ 0 → ∀ m, ∀ j ∈ S.slots m, X ≠ T ∨ j ≠ i →
      SameAt w w' g g' X j) :
    sumBelow S w' g' n t + sumAt S w g k T i = sumBelow S w g n t + sumAt S w' g' k T i := by
  generalize hm : k + 1 = m at h
  induction h with
  | here n t =>
    subst hm
    refine sumBelow_split w w' g g' hi fun j hj hne => ?_
    have hzero := sumBelow_succ_eq_zero.mp (sumBelow_self hone)
    have hmet : visits S g (k + 1) t t ≠ 0 := Nat.one_le_iff_ne_zero.mp visits_self_pos
    refine sumAt_congr (hsame t hmet _ j hj (.inr hne)) fun e he => ?_
    cases k with
    | zero => rfl
    | succ k =>
      refine sumBelow_congr fun X hX m j' hj' => ?_
      refine hsame X (visits_of_child hj he (Nat.succ_pos k) hX) m j' hj' (.inl ?_)
      rintro rfl
      obtain ⟨hw, hb⟩ := hzero j hj e he
      exact hX (visits_eq_zero.mpr ⟨by simpa [edgesTo] using hw, hb⟩)
  | @down n k' t T i' is e hi' hg hn rest ih =>
    subst hm
    have hpos := rest.visits_pos
    have hle := visits_child_le (T := T) hi' hg hn
    have hbelow : sumBelow S (edgesTo S T) g (n + 1) t ≤ 1 := (Nat.le_add_left _ _).trans hone
    have htT : t ≠ T := by
      rintro rfl
      have := sumBelow_self hone
      omega
    have hmet : visits S g (n + 1) t t ≠ 0 := Nat.one_le_iff_ne_zero.mp visits_self_pos
    have hsplit := sumBelow_split w w' g g' (t := t) hi'
      fun j hj hne => by
        refine sumAt_congr (hsame t hmet _ j hj (.inl htT)) fun e' he' => ?_
        refine sumBelow_congr fun X hX m j' hj' => hsame X (visits_of_child hj he' hn hX) m j' hj' (.inl ?_)
        rintro rfl
        -- `T` is behind slot `i'` already
        refine hne (sumAt_unique hj hi' hbelow ?_ ?_)
        · rw [← visits_eq_sumAt he' hn]
          exact Nat.one_le_iff_ne_zero.mpr hX
        · rw [← visits_eq_sumAt hg hn]
          exact hpos
    have hih := ih (hle.trans hbelow)
      (fun X hX m j hj hne => hsame X (visits_of_child hi' hg hn hX) m j hj hne) rfl
    obtain ⟨hedge, hw⟩ := hsame t hmet _ i' hi' (.inl htT)
    rw [sumAt_some hg, sumAt_some (hedge.trans hg), hw n e hg] at hsplit
    omega

end

end

/-! ## Several roots -/

/-- The weight of everything below the roots `R`, which have `h` levels each. -/
def total (w : Weight ν ι ε) (g : Graph ν ι ε) (h : Nat) (R : List ν) : Nat :=
  (R.map (sumBelow S w g h)).sum

/-- How often `T` is met from the roots on. -/
def met [DecidableEq ν] (g : Graph ν ι ε) (h : Nat) (R : List ν) (T : ν) : Nat :=
  (R.map fun r => visits S g h r T).sum

section
variable {S} {w w' : Weight ν ι ε} {g g' : Graph ν ι ε} {h k k' : Nat}
  {r r' t T : ν} {R : List ν} {i : ι} {is js : List ι}

@[simp] theorem total_cons : total S w g h (r :: R) = sumBelow S w g h r + total S w g h R := by
  simp [total]

theorem sumBelow_le_total (hr : r ∈ R) : sumBelow S w g h r ≤ total S w g h R :=
  List.le_sum_of_mem (List.mem_map.mpr ⟨r, hr, rfl⟩)

theorem total_perm {R' : List ν} (hperm : R.Perm R') : total S w g h R = total S w g h R' :=
  (hperm.map _).sum_eq

variable [DecidableEq ν]

@[simp] theorem met_cons : met S g h (r :: R) T = visits S g h r T + met S g h R T := by
  simp [met]

theorem met_eq : met S g h R T = R.count T + total S (edgesTo S T) g h R := by
  induction R with
  | nil => rfl
  | cons r R ih =>
    rw [met_cons, total_cons, ih, visits, List.count_cons]
    simp only [beq_iff_eq]
    omega

theorem visits_le_met (hr : r ∈ R) : visits S g h r T ≤ met S g h R T :=
  List.le_sum_of_mem (List.mem_map.mpr ⟨r, hr, rfl⟩)

theorem met_perm {R' : List ν} (hperm : R.Perm R') : met S g h R T = met S g h R' T :=
  (hperm.map _).sum_eq

/-- The frame rule, from all roots. -/
theorem total_congr
    (hsame : ∀ X, met S g h R X ≠ 0 → ∀ m, ∀ j ∈ S.slots m, SameAt w w' g g' X j) :
    total S w' g' h R = total S w g h R := by
  refine congrArg List.sum (List.map_congr_left fun r hr => ?_)
  refine sumBelow_congr fun X hX => hsame X fun h₀ => hX ?_
  exact Nat.eq_zero_of_le_zero ((visits_le_met hr).trans h₀.le)

/-- A node that is met once is met from one root. -/
theorem met_unique (hr : r ∈ R) (hr' : r' ∈ R) (hone : met S g h R T ≤ 1)
    (hv : 1 ≤ visits S g h r T) (hv' : 1 ≤ visits S g h r' T) : r = r' := by
  by_contra hne
  rw [met, ← List.sum_map_erase _ hr] at hone
  have := List.le_sum_of_mem (List.mem_map.mpr
    ⟨r', (List.mem_erase_of_ne (Ne.symm hne)).mpr hr', rfl⟩ :
    visits S g h r' T ∈ (R.erase r).map fun r => visits S g h r T)
  omega

/-- **A node that is met once is at the end of one path only**, from all roots. -/
theorem Path.unique_met (hr : r ∈ R) (hr' : r' ∈ R) (hp : Path S g h r is k T)
    (hp' : Path S g h r' js k' T) (hone : met S g h R T ≤ 1) : r = r' ∧ is = js ∧ k = k' := by
  obtain rfl := met_unique hr hr' hone hp.visits_pos hp'.visits_pos
  exact ⟨rfl, hp.unique hp' ((visits_le_met hr).trans hone)⟩

/-- **The write rule**, from all roots. -/
theorem Path.replace_total (hr : r ∈ R) (hp : Path S g h r is (k + 1) T)
    (hi : i ∈ S.slots (k + 1)) (hone : met S g h R T ≤ 1)
    (hsame : ∀ X, met S g h R X ≠ 0 → ∀ m, ∀ j ∈ S.slots m, X ≠ T ∨ j ≠ i →
      SameAt w w' g g' X j) :
    total S w' g' h R + sumAt S w g k T i = total S w g h R + sumAt S w' g' k T i := by
  have hmet : ∀ r' ∈ R, ∀ X, visits S g h r' X ≠ 0 → met S g h R X ≠ 0 := fun r' hr' X hX h₀ =>
    hX (Nat.eq_zero_of_le_zero ((visits_le_met hr').trans h₀.le))
  have hroot := hp.replace hi ((visits_le_met hr).trans hone)
    fun X hX => hsame X (hmet r hr X hX)
  -- from the other roots, and from further copies of this one, `T` is not met
  have hothers : ((R.erase r).map (sumBelow S w' g' h)) = (R.erase r).map (sumBelow S w g h) := by
    refine List.map_congr_left fun r' hr' => ?_
    refine sumBelow_congr fun X hX m j hj =>
      hsame X (hmet r' (List.mem_of_mem_erase hr') X hX) m j hj (.inl ?_)
    rintro rfl
    rw [met, ← List.sum_map_erase _ hr] at hone
    have := List.le_sum_of_mem (List.mem_map.mpr ⟨r', hr', rfl⟩ :
      visits S g h r' X ∈ (R.erase r).map fun r => visits S g h r X)
    have := hp.visits_pos
    omega
  rw [total, total, ← List.sum_map_erase _ hr, ← List.sum_map_erase (sumBelow S w g h) hr, hothers]
  omega

end

end Refk.Lib
