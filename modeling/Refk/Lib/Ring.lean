import Refk.Lib.Bytes

/-!
# Circular buffers

An area of `D` cells read and written in a circle. `put` and `get` are the usual two-part
copies, up to the end of the area and from its start; `Holds` says what the circle contains
from a position on, and the lemmas below say that `put` appends to that and `get` takes off
its front, wherever the wrap falls.
-/

namespace Refk.Lib.Ring

variable {α : Type} {D b e i j : Nat} {area : Nat → α} {xs ys : List α}

/-- The cell `i` places after position `b`. -/
def index (D b i : Nat) : Nat := if b + i < D then b + i else b + i - D

theorem index_lt (hb : b < D) (hi : i ≤ D) : index D b i < D := by
  unfold index
  split_ifs with h
  · exact h
  · exact (Nat.sub_le_of_le_add (Nat.add_le_add_left hi b)).trans_lt hb

theorem index_index (hb : b < D) (h : i + j ≤ D) : index D (index D b i) j = index D b (i + j) := by
  unfold index
  split_ifs <;> omega

theorem index_eq_mod (hb : b < D) (hi : i ≤ D) : index D b i = (b + i) % D := by
  unfold index
  split_ifs with h
  · rw [Nat.mod_eq_of_lt h]
  · rw [Nat.mod_eq_sub_mod (by omega)]
    by_cases hend : b + i - D < D
    · rw [Nat.mod_eq_of_lt hend]
    · omega

/-- Every cell of the circle is at some place behind `b`. -/
theorem exists_index (hb : b < D) (hj : j < D) : ∃ i < D, index D b i = j := by
  unfold index
  by_cases h : b ≤ j
  · exact ⟨j - b, by omega, by split_ifs <;> omega⟩
  · exact ⟨j + D - b, by omega, by split_ifs <;> omega⟩

/-- Writes `xs` from position `e` on: the area and the position after it. -/
def put (D : Nat) (area : Nat → α) (e : Nat) (xs : List α) : (Nat → α) × Nat :=
  if e + xs.length ≥ D then
    (store (store area e (xs.take (D - e))) 0 (xs.drop (D - e)), xs.length - (D - e))
  else
    (store area e xs, e + xs.length)

/-- Reads `n` cells from position `b` on, and the position after them. -/
def get (D : Nat) (area : Nat → α) (b n : Nat) : List α × Nat :=
  if b + n ≥ D then
    (load area b (D - b) ++ load area 0 (n - (D - b)), n - (D - b))
  else
    (load area b n, b + n)

/-- From position `b` on the circle holds `xs`. -/
def Holds (D : Nat) (area : Nat → α) (b : Nat) (xs : List α) : Prop :=
  ∀ i (h : i < xs.length), area (index D b i) = xs[i]

theorem put_snd (he : e < D) :
    (put D area e xs).2 = index D e xs.length := by
  unfold put index
  split_ifs <;> omega

theorem put_holds (he : e < D) (hn : xs.length ≤ D) : Holds D (put D area e xs).1 e xs := by
  intro i hi
  unfold put index
  by_cases hw : e + xs.length ≥ D
  · simp only [hw, if_true]
    by_cases hlt : e + i < D
    · -- before the wrap; the second copy stays below `e`
      rw [if_pos hlt, store_of_le (by simp; omega), store_add (by simp; omega)]
      simp
    · rw [if_neg hlt]
      have hi' : e + i - D < (xs.drop (D - e)).length := by simp; omega
      have h₀ : store (store area e (xs.take (D - e))) 0 (xs.drop (D - e)) (0 + (e + i - D)) = _ :=
        store_add hi'
      rw [Nat.zero_add] at h₀
      rw [h₀, List.getElem_drop]
      congr 1
      omega
  · simp only [hw, if_false]
    rw [if_pos (by omega), store_add hi]

/-- `put` changes no other cell. -/
theorem put_frame (he : e < D) (hi : xs.length ≤ i) (hiD : i < D) :
    (put D area e xs).1 (index D e i) = area (index D e i) := by
  unfold put index
  by_cases hw : e + xs.length ≥ D
  · simp only [hw, if_true]
    rw [if_neg (by omega), store_of_le (by simp; omega), store_of_lt (by omega)]
  · simp only [hw, if_false]
    by_cases hlt : e + i < D
    · rw [if_pos hlt, store_of_le (by omega)]
    · rw [if_neg hlt, store_of_lt (by omega)]

/-- Nor one behind the area. -/
theorem put_of_le (he : e < D) (hn : xs.length ≤ D) (hj : D ≤ j) :
    (put D area e xs).1 j = area j := by
  unfold put
  by_cases hw : e + xs.length ≥ D
  · simp only [hw, if_true]
    rw [store_of_le (by simp; omega), store_of_le (by simp; omega)]
  · simp only [hw, if_false]
    exact store_of_le (by omega)

theorem holds_append (hb : b < D) (hn : xs.length + ys.length ≤ D) :
    Holds D area b (xs ++ ys) ↔
      Holds D area b xs ∧ Holds D area (index D b xs.length) ys := by
  constructor
  · refine fun h => ⟨fun i hi => ?_, fun i hi => ?_⟩
    · rw [h i (by simp; omega), List.getElem_append_left hi]
    · rw [index_index hb (by omega), h (xs.length + i) (by simp; omega),
        List.getElem_append_right (by omega)]
      simp
  · rintro ⟨h₁, h₂⟩ i hi
    rw [List.length_append] at hi
    by_cases hlt : i < xs.length
    · rw [h₁ i hlt, List.getElem_append_left hlt]
    · have h := h₂ (i - xs.length) (by omega)
      rw [index_index hb (by omega), show xs.length + (i - xs.length) = i by omega] at h
      rw [h, List.getElem_append_right (by omega)]

/-- **Appending**: what the circle held is still there, and `ys` follows it. -/
theorem holds_put (hb : b < D) (hn : xs.length + ys.length ≤ D)
    (h : Holds D area b xs) (he : e = index D b xs.length) :
    Holds D (put D area e ys).1 b (xs ++ ys) := by
  have heD : e < D := he ▸ index_lt hb (by omega)
  refine (holds_append hb hn).mpr ⟨fun i hi => ?_, he ▸ put_holds heD (by omega)⟩
  -- the cells of `xs` come after those of `ys` in the circle from `e`
  have hi' : index D b i = index D e (D - xs.length + i) := by
    subst he
    unfold index
    split_ifs <;> omega
  rw [hi', put_frame heD (by omega) (by omega), ← hi', h i hi]

theorem get_snd (hb : b < D) {n : Nat} :
    (get D area b n).2 = index D b n := by
  unfold get index
  split_ifs <;> omega

/-- **Taking off the front.** -/
theorem get_fst (hb : b < D) (h : Holds D area b xs) :
    (get D area b xs.length).1 = xs := by
  unfold get
  by_cases hw : b + xs.length ≥ D
  · simp only [hw, if_true]
    refine List.ext_getElem (by simp; omega) fun i h₁ h₂ => ?_
    have hi := h i h₂
    unfold index at hi
    by_cases hlt : b + i < D
    · rw [List.getElem_append_left (by simp; omega), getElem_load, ← hi, if_pos hlt]
    · rw [List.getElem_append_right (by simp; omega), getElem_load, ← hi, if_neg hlt]
      simp only [length_load]
      congr 1
      omega
  · simp only [hw, if_false]
    refine List.ext_getElem (by simp) fun i h₁ h₂ => ?_
    rw [getElem_load, ← h i h₂, index, if_pos (by omega)]

end Refk.Lib.Ring
