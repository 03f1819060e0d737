import Mathlib.Tactic

/-!
# Going round a list

A partial step that takes every element of a list to the one behind it, and the last one to the
first, comes by every element once before it is back.
-/

namespace Refk.Lib

variable {α : Type}

/-- So many steps of a partial function. -/
def walk (f : α → Option α) : Nat → α → Option α
  | 0, a => some a
  | n + 1, a => (f a).bind (walk f n)

/-- The step goes round the list. -/
def GoesRound (f : α → Option α) (l : List α) : Prop :=
  ∀ k a, l[k]? = some a → f a = l[(k + 1) % l.length]?

variable {f : α → Option α} {l : List α} {a b : α} {k n : Nat}

theorem GoesRound.walk_eq (h : GoesRound f l) (ha : l[k]? = some a) :
    walk f n a = l[(k + n) % l.length]? := by
  induction n generalizing k a with
  | zero =>
    have hk : k < l.length := (List.getElem?_eq_some_iff.mp ha).1
    rw [walk, Nat.add_zero, Nat.mod_eq_of_lt hk, ha]
  | succ n ih =>
    have hpos : 0 < l.length := Nat.zero_lt_of_lt (List.getElem?_eq_some_iff.mp ha).1
    have hnext : (k + 1) % l.length < l.length := Nat.mod_lt _ hpos
    rw [walk, h k a ha, List.getElem?_eq_getElem hnext, Option.bind_some,
      ih (List.getElem?_eq_getElem hnext), Nat.mod_add_mod, Nat.add_right_comm k 1 n,
      Nat.add_assoc k n 1]

/-- After as many steps as there are elements it is back. -/
theorem GoesRound.walk_length (h : GoesRound f l) (ha : a ∈ l) : walk f l.length a = some a := by
  obtain ⟨k, hk⟩ := List.mem_iff_getElem?.mp ha
  have hlt : k < l.length := (List.getElem?_eq_some_iff.mp hk).1
  rw [h.walk_eq hk, Nat.add_mod_right, Nat.mod_eq_of_lt hlt, hk]

/-- Before that it comes by every element, and by none twice. -/
theorem GoesRound.existsUnique (h : GoesRound f l) (hl : l.Nodup) (ha : a ∈ l) (hb : b ∈ l) :
    ∃! n, n < l.length ∧ walk f n a = some b := by
  obtain ⟨k, hk⟩ := List.mem_iff_getElem?.mp ha
  obtain ⟨j, hj⟩ := List.mem_iff_getElem?.mp hb
  have hklt : k < l.length := (List.getElem?_eq_some_iff.mp hk).1
  have hjlt : j < l.length := (List.getElem?_eq_some_iff.mp hj).1
  have hsame : ∀ n, walk f n a = some b ↔ (k + n) % l.length = j := by
    intro n
    rw [h.walk_eq hk, ← hj]
    exact List.getElem?_inj (Nat.mod_lt _ (Nat.zero_lt_of_lt hklt)) hl
  simp only [hsame]
  refine ⟨(j + l.length - k) % l.length, ⟨Nat.mod_lt _ (Nat.zero_lt_of_lt hklt), ?_⟩, ?_⟩
  · rw [Nat.add_mod_mod, show k + (j + l.length - k) = j + l.length by omega, Nat.add_mod_right,
      Nat.mod_eq_of_lt hjlt]
  · rintro n ⟨hn, hmod⟩
    rw [← hmod]
    rcases Nat.lt_or_ge (k + n) l.length with hlt | hge
    · rw [Nat.mod_eq_of_lt hlt, show k + n + l.length - k = n + l.length by omega,
        Nat.add_mod_right, Nat.mod_eq_of_lt hn]
    · have hwrap : (k + n) % l.length = k + n - l.length := by
        rw [Nat.mod_eq_sub_mod hge, Nat.mod_eq_of_lt (by omega)]
      rw [hwrap, show k + n - l.length + l.length - k = n by omega, Nat.mod_eq_of_lt hn]

/-- The first element with `p` behind `a`, or else the first one from the front, goes round the
    elements with `p`. -/
theorem goesRound_of_first {p : α → Bool} (hl : l.Nodup)
    (hf : ∀ as bs a, l = as ++ a :: bs → p a → f a = ((bs ++ as).find? p).or (some a)) :
    GoesRound f (l.filter p) := by
  intro k a hk
  have hmem : a ∈ l.filter p := List.mem_of_getElem? hk
  obtain ⟨has, hpa⟩ := List.mem_filter.mp hmem
  obtain ⟨as, bs, rfl⟩ := List.append_of_mem has
  have hfilter : (as ++ a :: bs).filter p = as.filter p ++ a :: bs.filter p := by
    rw [List.filter_append, List.filter_cons_of_pos hpa]
  have hnodup : (as.filter p ++ a :: bs.filter p).Nodup := by
    rw [← hfilter]
    exact hl.filter p
  have hindex : k = (as.filter p).length := by
    rw [hfilter] at hk
    refine (List.getElem?_inj (List.getElem?_eq_some_iff.mp hk).1 hnodup).mp ?_
    rw [hk, List.getElem?_append_right le_rfl, Nat.sub_self, List.getElem?_cons_zero]
  rw [hf as bs a rfl hpa, hfilter, hindex, List.find?_append, ← List.head?_filter,
    ← List.head?_filter, List.length_append, List.length_cons]
  cases hbs : bs.filter p with
  | nil =>
    rw [List.head?_nil, Option.none_or, List.length_nil, Nat.zero_add, Nat.mod_self]
    cases has' : as.filter p with
    | nil => rfl
    | cons b as' => rfl
  | cons b bs' =>
    rw [List.head?_cons, Option.some_or, Option.some_or, Nat.mod_eq_of_lt (by
      rw [List.length_cons]; omega), List.getElem?_append_right (by omega),
      Nat.add_sub_cancel_left]
    rfl

end Refk.Lib
