import Mathlib.Tactic

/-!
# Bytes: little-endian numbers and byte areas

A number of `k` bytes as a list, least significant first, and the two copies every buffer is
made of: `store` writes a list of elements into an area at an offset, `load` reads one back.
An area is a function on offsets, so what lies beyond a copy is simply unchanged.
-/

namespace Refk.Lib

abbrev Byte := BitVec 8

/-- The `k` low bytes of a number. -/
def toLe : Nat → Nat → List Byte
  | 0, _ => []
  | k + 1, n => BitVec.ofNat 8 n :: toLe k (n / 256)

/-- The number a list of bytes spells. -/
def ofLe : List Byte → Nat
  | [] => 0
  | b :: bs => b.toNat + 256 * ofLe bs

@[simp] theorem length_toLe (k n : Nat) : (toLe k n).length = k := by
  induction k generalizing n with
  | zero => rfl
  | succ k ih => simp [toLe, ih]

theorem ofLe_toLe (k n : Nat) : ofLe (toLe k n) = n % 256 ^ k := by
  induction k generalizing n with
  | zero => simp [toLe, ofLe, Nat.mod_one]
  | succ k ih =>
    rw [toLe, ofLe, ih, pow_succ, Nat.mul_comm (256 ^ k), Nat.mod_mul]
    simp

theorem ofLe_toLe_of_lt {k n : Nat} (h : n < 256 ^ k) : ofLe (toLe k n) = n := by
  rw [ofLe_toLe, Nat.mod_eq_of_lt h]

theorem ofLe_lt (bs : List Byte) : ofLe bs < 256 ^ bs.length := by
  induction bs with
  | nil => simp [ofLe]
  | cons b bs ih =>
    have hb := b.isLt
    rw [ofLe, List.length_cons, pow_succ]
    omega

theorem ofLe_append (as bs : List Byte) :
    ofLe (as ++ bs) = ofLe as + 256 ^ as.length * ofLe bs := by
  induction as with
  | nil => simp [ofLe]
  | cons a as ih =>
    rw [List.cons_append, ofLe, ofLe, ih, List.length_cons, pow_succ]
    ring

theorem toLe_ofLe (bs : List Byte) : toLe bs.length (ofLe bs) = bs := by
  induction bs with
  | nil => rfl
  | cons b bs ih =>
    have hb := b.isLt
    have hdiv : (b.toNat + 256 * ofLe bs) / 256 = ofLe bs := by omega
    have hlow : BitVec.ofNat 8 (b.toNat + 256 * ofLe bs) = b := by
      rw [← BitVec.toNat_inj, BitVec.toNat_ofNat]
      omega
    rw [List.length_cons, ofLe, toLe, hdiv, ih, hlow]

section
variable {α : Type} {area : Nat → α} {xs : List α} {off i n : Nat}

/-- The area after `xs` has been copied to offset `off`. -/
def store (area : Nat → α) (off : Nat) (xs : List α) : Nat → α := fun j =>
  if off ≤ j then xs.getD (j - off) (area j) else area j

/-- The `n` elements at offset `off`. -/
def load (area : Nat → α) (off n : Nat) : List α := (List.range n).map fun i => area (off + i)

@[simp] theorem length_load : (load area off n).length = n := by simp [load]

@[simp] theorem store_nil : store area off [] = area := by
  funext j
  simp [store]

theorem store_of_lt (h : i < off) : store area off xs i = area i := by
  simp [store, h]

theorem store_of_le (h : off + xs.length ≤ i) : store area off xs i = area i := by
  have : xs.length ≤ i - off := by omega
  simp [store, List.getElem?_eq_none this]

theorem store_add (h : i < xs.length) : store area off xs (off + i) = xs[i] := by
  simp [store, h]

theorem load_add (area : Nat → α) (off n k : Nat) :
    load area off (n + k) = load area off n ++ load area (off + n) k := by
  simp only [load, List.range_add, List.map_append, List.map_map, Nat.add_assoc]
  rfl

theorem getElem_load (h : i < (load area off n).length) :
    (load area off n)[i] = area (off + i) := by
  simp [load]

end

/-- The bytes of a number, by place. -/
theorem load_bytes (k n : Nat) : load (fun i => BitVec.ofNat 8 (n / 256 ^ i)) 0 k = toLe k n := by
  induction k generalizing n with
  | zero => rfl
  | succ k ih =>
    have hshift : ∀ i, n / 256 ^ (i + 1) = n / 256 / 256 ^ i := by
      intro i
      rw [pow_succ, Nat.mul_comm, Nat.div_div_eq_div_mul]
    rw [toLe, ← ih, load, List.range_succ_eq_map, List.map_cons, List.map_map, load]
    simp only [Nat.zero_add, pow_zero, Nat.div_one, List.cons.injEq, true_and]
    apply List.map_congr_left
    intro i _
    rw [Function.comp_apply, Nat.succ_eq_add_one, hshift]

/-- The number that a part of some bytes spells. -/
theorem ofLe_load_part (area : Nat → Byte) {off k n m : Nat} (h : k + n ≤ m) :
    ofLe (load area (off + k) n) = ofLe (load area off m) / 256 ^ k % 256 ^ n := by
  obtain ⟨j, rfl⟩ := Nat.exists_eq_add_of_le h
  have hlow : ofLe (load area off k) < 256 ^ k := by
    simpa using ofLe_lt (load area off k)
  have hpart : ofLe (load area (off + k) n) < 256 ^ n := by
    simpa using ofLe_lt (load area (off + k) n)
  rw [Nat.add_assoc, load_add, load_add, ofLe_append, ofLe_append, length_load, length_load,
    Nat.add_mul_div_left _ _ (by positivity), Nat.div_eq_of_lt hlow, Nat.zero_add,
    Nat.add_mul_mod_self_left, Nat.mod_eq_of_lt hpart]

end Refk.Lib
