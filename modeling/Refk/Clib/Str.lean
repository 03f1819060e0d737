import Refk.Clib.AvlMap
import Refk.Lib.Bytes

/-!
# `clib/str.c` — C strings as keys

`char` is signed here. A list is the bytes from the pointer on; what follows its end reads as
the terminator, and nothing behind a terminator is looked at.
-/

namespace Refk

open Lib

/-- `str_len` -/
def strLen (s : List Byte) : Nat := (s.takeWhile (· ≠ 0)).length

/-- `str_cmp` -/
def strCmp : List Byte → List Byte → Int
  | [], [] => 0
  | [], b :: _ => if b = 0 then 0 else if 0 < b.toInt then -1 else 1
  | a :: _, [] => if a = 0 then 0 else if a.toInt < 0 then -1 else 1
  | a :: as, b :: bs =>
    if a = 0 ∧ b = 0 then 0
    else if a.toInt < b.toInt then -1
    else if b.toInt < a.toInt then 1
    else strCmp as bs

/-- The characters up to the terminator, and the terminator. -/
def cString : List Byte → List Int
  | [] => [0]
  | a :: as => if a = 0 then [0] else a.toInt :: cString as

theorem toInt_eq_zero {b : Byte} : b.toInt = 0 ↔ b = 0 := BitVec.toInt_inj (y := 0)

theorem avlPtrcmp_cons {a b : Int} {as bs : List Int} :
    avlPtrcmp (a :: as) (b :: bs) =
      if a < b then -1 else if b < a then 1 else avlPtrcmp as bs := by
  rcases lt_trichotomy a b with hlt | rfl | hgt
  · simp [avlPtrcmp, List.cons_lt_cons_iff, hlt]
  · simp [avlPtrcmp]
  · simp [avlPtrcmp, List.cons_lt_cons_iff, hgt, hgt.not_gt, hgt.ne']

/-- **The order of strings** is the lexicographic one on their characters. -/
theorem strCmp_eq (s₁ s₂ : List Byte) : strCmp s₁ s₂ = avlPtrcmp (cString s₁) (cString s₂) := by
  induction s₁ generalizing s₂ with
  | nil =>
    cases s₂ with
    | nil => simp [strCmp, cString, avlPtrcmp]
    | cons b bs =>
      by_cases hb : b = 0
      · simp [strCmp, cString, hb, avlPtrcmp]
      · have hne : b.toInt ≠ 0 := fun h => hb (toInt_eq_zero.mp h)
        simp only [strCmp, cString, if_neg hb, avlPtrcmp_cons]
        split_ifs <;> first | rfl | omega
  | cons a as ih =>
    cases s₂ with
    | nil =>
      by_cases ha : a = 0
      · simp [strCmp, cString, ha, avlPtrcmp]
      · have hne : a.toInt ≠ 0 := fun h => ha (toInt_eq_zero.mp h)
        simp only [strCmp, cString, if_neg ha, avlPtrcmp_cons]
        split_ifs <;> first | rfl | omega
    | cons b bs =>
      by_cases ha : a = 0 <;> by_cases hb : b = 0
      · simp [strCmp, cString, ha, hb, avlPtrcmp]
      · have hne : b.toInt ≠ 0 := fun h => hb (toInt_eq_zero.mp h)
        simp only [strCmp, cString, ha, hb, and_false, if_true, if_false, avlPtrcmp_cons,
          toInt_eq_zero.mpr rfl]
        split_ifs <;> first | rfl | omega
      · have hne : a.toInt ≠ 0 := fun h => ha (toInt_eq_zero.mp h)
        simp only [strCmp, cString, ha, hb, false_and, if_true, if_false, avlPtrcmp_cons,
          toInt_eq_zero.mpr rfl]
        split_ifs <;> first | rfl | omega
      · simp only [strCmp, cString, ha, hb, and_self, if_false, avlPtrcmp_cons, ih]

theorem strCmp_eq_zero {s₁ s₂ : List Byte} : strCmp s₁ s₂ = 0 ↔ cString s₁ = cString s₂ := by
  rw [strCmp_eq]
  exact AvlMap.avlPtrcmp_eq_zero

instance : TotalCmp strCmp where
  swap a b := by
    rw [strCmp_eq, strCmp_eq]
    exact avlPtrcmp_total.swap _ _
  trans a b c := by
    rw [strCmp_eq, strCmp_eq, strCmp_eq]
    exact avlPtrcmp_total.trans _ _ _

end Refk
