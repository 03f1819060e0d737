import Refk.Klib.Kmem
import Refk.Lib.Bytes

/-!
# `clib/mem.c` — copying within memory

`mem_move` copies byte by byte, from the front where the destination is below the source and from
the back otherwise, so that a byte of the source is read before it is written over. Pointers and
the count are 64-bit words; a loop ends when its count does.
-/

namespace Refk

open Lib

/-- Memory, and the copies of single bytes that were made in it, the latest first, as destination
    and source; the latter are bookkeeping that the code does not read. -/
structure Copying where
  bytes : Word → Byte
  copies : List (Word × Word)

/-- `*d8 = *s8` -/
def Copying.copyByte (m : Copying) (d8 s8 : Word) : Copying where
  bytes := Function.update m.bytes d8 (m.bytes s8)
  copies := (d8, s8) :: m.copies

@[simp] theorem Copying.copyByte_self (m : Copying) (d8 s8 : Word) :
    (m.copyByte d8 s8).bytes d8 = m.bytes s8 := Function.update_self ..

theorem Copying.copyByte_of_ne {a d8 : Word} (m : Copying) (s8 : Word) (h : a ≠ d8) :
    (m.copyByte d8 s8).bytes a = m.bytes a := Function.update_of_ne h ..

/-- The loop of `mem_move` that goes up. -/
def moveUp (m : Copying) (d8 s8 count : Word) : Copying :=
  if count = 0 then m
  else moveUp (m.copyByte d8 s8) (d8 + 1) (s8 + 1) (count - 1)
termination_by count.toNat
decreasing_by bv_omega

/-- The loop of `mem_move` that goes down. -/
def moveDown (m : Copying) (d8 s8 count : Word) : Copying :=
  if count = 0 then m
  else moveDown (m.copyByte d8 s8) (d8 - 1) (s8 - 1) (count - 1)
termination_by count.toNat
decreasing_by bv_omega

/-- `mem_move`, with its return value. -/
def memMove (m : Copying) (dest src count : Word) : Copying × Word :=
  if dest < src then (moveUp m dest src count, dest)
  else (moveDown m (dest + count - 1) (src + count - 1) count, dest)

/-- `mem_copy` -/
def memCopy (m : Copying) (dest src count : Word) : Copying × Word := memMove m dest src count

/-- A range that does not wrap around the address space. -/
def NoWrap (p count : Word) : Prop := p.toNat + count.toNat ≤ 2 ^ 64

/-- The copy as far as it is: of the range, the bytes from `lo` up to `hi` are done, and nothing
    else has changed. -/
structure Moving (bytes : Word → Byte) (dest src : Word) (lo hi : Nat) (m : Copying) : Prop where
  copied : ∀ i, lo ≤ i → i < hi → m.bytes (dest + BitVec.ofNat 64 i) = bytes (src + BitVec.ofNat 64 i)
  others : ∀ a, (∀ i, lo ≤ i → i < hi → a ≠ dest + BitVec.ofNat 64 i) → m.bytes a = bytes a
  count : m.copies.length = hi - lo

section
variable {bytes : Word → Byte} {m : Copying} {dest src count : Word} {lo hi i j k n : Nat}

/-- Places of a range are different addresses. -/
theorem place_inj (hi : i < 2 ^ 64) (hj : j < 2 ^ 64)
    (h : dest + BitVec.ofNat 64 i = dest + BitVec.ofNat 64 j) : i = j := by
  have hnat := congrArg BitVec.toNat h
  bv_omega

/-- Before the first copy. -/
theorem moving_start (bytes : Word → Byte) (dest src : Word) (k : Nat) :
    Moving bytes dest src k k ⟨bytes, []⟩ where
  copied i hlo hhi := by omega
  others a _ := rfl
  count := by simp

/-- **One copy**: a byte next to the ones that are done, whose source has not been written over. -/
theorem Moving.copyByte {lo' hi' : Nat} (h : Moving bytes dest src lo hi m)
    (hin : hi' ≤ 2 ^ 64)
    (hnext : lo' = lo ∧ hi' = hi + 1 ∧ k = hi ∨ lo = lo' + 1 ∧ hi' = hi ∧ k = lo')
    (hle : lo ≤ hi) (hkeeps : ∀ i, lo ≤ i → i < hi →
      src + BitVec.ofNat 64 k ≠ dest + BitVec.ofNat 64 i) :
    Moving bytes dest src lo' hi'
      (m.copyByte (dest + BitVec.ofNat 64 k) (src + BitVec.ofNat 64 k)) := by
  have hread : m.bytes (src + BitVec.ofNat 64 k) = bytes (src + BitVec.ofNat 64 k) :=
    h.others _ hkeeps
  constructor
  · intro i hlo hhi
    by_cases hik : i = k
    · rw [hik, m.copyByte_self, hread]
    · have hne : dest + BitVec.ofNat 64 i ≠ dest + BitVec.ofNat 64 k := by
        intro heq
        exact hik (place_inj (Nat.lt_of_lt_of_le hhi hin) (by omega) heq)
      rw [m.copyByte_of_ne _ hne]
      exact h.copied i (by omega) (by omega)
  · intro a ha
    rw [m.copyByte_of_ne _ (ha k (by omega) (by omega))]
    apply h.others
    intro i hlo hhi
    exact ha i (by omega) (by omega)
  · have hcount := h.count
    simp only [Copying.copyByte, List.length_cons]
    omega

/-- The loop upwards finishes the range; below the source, the destination's done part is behind
    what is still to be read. -/
theorem Moving.moveUp (hd : NoWrap dest count) (hs : NoWrap src count) (hlt : dest < src)
    (h : Moving bytes dest src 0 k m) (hn : k + n = count.toNat) :
    Moving bytes dest src 0 count.toNat
      (moveUp m (dest + BitVec.ofNat 64 k) (src + BitVec.ofNat 64 k) (BitVec.ofNat 64 n)) := by
  induction n generalizing k m with
  | zero =>
    rw [Refk.moveUp, if_pos (show (0#64 : Word) = 0 from rfl), ← hn]
    exact h
  | succ n ih =>
    have hne : BitVec.ofNat 64 (n + 1) ≠ 0 := by bv_omega
    have hnext : BitVec.ofNat 64 (n + 1) - 1 = BitVec.ofNat 64 n := by bv_omega
    have hadd (p : Word) : p + BitVec.ofNat 64 k + 1 = p + BitVec.ofNat 64 (k + 1) := by bv_omega
    rw [Refk.moveUp, if_neg hne, hnext, hadd, hadd]
    apply ih _ (by omega)
    apply h.copyByte (by omega) (Or.inl ⟨rfl, rfl, rfl⟩) (Nat.zero_le k)
    intro i _ hik heq
    unfold NoWrap at hd hs
    have hnat := congrArg BitVec.toNat heq
    bv_omega

/-- The loop downwards, from a source that is not above the destination. -/
theorem Moving.moveDown (hd : NoWrap dest count) (hle : ¬ dest < src)
    (h : Moving bytes dest src n count.toNat m) (hn : n ≤ count.toNat) :
    Moving bytes dest src 0 count.toNat
      (moveDown m (dest + BitVec.ofNat 64 n - 1) (src + BitVec.ofNat 64 n - 1)
        (BitVec.ofNat 64 n)) := by
  induction n generalizing m with
  | zero =>
    rw [Refk.moveDown, if_pos (show (0#64 : Word) = 0 from rfl)]
    exact h
  | succ n ih =>
    have hne : BitVec.ofNat 64 (n + 1) ≠ 0 := by bv_omega
    have hnext : BitVec.ofNat 64 (n + 1) - 1 = BitVec.ofNat 64 n := by bv_omega
    have hsub (p : Word) : p + BitVec.ofNat 64 (n + 1) - 1 = p + BitVec.ofNat 64 n := by bv_omega
    rw [Refk.moveDown, if_neg hne, hnext, hsub, hsub]
    apply ih _ (by omega)
    apply h.copyByte (by omega) (Or.inr ⟨rfl, rfl, rfl⟩) hn
    intro i hni hi heq
    unfold NoWrap at hd
    have hnat := congrArg BitVec.toNat heq
    bv_omega

/-- Either loop copies the whole range. -/
theorem moving_memMove (bytes : Word → Byte) (hd : NoWrap dest count) (hs : NoWrap src count) :
    Moving bytes dest src 0 count.toNat (memMove ⟨bytes, []⟩ dest src count).1 := by
  unfold memMove
  split_ifs with hlt
  · have h := Moving.moveUp hd hs hlt (moving_start bytes dest src 0) (Nat.zero_add _)
    simpa using h
  · have h := Moving.moveDown hd hlt (moving_start bytes dest src count.toNat) le_rfl
    simpa using h

end

/-- **`mem_move` moves**, whichever way the ranges overlap: the destination shows what the source
    held, nothing else has changed, and as many bytes were copied as were asked for. -/
theorem mem_move_moves (bytes : Word → Byte) (dest src count : Word) (hd : NoWrap dest count)
    (hs : NoWrap src count) :
    let m := (memMove ⟨bytes, []⟩ dest src count).1
    (∀ i < count.toNat, m.bytes (dest + BitVec.ofNat 64 i) = bytes (src + BitVec.ofNat 64 i)) ∧
      (∀ a, (∀ i < count.toNat, a ≠ dest + BitVec.ofNat 64 i) → m.bytes a = bytes a) ∧
      m.copies.length = count.toNat ∧ (memMove ⟨bytes, []⟩ dest src count).2 = dest ∧
      memCopy ⟨bytes, []⟩ dest src count = memMove ⟨bytes, []⟩ dest src count := by
  have h : Moving bytes dest src 0 count.toNat (memMove ⟨bytes, []⟩ dest src count).1 :=
    moving_memMove bytes hd hs
  refine ⟨?_, ?_, h.count, ?_, rfl⟩
  · intro i hi
    exact h.copied i (Nat.zero_le i) hi
  · intro a ha
    apply h.others
    intro i _ hi
    exact ha i hi
  · unfold memMove
    split_ifs <;> rfl

/-- Eight bytes moved three places up, over their own source. -/
theorem mem_move_moves_of_overlap :
    let bytes : Word → Byte := fun a => BitVec.ofNat 8 a.toNat
    ((memMove ⟨bytes, []⟩ 0x1003 0x1000 8).1.bytes (0x1003 + BitVec.ofNat 64 5) =
      bytes (0x1000 + BitVec.ofNat 64 5)) ∧
      (memMove ⟨bytes, []⟩ 0x1003 0x1000 8).1.copies.length = 8 := by
  have h := mem_move_moves (fun a => BitVec.ofNat 8 a.toNat) 0x1003 0x1000 8
    (by unfold NoWrap; decide) (by unfold NoWrap; decide)
  exact ⟨h.1 5 (by decide), h.2.2.1⟩

end Refk
