import Refk.Klib.Paging

/-!
# `klib/heap.c` — the kernel heap's break

The allocator asks its sizer for more memory and gets the old end of the heap. The kernel's
sizer maps the new pages itself, one `kmem_map` of one page from the free list for each. What
it has mapped is kept beside the state as a log, oldest first, because the page tables forget
that an entry was written twice.

The loop is to end at the new end of the heap. It ends at the old end plus the new *size*, which
is the same place only while the heap is empty.
-/

namespace Refk

/-- The page allocator, `heap_size`, and the pages that the sizer has mapped: where, and which. -/
structure KernelHeap where
  kmem : Kmem
  heapSize : Word
  maps : List (Word × Word)

/-- The body of the loop of `heap_klib_sizer`. -/
def KernelHeap.mapPage (h : KernelHeap) (current p : Word) : KernelHeap :=
  let (k, page) := kmemGetpage h.kmem
  { h with kmem := kmemMap k current p page kmemMapData, maps := h.maps ++ [(p, page)] }

/-- `for(p = …; p < end; p += 0x1000)`, for at most `fuel` turns. -/
def heapMapPages (current : Word) : Nat → KernelHeap → Word → Word → Option KernelHeap
  | 0, h, p, end_ => if p < end_ then none else some h
  | fuel + 1, h, p, end_ =>
    if p < end_ then heapMapPages current fuel (h.mapPage current p) (p + 0x1000) end_
    else some h

/-- `(amount+0xfff) & ~0xfff` -/
def roundUp (amount : Word) : Word := (amount + 0xfff) &&& pageMask

/-- One turn for every page of the address space. -/
def pagesOfMemory : Nat := 2 ^ 52

/-- `heap_klib_sizer`, with its result; `start` is `heap_get_start()` and `current`
    `kmem_current()`. -/
def heapKlibSizer (start current : Word) (h : KernelHeap) (amount : Word) :
    Option (KernelHeap × Word) :=
  if amount.slt 0 then some (h, start + h.heapSize)
  else do
    let amount := roundUp amount
    let newSize := h.heapSize + amount
    let prevEnd := start + h.heapSize
    let h ← heapMapPages current pagesOfMemory h prevEnd (prevEnd + newSize)
    let oldSize := h.heapSize
    some ({ h with heapSize := newSize }, start + oldSize)

/-! ## Ranges of pages -/

/-- The `n` pages from `p` on. -/
def pagesFrom (p : Word) (n : Nat) : List Word := (List.range n).map (nthPage p)

@[simp] theorem length_pagesFrom (p : Word) (n : Nat) : (pagesFrom p n).length = n := by
  simp [pagesFrom]

@[simp] theorem pagesFrom_zero (p : Word) : pagesFrom p 0 = [] := rfl

theorem nthPage_add (p : Word) (i j : Nat) : nthPage (nthPage p i) j = nthPage p (i + j) := by
  unfold nthPage
  rw [BitVec.add_assoc, ← BitVec.add_mul, ← BitVec.ofNat_add]

theorem pagesFrom_add (p : Word) (m n : Nat) :
    pagesFrom p (m + n) = pagesFrom p m ++ pagesFrom (nthPage p m) n := by
  simp only [pagesFrom, List.range_add, List.map_append, List.map_map]
  congr 1
  exact List.map_congr_left fun i _ => (nthPage_add p m i).symm

theorem pagesFrom_succ (p : Word) (n : Nat) :
    pagesFrom p (n + 1) = p :: pagesFrom (p + 0x1000) n := by
  rw [Nat.add_comm, pagesFrom_add]
  simp [pagesFrom, nthPage]

/-! ## The loop -/

section
variable {current p end_ : Word} {h : KernelHeap}

/-- The loop does nothing if it starts at its end or behind it … -/
theorem heapMapPages_done (fuel : Nat) (hge : end_ ≤ p) :
    heapMapPages current fuel h p end_ = some h := by
  cases fuel with
  | zero => rw [heapMapPages, if_neg (BitVec.not_lt.mpr hge)]
  | succ fuel => rw [heapMapPages, if_neg (BitVec.not_lt.mpr hge)]

/-- … and maps each page up to it once, in order, otherwise. -/
theorem heapMapPages_spec {n fuel : Nat} (hn : p.toNat + n * 0x1000 = end_.toNat)
    (hfuel : n ≤ fuel) : ∃ h', heapMapPages current fuel h p end_ = some h' ∧
      h'.heapSize = h.heapSize ∧
      h'.maps.map Prod.fst = h.maps.map Prod.fst ++ pagesFrom p n := by
  induction n generalizing fuel h p with
  | zero =>
    refine ⟨h, heapMapPages_done fuel ?_, rfl, by simp⟩
    rw [BitVec.le_def]
    omega
  | succ n ih =>
    cases fuel with
    | zero => omega
    | succ fuel =>
      have hlt : p < end_ := by
        rw [BitVec.lt_def]
        omega
      have hnext : (p + 0x1000).toNat = p.toNat + 0x1000 := by
        have hend := end_.isLt
        rw [BitVec.toNat_add, show (0x1000 : Word).toNat = 0x1000 from rfl,
          Nat.mod_eq_of_lt (by omega)]
      have hle : n ≤ fuel := Nat.le_of_succ_le_succ hfuel
      obtain ⟨h', hrun, hsize, hmaps⟩ := ih (h := h.mapPage current p) (p := p + 0x1000)
        (by omega) hle
      refine ⟨h', ?_, hsize, ?_⟩
      · rw [heapMapPages, if_pos hlt, hrun]
      · rw [hmaps, pagesFrom_succ]
        simp [KernelHeap.mapPage]

end

end Refk
