import Refk.Klib.Heap
import Refk.Lib.Run

/-!
# `rlib/heap.c` — two sizers, one break

The user's sizer keeps the same count as the kernel's, and asks the scheduler to map the new
pages instead of mapping them: one `rlib_anonymous` of the whole range, which maps each of its
pages once if it is honoured.

Both are driven here by the same sequence of requests. `HeapExact` is what both are for: the old
break is the answer, and the pages mapped so far are those from the start to the new break,
each once. The user's sizer always does that, the kernel's only as long as the heap is empty.
-/

namespace Refk

open Lib

/-- `heap_size` and `last_map_addr` of a user task, and the mapping requests it has sent: the
    address and the size. -/
structure UserHeap where
  heapSize : Word
  lastMapAddr : Word
  requests : List (Word × Word)

/-- `rlib_get_memory_address`; `mapStart` is `rlib_map_start()`. -/
def rlibGetMemoryAddress (mapStart : Word) (h : UserHeap) (size : Word) : UserHeap × Word :=
  let addr := if h.lastMapAddr = 0 then mapStart else h.lastMapAddr
  ({ h with lastMapAddr := addr + size + 0x1000 }, addr)

/-- `rlib_anonymous`, up to its wait for the reply. -/
def rlibAnonymous (mapStart : Word) (h : UserHeap) (address size : Word) : UserHeap × Word :=
  let (h, address) := if address = 0 then rlibGetMemoryAddress mapStart h size else (h, address)
  ({ h with requests := h.requests ++ [(address, size)] }, address)

/-- `heap_rlib_sizer`, with its result. -/
def heapRlibSizer (start mapStart : Word) (h : UserHeap) (amount : Word) : UserHeap × Word :=
  if amount.slt 0 then (h, start + h.heapSize)
  else
    let amount := roundUp amount
    let newSize := h.heapSize + amount
    let prevEnd := start + h.heapSize
    let (h, _) := rlibAnonymous mapStart h prevEnd amount
    let oldSize := h.heapSize
    ({ h with heapSize := newSize }, start + oldSize)

/-- The pages that the requests map when they are honoured. -/
def UserHeap.maps (h : UserHeap) : List Word :=
  h.requests.flatMap fun r => pagesFrom r.1 (r.2.toNat / 0x1000)

/-- A kernel heap and a user heap. -/
structure Heaps where
  kernel : KernelHeap
  user : UserHeap

/-- Where a heap lies: its start, the kernel's root, and where the user's other mappings go. -/
structure HeapPlace where
  start : Word
  current : Word
  mapStart : Word

/-- The same request to both. -/
def heapStep (w : HeapPlace) (s : Heaps) (amount : Word) : Option (Heaps × Word × Word) := do
  let (kernel, p) ← heapKlibSizer w.start w.current s.kernel amount
  let (user, q) := heapRlibSizer w.start w.mapStart s.user amount
  some (⟨kernel, user⟩, p, q)

/-- Two empty heaps. -/
def heapsEmpty (k : Kmem) (lastMapAddr : Word) : Heaps := ⟨⟨k, 0, []⟩, ⟨0, lastMapAddr, []⟩⟩

/-- What a request asks for, in bytes: nothing if it is negative, else whole pages. -/
def requested (amount : Word) : Nat :=
  if amount.slt 0 then 0 else (amount.toNat + 0xfff) / 0x1000 * 0x1000

/-- The total does not overflow: neither the rounding of the amount nor the new break. -/
def HeapOk (w : HeapPlace) (s : Heaps) (amount : Word) : Prop :=
  (amount.slt 0 = false → amount.toNat + 0xfff < 2 ^ 63) ∧
    w.start.toNat + s.kernel.heapSize.toNat + requested amount < 2 ^ 64

instance (w : HeapPlace) (s : Heaps) (amount : Word) : Decidable (HeapOk w s amount) :=
  inferInstanceAs (Decidable (_ ∧ _))

/-- **An exact break.** Both answer the old break and move it by what was requested; the pages
    each has mapped are those of the heap, each once; and the kernel's took a data page for each
    page of the request. -/
structure HeapExact (w : HeapPlace) (s : Heaps) (amount : Word) (b : Word × Word)
    (s' : Heaps) : Prop where
  answer : b.1 = w.start + s.kernel.heapSize
  same : b.2 = b.1
  break_ : s'.kernel.heapSize.toNat = s.kernel.heapSize.toNat + requested amount
  sameBreak : s'.user.heapSize = s'.kernel.heapSize
  kernelMaps : s'.kernel.maps.map Prod.fst =
    pagesFrom w.start (s'.kernel.heapSize.toNat / 0x1000)
  userMaps : s'.user.maps = s'.kernel.maps.map Prod.fst
  taken : s'.kernel.maps.length = s.kernel.maps.length + requested amount / 0x1000

/-- The loop of the kernel's sizer ends where it should: the request maps nothing, the heap is
    empty, or nothing is to be mapped and the wrong end wraps to the front of the right one. -/
def LoopEnds (w : HeapPlace) (s : Heaps) (amount : Word) (_ : Word × Word) (_ : Heaps) : Prop :=
  amount.slt 0 ∨ s.kernel.heapSize = 0 ∨
    requested amount = 0 ∧ 2 ^ 64 ≤ w.start.toNat + 2 * s.kernel.heapSize.toNat

/-- What holds before every request. -/
structure HeapInv (w : HeapPlace) (s : Heaps) : Prop where
  sameBreak : s.user.heapSize = s.kernel.heapSize
  wholePages : s.kernel.heapSize.toNat % 0x1000 = 0
  inMemory : w.start.toNat + s.kernel.heapSize.toNat < 2 ^ 64
  kernelMaps : s.kernel.maps.map Prod.fst = pagesFrom w.start (s.kernel.heapSize.toNat / 0x1000)
  userMaps : s.user.maps = pagesFrom w.start (s.kernel.heapSize.toNat / 0x1000)

section
variable {w : HeapPlace} {s s' : Heaps} {amount : Word} {b : Word × Word}

theorem toNat_roundUp (hpos : amount.slt 0 = false) (h : amount.toNat + 0xfff < 2 ^ 63) :
    (roundUp amount).toNat = requested amount := by
  rw [roundUp, toNat_and_pageMask, requested, hpos, BitVec.toNat_add,
    show (0xfff : Word).toNat = 0xfff from rfl, Nat.mod_eq_of_lt (by omega)]
  simp

theorem requested_whole (amount : Word) : requested amount % 0x1000 = 0 := by
  unfold requested
  split
  · rfl
  · exact Nat.mul_mod_left _ _

/-- The page that stands at the break. -/
theorem nthPage_break {size : Nat} (hsize : size % 0x1000 = 0) :
    nthPage w.start (size / 0x1000) = w.start + BitVec.ofNat 64 size := by
  rw [nthPage, show (0x1000 : Word) = BitVec.ofNat 64 0x1000 from rfl, ← BitVec.ofNat_mul,
    Nat.div_mul_cancel (Nat.dvd_of_mod_eq_zero hsize)]

/-- A negative request does nothing. -/
theorem heapStep_negative (hneg : amount.slt 0 = true) :
    heapStep w s amount =
      some (s, w.start + s.kernel.heapSize, w.start + s.user.heapSize) := by
  rw [heapStep, heapKlibSizer, heapRlibSizer, if_pos hneg, if_pos hneg]
  rfl

/-- The old break. -/
theorem HeapInv.toNat_break (h : HeapInv w s) :
    (w.start + s.kernel.heapSize).toNat = w.start.toNat + s.kernel.heapSize.toNat := by
  rw [BitVec.toNat_add, Nat.mod_eq_of_lt h.inMemory]

/-- The page at the old break. -/
theorem HeapInv.nthPage_break (h : HeapInv w s) :
    nthPage w.start (s.kernel.heapSize.toNat / 0x1000) = w.start + s.kernel.heapSize := by
  rw [Refk.nthPage_break h.wholePages, BitVec.ofNat_toNat, BitVec.setWidth_eq]

/-- **How far the kernel's loop goes**: over the whole heap and the request, or nowhere. -/
theorem kernel_turns (h : HeapInv w s) (hstart : PageAligned w.start)
    (hpos : amount.slt 0 = false) (hok : HeapOk w s amount) : ∃ n k,
      heapMapPages w.current pagesOfMemory s.kernel (w.start + s.kernel.heapSize)
        (w.start + s.kernel.heapSize + (s.kernel.heapSize + roundUp amount)) = some k ∧
      k.heapSize = s.kernel.heapSize ∧
      k.maps.map Prod.fst =
        s.kernel.maps.map Prod.fst ++ pagesFrom (w.start + s.kernel.heapSize) n ∧
      (n = requested amount / 0x1000 ↔ LoopEnds w s amount b s') := by
  obtain ⟨hround, htotal⟩ := hok
  have hround := toNat_roundUp hpos (hround hpos)
  have hwhole := requested_whole amount
  have hsize := h.wholePages
  have hsum : (s.kernel.heapSize + roundUp amount).toNat =
      s.kernel.heapSize.toNat + requested amount := by
    rw [BitVec.toNat_add, hround, Nat.mod_eq_of_lt (by omega)]
  have hends : LoopEnds w s amount b s' ↔ s.kernel.heapSize.toNat = 0 ∨
      requested amount = 0 ∧ 2 ^ 64 ≤ w.start.toNat + 2 * s.kernel.heapSize.toNat := by
    rw [LoopEnds, hpos, ← BitVec.toNat_inj]
    simp
  unfold PageAligned at hstart
  by_cases hwrap : w.start.toNat + 2 * s.kernel.heapSize.toNat + requested amount < 2 ^ 64
  · have hend : (w.start + s.kernel.heapSize + (s.kernel.heapSize + roundUp amount)).toNat =
        w.start.toNat + 2 * s.kernel.heapSize.toNat + requested amount := by
      rw [BitVec.toNat_add, h.toNat_break, hsum, Nat.mod_eq_of_lt (by omega)]
      omega
    have hn : (w.start + s.kernel.heapSize).toNat +
        (s.kernel.heapSize.toNat + requested amount) / 0x1000 * 0x1000 =
        (w.start + s.kernel.heapSize + (s.kernel.heapSize + roundUp amount)).toNat := by
      rw [h.toNat_break, hend]
      omega
    have hfuel : (s.kernel.heapSize.toNat + requested amount) / 0x1000 ≤ pagesOfMemory := by
      unfold pagesOfMemory
      omega
    obtain ⟨k, hrun, hk, hmaps⟩ := @heapMapPages_spec w.current _ _ s.kernel _ _ hn hfuel
    refine ⟨_, k, hrun, hk, hmaps, ?_⟩
    rw [hends]
    omega
  · have hge : w.start + s.kernel.heapSize + (s.kernel.heapSize + roundUp amount) ≤
        w.start + s.kernel.heapSize := by
      rw [BitVec.le_def, BitVec.toNat_add, hsum, h.toNat_break]
      omega
    refine ⟨0, s.kernel, heapMapPages_done _ hge, rfl, by simp, ?_⟩
    rw [hends]
    omega

/-- What the user's sizer does with a request that is not negative. -/
theorem heapRlibSizer_grow (h : HeapInv w s) (hstart : w.start ≠ 0)
    (hpos : amount.slt 0 = false) (hok : HeapOk w s amount) :
    (heapRlibSizer w.start w.mapStart s.user amount).2 = w.start + s.kernel.heapSize ∧
      (heapRlibSizer w.start w.mapStart s.user amount).1.heapSize =
        s.kernel.heapSize + roundUp amount ∧
      (heapRlibSizer w.start w.mapStart s.user amount).1.maps =
        pagesFrom w.start ((s.kernel.heapSize.toNat + requested amount) / 0x1000) := by
  have hbreak : w.start + s.kernel.heapSize ≠ 0 := by
    intro heq
    have hsum : w.start.toNat + s.kernel.heapSize.toNat = 0 := by
      rw [← h.toNat_break, heq]
      rfl
    exact hstart (BitVec.eq_of_toNat_eq (Nat.eq_zero_of_add_eq_zero_right hsum))
  have hsize := h.wholePages
  have hpages : (s.kernel.heapSize.toNat + requested amount) / 0x1000 =
      s.kernel.heapSize.toNat / 0x1000 + requested amount / 0x1000 := by omega
  unfold heapRlibSizer
  rw [hpos, h.sameBreak]
  simp only [Bool.false_eq_true, if_false, rlibAnonymous, if_neg hbreak, h.sameBreak, true_and]
  rw [hpages, pagesFrom_add, h.nthPage_break, ← h.userMaps]
  simp only [UserHeap.maps, List.flatMap_append, List.flatMap_cons, List.flatMap_nil,
    List.append_nil, toNat_roundUp hpos (hok.1 hpos)]

/-- **One request**: it always returns, and the break is exact if and only if the loop ends. -/
theorem heapStep_spec (h : HeapInv w s) (hstart : PageAligned w.start) (hne : w.start ≠ 0)
    (hok : HeapOk w s amount) : ∃ s' b, heapStep w s amount = some (s', b) ∧
      (HeapExact w s amount b s' ↔ LoopEnds w s amount b s') ∧
      (LoopEnds w s amount b s' → HeapInv w s') := by
  cases hpos : amount.slt 0 with
  | true =>
    refine ⟨s, _, heapStep_negative hpos, iff_of_true ?_ (.inl hpos), fun _ => h⟩
    have hnone : requested amount = 0 := if_pos hpos
    exact ⟨rfl, by rw [h.sameBreak], by rw [hnone]; rfl, h.sameBreak, h.kernelMaps,
      h.userMaps.trans h.kernelMaps.symm, by rw [hnone]; rfl⟩
  | false =>
    obtain ⟨n, k, hrun, hk, hmaps, hturns⟩ := @kernel_turns w s s amount (0, 0) h hstart hpos hok
    obtain ⟨hq, huserSize, huserMaps⟩ := heapRlibSizer_grow h hne hpos hok
    have hround := toNat_roundUp hpos (hok.1 hpos)
    have hwhole := requested_whole amount
    have hsize := h.wholePages
    have htotal := hok.2
    have hsum : (s.kernel.heapSize + roundUp amount).toNat =
        s.kernel.heapSize.toNat + requested amount := by
      rw [BitVec.toNat_add, hround, Nat.mod_eq_of_lt (by omega)]
    have hpages : (s.kernel.heapSize.toNat + requested amount) / 0x1000 =
        s.kernel.heapSize.toNat / 0x1000 + requested amount / 0x1000 := by omega
    have hstep : heapStep w s amount =
        some (⟨{ k with heapSize := s.kernel.heapSize + roundUp amount },
          (heapRlibSizer w.start w.mapStart s.user amount).1⟩,
          w.start + s.kernel.heapSize, w.start + s.kernel.heapSize) := by
      simp only [heapStep, heapKlibSizer, hpos, Bool.false_eq_true, if_false, hrun, hk,
        Option.bind_eq_bind, Option.bind_some, hq]
    -- as many pages as were requested are the right ones
    have hlog : n = requested amount / 0x1000 → k.maps.map Prod.fst =
        pagesFrom w.start ((s.kernel.heapSize.toNat + requested amount) / 0x1000) := by
      rintro rfl
      rw [hmaps, h.kernelMaps, hpages, pagesFrom_add, h.nthPage_break]
    refine ⟨_, _, hstep, ?_, fun hends => ?_⟩
    · constructor
      · intro hexact
        have htaken := hexact.taken
        have hlength := congrArg List.length hmaps
        simp only [List.length_map, List.length_append, length_pagesFrom] at hlength htaken
        exact hturns.mp (by omega)
      · intro hends
        have hn := hturns.mpr hends
        have hlength := congrArg List.length hmaps
        simp only [List.length_map, List.length_append, length_pagesFrom] at hlength
        refine ⟨rfl, rfl, hsum, huserSize, ?_, ?_, ?_⟩
        · rw [hsum]
          exact hlog hn
        · rw [huserMaps]
          exact (hlog hn).symm
        · simp only []
          omega
    · refine ⟨huserSize, ?_, ?_, ?_, ?_⟩
      · simp only [hsum]
        omega
      · simp only [hsum]
        omega
      · simp only [hsum]
        exact hlog (hturns.mpr hends)
      · simp only [hsum]
        exact huserMaps

end

theorem heapInv_empty (w : HeapPlace) (k : Kmem) (lastMapAddr : Word) :
    HeapInv w (heapsEmpty k lastMapAddr) :=
  ⟨rfl, rfl, by simpa [heapsEmpty] using w.start.isLt, by simp [heapsEmpty],
    by simp [heapsEmpty, UserHeap.maps]⟩

/-- **Heap growth is an exact break**, for the kernel's sizer and the user's alike, in every
    sequence of requests, if and only if the kernel's loop ends where it should each time; and
    no request is left without an answer. -/
theorem heap_growth_exact {w : HeapPlace} (hstart : PageAligned w.start) (hne : w.start ≠ 0)
    {k : Kmem} {lastMapAddr : Word} {tr : List (Word × Word × Word)} {s : Heaps}
    (h : RunIf (heapStep w) (HeapOk w) (heapsEmpty k lastMapAddr) tr s) :
    (Along (heapStep w) (heapsEmpty k lastMapAddr) (HeapExact w) tr ↔
      Along (heapStep w) (heapsEmpty k lastMapAddr) (LoopEnds w) tr) ∧
    (Along (heapStep w) (heapsEmpty k lastMapAddr) (LoopEnds w) tr →
      ∀ amount, HeapOk w s amount → (heapStep w s amount).isSome) := by
  have hstep : ∀ s amount s' b, HeapInv w s → HeapOk w s amount →
      heapStep w s amount = some (s', b) →
      (HeapExact w s amount b s' ↔ LoopEnds w s amount b s') ∧
        (LoopEnds w s amount b s' → HeapInv w s') := by
    intro s amount s' b hinv hok heq
    obtain ⟨s₁, b₁, heq₁, hspec⟩ := heapStep_spec hinv hstart hne hok
    rw [heq] at heq₁
    cases heq₁
    exact hspec
  obtain ⟨hiff, hinv⟩ := Along.iff_and_invariant (HeapInv w)
    (heapInv_empty w k lastMapAddr) hstep h
  refine ⟨hiff, fun hends amount hok => ?_⟩
  obtain ⟨s', b, heq, -⟩ := heapStep_spec (hinv hends) hstart hne hok
  rw [heq]
  rfl

/-- `HEAP_DEFAULT`, and a page table and a mapping area somewhere else. -/
def smallPlace : HeapPlace := ⟨0x600000000000, 0x1000, 0x700000000000⟩

def smallHeaps : Heaps := heapsEmpty ⟨fun _ => 0, 0, []⟩ 0

theorem smallPlace_aligned : PageAligned smallPlace.start := rfl

/-- One page and a half to begin with. -/
theorem heap_growth_exact_of_one : ∃ s b, RunIf (heapStep smallPlace) (HeapOk smallPlace) smallHeaps
      [(0x1800, b)] s ∧
    (Along (heapStep smallPlace) smallHeaps (HeapExact smallPlace) [(0x1800, b)] ↔
      Along (heapStep smallPlace) smallHeaps (LoopEnds smallPlace) [(0x1800, b)]) ∧
    ∀ amount, HeapOk smallPlace s amount → (heapStep smallPlace s amount).isSome := by
  have hok : HeapOk smallPlace smallHeaps 0x1800 := by decide
  obtain ⟨s, b, hstep, -, -⟩ := heapStep_spec (heapInv_empty _ _ _) smallPlace_aligned (by decide) hok
  have h : RunIf (heapStep smallPlace) (HeapOk smallPlace) smallHeaps [(0x1800, b)] s :=
    RunIf.start.snoc hok hstep
  have hexact := heap_growth_exact smallPlace_aligned (by decide) h
  refine ⟨s, b, h, hexact.1, hexact.2 ?_⟩
  have hstart : Run (heapStep smallPlace) smallHeaps [] smallHeaps := .start
  exact (Along.snoc_iff hstart hstep).mpr ⟨Along.nil, .inr (.inl rfl)⟩

/-- **A query maps a page**: the heap has one page, and asking where it ends maps another. -/
theorem heap_query_maps : ∃ s b s' b', RunIf (heapStep smallPlace) (HeapOk smallPlace) smallHeaps
      [(0x1000, b), (0, b')] s' ∧ heapStep smallPlace s 0 = some (s', b') ∧
    s.kernel.heapSize = 0x1000 ∧ ¬ HeapExact smallPlace s 0 b' s' := by
  have hok : HeapOk smallPlace smallHeaps 0x1000 := by decide
  obtain ⟨s, b, hstep, hexact, hinv⟩ :=
    heapStep_spec (heapInv_empty _ _ _) smallPlace_aligned (by decide) hok
  have hends : LoopEnds smallPlace smallHeaps 0x1000 b s := .inr (.inl rfl)
  have hsize : s.kernel.heapSize = 0x1000 := BitVec.eq_of_toNat_eq (hexact.mpr hends).break_
  have hok' : HeapOk smallPlace s 0 := by
    rw [HeapOk, hsize]
    decide
  obtain ⟨s', b', hstep', hexact', -⟩ := heapStep_spec (hinv hends) smallPlace_aligned (by decide) hok'
  refine ⟨s, b, s', b', (RunIf.start.snoc hok hstep).snoc hok' hstep', hstep', hsize, fun h => ?_⟩
  have hends' := hexact'.mp h
  rw [LoopEnds, hsize] at hends'
  exact absurd hends' (by decide)

end Refk
