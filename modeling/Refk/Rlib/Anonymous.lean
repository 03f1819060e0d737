import Refk.Rlib.Heap
import Refk.Scheduler.MmanExact
import Refk.Scheduler.Forward
import Refk.Scheduler.RootArg

/-!
# `rlib/mman.c` — memory from the scheduler

A task keeps a cursor for the mappings whose address it does not care about, and sends each of its
requests to the scheduler; what comes back is the next reply that has the request's number. Heap
growth asks in the same way.

`rlib_anonymous` waits for the reply, and does not look at it. So what it returns is memory as long
as the scheduler never refuses.
-/

namespace Refk

open Lib

/-- A task's variables and the scheduler. -/
structure Caller where
  user : UserHeap
  sched : Sched
  /-- What was returned for address `0`, latest first: the address and the size. -/
  anywhere : List (Word × Word)

/-- The task's entry in the queue, and what it was set up with. -/
structure CallerPlace where
  q : Nat
  heapStart : Word
  mapStart : Word

inductive CallerOp
  | anonymous (address size : Word)
  | grow (amount : Word)

/-- The scheduler serves mapping requests for the sender's root, and answers the results. -/
def serve (q : Nat) : Sched → List (Word × Word) → Option (Sched × List Word)
  | s, [] => some (s, [])
  | s, (address, size) :: requests => do
    let (s, ws) ← effect s q (.mapAnonymous 0 address size)
    let (s, results) ← serve q s requests
    return (s, ws.map Prod.snd ++ results)

/-- A call of the library: what it returns, and the results that it did not look at. -/
def callerStep (p : CallerPlace) (c : Caller) : CallerOp → Option (Caller × Word × List Word)
  | .anonymous address size => do
    let (user, result) := rlibAnonymous p.mapStart c.user address size
    let (sched, results) ← serve p.q c.sched (user.requests.drop c.user.requests.length)
    let anywhere := if address = 0 then (result, size) :: c.anywhere else c.anywhere
    return (⟨user, sched, anywhere⟩, result, results)
  | .grow amount => do
    let (user, result) := heapRlibSizer p.heapStart p.mapStart c.user amount
    let (sched, results) ← serve p.q c.sched (user.requests.drop c.user.requests.length)
    return (⟨user, sched, c.anywhere⟩, result, results)

/-! ## What the library is for -/

/-- Every byte of a range translates, in the root of the task. -/
def MapsBytes (s : Sched) (i : TaskInfo) (address size : Word) : Prop :=
  ∀ k < size.toNat, translate s.mman.phys (s.mman.rootAddress i.rootId)
    (address + BitVec.ofNat 64 k) ≠ none

/-- A request that the caller may make: whole pages. -/
def WellFormed (address size : Word) : Prop := address &&& 0xfff = 0 ∧ size &&& 0xfff = 0

/-- **A call returns memory that is there**, a refusal is reported as `0`, and a request for whole
    pages is not refused. Heap growth gets the pages it asks for. -/
def ReturnsMemory (p : CallerPlace) (i : TaskInfo) (c : Caller) :
    CallerOp → Word × List Word → Caller → Prop
  | .anonymous address size, (result, results), c' =>
    (result ≠ 0 → MapsBytes c'.sched i result size) ∧
      ((∃ r ∈ results, r ≠ 0) → result = 0) ∧
      (WellFormed address size → ∀ r ∈ results, r = 0)
  | .grow amount, (_, results), c' =>
    amount.slt 0 = false →
      MapsBytes c'.sched i (p.heapStart + c.user.heapSize) (roundUp amount) ∧ ∀ r ∈ results, r = 0

/-- Two ranges have no byte in common. -/
def Apart₂ (a b : Word × Word) : Prop :=
  a.1.toNat + a.2.toNat ≤ b.1.toNat ∨ b.1.toNat + b.2.toNat ≤ a.1.toNat

/-! ## When it does -/

/-- The next address that nobody cares about. -/
def UserHeap.cursor (mapStart : Word) (u : UserHeap) : Word :=
  if u.lastMapAddr = 0 then mapStart else u.lastMapAddr

/-- The address that a call asks for. -/
def UserHeap.target (mapStart : Word) (u : UserHeap) (address : Word) : Word :=
  if address = 0 then u.cursor mapStart else address

/-- A range that does not wrap around the 48-bit address space, where the root's tables are its own,
    and as many free pages as mapping it takes. -/
structure HasRoom (s : Sched) (i : TaskInfo) (V : Set Word) (address size : Word) : Prop where
  no_wrap : pageNumber address + size.toNat / 0x1000 ≤ 2 ^ 36
  own : pagesOf address size ⊆ V
  pages : ∃ L, FreePages s.mman.kmem L ∧
    (mmanAnonymous s.mman i.rootId address size).1.kmem.taken ≤ s.mman.kmem.taken + L.length

/-- Whole pages that there is room for, where the cursor does not wrap. -/
def AsksForPages (p : CallerPlace) (i : TaskInfo) (V : Set Word) (c : Caller)
    (address size : Word) : Prop :=
  WellFormed address size ∧
    (address = 0 → (c.user.cursor p.mapStart).toNat + size.toNat + 0x1000 < 2 ^ 64) ∧
    HasRoom c.sched i V (c.user.target p.mapStart address) size

def CallOk (p : CallerPlace) (i : TaskInfo) (V : Set Word) (c : Caller) : CallerOp → Prop
  | .anonymous address size => AsksForPages p i V c address size
  | .grow amount => amount.slt 0 = false →
    AsksForPages p i V c (p.heapStart + c.user.heapSize) (roundUp amount) ∧
      (p.heapStart + c.user.heapSize = 0 → roundUp amount = 0)

/-- The task has a root, with tables that can grow on the addresses `V`. -/
structure Serves (q : Nat) (i : TaskInfo) (R V : Set Word) (s : Sched) : Prop where
  entry : s.entryInfo q = some i
  known : s.mman.rootAddress i.rootId ≠ 0
  tables : Tables s.mman.phys R (s.mman.rootAddress i.rootId) V
  free : ∃ L, Free s.mman.kmem R L

/-- The scheduler serves the task, whose cursor is on a page, and behind what it has given out. -/
structure CallerInv (p : CallerPlace) (i : TaskInfo) (R V : Set Word) (c : Caller) : Prop where
  serves : Serves p.q i R V c.sched
  cursor : PageAligned (c.user.cursor p.mapStart)
  below : ∀ r ∈ c.anywhere, r.1.toNat + r.2.toNat ≤ c.user.lastMapAddr.toNat
  apart : c.anywhere.Pairwise Apart₂

section
variable {s : Sched} {q : Nat} {i : TaskInfo} {p : CallerPlace} {R V : Set Word} {c c' : Caller}
  {address size root : Word} {m : Mman} {L : List Word}

/-- A call sends one request, for the address that it returns. -/
theorem rlibAnonymous_eq (mapStart : Word) (u : UserHeap) (address size : Word) :
    rlibAnonymous mapStart u address size =
      (⟨u.heapSize, if address = 0 then u.cursor mapStart + size + 0x1000 else u.lastMapAddr,
        u.requests ++ [(u.target mapStart address, size)]⟩, u.target mapStart address) := by
  by_cases h : address = 0
  · simp only [rlibAnonymous, rlibGetMemoryAddress, UserHeap.target, UserHeap.cursor, if_pos h]
  · simp only [rlibAnonymous, UserHeap.target, if_neg h]

/-- What the scheduler does about a request for the sender's root. -/
theorem effect_anonymous (hq : s.entryInfo q = some i) (address size : Word) :
    effect s q (.mapAnonymous 0 address size) =
      some ({ s with mman := (mmanAnonymous s.mman i.rootId address size).1 },
        [(16, resultWord (mmanAnonymous s.mman i.rootId address size).2)]) := by
  have hquiet := (quiet_mmanAnonymous s.mman i.rootId address size).calls
  have hown : ownOr i.rootId 0 = i.rootId := if_pos rfl
  have hset : s.setMman (mmanAnonymous s.mman i.rootId address size).1 =
      some { s with mman := (mmanAnonymous s.mman i.rootId address size).1 } := by
    unfold Sched.setMman
    rw [hquiet, Nat.sub_self]
    rfl
  simp only [effect, mapEffect, rootArg_eq hq, hown, Option.bind_eq_bind, Option.bind_some, hset]
  rfl

/-- Mapping a range leaves tables that the next range can be mapped with. -/
theorem mmanAnonymous_keeps (h : Target m R i.rootId root address size) (hV : Tables m.phys R root V)
    (hsub : pagesOf address size ⊆ V) (hfree : Free m.kmem R L)
    (henough : (mmanAnonymous m i.rootId address size).1.kmem.taken ≤ m.kmem.taken + L.length) :
    Tables (mmanAnonymous m i.rootId address size).1.phys R root V ∧
      ∃ L', Free (mmanAnonymous m i.rootId address size).1.kmem R L' := by
  have hrun : mmanAnonymous m i.rootId address size =
      (forPages size (fun s off => anonymousPage root s (address + off)) m, 0) := by
    simp only [mmanAnonymous, h.known, h.root_ne_zero, h.address_aligned, h.size_aligned,
      if_false, ne_eq, not_true]
  rw [hrun] at henough ⊢
  obtain ⟨-, htab, hfree'⟩ := forPages_rule size
    (fun s off => anonymousPage root s (address + off)) m
    (fun _ m' => m.kmem.taken ≤ m'.kmem.taken ∧ Tables m'.phys R root V ∧
      Free m'.kmem R (L.drop (m'.kmem.taken - m.kmem.taken)))
    (fun m' => m'.kmem.taken ≤ m.kmem.taken + L.length)
    ⟨le_rfl, hV, by simpa using hfree⟩
    (fun m' off hgood => (anonymousPage_taken root m' (address + off)).trans hgood)
    (by
      intro j m' hj hkept hgood
      obtain ⟨hle, htab, hfree'⟩ := hkept
      have hmono := anonymousPage_taken root m' (nthPage address j)
      change (anonymousPage root m' (nthPage address j)).kmem.taken ≤ _ at hgood
      obtain ⟨f, -, -, hdone⟩ := anonymousPage_spec htab hfree' (hsub (mem_pagesOf hj)) (by
        rw [List.length_drop]
        omega)
      refine ⟨hle.trans hdone.taken, hdone.tables, ?_⟩
      have hrest := hdone.free
      rw [List.drop_drop] at hrest
      have hsum : m'.kmem.taken - m.kmem.taken +
          ((anonymousPage root m' (nthPage address j)).kmem.taken - m'.kmem.taken) =
          (anonymousPage root m' (nthPage address j)).kmem.taken - m.kmem.taken := by
        omega
      rw [hsum] at hrest
      exact hrest)
    henough
  exact ⟨htab, _, hfree'⟩

/-- The page of a byte of a range. -/
theorem samePrefix_byte (hal : PageAligned address) (k : Nat) :
    SamePrefix 4 (address + BitVec.ofNat 64 k) (nthPage address (k / 0x1000)) := by
  rw [samePrefix_four_iff, pageNumber_nthPage]
  unfold pageNumber
  rw [PageAligned] at hal
  rw [BitVec.toNat_add, BitVec.toNat_ofNat]
  omega

/-- **A request for whole pages, with room for them, is served.** -/
theorem Serves.one (h : Serves q i R V s) (hform : WellFormed address size)
    (hroom : HasRoom s i V address size) :
    ∃ s', serve q s [(address, size)] = some (s', [0]) ∧ MapsBytes s' i address size ∧
      Serves q i R V s' := by
  obtain ⟨L, hfree⟩ := h.free
  obtain ⟨L', hpages, henough⟩ := hroom.pages
  obtain rfl := Chain.unique hpages hfree.pages
  have htarget : Target s.mman R i.rootId (s.mman.rootAddress i.rootId) address size :=
    ⟨rfl, h.known, hform.1, hform.2, hroom.no_wrap, h.tables.roots, h.tables.root_mem,
      fun va hva => h.tables.priv va (hroom.own hva),
      fun va hva => h.tables.small va (hroom.own hva)⟩
  obtain ⟨hret, -, frame, hframe, -⟩ := mmanAnonymous_maps htarget hfree henough
  obtain ⟨htab, hfree'⟩ := mmanAnonymous_keeps htarget h.tables hroom.own hfree henough
  have hroot : (mmanAnonymous s.mman i.rootId address size).1.rootAddress i.rootId =
      s.mman.rootAddress i.rootId := by
    rw [Mman.rootAddress, (quiet_mmanAnonymous s.mman i.rootId address size).roots.rootMap]
    rfl
  have heffect := effect_anonymous h.entry address size
  rw [hret] at heffect
  generalize mmanAnonymous s.mman i.rootId address size = done at *
  refine ⟨{ s with mman := done.1 }, ?_, fun k hk => ?_, ⟨h.entry, ?_, ?_, hfree'⟩⟩
  · simp only [serve, heffect]
    rfl
  · have hpage : k / 0x1000 < size.toNat / 0x1000 := by
      have hsize := and_fff_eq_zero.mp hform.2
      rw [PageAligned] at hsize
      omega
    obtain ⟨entry, hmap, -⟩ := (hframe _ hpage).2
    rw [translate_samePrefix (samePrefix_byte (and_fff_eq_zero.mp hform.1) k)]
    change translate done.1.phys (done.1.rootAddress i.rootId) _ ≠ none
    rw [hroot]
    intro hnone
    rw [mapping, hnone] at hmap
    cases hmap
  · change done.1.rootAddress i.rootId ≠ 0
    rw [hroot]
    exact h.known
  · change Tables done.1.phys R (done.1.rootAddress i.rootId) V
    rw [hroot]
    exact htab

/-- A request that `AsksForPages` goes to a page. -/
theorem CallerInv.target (h : CallerInv p i R V c) (hform : WellFormed address size) :
    WellFormed (c.user.target p.mapStart address) size := by
  refine ⟨?_, hform.2⟩
  unfold UserHeap.target
  split_ifs
  · exact and_fff_eq_zero.mpr h.cursor
  · exact hform.1

/-- A cursor that does not wrap is not `0`. -/
theorem cursor_eq {mapStart : Word} {u : UserHeap} {a : Word} (hlast : u.lastMapAddr = a)
    (ha : a ≠ 0) : u.cursor mapStart = a := by
  rw [UserHeap.cursor, hlast, if_neg ha]

/-- The cursor is behind what it has given out. -/
theorem CallerInv.le_cursor (h : CallerInv p i R V c) :
    ∀ r ∈ c.anywhere, r.1.toNat + r.2.toNat ≤ (c.user.cursor p.mapStart).toNat := by
  intro r hr
  have hbelow := h.below r hr
  unfold UserHeap.cursor
  split_ifs with hzero
  · rw [hzero] at hbelow
    exact hbelow.trans (Nat.zero_le _)
  · exact hbelow

/-- **The next call** finds what the last one found: whether the range is recorded or not. -/
theorem CallerInv.next (h : CallerInv p i R V c) (hask : AsksForPages p i V c address size)
    (hserves : Serves p.q i R V s) {u : UserHeap} (hlast : u.lastMapAddr =
      if address = 0 then c.user.cursor p.mapStart + size + 0x1000 else c.user.lastMapAddr)
    {anywhere : List (Word × Word)} (hany : anywhere = c.anywhere ∨
      address = 0 ∧ anywhere = (c.user.cursor p.mapStart, size) :: c.anywhere) :
    CallerInv p i R V ⟨u, s, anywhere⟩ := by
  have hle := h.le_cursor
  by_cases hzero : address = 0
  · have hwrap := hask.2.1 hzero
    rw [if_pos hzero] at hlast
    have hsum : (c.user.cursor p.mapStart + size + 0x1000).toNat =
        (c.user.cursor p.mapStart).toNat + size.toNat + 0x1000 := by
      have hpage : (0x1000 : Word).toNat = 0x1000 := rfl
      rw [BitVec.toNat_add, BitVec.toNat_add, hpage]
      omega
    have hne : c.user.cursor p.mapStart + size + 0x1000 ≠ 0 := by
      intro heq
      rw [heq] at hsum
      change 0 = _ at hsum
      omega
    refine ⟨hserves, ?_, fun r hr => ?_, ?_⟩
    · rw [cursor_eq hlast hne]
      have hcursor := h.cursor
      have hsize := and_fff_eq_zero.mp hask.1.2
      rw [PageAligned] at hcursor hsize ⊢
      omega
    · rw [hlast, hsum]
      rcases hany with rfl | ⟨-, rfl⟩
      · have := hle r hr
        omega
      · rcases List.mem_cons.mp hr with rfl | hr
        · exact Nat.le_add_right _ _
        · have := hle r hr
          omega
    · rcases hany with rfl | ⟨-, rfl⟩
      · exact h.apart
      · exact List.pairwise_cons.mpr ⟨fun r hr => .inr (hle r hr), h.apart⟩
  · rw [if_neg hzero] at hlast
    obtain rfl : anywhere = c.anywhere := by
      rcases hany with rfl | ⟨heq, -⟩
      · rfl
      · exact absurd heq hzero
    refine ⟨hserves, ?_, fun r hr => ?_, h.apart⟩
    · rw [UserHeap.cursor, hlast]
      exact h.cursor
    · rw [hlast]
      exact h.below r hr

/-- The call returns, with memory that is there. -/
theorem CallerInv.anonymous (h : CallerInv p i R V c) (hask : AsksForPages p i V c address size) :
    ∃ s', callerStep p c (.anonymous address size) =
        some (⟨(rlibAnonymous p.mapStart c.user address size).1, s',
          if address = 0 then (c.user.target p.mapStart address, size) :: c.anywhere
          else c.anywhere⟩, c.user.target p.mapStart address, [0]) ∧
      MapsBytes s' i (c.user.target p.mapStart address) size ∧ Serves p.q i R V s' := by
  obtain ⟨s', hserve, hmaps, hserves⟩ := h.serves.one (h.target hask.1) hask.2.2
  refine ⟨s', ?_, hmaps, hserves⟩
  simp only [callerStep, rlibAnonymous_eq, List.drop_left, hserve, Option.bind_eq_bind,
    Option.bind_some, Option.pure_def]

/-- **A call** that asks for pages returns memory. -/
theorem CallerInv.step (h : CallerInv p i R V c) {op : CallerOp} {out : Word × List Word}
    (hok : CallOk p i V c op) (hstep : callerStep p c op = some (c', out)) :
    ReturnsMemory p i c op out c' ∧ CallerInv p i R V c' := by
  cases op with
  | anonymous address size =>
    obtain ⟨s', hcall, hmaps, hserves⟩ := h.anonymous hok
    rw [hcall] at hstep
    obtain ⟨rfl, rfl⟩ := Prod.mk.inj (Option.some.inj hstep)
    refine ⟨⟨fun _ => hmaps, ?_, fun _ r hr => List.mem_singleton.mp hr⟩, ?_⟩
    · intro ⟨r, hr, hne⟩
      exact absurd (List.mem_singleton.mp hr) hne
    · rw [rlibAnonymous_eq]
      refine h.next hok hserves rfl ?_
      by_cases hzero : address = 0
      · rw [if_pos hzero]
        exact .inr ⟨hzero, by rw [UserHeap.target, if_pos hzero]⟩
      · rw [if_neg hzero]
        exact .inl rfl
  | grow amount =>
    by_cases hneg : amount.slt 0
    · simp only [callerStep, heapRlibSizer, if_pos hneg, List.drop_length, serve, Option.bind_eq_bind,
        Option.bind_some, Option.pure_def, Option.some.injEq, Prod.mk.injEq] at hstep
      obtain ⟨rfl, rfl⟩ := hstep
      refine ⟨fun hpos => ?_, h⟩
      rw [hneg] at hpos
      cases hpos
    · obtain ⟨hask, hempty⟩ := hok (Bool.eq_false_iff.mpr hneg)
      obtain ⟨s', hserve, hmaps, hserves⟩ := h.serves.one (h.target hask.1) hask.2.2
      simp only [callerStep, heapRlibSizer, if_neg hneg, rlibAnonymous_eq, List.drop_left, hserve,
        Option.bind_eq_bind, Option.bind_some, Option.pure_def, Option.some.injEq,
        Prod.mk.injEq] at hstep
      obtain ⟨rfl, rfl⟩ := hstep
      refine ⟨fun _ => ⟨?_, fun r hr => List.mem_singleton.mp hr⟩, h.next hask hserves rfl (.inl rfl)⟩
      by_cases hzero : p.heapStart + c.user.heapSize = 0
      · -- the address `0` would be taken for anywhere, but there is nothing to map
        intro k hk
        rw [hempty hzero] at hk
        exact absurd hk (Nat.not_lt_zero k)
      · rw [UserHeap.target, if_neg hzero] at hmaps
        exact hmaps

/-- A call that does not ask for whole pages is refused, and that is not reported. -/
theorem CallerInv.odd (h : CallerInv p i R V c) {out : Word × List Word}
    (hodd : ¬ WellFormed (c.user.target p.mapStart address) size)
    (hne : c.user.target p.mapStart address ≠ 0)
    (hstep : callerStep p c (.anonymous address size) = some (c', out)) :
    ¬ ReturnsMemory p i c (.anonymous address size) out c' := by
  have hrefused : (mmanAnonymous c.sched.mman i.rootId (c.user.target p.mapStart address) size).2 =
      -1 := by
    simp only [mmanAnonymous, if_neg h.serves.known]
    by_cases haddress : c.user.target p.mapStart address &&& 0xfff = 0
    · have hsize : size &&& 0xfff ≠ 0 := fun hsize => hodd ⟨haddress, hsize⟩
      rw [if_neg (not_not.mpr haddress), if_pos hsize]
    · rw [if_pos haddress]
  simp only [callerStep, rlibAnonymous_eq, List.drop_left, serve, effect_anonymous h.serves.entry,
    hrefused, Option.bind_eq_bind, Option.bind_some, Option.pure_def, Option.some.injEq,
    Prod.mk.injEq] at hstep
  obtain ⟨-, rfl⟩ := hstep
  intro hmemory
  have hmem : resultWord (-1) ∈ List.map Prod.snd [(16, resultWord (-1))] ++ [] := by simp
  exact hne (hmemory.2.1 ⟨_, hmem, by decide⟩)

/-- **`rlib_anonymous` returns memory that is there**, and never the same twice, in every run of calls
    for whole pages that there is room for. -/
theorem anonymous_returns_memory (hstart : CallerInv p i R V c) {tr : List (CallerOp × Word × List Word)}
    (hrun : RunIf (callerStep p) (CallOk p i V) c tr c') :
    Along (callerStep p) c (fun c op out c' => ReturnsMemory p i c op out c') tr ∧
      c'.anywhere.Pairwise Apart₂ := by
  have hboth := Along.iff_and_invariant (P := fun c op out c' => ReturnsMemory p i c op out c')
    (Q := fun _ _ _ _ => True) (CallerInv p i R V) hstart
    (fun c op c' out hinv hok hstep => by
      obtain ⟨hmemory, hinv'⟩ := hinv.step hok hstep
      exact ⟨iff_of_true hmemory trivial, fun _ => hinv'⟩) hrun
  have hall : Along (callerStep p) c (fun _ _ _ _ => True) tr :=
    fun _ _ _ _ _ _ _ _ _ => trivial
  exact ⟨hboth.1.mpr hall, (hboth.2 hall).apart⟩

end

/-! ## Two callers -/

/-- The client of the empty root, with an entry of its own. -/
def emptyClient : Caller where
  user := ⟨0, 0, []⟩
  sched :=
    let s := Sched.init twoRootsMman (fun _ _ => 0) .bump fun _ => emptyChannel
    let (s, info) := s.alloc (.info (some ⟨7, 2, 0x1000, 0, 0, 0⟩))
    { s with queue := fun _ => ⟨7, info⟩, queueSize := 1 }
  anywhere := []

def emptyPlace : CallerPlace := ⟨0, 0x600000000000, 0x700000000000⟩

theorem emptyClient_inv :
    CallerInv emptyPlace ⟨7, 2, 0x1000, 0, 0, 0⟩ {0x20000, 0x40000} Set.univ emptyClient where
  serves := ⟨by decide, by decide, twoRoots_tables _, _, twoRoots_free⟩
  cursor := and_fff_eq_zero.mp (by decide)
  below := nofun
  apart := .nil

/-- One page anywhere. -/
theorem anonymous_returns_memory_of_page : ∃ tr c,
    RunIf (callerStep emptyPlace) (CallOk emptyPlace ⟨7, 2, 0x1000, 0, 0, 0⟩ Set.univ) emptyClient
      tr c ∧
    c.anywhere = [(0x700000000000, 0x1000)] ∧
    Along (callerStep emptyPlace) emptyClient
      (fun c op out c' => ReturnsMemory emptyPlace ⟨7, 2, 0x1000, 0, 0, 0⟩ c op out c') tr := by
  have hask : AsksForPages emptyPlace ⟨7, 2, 0x1000, 0, 0, 0⟩ Set.univ emptyClient 0 0x1000 := by
    refine ⟨⟨by decide, by decide⟩, fun _ => by decide, by decide, Set.subset_univ _, _,
      twoRoots_free.pages, ?_⟩
    exact (mmanAnonymous_taken_le _ _ _).trans (by decide)
  obtain ⟨s', hcall, -, -⟩ := emptyClient_inv.anonymous hask
  have hstart : RunIf (callerStep emptyPlace) (CallOk emptyPlace ⟨7, 2, 0x1000, 0, 0, 0⟩ Set.univ)
      emptyClient [] emptyClient := .start
  have hok : CallOk emptyPlace ⟨7, 2, 0x1000, 0, 0, 0⟩ Set.univ emptyClient (.anonymous 0 0x1000) :=
    hask
  have hrun := hstart.snoc hok hcall
  exact ⟨_, _, hrun, rfl, (anonymous_returns_memory emptyClient_inv hrun).1⟩

/-- An odd size is refused, which is not reported, and so is every request after it. -/
theorem anonymous_shifts_cursor :
    (exec (callerStep emptyPlace) (fun _ _ => True) emptyClient
      [.anonymous 0 1, .anonymous 0 0x1000]).map (fun r => r.1.map Prod.snd) =
      some [(0x700000000000, [-1]), (0x700000001001, [-1])] ∧
    ∃ tr c, Run (callerStep emptyPlace) emptyClient tr c ∧ ¬ Along (callerStep emptyPlace) emptyClient
      (fun c op out c' => ReturnsMemory emptyPlace ⟨7, 2, 0x1000, 0, 0, 0⟩ c op out c') tr := by
  refine ⟨by decide, ?_⟩
  have hcall : (callerStep emptyPlace emptyClient (.anonymous 0 1)).map Prod.snd =
      some (0x700000000000, [-1]) := by decide
  obtain ⟨⟨c, out⟩, hstep, rfl⟩ := Option.map_eq_some_iff.mp hcall
  have hstart : Run (callerStep emptyPlace) emptyClient [] emptyClient := .start
  refine ⟨_, c, hstart.snoc trivial hstep, fun halong => ?_⟩
  have hlast := ((Along.snoc_iff hstart hstep).mp halong).2
  exact absurd (hlast.2.1 ⟨-1, List.mem_singleton_self _, by decide⟩) (by decide)

end Refk
