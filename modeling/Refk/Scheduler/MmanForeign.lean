import Refk.Scheduler.MmanRun

/-!
# Frames from elsewhere

`mman_physical` maps frames that the manager did not hand out and takes no reference, so an entry
it wrote must not cost one when it goes. `Marked` keeps, next to the manager, which entries these
are. What the manager holds is then not recycled while it is mapped, and what it never had is
never given back, as long as `mman_mirror` reads only what is counted and the entries of
`mman_physical` go only while their frames are not.
-/

namespace Refk

open Lib

/-- The calls that map and unmap frames, and those that destroy roots. -/
inductive FrameOp
  | anonymous (rootId : Nat) (address size : Word)
  | physical (rootId : Nat) (address paddress size : Word)
  | mirror (rootId : Nat) (address : Word) (srootId : Nat) (saddress size : Word)
  | unmap (rootId : Nat) (address size : Word)
  | incrementRoot (root : Nat)
  | decrementRoot (root : Nat)

/-- The manager, and the entries that `mman_physical` was the last to write. -/
structure Marked where
  mman : Mman
  physical : Word → Bool

/-- The call, and what it returns. -/
def frameCall (s : Mman) : FrameOp → Mman × Int
  | .anonymous rootId address size => mmanAnonymous s rootId address size
  | .physical rootId address paddress size => mmanPhysical s rootId address paddress size
  | .mirror rootId address srootId saddress size => mmanMirror s rootId address srootId saddress size
  | .unmap rootId address size => mmanUnmap s rootId address size
  | .incrementRoot root => (mmanIncrementRoot s root, 0)
  | .decrementRoot root => (mmanDecrementRoot s root, 0)

/-- The marks after the entries of a range were written by a call that has led to `r`. -/
def marksAfter (s : Marked) (r : Mman × Int) (rootId : Nat) (address size : Word) (b : Bool) :
    Word → Bool :=
  if r.2 = 0 then
    looseAfter r.1.phys (s.mman.rootAddress rootId) address (size.toNat / 0x1000) b s.physical
  else s.physical

/-- The marks after a call. -/
def FrameOp.marks (s : Marked) (r : Mman × Int) : FrameOp → Word → Bool
  | .anonymous rootId address size => marksAfter s r rootId address size false
  | .physical rootId address _ size => marksAfter s r rootId address size true
  | .mirror rootId address _ _ size => marksAfter s r rootId address size false
  | _ => s.physical

def frameStep (s : Marked) (op : FrameOp) : Option (Marked × Int) :=
  some (⟨(frameCall s.mman op).1, op.marks s (frameCall s.mman op)⟩, (frameCall s.mman op).2)

/-- The addresses have tables of their root's own, users are counted of roots there are, and there
    are enough free pages. -/
def FrameOp.Allowed (s : Mman) (op : FrameOp) : Prop :=
  (match op with
    | .anonymous rootId address size => PrivateTables s rootId address size
    | .physical rootId address _ size => PrivateTables s rootId address size
    | .mirror rootId address srootId saddress size =>
      PrivateTables s rootId address size ∧ PrivateTables s srootId saddress size
    | .unmap rootId address size => PrivateTables s rootId address size
    | .incrementRoot root => mmanIsRoot s root
    | .decrementRoot _ => True) ∧
  ∀ L, FreePages s.kmem L → (frameCall s op).1.kmem.taken ≤ s.kmem.taken + L.length

/-- A present entry for `va`, at `c`. -/
def EntryAt (m : Phys) (root va c : Word) : Prop :=
  ∃ t, tableAt m root va 3 = some t ∧ cell t va 3 = c ∧ Present (m c)

/-- `mman_mirror` reads no page whose frame is not counted, and no entry of `mman_physical` for a
    frame that is counted is removed by `mman_unmap` or with its root. -/
def FrameOp.Spares (s : Marked) : FrameOp → Prop
  | .mirror _ _ srootId saddress size => ∀ va ∈ pagesOf saddress size, ∀ c,
    EntryAt s.mman.phys (s.mman.rootAddress srootId) va c →
      s.mman.pageCount (frameOf (s.mman.phys c)) ≠ 0
  | .unmap rootId address size => ∀ va ∈ pagesOf address size, ∀ c,
    EntryAt s.mman.phys (s.mman.rootAddress rootId) va c → s.physical c →
      s.mman.pageCount (frameOf (s.mman.phys c)) = 0
  | .decrementRoot root => s.mman.rootCount root = 1 →
    Untangled s.mman s.physical (s.mman.rootAddress root)
  | _ => True

/-- Pages that were counted, or had been given back, before. -/
def Handled (s : Mman) : Set Word := {p | s.pageCount p ≠ 0 ∨ p ∈ s.pagefreeCalls}

/-- **The invariant**: the entries of `mman_physical` count for nothing. -/
structure MarkInv (K : Set Word) (s : Marked) : Prop where
  counted : ∃ slack L, Counted s.mman s.physical s.mman.roots slack K L
  known : ∀ id, s.mman.rootCount id ≠ 0 → s.mman.rootAddress id ≠ 0

/-- **What is not recycled**: frames that were neither handed out nor known before are not given
    to `kmem_unuse`, and frames with a mapping that is not `mman_physical`'s are not free. -/
structure NotRecycled (K : Set Word) (s : Marked) : Prop where
  foreign : ∀ p, p ∉ s.mman.kmem.handedOut → p ∉ K → p ∉ s.mman.pagefreeCalls
  held : ∃ L, FreePages s.mman.kmem L ∧ ∀ r ∈ s.mman.roots, ∀ va, pagingIndex va 0 ≠ 384 →
    ∀ c, EntryAt s.mman.phys r va c → ¬ s.physical c → frameOf (s.mman.phys c) ∉ L

section
variable {s : Marked} {m : Mman} {K : Set Word} {L : List Word} {slack : Word → Nat} {root : Word}

/-- The same roots, other tables. -/
theorem MarkInv.of_roots {marks : Word → Bool} (h : MarkInv K s) (hroots : SameRoots s.mman m)
    (hcounted : Counted m marks s.mman.roots slack K L) : MarkInv K ⟨m, marks⟩ where
  counted := ⟨slack, L, by rwa [hroots.roots_eq]⟩
  known id hid := by
    rw [hroots.rootAddress]
    exact h.known id (hroots.rootCount id ▸ hid)

/-- A loop that mapped. -/
theorem MarkInv.mapped {loose : Word → Bool} {address size : Word} {n : Nat} {b : Bool}
    (h : MarkInv K s) (hloose : loose = looseAfter m.phys root address n b s.physical)
    (hmap : Mapping s.mman.roots root address size K L slack s.physical b s.mman m n) :
    MarkInv K ⟨m, loose⟩ := by
  obtain ⟨slack', hcounted, -⟩ := hmap.counted
  rw [← hloose] at hcounted
  exact h.of_roots hmap.roots hcounted

theorem marksAfter_failed {r : Mman × Int} {rootId : Nat} {address size : Word} {b : Bool}
    (h : r.2 ≠ 0) : marksAfter s r rootId address size b = s.physical := if_neg h

theorem marksAfter_done {r : Mman × Int} {rootId : Nat} {address size : Word} {b : Bool}
    (h : r.2 = 0) : marksAfter s r rootId address size b =
      looseAfter r.1.phys (s.mman.rootAddress rootId) address (size.toNat / 0x1000) b s.physical :=
  if_pos h

/-- A call that maps pages in a known root with page-aligned arguments, or changes nothing. -/
theorem MarkInv.maps {r : Mman × Int} {rootId : Nat} {address size : Word} {b : Bool}
    (h : MarkInv K s) (hdone : r.2 = 0 → ∃ slack L, Mapping s.mman.roots
      (s.mman.rootAddress rootId) address size K L slack s.physical b s.mman r.1 (size.toNat / 0x1000))
    (hfailed : r.2 ≠ 0 → r.1 = s.mman) : MarkInv K ⟨r.1, marksAfter s r rootId address size b⟩ := by
  by_cases hret : r.2 = 0
  · obtain ⟨slack, L, hmap⟩ := hdone hret
    exact h.mapped (marksAfter_done hret) hmap
  · rw [marksAfter_failed hret, hfailed hret]
    exact h

/-- **Every call** keeps the invariant. -/
theorem MarkInv.step {op : FrameOp} (h : MarkInv K s) (hallowed : op.Allowed s.mman)
    (hspares : op.Spares s) :
    MarkInv K ⟨(frameCall s.mman op).1, op.marks s (frameCall s.mman op)⟩ := by
  obtain ⟨slack, L, hcounted⟩ := h.counted
  obtain ⟨hop, henough⟩ := hallowed
  have htaken := henough L hcounted.layout.pages
  have hmem : ∀ {id}, s.mman.rootAddress id ≠ 0 → s.mman.rootAddress id ∈ s.mman.roots :=
    fun hid => mem_roots (search_of_rootAddress hid)
  cases op with
  | anonymous rootId address size =>
    refine h.maps (fun hret => ?_) fun hret => ?_
    · have hok : s.mman.rootAddress rootId ≠ 0 ∧ address &&& 0xfff = 0 ∧ size &&& 0xfff = 0 := by
        simp only [frameCall, mmanAnonymous] at hret
        split_ifs at hret with h₁ h₂ h₃
        all_goals first
          | exact absurd hret (show ¬ (-1 : Int) = 0 by decide)
          | exact ⟨h₁, not_not.mp h₂, not_not.mp h₃⟩
      exact ⟨slack, L, mmanAnonymous_counts hcounted rfl hok.1 hok.2.1 hok.2.2 (hop hok.1) htaken⟩
    · simp only [frameCall, mmanAnonymous] at hret ⊢
      split_ifs at hret ⊢ <;> first | rfl | exact absurd rfl hret
  | physical rootId address paddress size =>
    refine h.maps (fun hret => ?_) fun hret => ?_
    · have hok : s.mman.rootAddress rootId ≠ 0 ∧ address &&& 0xfff = 0 ∧ paddress &&& 0xfff = 0 ∧
          size &&& 0xfff = 0 := by
        simp only [frameCall, mmanPhysical] at hret
        split_ifs at hret with h₁ h₂ h₃ h₄
        all_goals first
          | exact absurd hret (show ¬ (-1 : Int) = 0 by decide)
          | exact ⟨h₁, not_not.mp h₂, not_not.mp h₃, not_not.mp h₄⟩
      exact ⟨slack, L, mmanPhysical_counts hcounted rfl hok.1 hok.2.1 hok.2.2.1 hok.2.2.2
        (hop hok.1) htaken⟩
    · simp only [frameCall, mmanPhysical] at hret ⊢
      split_ifs at hret ⊢ <;> first | rfl | exact absurd rfl hret
  | mirror rootId address srootId saddress size =>
    refine h.maps (fun hret => ?_) fun hret => ?_
    · obtain ⟨h₀, hs₀⟩ := mmanMirror_known hret
      have hsown := hop.2 hs₀
      refine ⟨slack, L, (mmanMirror_counts hcounted rfl rfl (hmem hs₀) (hop.1 h₀) hsown.low
        (fun va hva t ht hpres => hspares va hva _ ⟨t, ht, rfl, hpres⟩) hret htaken).1⟩
    · simp only [frameCall, mmanMirror] at hret ⊢
      split_ifs at hret ⊢ <;> first | rfl | exact absurd rfl hret
  | unmap rootId address size =>
    by_cases hok : s.mman.rootAddress rootId ≠ 0 ∧ address &&& 0xfff = 0 ∧ size &&& 0xfff = 0
    · obtain ⟨h₀, hal, hsize⟩ := hok
      have hdrop := mmanUnmap_counts hcounted rfl h₀ hal hsize (hop h₀)
        fun va hva t ht hpres hl => hspares va hva _ ⟨t, ht, rfl, hpres⟩ hl
      obtain ⟨L', hcounted', -, -⟩ := hdrop.counted
      exact h.of_roots hdrop.roots hcounted'
    · have hsame : (mmanUnmap s.mman rootId address size).1 = s.mman := by
        simp only [mmanUnmap, onEntries]
        split_ifs <;> first | rfl | exact absurd ⟨‹_›, not_not.mp ‹_›, not_not.mp ‹_›⟩ hok
      simp only [frameCall, FrameOp.marks, hsame]
      exact h
  | incrementRoot root =>
    refine ⟨⟨slack, L, hcounted.of_same rfl rfl rfl⟩, ?_⟩
    exact known_mmanIncrementRoot h.known hop
  | decrementRoot root =>
    have hknown := known_mmanDecrementRoot h.known root
    by_cases hone : s.mman.rootCount root = 1
    · have hid : s.mman.rootAddress root ≠ 0 := h.known root (by omega)
      have hdown := mmanDecrementRoot_counts hcounted hone rfl (hmem hid) (hspares hone)
      obtain ⟨L', hcounted', -, -⟩ := hdown.counted
      have hperm := roots_of_removed (search_of_rootAddress hid) (rootMap_mmanDecrementRoot hone)
      exact ⟨⟨slack, L', hcounted'.perm hperm⟩, hknown⟩
    · obtain ⟨hkmem, hpages, hfreed, hmap⟩ := mmanDecrementRoot_quiet hone
      have hroots : (mmanDecrementRoot s.mman root).roots = s.mman.roots := by
        rw [Mman.roots, hmap, Mman.roots]
      have hcounted' := hcounted.of_same hkmem hpages hfreed
      rw [← hroots] at hcounted'
      exact ⟨⟨slack, L, hcounted'⟩, hknown⟩

theorem MarkInv.notRecycled (h : MarkInv K s) : NotRecycled K s := by
  obtain ⟨slack, L, hcounted⟩ := h.counted
  refine ⟨fun p hout hK hcall => ?_, L, hcounted.layout.pages, fun r hr va hlow c hc hmark => ?_⟩
  · exact (hcounted.tally.freed p hcall).elim hout hK
  · obtain ⟨t, ht, rfl, hpres⟩ := hc
    exact (hcounted.not_free (hcounted.count_of_held hr hlow ht hpres hmark)).2

/-- The pages known before are those that were counted. -/
theorem Exact.handled (h : Exact m L) : Counted m allHeld m.roots (fun _ => 0) (Handled m) L where
  layout := h.counted.layout
  tally := by
    refine ⟨h.counted.tally.counts, h.counted.tally.positive, fun p hp => .inr (.inl ?_),
      fun p hp => .inr (.inr hp)⟩
    rw [h.counted.tally.counts]
    exact hp
  slack_free := h.counted.slack_free
  slack_zero := h.counted.slack_zero

/-! ## A frame that is freed while it is mapped -/

/-- The frame `f`, of the free list's head, is mapped at `u`, by the table `t`: it has the one
    reference, and is no table. -/
structure MappedOnce (R L : List Word) (root t u f : Word) (m m' : Mman) : Prop where
  counted : ∃ loose slack, Counted m' loose R slack Set.univ L
  owned : Owned m'.phys R root ownAddresses 3
  walks : ∀ va ∈ ownAddresses, tableAt m.phys root va 3 = some t → tableAt m'.phys root va 3 = some t
  entry : m'.phys (cell t u 3) = f ||| kmemMapData
  count : m'.pageCount f = 1
  unmet : tablesMet m'.phys R f = 0
  roots : SameRoots m m'

/-- A free page's frame. -/
structure FreeFrame (L : List Word) (f : Word) : Prop where
  isFrame : IsFrame f
  ne_zero : f ≠ 0
  not_mem : f ∉ L

/-- Below one table, `mman_anonymous` maps the first free page. -/
theorem Exact.maps_head {f t u : Word} (h : Exact m (f :: L))
    (hown : Owned m.phys m.roots root ownAddresses 3) (hu : u ∈ ownAddresses)
    (htu : tableAt m.phys root u 3 = some t) :
    MappedOnce m.roots L root t u f m (anonymousPage root m u) ∧ FreeFrame L f ∧
      (anonymousPage root m u).kmem.taken = m.kmem.taken + 1 := by
  have hlay := h.counted.layout
  have hf : FreeFrame L f := ⟨hlay.frames f List.mem_cons_self, hlay.ne_zero List.mem_cons_self,
    (List.nodup_cons.mp hlay.nodup).1⟩
  have hstate : anonymousPage root m u = incrementPage
      (m.getpage.1.write (cell t u 3) (f ||| kmemMapData)) f := by
    simp only [anonymousPage, mmanPagingAddrCreate_of_table htu]
    rw [show m.getpage.2 = f from hlay.pages.head_eq]
  have hphys : (anonymousPage root m u).phys =
      Function.update m.phys (cell t u 3) (f ||| kmemMapData) := by
    rw [hstate]
    rfl
  have htaken : (anonymousPage root m u).kmem.taken = m.kmem.taken + 1 := by
    rw [hstate]
    rfl
  have hcount : (anonymousPage root m u).pageCount f = 1 := by
    have hzero := h.counted.tally.counts f
    rw [Mman.phys, hlay.unused f List.mem_cons_self] at hzero
    rw [hstate, pageCount_incrementPage, if_pos rfl]
    change m.pageCount f + 1 = 1
    rw [hzero]
  have hturn := h.counted.anonymous hown hu (by
    rw [htaken, List.length_cons]
    omega)
  obtain ⟨-, -, -, htabs, -, -⟩ := Owned.leaf (e := f ||| kmemMapData)
    (show Owned (kmemGetpage m.kmem).1.phys m.roots root ownAddresses 3 from hown) hlay.take hu htu
    (fun _ _ => rfl) fun _ _ => by
      rw [show frameOf (f ||| kmemMapData) = f from data_frame hf.isFrame]
      exact ⟨hf.ne_zero, hf.not_mem⟩
  obtain ⟨t₁, slack, -, hcounted, -⟩ := hturn.counted
  rw [htaken, Nat.add_sub_cancel_left, List.drop_succ_cons, List.drop_zero] at hcounted
  refine ⟨⟨⟨_, slack, hcounted⟩, hturn.owned, fun va hva => ?_, ?_, hcount, ?_, hturn.roots⟩, hf, htaken⟩
  · exact hturn.walks root hown.root_mem va (hown.low va hva) 3 t
  · rw [hphys, Function.update_self]
  · rw [hphys]
    exact (htabs f).trans (hlay.unmet List.mem_cons_self)

section
variable {R : List Word} {m₁ : Mman} {f t u v : Word}

/-- Its frame is no entry's place. -/
theorem MappedOnce.cell_ne (h : MappedOnce R L root t u f m m₁) (hf : FreeFrame L f)
    (hv : v ∈ ownAddresses) (htv : tableAt m.phys root v 3 = some t) (w : Word) : cell t w 3 ≠ f := by
  obtain ⟨loose, slack, hcounted⟩ := h.counted
  have hmet := hcounted.layout.met h.owned.root_mem (h.owned.low v hv) (h.walks v hv htv)
  intro heq
  have htf : t = f := cell_eq_page (isFrame_of_met hcounted.layout.isFrame hmet).aligned
    hf.isFrame.aligned heq
  exact hmet (htf ▸ h.unmet)

/-- `mman_physical` maps it at `v` too. -/
theorem MappedOnce.physical (h : MappedOnce R L root t u f m m₁) (hf : FreeFrame L f)
    (hv : v ∈ ownAddresses) (htv : tableAt m.phys root v 3 = some t) (hne : cell t u 3 ≠ cell t v 3) :
    MappedOnce R L root t u f m (physicalPage root m₁ v f) ∧
      (physicalPage root m₁ v f).phys (cell t v 3) = f ||| kmemMapData ∧
      (physicalPage root m₁ v f).kmem.taken = m₁.kmem.taken := by
  obtain ⟨loose, slack, hcounted⟩ := h.counted
  have htv₁ := h.walks v hv htv
  have hstate : physicalPage root m₁ v f = m₁.write (cell t v 3) (f ||| kmemMapData) :=
    physicalPage_of_table f htv₁
  have hphys : (physicalPage root m₁ v f).phys =
      Function.update m₁.phys (cell t v 3) (f ||| kmemMapData) := by
    rw [hstate]
    rfl
  have htaken : (physicalPage root m₁ v f).kmem.taken = m₁.kmem.taken := by
    rw [hstate]
    rfl
  have hturn := hcounted.physical h.owned hv (by
    rw [htaken]
    omega)
  obtain ⟨-, -, -, htabs, -, -⟩ := h.owned.leaf (e := f ||| kmemMapData)
    hcounted.layout hv htv₁ (fun _ _ => rfl) fun _ _ => by
      rw [show frameOf (f ||| kmemMapData) = f from data_frame hf.isFrame]
      exact ⟨hf.ne_zero, hf.not_mem⟩
  obtain ⟨t₂, slack₂, -, hcounted₂, -⟩ := hturn.counted
  rw [htaken, Nat.sub_self, List.drop_zero] at hcounted₂
  refine ⟨⟨⟨_, slack₂, hcounted₂⟩, hturn.owned, fun va hva ht => ?_, ?_, ?_, ?_,
    h.roots.trans hturn.roots⟩, ?_, htaken⟩
  · exact hturn.walks root h.owned.root_mem va (h.owned.low va hva) 3 t (h.walks va hva ht)
  · rw [hphys, Function.update_of_ne hne, h.entry]
  · rw [hstate]
    exact h.count
  · rw [hphys]
    exact (htabs f).trans h.unmet
  · rw [hphys, Function.update_self]

/-- **`mman_unmap`** of the second entry frees it, and the first one is still there. -/
theorem MappedOnce.unmap (h : MappedOnce R L root t u f m m₁) (hf : FreeFrame L f)
    (hu : u ∈ ownAddresses) (htu : tableAt m.phys root u 3 = some t) (hv : v ∈ ownAddresses)
    (htv : tableAt m.phys root v 3 = some t) (hne : cell t u 3 ≠ cell t v 3)
    (hentry : m₁.phys (cell t v 3) = f ||| kmemMapData) :
    FreePages (onEntry root unmapEntry m₁ v).kmem (f :: L) ∧
      EntryAt (onEntry root unmapEntry m₁ v).phys root u (cell t u 3) ∧
      frameOf ((onEntry root unmapEntry m₁ v).phys (cell t u 3)) = f ∧
      SameRoots m₁ (onEntry root unmapEntry m₁ v) ∧
      (onEntry root unmapEntry m₁ v).kmem.taken = m₁.kmem.taken := by
  obtain ⟨loose, slack, hcounted⟩ := h.counted
  have hr := h.owned.root_mem
  have hlay := hcounted.layout
  have htv₁ := h.walks v hv htv
  have hframe : frameOf (f ||| kmemMapData) = f := data_frame hf.isFrame
  have hpres : Present (f ||| kmemMapData) := present_data f hf.isFrame
  have hcell := h.cell_ne hf hv htv
  have hstate : onEntry root unmapEntry m₁ v = (decrementPage m₁ f).write (cell t v 3) 0 := by
    have hread : phyRead64 m₁.phys (cell t v 3) = f ||| kmemMapData := hentry
    simp only [onEntry, kmemPagingAddr_of_table htv₁]
    rw [hread, if_pos hpres, unmapEntry]
    exact congrArg (fun p => (decrementPage m₁ p).write (cell t v 3) 0) hframe
  -- its count is gone with the second entry
  have hkmem : (decrementPage m₁ f).kmem = kmemUnuse m₁.kmem f := by
    simp only [decrementPage, h.count, Nat.one_ne_zero, if_false, gt_iff_lt, Nat.lt_irrefl]
  have hphys : (onEntry root unmapEntry m₁ v).phys = Function.update
      (Function.update m₁.phys (cell t v 3) 0) f m₁.kmem.lastUnused := by
    rw [hstate]
    change Function.update (decrementPage m₁ f).kmem.phys (cell t v 3) 0 = _
    rw [hkmem]
    exact Function.update_comm (hcell v).symm _ _ _
  obtain ⟨hlay', -, -, htabs, htables, -⟩ := h.owned.leaf (e := 0) hlay hv htv₁
    (fun _ _ => rfl) fun hp => absurd hp (by decide)
  have hoff : AgreeOff f (Function.update m₁.phys (cell t v 3) 0) (onEntry root unmapEntry m₁ v).phys := by
    rw [hphys]
    exact agreeOff_update hf.isFrame.aligned
  have htable : tableAt (onEntry root unmapEntry m₁ v).phys root u 3 = some t := by
    rw [(hoff.tableAt_eq hlay.isFrame hlay'.sane ((htabs f).trans h.unmet) hr (h.owned.low u hu)).1]
    exact (htables root hr u (h.owned.low u hu) 3).trans (h.walks u hu htu)
  have hread : (onEntry root unmapEntry m₁ v).phys (cell t u 3) = f ||| kmemMapData := by
    rw [hphys, Function.update_of_ne (hcell u), Function.update_of_ne hne, h.entry]
  have hnot : cell t v 3 ∉ f :: L := by
    rw [List.mem_cons, not_or]
    exact ⟨hcell v, hlay.cell_not_free (hlay.met hr (h.owned.low v hv) htv₁)⟩
  refine ⟨?_, ⟨t, htable, rfl, ?_⟩, ?_, ?_, ?_⟩
  · rw [hstate]
    refine FreePages.write (k := (decrementPage m₁ f).kmem) ?_ hnot
    rw [hkmem]
    exact hlay.pages.unuse hf.ne_zero hf.not_mem
  · rw [hread]
    exact hpres
  · rw [hread, hframe]
  · rw [hstate]
    exact (sameRoots_decrementPage m₁ f).trans ⟨rfl, rfl, rfl, rfl, rfl⟩
  · rw [hstate]
    change (decrementPage m₁ f).kmem.taken = _
    rw [hkmem]
    rfl

end

/-! ## Runs of one page at a time -/

theorem Owned.page {R : List Word} {V : Set Word} {phys : Phys} {va : Word}
    (h : Owned phys R root V 3) (hva : va ∈ V) : Owned phys R root (pagesOf va 0x1000) 3 := by
  rw [pagesOf_one]
  refine ⟨h.root_mem, fun va' hva' => ?_, fun va' hva' => ?_⟩
  · obtain rfl : va' = va := hva'
    exact h.low va' hva
  · obtain rfl : va' = va := hva'
    exact h.own va' hva

theorem privateTables_one {m' : Mman} {id : Nat} {va : Word} (hroots : SameRoots m m')
    (hown : Owned m'.phys m.roots root ownAddresses 3) (hid : m.rootAddress id = root)
    (hva : va ∈ ownAddresses) : PrivateTables m' id va 0x1000 := by
  intro _
  rw [hroots.rootAddress, hid, hroots.roots_eq]
  exact hown.page hva

theorem mmanPhysical_one {id : Nat} {va paddress : Word} (hid : m.rootAddress id = root)
    (h₀ : root ≠ 0) (hal : va &&& 0xfff = 0) (hpal : paddress &&& 0xfff = 0) :
    mmanPhysical m id va paddress 0x1000 = (physicalPage root m va paddress, 0) := by
  simp only [mmanPhysical, hid, h₀, hal, hpal, pageSize_aligned, if_false, ne_eq, not_true,
    forPages_one, add_zero_word]

theorem frameStep_anonymous {id : Nat} {address size : Word}
    (hcall : mmanAnonymous s.mman id address size = (m, 0)) :
    frameStep s (.anonymous id address size) = some (⟨m, looseAfter m.phys
      (s.mman.rootAddress id) address (size.toNat / 0x1000) false s.physical⟩, 0) := by
  simp only [frameStep, frameCall, FrameOp.marks, marksAfter, hcall, if_true]

theorem frameStep_physical {id : Nat} {address paddress size : Word}
    (hcall : mmanPhysical s.mman id address paddress size = (m, 0)) :
    frameStep s (.physical id address paddress size) = some (⟨m, looseAfter m.phys
      (s.mman.rootAddress id) address (size.toNat / 0x1000) true s.physical⟩, 0) := by
  simp only [frameStep, frameCall, FrameOp.marks, marksAfter, hcall, if_true]

theorem frameStep_unmap {id : Nat} {address size : Word}
    (hcall : mmanUnmap s.mman id address size = (m, 0)) :
    frameStep s (.unmap id address size) = some (⟨m, s.physical⟩, 0) := by
  simp only [frameStep, frameCall, FrameOp.marks, hcall]

end

/-- Two pages next to the one that is mapped on the small machine. -/
theorem small_pages : (0x50001000 : Word) ∈ ownAddresses ∧ (0x50002000 : Word) ∈ ownAddresses :=
  ⟨mem_ownAddresses (.inl (by decide)), mem_ownAddresses (.inl (by decide))⟩

/-- **Frames.** In every run whose calls read and remove `mman_physical`'s entries as they must,
    frames that are not the manager's are not recycled, and no frame is while it is mapped. -/
theorem frames_not_recycled {m : Mman} {L : List Word} {tr : List (FrameOp × Int)} {s : Marked}
    (h₀ : Exact m L)
    (h : RunIf frameStep (fun s op => op.Allowed s.mman ∧ op.Spares s) ⟨m, allHeld⟩ tr s) :
    NotRecycled (Handled m) s := by
  refine (h.invariant_state (MarkInv (Handled m)) ⟨⟨_, L, h₀.handled⟩, h₀.known⟩ ?_).notRecycled
  intro s op s' r hs hok hstep
  obtain ⟨rfl, -⟩ := Prod.mk.inj (Option.some.inj hstep)
  exact hs.step hok.1 hok.2

/-- A page more, on the small machine. -/
theorem frames_not_recycled_of_page : ∃ m s, m.rootAddress 0x1000 = 0x20000 ∧
    s = (mmanAnonymous m 0x1000 0x50001000 0x1000).1 ∧ NotRecycled (Handled m) ⟨s, allHeld⟩ := by
  obtain ⟨tr₀, m, L, hrun₀, htidy, -, hlen, haddr, -⟩ := small_run
  obtain ⟨⟨L', hexact⟩, -⟩ := run_exact smallMemory_layout.of_cons.of_cons hrun₀
  have hallowed : FrameOp.Allowed m (.anonymous 0x1000 0x50001000 0x1000) :=
    htidy.allowed_anonymous small_pages.1 hlen
  have hcall := mmanAnonymous_one haddr (show (0x20000 : Word) ≠ 0 by decide)
    (show (0x50001000 : Word) &&& 0xfff = 0 by decide)
  have hstart : RunIf frameStep (fun s op => op.Allowed s.mman ∧ op.Spares s) ⟨m, allHeld⟩ []
    ⟨m, allHeld⟩ := .start
  have hrun := hstart.snoc ⟨hallowed, trivial⟩ (frameStep_anonymous hcall)
  rw [looseAfter_allHeld] at hrun
  refine ⟨m, _, haddr, rfl, ?_⟩
  rw [hcall]
  exact frames_not_recycled hexact hrun

/-- **A frame is freed while it is mapped.** -/
theorem unmapping_frees_mapped_frame : ¬ ∀ (m : Mman) (L : List Word) (tr : List (FrameOp × Int))
    (s : Marked), Exact m L → RunIf frameStep (fun s op => op.Allowed s.mman) ⟨m, allHeld⟩ tr s →
    NotRecycled (Handled m) s := by
  intro hall
  obtain ⟨tr₀, m, L, hrun₀, htidy, hL, hlen, haddr, hmap⟩ := small_run
  obtain ⟨⟨L', hexact⟩, -⟩ := run_exact smallMemory_layout.of_cons.of_cons hrun₀
  obtain rfl : L' = L := hexact.counted.layout.pages.unique htidy.counted.layout.pages
  cases L' with
  | nil => exact hL rfl
  | cons f L =>
    obtain ⟨hu, hv⟩ := small_pages
    obtain ⟨t, ht, -⟩ := hmap
    have hmem : (0x20000 : Word) ∈ m.roots :=
      mem_roots (haddr ▸ search_of_rootAddress (by rw [haddr]; decide))
    have hown := htidy.own _ hmem
    have hlay := hexact.counted.layout
    have htu : tableAt m.phys 0x20000 0x50001000 3 = some t := by
      rwa [tableAt_samePrefix (show SamePrefix 3 0x50001000 temporaryMapAddress by decide)]
    have htv : tableAt m.phys 0x20000 0x50002000 3 = some t := by
      rwa [tableAt_samePrefix (show SamePrefix 3 0x50002000 temporaryMapAddress by decide)]
    have htal := (isFrame_of_met hlay.isFrame (hlay.met hmem (hown.low _ hu) htu)).aligned
    have hne : cell t 0x50001000 3 ≠ cell t 0x50002000 3 := fun heq =>
      absurd ((cell_inj htal htal).mp heq).2 (by decide)
    obtain ⟨h₁, hf, htaken₁⟩ := hexact.maps_head hown hu htu
    have hcall₁ := mmanAnonymous_one haddr (show (0x20000 : Word) ≠ 0 by decide)
      (show (0x50001000 : Word) &&& 0xfff = 0 by decide)
    generalize anonymousPage 0x20000 m 0x50001000 = m₁ at *
    obtain ⟨h₂, hentry₂, htaken₂⟩ := h₁.physical hf hv htv hne
    have hcall₂ := mmanPhysical_one ((h₁.roots.rootAddress 0x1000).trans haddr)
      (show (0x20000 : Word) ≠ 0 by decide) (show (0x50002000 : Word) &&& 0xfff = 0 by decide)
      (and_fff_eq_zero.mpr hf.isFrame.aligned)
    generalize physicalPage 0x20000 m₁ 0x50002000 f = m₂ at *
    obtain ⟨hfree₃, hentry, hframe, hsame, htaken₃⟩ := h₂.unmap hf hu htu hv htv hne hentry₂
    have hcall₃ := mmanUnmap_one ((h₂.roots.rootAddress 0x1000).trans haddr)
      (show (0x20000 : Word) ≠ 0 by decide) (show (0x50002000 : Word) &&& 0xfff = 0 by decide)
    generalize onEntry 0x20000 unmapEntry m₂ 0x50002000 = m₃ at *
    have hallowed₁ : FrameOp.Allowed m (.anonymous 0x1000 0x50001000 0x1000) :=
      htidy.allowed_anonymous hu hlen
    have hallowed₂ : FrameOp.Allowed m₁ (.physical 0x1000 0x50002000 f 0x1000) := by
      refine ⟨privateTables_one h₁.roots h₁.owned haddr hv, fun _ _ => ?_⟩
      simp only [frameCall, hcall₂, htaken₂]
      exact Nat.le_add_right _ _
    have hallowed₃ : FrameOp.Allowed m₂ (.unmap 0x1000 0x50002000 0x1000) := by
      refine ⟨privateTables_one h₂.roots h₂.owned haddr hv, fun _ _ => ?_⟩
      simp only [frameCall, hcall₃, htaken₃]
      exact Nat.le_add_right _ _
    have hstart : RunIf frameStep (fun s op => op.Allowed s.mman) ⟨m, allHeld⟩ [] ⟨m, allHeld⟩ := .start
    have hrun₁ := hstart.snoc hallowed₁ (frameStep_anonymous hcall₁)
    have hrun₂ := hrun₁.snoc hallowed₂ (frameStep_physical hcall₂)
    have hrun₃ := hrun₂.snoc hallowed₃ (frameStep_unmap hcall₃)
    obtain ⟨-, L', hpages, hheld⟩ := hall m _ _ _ hexact hrun₃
    obtain rfl : L' = f :: L := hpages.unique hfree₃
    refine hheld 0x20000 ((h₂.roots.trans hsame).roots_eq ▸ hmem) 0x50001000 (hown.low _ hu) _ hentry ?_ ?_
    · -- the entry that was marked is the other one
      have hnot : looseAfter m₂.phys (m₁.rootAddress 0x1000) 0x50002000 1 true allHeld
          (cell t 0x50001000 3) = false := by
        refine if_neg fun hmarked => ?_
        obtain ⟨j, hj, hc⟩ := hmarked
        obtain rfl : j = 0 := Nat.lt_one_iff.mp hj
        rw [h₁.roots.rootAddress, haddr, show nthPage 0x50002000 0 = 0x50002000 from rfl,
          kmemPagingAddr_of_table (h₂.walks _ hv htv)] at hc
        exact hne (Option.some.inj hc).symm
      rw [looseAfter_allHeld]
      exact fun hmark => Bool.noConfusion (hnot.symm.trans hmark)
    · rw [hframe]
      exact List.mem_cons_self

end Refk
