import Refk.Scheduler.MmanPrivate
import Refk.Scheduler.MmanRootCount

/-!
# Tidy page tables

`Tidy` is the memory manager as its own operations leave it: every page counted, nothing loose
or lost, and each root with tables of its own outside the windows that all roots share. The
lemmas are the operations on a single page, which is how tasks are set up.
-/

namespace Refk

open Lib

/-- The addresses off what all roots share: physical memory and the kernel's windows. -/
def ownAddresses : Set Word := {va | ∀ w ∈ phyMapBase :: windows, pagingIndex va 0 ≠ pagingIndex w 0}

/-- Counts are exact for the roots `R`, `L` is the free list, and every root has its own tables. -/
structure Tidy (s : Mman) (R L : List Word) : Prop where
  counted : Counted s allHeld R (fun _ => 0) Set.univ L
  own : OwnTables s.phys R ownAddresses

theorem low_of_own {va : Word} (h : va ∈ ownAddresses) : pagingIndex va 0 ≠ 384 :=
  pagingIndex_phyMapBase ▸ h phyMapBase List.mem_cons_self

/-- A loop of one turn. -/
theorem forPages_one {σ : Type} (body : σ → Word → σ) (s : σ) :
    forPages 0x1000 body s = body s 0 := rfl

theorem pageOffsets_one : pageOffsets 0x1000 = [0] := rfl

theorem pageSize_aligned : (0x1000 : Word) &&& 0xfff = 0 := rfl

theorem add_zero_word (va : Word) : va + 0 = va := by simp

section
variable {s s' : Mman} {R L : List Word} {id sid : Nat} {root sroot va sva : Word}

/-- The page of `va` in `root` was mapped, or unmapped, as `b` says; at most `n` pages were taken
    for it. -/
structure Turned (R L : List Word) (root va : Word) (b : Prop) (n : Nat) (s s' : Mman) : Prop where
  tidy : ∃ L', Tidy s' R L' ∧ L.length ≤ L'.length + n
  maps : MapsBut R root va b s.phys s'.phys
  roots : SameRoots s s'

theorem update_allHeld (c : Word) : Function.update allHeld c false = allHeld :=
  Function.update_eq_self_iff.mpr rfl

theorem Tidy.low (h : Tidy s R L) (hr : root ∈ R) (hva : va ∈ ownAddresses) :
    pagingIndex va 0 ≠ 384 := (h.own root hr).low va hva

/-- What a turn that maps a page that was not mapped leaves. -/
theorem Turned.of_turn {n : Nat} (hturn : Turn R root ownAddresses Set.univ L (fun _ => 0) allHeld
      s s' va false) (hun : ¬ Mapped s.phys root va)
    (hpriv : OwnTables s'.phys R ownAddresses ∧ MapsBut R root va True s.phys s'.phys)
    (htaken : s'.kmem.taken ≤ s.kmem.taken + n) : Turned R L root va True n s s' := by
  obtain ⟨t, slack', -, hcounted, hslack⟩ := hturn.counted
  rw [hslack hun, update_allHeld] at hcounted
  refine ⟨⟨_, ⟨hcounted, hpriv.1⟩, ?_⟩, hpriv.2, hturn.roots⟩
  rw [List.length_drop]
  omega

theorem mmanAnonymous_one (hid : s.rootAddress id = root) (h₀ : root ≠ 0) (hal : va &&& 0xfff = 0) :
    mmanAnonymous s id va 0x1000 = (anonymousPage root s va, 0) := by
  simp only [mmanAnonymous, hid, h₀, hal, pageSize_aligned, if_false, ne_eq, not_true, forPages_one,
    add_zero_word]

theorem mmanUnmap_one (hid : s.rootAddress id = root) (h₀ : root ≠ 0) (hal : va &&& 0xfff = 0) :
    mmanUnmap s id va 0x1000 = (onEntry root unmapEntry s va, 0) := by
  simp only [mmanUnmap, onEntries, hid, h₀, hal, pageSize_aligned, if_false, ne_eq, not_true,
    forPages_one, add_zero_word]

/-- **`mman_anonymous`** of a page that is not mapped. -/
theorem Tidy.anonymous (h : Tidy s R L) (hid : s.rootAddress id = root) (hr : root ∈ R)
    (hva : va ∈ ownAddresses) (hal : va &&& 0xfff = 0) (hun : ¬ Mapped s.phys root va)
    (hL : 4 ≤ L.length) : Turned R L root va True 4 s (mmanAnonymous s id va 0x1000).1 := by
  have hrun := mmanAnonymous_one hid (h.counted.layout.roots root hr).2 hal
  have htaken : (mmanAnonymous s id va 0x1000).1.kmem.taken ≤ s.kmem.taken + 4 :=
    (mmanAnonymous_taken_le id va 0x1000).trans (by simp)
  rw [hrun] at htaken ⊢
  dsimp only at htaken ⊢
  exact .of_turn (h.counted.anonymous (h.own root hr) hva (by omega)) hun
    (h.own.anonymous h.counted hr hva (by omega)) htaken

/-- A page that is mapped, and not by a loose entry, is counted. -/
theorem Counted.count_of_held {loose : Word → Bool} {slack : Word → Nat} {K : Set Word} {t : Word}
    (h : Counted s loose R slack K L) (hr : root ∈ R) (hlow : pagingIndex va 0 ≠ 384)
    (ht : tableAt s.phys root va 3 = some t) (hpres : Present (s.phys (cell t va 3)))
    (hheld : ¬ loose (cell t va 3)) : s.pageCount (frameOf (s.phys (cell t va 3))) ≠ 0 := by
  have hpath := tableAt_path h.layout.sane hr hlow ht
  have hle := (sumAt_le_below (w := refTo loose (frameOf (s.phys (cell t va 3))))
    (g := entries s.phys) (n := 0) (t := t)
    (show (pagingIndex va 3).toNat ∈ walked.slots 1 from pagingIndex_mem_slots (by simp))).trans
    ((hpath.sumBelow_le).trans (sumBelow_le_total hr))
  have hone : sumAt walked (refTo loose (frameOf (s.phys (cell t va 3)))) (entries s.phys) 0 t
      (pagingIndex va 3).toNat = 1 := by
    rw [sumAt_refTo_leaf, leafRef, if_pos ⟨hpres, rfl, hheld⟩]
  rw [hone] at hle
  rw [h.tally.counts, references]
  unfold Mman.phys at hle ⊢
  omega

theorem Counted.count_of_mapped {slack : Word → Nat} {K : Set Word} {t : Word}
    (h : Counted s allHeld R slack K L) (hr : root ∈ R) (hlow : pagingIndex va 0 ≠ 384)
    (ht : tableAt s.phys root va 3 = some t) (hpres : Present (s.phys (cell t va 3))) :
    s.pageCount (frameOf (s.phys (cell t va 3))) ≠ 0 :=
  h.count_of_held hr hlow ht hpres (by simp [allHeld])

/-- **`mman_mirror`** of a page to one that is not mapped. -/
theorem Tidy.mirror (h : Tidy s R L) (hid : s.rootAddress id = root) (hr : root ∈ R)
    (hsid : s.rootAddress sid = sroot) (hsr : sroot ∈ R) (hva : va ∈ ownAddresses)
    (hsva : sva ∈ ownAddresses) (hal : va &&& 0xfff = 0) (hsal : sva &&& 0xfff = 0)
    (hun : ¬ Mapped s.phys root va) (hmap : Mapped s.phys sroot sva) (hL : 6 ≤ L.length) :
    Turned R L root va True 6 s (mmanMirror s id va sid sva 0x1000).1 := by
  have hlay := h.counted.layout
  have hany : mmanCheckAnyMapped s id va 0x1000 = 0 := by
    have hno : isMapped s.phys root va = false := by
      rw [← Bool.not_eq_true]
      exact fun hm => hun ((hlay.isMapped_iff hr (h.low hr hva)).mp hm)
    simp only [mmanCheckAnyMapped, hid, (hlay.roots root hr).2, hal, pageSize_aligned, if_false, ne_eq,
      not_true, pageOffsets_one, List.any_cons, List.any_nil, add_zero_word, hno, Bool.or_false,
      Bool.false_eq_true]
  have hall : mmanCheckAllMapped s sid sva 0x1000 = 1 := by
    have hyes : isMapped s.phys sroot sva = true :=
      (hlay.isMapped_iff hsr (h.low hsr hsva)).mpr hmap
    simp only [mmanCheckAllMapped, hsid, (hlay.roots sroot hsr).2, hsal, pageSize_aligned, if_false, ne_eq,
      not_true, pageOffsets_one, List.all_cons, List.all_nil, add_zero_word, hyes, Bool.and_true, if_true]
  have hrun : mmanMirror s id va sid sva 0x1000 = (mirrorPage root sroot s va sva, 0) := by
    simp only [mmanMirror, hid, hsid, (hlay.roots root hr).2, (hlay.roots sroot hsr).2, hany, hall,
      if_false, ne_eq, not_true, forPages_one, add_zero_word]
  have htaken : (mmanMirror s id va sid sva 0x1000).1.kmem.taken ≤ s.kmem.taken + 6 :=
    (mmanMirror_taken_le id sid va sva 0x1000).trans (by simp)
  rw [hrun] at htaken ⊢
  dsimp only at htaken ⊢
  obtain ⟨t, ht, hpres⟩ := hmap
  have hcount := h.counted.count_of_mapped hsr (h.low hsr hsva) ht hpres
  exact .of_turn (h.counted.mirror (h.own root hr) hva hsr (h.low hsr hsva) ht hpres hcount (by omega))
    hun (h.own.mirror h.counted hr hva hsr (h.low hsr hsva) ht hpres (by omega)) htaken

/-- **`mman_unmap`** of a page. -/
theorem Tidy.unmap (h : Tidy s R L) (hid : s.rootAddress id = root) (hr : root ∈ R)
    (hva : va ∈ ownAddresses) (hal : va &&& 0xfff = 0) :
    Turned R L root va False 0 s (mmanUnmap s id va 0x1000).1 := by
  rw [mmanUnmap_one hid (h.counted.layout.roots root hr).2 hal]
  have hloose : ∀ t, tableAt s.phys root va 3 = some t → Present (s.phys (cell t va 3)) →
      allHeld (cell t va 3) → s.pageCount (frameOf (s.phys (cell t va 3))) = 0 :=
    fun t _ _ hl => absurd hl (by simp [allHeld])
  have hdrop := h.counted.unmap (h.own root hr) hva hloose
  obtain ⟨hown, hmaps⟩ := h.own.unmap h.counted hr hva hloose
  obtain ⟨L', hcounted, hsub, -⟩ := hdrop.counted
  refine ⟨⟨L', ⟨hcounted, hown⟩, ?_⟩, hmaps, hdrop.roots⟩
  exact (h.counted.layout.nodup.subperm hsub).length_le

end

/-! ## The registered roots -/

/-- The roots in `root_map`. -/
def Mman.roots (s : Mman) : List Word := s.rootMap.toList.map Prod.snd

section
variable {s s' : Mman} {R R' L : List Word} {id : Nat} {root : Word} {loose : Word → Bool}
  {slack : Word → Nat} {K : Set Word}

theorem mem_roots (h : s.rootMap.search id = some root) : root ∈ s.roots := by
  rw [AvlMap.search_eq, Option.map_eq_some_iff] at h
  obtain ⟨e, he, rfl⟩ := h
  exact List.mem_map_of_mem (Assoc.mem_of_find he).1

theorem rootAddress_of_search (h : s.rootMap.search id = some root) : s.rootAddress id = root := by
  rw [Mman.rootAddress, h, Option.getD_some]

/-- A known root is registered. -/
theorem search_of_rootAddress (h : s.rootAddress id ≠ 0) :
    s.rootMap.search id = some (s.rootAddress id) := by
  unfold Mman.rootAddress at h ⊢
  cases hs : s.rootMap.search id with
  | none =>
    rw [hs] at h
    exact absurd rfl h
  | some root => rfl

theorem SameRoots.roots_eq (h : SameRoots s s') : s'.roots = s.roots := by
  rw [Mman.roots, Mman.roots, h.rootMap]

theorem references_perm {m : Phys} {q : Word} (h : R.Perm R') :
    references loose m R' q = references loose m R q := by
  rw [references, references, h.count_eq, total_perm h]

theorem tablesMet_perm {m : Phys} {t : Word} (h : R.Perm R') :
    tablesMet m R' t = tablesMet m R t := by
  rw [tablesMet, tablesMet, met_perm h]

theorem Layout.perm {k : Kmem} (h : Layout k loose R L) (hp : R.Perm R') : Layout k loose R' L where
  pages := h.pages
  frames := h.frames
  nodup := h.nodup
  unused p hmem := by rw [references_perm hp, h.unused p hmem]
  roots r hr := h.roots r (hp.mem_iff.mpr hr)
  sane := by
    rw [← total_perm hp]
    exact h.sane

theorem Counted.perm (h : Counted s loose R slack K L) (hp : R.Perm R') :
    Counted s loose R' slack K L where
  layout := h.layout.perm hp
  tally := h.tally.congr fun q => by rw [references_perm hp]
  slack_free := h.slack_free
  slack_zero := h.slack_zero

theorem Tidy.perm (h : Tidy s R L) (hp : R.Perm R') : Tidy s R' L where
  counted := h.counted.perm hp
  own r hr := by
    have hown := h.own r (hp.mem_iff.mpr hr)
    refine ⟨hr, hown.low, fun va hva d hd t ht => ?_⟩
    rw [tablesMet_perm hp]
    exact hown.own va hva d hd t ht

/-- The books of the tasks are no part of it. -/
theorem Tidy.of_same (h : Tidy s R L) (hkmem : s'.kmem = s.kmem)
    (hcount : s'.pageRefcount = s.pageRefcount) (hfreed : s'.pagefreeCalls = s.pagefreeCalls) :
    Tidy s' R L := by
  refine ⟨h.counted.of_same hkmem hcount hfreed, ?_⟩
  rw [show s'.phys = s.phys from congrArg Kmem.phys hkmem]
  exact h.own

/-- A root that can be registered: its tables are in order, and its own. -/
structure NewRoot (s : Mman) (root : Word) : Prop where
  layout : ∃ L, Layout s.kmem allHeld (root :: s.roots) L
  own : OwnTables s.phys (root :: s.roots) ownAddresses

/-- **`mman_import_root`** adds a root. -/
theorem Tidy.importRoot (h : Tidy s s.roots L) (hnew : NewRoot s root)
    (hid : s.rootMap.search s.nextId = none) :
    Tidy (importRoot s root).1 (importRoot s root).1.roots L ∧
      ((importRoot s root).1.roots).Perm (root :: s.roots) := by
  obtain ⟨L', hlay⟩ := hnew.layout
  obtain rfl : L' = L := hlay.pages.unique h.counted.layout.pages
  have hperm : ((Refk.importRoot s root).1.roots).Perm (root :: s.roots) := by
    obtain ⟨m, -, heq⟩ := importRoot_eq s root
    rw [heq]
    exact (AvlMap.toList_insert_perm root hid).map Prod.snd
  have hcounted := importRoot_counts h.counted.tally hlay (held_allHeld _) h.counted.slack_free rfl
    fun _ _ => .inr trivial
  refine ⟨Tidy.perm ⟨hcounted, ?_⟩ hperm.symm, hperm⟩
  rw [Mman.phys, kmem_importRoot]
  exact hnew.own

end

end Refk
