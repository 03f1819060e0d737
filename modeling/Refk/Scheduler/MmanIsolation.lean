import Refk.Scheduler.MmanApart
import Refk.Scheduler.MmanForeign

/-!
# Address-space isolation

The roots are isolated in every state of a run of calls that build roots and map and unmap ranges,
and what a call does to one of them the others do not notice (`SpaceOp.Apart`). The calls check
nothing but alignment, so it is their arguments that have to keep to private addresses: a range in
one of the kernel's windows is a range of every root.
-/

namespace Refk

open Lib

/-- The calls that build roots, and those that map and unmap. -/
inductive SpaceOp
  | makeRoot
  | anonymous (rootId : Nat) (address size : Word)
  | physical (rootId : Nat) (address paddress size : Word)
  | mirror (rootId : Nat) (address : Word) (srootId : Nat) (saddress size : Word)
  | unmap (rootId : Nat) (address size : Word)

/-- The call, and what it returns. -/
def spaceCall (s : Mman) : SpaceOp → Mman × Int
  | .makeRoot => ((mmanMakeRoot s).1, (mmanMakeRoot s).2)
  | .anonymous rootId address size => mmanAnonymous s rootId address size
  | .physical rootId address paddress size => mmanPhysical s rootId address paddress size
  | .mirror rootId address srootId saddress size =>
    mmanMirror s rootId address srootId saddress size
  | .unmap rootId address size => mmanUnmap s rootId address size

def spaceStep (s : Mman) (op : SpaceOp) : Option (Mman × Int) := some (spaceCall s op)

/-- The roots there are: the known ones, and the one the kernel runs under. -/
def Mman.spaces (s : Mman) : Set Word := {r | r = s.cr3 ∨ ∃ id, s.rootAddress id = r ∧ r ≠ 0}

/-- There are enough free pages; a new root takes five. -/
def SpaceOp.Enough (s : Mman) (op : SpaceOp) : Prop :=
  ∀ L, FreePages s.kmem L →
    match op with
    | .makeRoot => 5 ≤ L.length
    | op => (spaceCall s op).1.kmem.taken ≤ s.kmem.taken + L.length

/-- The range is off what all roots share, `mman_mirror` reads nothing through the physical memory
    map, and `mman_unmap` lets go of no counted frame that is free, or a table. -/
def SpaceOp.Private (s : Mman) : SpaceOp → Prop
  | .makeRoot => True
  | .anonymous _ address size => pagesOf address size ⊆ privateAddresses
  | .physical _ address _ size => pagesOf address size ⊆ privateAddresses
  | .mirror _ address _ saddress size => pagesOf address size ⊆ privateAddresses ∧
    ∀ va ∈ pagesOf saddress size, pagingIndex va 0 ≠ 384
  | .unmap rootId address size => pagesOf address size ⊆ privateAddresses ∧
    ∀ va ∈ pagesOf address size, ∀ entry, mapping s.phys (s.rootAddress rootId) va = some entry →
      ∀ L, FreePages s.kmem L → MayLetGo s s.spaces L (entry &&& kmemFrameMask)

/-- From `s` to `s'` only what is `root`'s own has changed: no address of another root, and none
    that all roots share, translates differently, and memory is as it was outside of its tables
    and of the pages that were taken from the free list or returned to it. -/
structure OnlyOwn (s s' : Mman) (root : Word) : Prop where
  others : ∀ r ∈ s.spaces, r ≠ root → ∀ va, translate s'.phys r va = translate s.phys r va
  shared : ∀ r ∈ s.spaces, ∀ va ∉ privateAddresses, translate s'.phys r va = translate s.phys r va
  memory : ∀ L L', FreePages s.kmem L → FreePages s'.kmem L' → ∀ a,
    ¬ OwnTable s'.phys root (pageOf a) → (pageOf a ∈ L ↔ pageOf a ∈ L') → s'.phys a = s.phys a

/-- A call leaves alone what is not its root's own, and a new root leaves all of them alone. -/
def SpaceOp.Apart (s : Mman) (op : SpaceOp) : Prop :=
  match op with
  | .makeRoot => ∀ r ∈ s.spaces, ∀ va,
    translate (mmanMakeRoot s).1.phys r va = translate s.phys r va
  | .anonymous rootId _ _ => OnlyOwn s (spaceCall s op).1 (s.rootAddress rootId)
  | .physical rootId _ _ _ => OnlyOwn s (spaceCall s op).1 (s.rootAddress rootId)
  | .mirror rootId _ _ _ _ => OnlyOwn s (spaceCall s op).1 (s.rootAddress rootId)
  | .unmap rootId _ _ => OnlyOwn s (spaceCall s op).1 (s.rootAddress rootId)

section
variable {s s' s₀ : Mman} {k : Kmem} {R R' : Set Word} {L L' : List Word} {id : Nat} {V : Set Word}
  {root : Word} {op : SpaceOp} {tr : List (SpaceOp × Int)}

theorem Isolated.mono (h : Isolated k R L) (hsub : R' ⊆ R) : Isolated k R' L where
  tables r hr := by
    have htab := h.tables r (hsub hr)
    refine ⟨fun r hr => htab.roots r (hsub hr), hr, ?_, htab.small⟩
    exact fun va hva d t ht r' hr' => htab.priv va hva d t ht r' (hsub hr')
  windows r hr := h.windows r (hsub hr)
  free := ⟨h.free.pages, h.free.frames, h.free.nodup,
    fun p hp r hr => h.free.unused p hp r (hsub hr)⟩

theorem mem_spaces (h : s.rootAddress id ≠ 0) : s.rootAddress id ∈ s.spaces := .inr ⟨id, rfl, h⟩

theorem SameRoots.spaces_eq (h : SameRoots s s') : s'.spaces = s.spaces := by
  simp only [Mman.spaces, Mman.rootAddress, h.rootMap, h.cr3]

/-- The page of a private address is one. -/
theorem not_samePrefix_of_private {va va' : Word} (hva : va ∉ privateAddresses)
    (hva' : va' ∈ privateAddresses) : ¬ SamePrefix 4 va va' := by
  intro hpre
  apply hva
  refine ⟨fun hslot => hva'.1 ?_, fun hwindow => hva'.2 ?_⟩
  · rw [← hpre 0 (by omega)]
    exact hslot
  · obtain ⟨w, hw, hpre'⟩ := hwindow
    exact ⟨w, hw, fun j hj => (hpre j (by omega)).symm.trans (hpre' j hj)⟩

theorem OnlyOwn.of_alone (hV : V ⊆ privateAddresses) (hfree : FreePages s.kmem L)
    (hfree' : FreePages s'.kmem L') (h : LeavesAlone s.spaces root V L L' s.phys s'.phys) :
    OnlyOwn s s' root where
  others r hr hne va := h.translate r hr va fun heq => absurd heq hne
  shared r hr va hva :=
    h.translate r hr va fun _ va' hva' => not_samePrefix_of_private hva (hV hva')
  memory L₁ L₁' h₁ h₁' a hown hiff := by
    obtain rfl := Chain.unique h₁ hfree
    obtain rfl := Chain.unique h₁' hfree'
    exact h.memory a hown hiff

/-- The roots that there are after one was registered. -/
theorem spaces_importRoot (root : Word) :
    (importRoot { s with kmem := k } root).1.spaces ⊆ insert root s.spaces := by
  obtain ⟨m, hm, heq⟩ := importRoot_spec { s with kmem := k } root
  intro r hr
  rw [heq] at hr
  rcases hr with hcur | ⟨id, hid, h₀⟩
  · exact .inr (.inl (hcur.trans hm.cr3))
  · simp only [Mman.rootAddress, AvlMap.search_insert_ptr] at hid
    split_ifs at hid
    · exact .inl hid.symm
    · exact .inr (.inr ⟨id, hid, h₀⟩)

/-- `mman_make_root` -/
theorem Isolated.makeRoot (h : Isolated s.kmem s.spaces L) (henough : 5 ≤ L.length) :
    (∃ L', L.length = L'.length + 5 ∧
      Isolated (mmanMakeRoot s).1.kmem (mmanMakeRoot s).1.spaces L') ∧
      ∀ r ∈ s.spaces, ∀ va, translate (mmanMakeRoot s).1.phys r va = translate s.phys r va := by
  obtain ⟨⟨rest, hlength, hnew⟩, htranslate⟩ := h.createRoot (.inl rfl) henough
  rw [mmanMakeRoot_eq, Mman.phys, kmem_importRoot]
  exact ⟨⟨rest, hlength, hnew.mono (spaces_importRoot _)⟩, htranslate⟩

/-- **Every call** keeps the roots isolated, and what it does stays with its root. -/
theorem Isolated.spaceStep (h : Isolated s.kmem s.spaces L) (henough : op.Enough s)
    (hpriv : op.Private s) :
    (∃ L', Isolated (spaceCall s op).1.kmem (spaceCall s op).1.spaces L') ∧ op.Apart s := by
  have hroom := henough L h.free.pages
  have hmaps : ∀ {id : Nat} {V : Set Word}, V ⊆ privateAddresses →
      SameRoots s (spaceCall s op).1 →
      MapsApart s.spaces (s.rootAddress id) V L s (spaceCall s op).1 →
      (∃ L', Isolated (spaceCall s op).1.kmem (spaceCall s op).1.spaces L') ∧
        OnlyOwn s (spaceCall s op).1 (s.rootAddress id) := by
    intro id V hV hroots hkept
    rw [hroots.spaces_eq]
    exact ⟨⟨_, hkept.isolated⟩, .of_alone hV h.free.pages hkept.isolated.free.pages hkept.alone⟩
  cases op with
  | makeRoot =>
    obtain ⟨⟨L', -, hnew⟩, htranslate⟩ := h.makeRoot hroom
    exact ⟨⟨L', hnew⟩, htranslate⟩
  | anonymous rootId address size =>
    exact hmaps hpriv (quiet_mmanAnonymous s rootId address size).roots
      (mmanAnonymous_apart h mem_spaces hpriv hroom)
  | physical rootId address paddress size =>
    exact hmaps hpriv (quiet_mmanPhysical s rootId address paddress size).roots
      (mmanPhysical_apart h mem_spaces hpriv hroom)
  | mirror rootId address srootId saddress size =>
    exact hmaps hpriv.1 (quiet_mmanMirror s rootId address srootId saddress size).roots
      (mmanMirror_apart h (fun _ => mem_spaces) hpriv.1 hpriv.2 hroom)
  | unmap rootId address size =>
    obtain ⟨hV, hmay⟩ := hpriv
    obtain ⟨L', hgone⟩ := mmanUnmap_letGo h mem_spaces hV
      fun va hva entry hentry => hmay va hva entry hentry L h.free.pages
    have hroots := sameRoots_mmanUnmap s rootId address size
    refine ⟨⟨L', ?_⟩, .of_alone hV h.free.pages hgone.isolated.free.pages hgone.alone⟩
    simp only [spaceCall]
    rw [hroots.spaces_eq]
    exact hgone.isolated

/-! ## The windows -/

theorem rootAddress_mmanMakeRoot (s : Mman) :
    (mmanMakeRoot s).1.rootAddress s.nextId = (kmemCreateRoot s.cr3 s.kmem).2 := by
  obtain ⟨m, -, heq⟩ := importRoot_spec { s with kmem := (kmemCreateRoot s.cr3 s.kmem).1 }
    (kmemCreateRoot s.cr3 s.kmem).2
  rw [mmanMakeRoot_eq, heq]
  simp only [Mman.rootAddress, AvlMap.search_insert_ptr, if_true, Option.getD_some]

theorem cr3_mmanMakeRoot (s : Mman) : (mmanMakeRoot s).1.cr3 = s.cr3 := by
  obtain ⟨m, hm, heq⟩ := importRoot_spec { s with kmem := (kmemCreateRoot s.cr3 s.kmem).1 }
    (kmemCreateRoot s.cr3 s.kmem).2
  rw [mmanMakeRoot_eq, heq]
  exact hm.cr3

theorem physicalPage_leafChange {va t : Word} (paddress : Word)
    (ht : tableAt s.phys root va 3 = some t) : (physicalPage root s va paddress).phys =
      LeafChange.apply s.phys ⟨root, va, paddress ||| kmemMapData⟩ := by
  rw [physicalPage_of_table paddress ht, LeafChange.apply, kmemPagingAddr_of_table ht]
  rfl

/-- **A window is every root's**: what is mapped into one of a new root is mapped in the current
    root as well. -/
theorem mmanPhysical_shows {va paddress : Word} (h : Isolated s.kmem s.spaces L)
    (henough : 5 ≤ L.length) (hva : InWindow va) (hal : va &&& 0xfff = 0)
    (hframe : IsFrame paddress) :
    (kmemCreateRoot s.cr3 s.kmem).2 ∈ L ∧
      mapping (mmanPhysical (mmanMakeRoot s).1 s.nextId va paddress 0x1000).1.phys s.cr3 va =
        some (paddress ||| kmemMapData) := by
  have hc := h.current (.inl rfl) henough
  have hphys : (mmanMakeRoot s).1.phys = (kmemCreateRoot s.cr3 s.kmem).1.phys := by
    rw [mmanMakeRoot_eq, Mman.phys, kmem_importRoot]
  have hroot := rootAddress_mmanMakeRoot s
  generalize (mmanMakeRoot s).1 = s' at hphys hroot
  obtain ⟨ret, p₁, p₂, p₃, p₄, rest, rfl, hret, f, -⟩ := hc.fresh
  rw [hret] at hroot ⊢
  have hjoined := hc.joined f (by simp) (by simp) (by simp) (by simp) (by simp)
  rw [← hphys] at hjoined
  have h₀ : ret ≠ 0 := by
    intro heq
    exact Chain.nil_not_mem h.free.pages (heq ▸ List.mem_cons_self)
  obtain ⟨t, -, htable⟩ := hjoined.table hva
  have ht := htable ret (.inr rfl)
  have hrun : (mmanPhysical s' s.nextId va paddress 0x1000).1.phys =
      LeafChange.apply s'.phys ⟨ret, va, paddress ||| kmemMapData⟩ := by
    rw [mmanPhysical_one hroot h₀ hal (and_fff_eq_zero.mpr hframe.aligned)]
    exact physicalPage_leafChange paddress ht
  refine ⟨List.mem_cons_self, ?_⟩
  rw [hrun, (hjoined.change (.inr rfl) hva).2 s.cr3 (.inl rfl), if_pos (present_data _ hframe)]

end

/-! ## Two roots -/

/-- The tables of `windowKmem`: an entry's table, a window whose walk uses the entry, its level, and
    where it leads. -/
def windowTables : List (Word × Word × Nat × Word) :=
  [(0x10000, taskBase, 0, 0x11000), (0x11000, taskBase, 1, 0x12000),
    (0x12000, taskBase, 2, 0x13000), (0x12000, descBase, 2, 0x14000),
    (0x12000, kmemBaseAddr, 2, 0x15000),
    (0x10000, statusBase, 0, 0x16000), (0x16000, statusBase, 1, 0x17000),
    (0x17000, statusBase, 2, 0x18000), (0x18000, statusBase, 3, 0x8000000000019000)]

section
variable {t va : Word} {d : Nat}

theorem windowKmem_entry (ht : PageAligned t) (hp : Present (windowKmem.phys (cell t va d))) :
    windowKmem.phys (cell t va d) &&& 0x80 = 0 ∧ ∃ e ∈ windowTables, t = e.1 ∧
      pagingIndex va d = pagingIndex e.2.1 e.2.2.1 ∧
      windowKmem.phys (cell t va d) &&& pageMask = e.2.2.2 := by
  have hwords : ∀ w ∈ windowWords, Present w.2 → w.2 &&& 0x80 = 0 ∧ ∃ e ∈ windowTables,
      e.1.toNat % 0x1000 = 0 ∧ w.1 = cell e.1 e.2.1 e.2.2.1 ∧ w.2 &&& pageMask = e.2.2.2 := by
    intro w hw
    fin_cases hw <;> decide
  have hread : windowKmem.phys (cell t va d) = (windowWords.lookup (cell t va d)).getD 0 := rfl
  rw [hread] at hp ⊢
  cases h : windowWords.lookup (cell t va d) with
  | none =>
    rw [h] at hp
    exact absurd hp (by decide)
  | some v =>
    rw [h] at hp
    obtain ⟨l₁, l₂, hl, -⟩ := List.lookup_eq_some_iff.mp h
    obtain ⟨hsmall, e, he, hal, hcell, htarget⟩ := hwords (cell t va d, v) (by rw [hl]; simp) hp
    obtain ⟨heq, hidx⟩ := (cell_inj ht hal).mp hcell
    exact ⟨hsmall, e, he, heq, hidx, htarget⟩

/-- Its tables are a tree. -/
theorem windowKmem_tree {va' t' : Word} {d' : Nat}
    (ht : tableAt windowKmem.phys 0x10000 va d = some t)
    (ht' : tableAt windowKmem.phys 0x10000 va' d' = some t') (heq : t = t') :
    d' = d ∧ SamePrefix d va' va := by
  have hroot : ∀ e ∈ windowTables, e.2.2.2 ≠ 0x10000 := by decide
  have hone : ∀ e ∈ windowTables, ∀ e' ∈ windowTables, e.2.2.2 = e'.2.2.2 → e = e' := by decide
  have hal : PageAligned (0x10000 : Word) := rfl
  have hlinked : ∀ {va t d}, tableAt windowKmem.phys 0x10000 va (d + 1) = some t →
      ∃ t₀, tableAt windowKmem.phys 0x10000 va d = some t₀ ∧ ∃ e ∈ windowTables, t₀ = e.1 ∧
        pagingIndex va d = pagingIndex e.2.1 e.2.2.1 ∧ t = e.2.2.2 := by
    intro va t d h
    obtain ⟨t₀, h₀, hp, -, rfl⟩ := tableAt_succ_iff.mp h
    obtain ⟨-, e, he, htable, hidx, htarget⟩ := windowKmem_entry (tableAt_aligned hal h₀) hp
    exact ⟨t₀, h₀, e, he, htable, hidx, htarget⟩
  induction d generalizing t t' d' with
  | zero =>
    cases d' with
    | zero => exact ⟨rfl, fun j hj => absurd hj (Nat.not_lt_zero j)⟩
    | succ d' =>
      obtain ⟨-, -, e, he, -, -, htarget⟩ := hlinked ht'
      exact absurd (htarget.symm.trans (heq.symm.trans (Option.some.inj ht).symm)) (hroot e he)
  | succ d ih =>
    obtain ⟨t₀, h₀, e, he, htable, hidx, htarget⟩ := hlinked ht
    cases d' with
    | zero => exact absurd (htarget.symm.trans (heq.trans (Option.some.inj ht').symm)) (hroot e he)
    | succ d' =>
      obtain ⟨t₀', h₀', e', he', htable', hidx', htarget'⟩ := hlinked ht'
      obtain rfl := hone e he e' he' (htarget.symm.trans (heq.trans htarget'))
      obtain ⟨rfl, hpre⟩ := ih h₀ h₀' (htable.trans htable'.symm)
      exact ⟨rfl, samePrefix_succ.mpr ⟨hpre, hidx'.trans hidx.symm⟩⟩

theorem windowKmem_isolated :
    Isolated windowKmem {0x10000} [0x30000, 0x31000, 0x32000, 0x33000, 0x34000] where
  tables := by
    intro r hr
    obtain rfl : r = 0x10000 := hr
    refine ⟨fun r hr => ?_, rfl, fun va hva d t ht r hr va' d' ht' => ?_,
      fun va hva d hd t ht hp => ?_⟩
    · obtain rfl : r = 0x10000 := hr
      rfl
    · obtain rfl : r = 0x10000 := hr
      exact ⟨rfl, windowKmem_tree ht ht' rfl⟩
    · rintro (h | ⟨-, h⟩)
      · omega
      · exact h (windowKmem_entry (tableAt_aligned windowKmem_current.root_aligned ht) hp).1
  windows := by
    intro r hr va hva
    obtain rfl : r = 0x10000 := hr
    obtain ⟨w, hw, hpre⟩ := hva
    obtain ⟨t, ht⟩ := windowKmem_current.tables w hw
    exact ⟨t, (tableAt_samePrefix hpre).trans ht⟩
  free := by
    refine ⟨windowKmem_current.pages, fun p hp => ?_, windowKmem_current.nodup, fun p hp r hr => ?_⟩
    · fin_cases hp <;> rfl
    · obtain rfl : r = 0x10000 := hr
      exact windowKmem_current.unused p hp

/-- Pages are returned, one after the other. -/
theorem Isolated.unuseAll {k : Kmem} {R : Set Word} {L l : List Word} (h : Isolated k R L)
    (hl : ∀ p ∈ l, IsFrame p ∧ p ≠ 0 ∧ p ∉ L ∧ ∀ r ∈ R, ∀ va d, tableAt k.phys r va d ≠ some p)
    (hnd : l.Nodup) : Isolated (l.foldl kmemUnuse k) R (l.reverse ++ L) ∧
      ∀ r ∈ R, ∀ va, translate (l.foldl kmemUnuse k).phys r va = translate k.phys r va := by
  induction l generalizing k L with
  | nil => exact ⟨h, fun _ _ _ => rfl⟩
  | cons p l ih =>
    obtain ⟨hframe, h₀, hL, hunused⟩ := hl p List.mem_cons_self
    obtain ⟨hnot, hnd'⟩ := List.nodup_cons.mp hnd
    obtain ⟨hisolated, -, hsame⟩ := h.unuse 0 ∅ hframe h₀ hL hunused
    have hagree : ∀ r ∈ R, ∀ va, _ := fun r hr va => translate_of_agree (hsame r hr va)
    obtain ⟨hrest, htranslate⟩ := ih hisolated (by
      intro q hq
      obtain ⟨hframe', h₀', hL', hunused'⟩ := hl q (List.mem_cons_of_mem p hq)
      refine ⟨hframe', h₀', ?_, fun r hr va d ht => ?_⟩
      · rw [List.mem_cons, not_or]
        exact ⟨fun heq => hnot (heq ▸ hq), hL'⟩
      · exact hunused' r hr va d (((hagree r hr va).1 d).symm.trans ht)) hnd'
    rw [List.foldl_cons, List.reverse_cons, List.append_assoc]
    exact ⟨hrest, fun r hr va => (htranslate r hr va).trans (hagree r hr va).2⟩

/-- The manager over `windowKmem`, with three free pages more. -/
def windowMman : Mman where
  kmem := [0x35000, 0x36000, 0x37000].foldl kmemUnuse windowKmem
  cr3 := 0x10000
  rootMap := (AvlMap.empty.insert 0x1000 0x10000).1
  rootRefcount := .empty
  pageRefcount := .empty
  nextId := 0x1001
  thisRootId := 0x1000
  pagefreeCalls := []

theorem windowMman_spaces : windowMman.spaces = {0x10000} := by
  ext r
  constructor
  · intro hr
    rcases hr with hcur | ⟨id, hid, h₀⟩
    · exact hcur
    · simp only [Mman.rootAddress, windowMman, AvlMap.search_insert_ptr] at hid
      split_ifs at hid
      · exact hid.symm
      · exact absurd hid.symm h₀
  · intro hr
    exact .inl hr

theorem windowMman_isolated : Isolated windowMman.kmem windowMman.spaces
      [0x37000, 0x36000, 0x35000, 0x30000, 0x31000, 0x32000, 0x33000, 0x34000] ∧
    mapping windowMman.phys 0x10000 statusBase = some 0x8000000000019001 := by
  have hnew : ∀ p ∈ [(0x35000 : Word), 0x36000, 0x37000], p &&& kmemFrameMask = p ∧ p ≠ 0 ∧
      p ∉ [(0x30000 : Word), 0x31000, 0x32000, 0x33000, 0x34000] ∧ p ≠ 0x10000 ∧
      ∀ e ∈ windowTables, e.2.2.2 ≠ p := by
    intro p hp
    fin_cases hp <;> decide
  obtain ⟨hisolated, htranslate⟩ := windowKmem_isolated.unuseAll
    (l := [0x35000, 0x36000, 0x37000]) (by
    intro p hp
    obtain ⟨hframe, h₀, hL, hroot, hlinked⟩ := hnew p hp
    refine ⟨hframe, h₀, hL, fun r hr va d ht => ?_⟩
    obtain rfl : r = 0x10000 := hr
    cases d with
    | zero => exact hroot (Option.some.inj ht).symm
    | succ d =>
      obtain ⟨t, ht₀, hpres, -, rfl⟩ := tableAt_succ_iff.mp ht
      obtain ⟨-, e, he, -, -, htarget⟩ := windowKmem_entry
        (tableAt_aligned windowKmem_current.root_aligned ht₀) hpres
      exact hlinked e he htarget.symm) (by decide)
  rw [windowMman_spaces]
  refine ⟨hisolated, ?_⟩
  rw [← windowKmem_status, mapping, mapping]
  exact congrArg (·.bind List.getLast?) (htranslate 0x10000 rfl statusBase)

/-- The first call makes a second root. -/
theorem windowMman_run {ok : Mman → SpaceOp → Prop} (hok : ok windowMman .makeRoot) :
    RunIf spaceStep ok windowMman [(.makeRoot, ((mmanMakeRoot windowMman).2 : Int))]
      (mmanMakeRoot windowMman).1 := RunIf.start.snoc hok rfl

theorem windowMman_enough : SpaceOp.Enough windowMman .makeRoot := by
  intro L hL
  obtain rfl := Chain.unique hL windowMman_isolated.1.free.pages
  exact show 5 ≤ 8 by decide

theorem enough_physical {s : Mman} {L : List Word} (hfree : FreePages s.kmem L)
    (hthree : 3 ≤ L.length) (id : Nat) (va paddress : Word) :
    SpaceOp.Enough s (.physical id va paddress 0x1000) := by
  intro L' hL'
  obtain rfl := Chain.unique hL' hfree
  have hle := mmanPhysical_taken_le (s := s) id va paddress 0x1000
  rw [show (0x1000 : Word).toNat / 0x1000 = 1 from rfl] at hle
  exact hle.trans (Nat.add_le_add_left hthree _)

/-- And leaves three pages. -/
theorem windowMman_enough_physical (va paddress : Word) :
    SpaceOp.Enough (mmanMakeRoot windowMman).1 (.physical 0x1001 va paddress 0x1000) := by
  obtain ⟨⟨rest, hlength, hnew⟩, -⟩ := windowMman_isolated.1.makeRoot (by decide)
  have hfour : 8 = rest.length + 5 := hlength
  exact enough_physical hnew.free.pages (by omega) 0x1001 va paddress

end

section
variable {s s₀ : Mman} {L : List Word} {op : SpaceOp} {tr : List (SpaceOp × Int)}

/-- **Address spaces are isolated**, in every run of calls with private arguments. -/
theorem address_spaces_isolated (h : Isolated s₀.kmem s₀.spaces L)
    (hrun : RunIf spaceStep (fun s op => op.Enough s ∧ op.Private s) s₀ tr s)
    (henough : op.Enough s) (hpriv : op.Private s) : op.Apart s := by
  obtain ⟨L', h'⟩ := hrun.invariant_state (fun s => ∃ L, Isolated s.kmem s.spaces L) ⟨L, h⟩ (by
    intro s op s' b hs hok hstep
    obtain ⟨L, hs⟩ := hs
    obtain ⟨rfl, rfl⟩ := Prod.mk.inj (Option.some.inj hstep)
    exact (hs.spaceStep hok.1 hok.2).1)
  exact (h'.spaceStep henough hpriv).2

end

/-- A page of the second root. -/
theorem address_spaces_isolated_of_windowMman :
    SpaceOp.Apart (mmanMakeRoot windowMman).1 (.physical 0x1001 0 0x1a000 0x1000) := by
  have hzero : (0 : Word) ∈ privateAddresses := by
    refine ⟨by decide, fun h => ?_⟩
    rw [inWindow_iff] at h
    revert h
    decide
  refine address_spaces_isolated windowMman_isolated.1 (windowMman_run ⟨windowMman_enough, trivial⟩)
    (windowMman_enough_physical 0 0x1a000) ?_
  rw [SpaceOp.Private, pagesOf_one]
  rintro va rfl
  exact hzero

/-- A page in the status window of the second root is seen in the first. -/
theorem window_mapping_shows : ¬ ∀ (s₀ s : Mman) (L : List Word) (tr : List (SpaceOp × Int)),
    Isolated s₀.kmem s₀.spaces L → RunIf spaceStep (fun s op => op.Enough s) s₀ tr s →
      ∀ op : SpaceOp, op.Enough s → op.Apart s := by
  intro hclaim
  obtain ⟨hisolated, hstatus⟩ := windowMman_isolated
  have hapart := hclaim windowMman _ _ _ hisolated (windowMman_run windowMman_enough)
    (.physical 0x1001 statusBase 0x1a000 0x1000) (windowMman_enough_physical statusBase 0x1a000)
  have hroot : (mmanMakeRoot windowMman).1.rootAddress 0x1001 =
    (kmemCreateRoot windowMman.cr3 windowMman.kmem).2 := rootAddress_mmanMakeRoot windowMman
  obtain ⟨hnew, hshows⟩ := mmanPhysical_shows hisolated (by decide)
    (⟨statusBase, by simp [windows], fun _ _ => rfl⟩ : InWindow statusBase) (by decide)
    (show IsFrame 0x1a000 by rfl)
  have hkept := (hisolated.makeRoot (by decide)).2 0x10000 (.inl rfl) statusBase
  rw [← hroot] at hnew
  have hother := hapart.others 0x10000 (.inl (cr3_mmanMakeRoot windowMman).symm) (by
    intro heq
    rw [← heq] at hnew
    exact absurd hnew (by decide)) statusBase
  have hsame : mapping (mmanPhysical (mmanMakeRoot windowMman).1 0x1001 statusBase 0x1a000
      0x1000).1.phys 0x10000 statusBase = mapping windowMman.phys 0x10000 statusBase :=
    congrArg (·.bind List.getLast?) (hother.trans hkept)
  rw [hstatus] at hsame
  exact absurd (hshows.symm.trans hsame) (by decide)

end Refk
