import Refk.Klib.Refs
import Refk.Scheduler.MmanExact

/-!
# What `paging_addr_create` does, exactly

The kernel's and the memory manager's versions of it do the same to the physical memory, so
everything about the memory is said of the kernel's: `Created`. A creation is a chain of
links, each of a page that was zeroed while nothing pointed to it (`TablesLinked`), and there
are as many as the walk has levels missing.

The loop's invariant is `Creating`: the pages used so far and the levels still missing add up
to the levels that were missing at the start, which is what the free list has to last for.
-/

namespace Refk

/-- At how many of the levels down to `level` `kmem_paging_addr` fails. -/
def missingLevels (m : Phys) (root va : Word) (level : Nat) : Nat :=
  (List.range (level + 1)).countP fun i => (kmemPagingAddr m root va i).isNone

/-- What a creation for `va` needs of the tables: those of its walk are used by no other walk
    from the roots `R`, and down to `level` it meets no large page. -/
structure DistinctTables (m : Phys) (R : Set Word) (root va : Word) (level : Nat) : Prop where
  roots : ∀ r ∈ R, PageAligned r
  root_mem : root ∈ R
  priv : ∀ d, Private m R root va d
  small : ∀ d < level, ∀ t, tableAt m root va d = some t →
    Present (m (cell t va d)) → ¬ IsPage d (m (cell t va d))

/-- `z` is `m` with the 512 entries of the page `p` zeroed. -/
structure ZeroFilled (m z : Phys) (p : Word) : Prop where
  zero : ∀ i < 512, z (slotAddr p i) = 0
  same : ∀ a, (∀ i < 512, a ≠ slotAddr p i) → z a = m a

/-- The tables `ps`, latest first, have been linked along the walk for `va`, one after the
    other: each was zeroed while no walk of the roots got to it, and then an absent entry of
    the walk was made to point to it. -/
inductive TablesLinked (R : Set Word) (root va : Word) (m : Phys) : List Word → Phys → Prop
  | nil : TablesLinked R root va m [] m
  | link {ps : List Word} {m₁ z : Phys} {p t : Word} {d : Nat} :
      TablesLinked R root va m ps m₁ → tableAt m₁ root va d = some t →
      ¬ Present (m₁ (cell t va d)) → ZeroFilled m₁ z p →
      (∀ r ∈ R, ∀ va' d', tableAt z r va' d' ≠ some p) →
      TablesLinked R root va m (p :: ps) (phyWrite64 z (cell t va d) (p ||| 0x7))

/-- Every present entry that maps a page in `m'` is that of `m`. -/
def NoNewLeaf (R : Set Word) (m m' : Phys) : Prop :=
  ∀ r ∈ R, ∀ va d t, tableAt m' r va d = some t → Present (m' (cell t va d)) →
    IsPage d (m' (cell t va d)) →
    tableAt m r va d = some t ∧ m (cell t va d) = m' (cell t va d)

/-- What `kmem_paging_addr_create` has done, with the free list `L` to take pages from. -/
structure Created (R : Set Word) (root va : Word) (level : Nat) (L : List Word) (k k' : Kmem)
    (addr : Word) : Prop where
  found : kmemPagingAddr k'.phys root va level = some addr
  handed : k'.handedOut =
    (L.take (missingLevels k.phys root va level)).reverse ++ k.handedOut
  free : FreePages k' (L.drop (missingLevels k.phys root va level))
  linked : TablesLinked R root va k.phys
    (L.take (missingLevels k.phys root va level)).reverse k'.phys
  translate : ∀ r ∈ R, ∀ va', translate k'.phys r va' = translate k.phys r va'
  leaves : NoNewLeaf R k.phys k'.phys

/-! ## Missing levels -/

section
variable {m m' : Phys} {R : Set Word} {root va t p : Word} {d level i j : Nat}

/-- Below a level that is missing, all are. -/
theorem kmemPagingAddr_none (h : kmemPagingAddr m root va i = none) (hij : i ≤ j) :
    kmemPagingAddr m root va j = none := by
  induction j with
  | zero => rwa [Nat.le_zero.mp hij] at h
  | succ j ih =>
    rcases Nat.lt_or_ge j i with hlt | hge
    · rwa [show i = j + 1 by omega] at h
    · rw [kmemPagingAddr, ih hge]
      rfl

theorem missingLevels_of_found (h : kmemPagingAddr m root va level ≠ none) :
    missingLevels m root va level = 0 := by
  rw [missingLevels, List.countP_eq_zero]
  intro i hi hnone
  rw [List.mem_range] at hi
  rw [Option.isNone_iff_eq_none] at hnone
  exact h (kmemPagingAddr_none hnone (by omega))

theorem countP_range_lt (d n : Nat) : (List.range n).countP (fun i => d < i) = n - (d + 1) := by
  induction n with
  | zero => simp
  | succ n ih =>
    rw [List.range_succ, List.countP_append, ih, List.countP_singleton]
    by_cases h : d < n
    · rw [if_pos (by simpa using h)]
      omega
    · rw [if_neg (by simpa using h)]
      omega

variable (level) in
/-- Where the walk stops at an absent entry, the levels below are missing. -/
theorem missingLevels_of_absent (h : tableAt m root va d = some t)
    (habs : ¬ Present (m (cell t va d))) : missingLevels m root va level = level - d := by
  have hnext := kmemPagingAddr_of_absent h habs
  have hlevel : ∀ i, (kmemPagingAddr m root va i).isNone = decide (d < i) := by
    intro i
    rcases Nat.lt_or_ge d i with hlt | hge
    · rw [kmemPagingAddr_none hnext hlt, decide_eq_true hlt]
      rfl
    · obtain ⟨t₀, h₀⟩ := tableAt_of_le h hge
      rw [kmemPagingAddr_of_table h₀, decide_eq_false (by omega)]
      rfl
  rw [missingLevels]
  simp only [hlevel]
  rw [countP_range_lt]
  omega

/-! ## One link -/

theorem NoNewLeaf.refl (R : Set Word) (m : Phys) : NoNewLeaf R m m :=
  fun _ _ _ _ _ h _ _ => ⟨h, rfl⟩

theorem NoNewLeaf.trans {m₁ m₂ m₃ : Phys} (h : NoNewLeaf R m₁ m₂) (h' : NoNewLeaf R m₂ m₃) :
    NoNewLeaf R m₁ m₃ := by
  intro r hr va d t ht hpres hpage
  obtain ⟨ht₂, heq⟩ := h' r hr va d t ht hpres hpage
  rw [← heq] at hpres hpage ⊢
  exact h r hr va d t ht₂ hpres hpage

/-- The entry that is linked is no leaf, and the new table has none. -/
theorem noNewLeaf_link (hR : ∀ r ∈ R, PageAligned r) (hroot : root ∈ R) (hp : PageAligned p)
    (hnew : ∀ r ∈ R, ∀ va d, tableAt m r va d ≠ some p) (hd : d < 3)
    (ht : tableAt m root va d = some t) (habs : ¬ Present (m (cell t va d)))
    (hpriv : Private m R root va d) (hm : Linked m m' (cell t va d) p) : NoNewLeaf R m m' := by
  intro r hr va' d' t' ht' hpres hpage
  rw [tableAt_link hR hroot hp hnew hd ht habs hpriv hm hr va' d'] at ht'
  split_ifs at ht' with hthrough
  · obtain rfl := Option.some.inj ht'
    rw [hm.zero] at hpres
    exact absurd hpres (by decide)
  · refine ⟨ht', ?_⟩
    by_cases hlinked : r = root ∧ d' = d ∧ SamePrefix (d + 1) va' va
    · obtain ⟨rfl, rfl, hpre⟩ := hlinked
      rw [tableAt_samePrefix (samePrefix_succ.mp hpre).1, ht] at ht'
      obtain rfl := Option.some.inj ht'
      rw [cell, (samePrefix_succ.mp hpre).2, ← cell, hm.entry] at hpage
      exact absurd hpage (linked_entry_table hp hd)
    · exact (hm.same_on_walk hR hroot hnew ht hpriv hr ht' hlinked).symm

theorem zeroFilled_zeroTable (m : Phys) (p : Word) : ZeroFilled m (zeroTable m p) p where
  zero i hi := by
    rw [zeroTable, foldl_zero, if_pos ⟨i, List.mem_range.mpr hi, rfl⟩]
  same a ha := by
    rw [zeroTable, foldl_zero, if_neg]
    intro h
    obtain ⟨i, hi, heq⟩ := h
    exact ha i (List.mem_range.mp hi) heq

/-- Zeroing a page that is no table leads no walk to it. -/
theorem tableAt_zeroTable (hR : ∀ r ∈ R, PageAligned r) (hp : PageAligned p)
    (hnew : ∀ r ∈ R, ∀ va d, tableAt m r va d ≠ some p) :
    ∀ r ∈ R, ∀ va d, tableAt (zeroTable m p) r va d ≠ some p := by
  intro r hr va d
  rw [(translate_of_agree fun k t ht => ?_).1]
  · exact hnew r hr va d
  · refine zeroTable_other m hp (tableAt_aligned (hR r hr) ht) fun heq => ?_
    exact hnew r hr va k (heq ▸ ht)

/-- A walk that does not get to `level` stops above it, at an absent entry, and so meets no
    large page at all. -/
theorem DistinctTables.tables (h : DistinctTables m R root va level)
    (hnone : kmemPagingAddr m root va level = none) : Tables m R root {va} := by
  refine ⟨h.roots, h.root_mem, ?_, ?_⟩
  · intro va' hva'
    rw [Set.mem_singleton_iff.mp hva']
    exact h.priv
  · intro va' hva' d hd t ht hpres
    rw [Set.mem_singleton_iff.mp hva'] at ht hpres ⊢
    rcases Nat.lt_or_ge d level with hlt | hge
    · exact h.small d hlt t ht hpres
    · obtain ⟨t₀, h₀⟩ := tableAt_of_le ht hge
      rw [kmemPagingAddr_of_table h₀] at hnone
      cases hnone

end

/-! ## The loop -/

/-- The invariant of the loop: `used` of the free pages are linked, `rest` are left. -/
structure Creating (R : Set Word) (root va : Word) (level : Nat) (k s : Kmem)
    (used rest : List Word) : Prop where
  tables : Tables s.phys R root {va}
  free : Free s R rest
  handed : s.handedOut = used.reverse ++ k.handedOut
  missing : used.length + missingLevels s.phys root va level =
    missingLevels k.phys root va level
  linked : TablesLinked R root va k.phys used.reverse s.phys
  translate : ∀ r ∈ R, ∀ va', translate s.phys r va' = translate k.phys r va'
  leaves : NoNewLeaf R k.phys s.phys

section
variable {R : Set Word} {root va t p : Word} {level d : Nat} {k s : Kmem} {L used rest : List Word}

/-- **One turn of the loop** that links a table. -/
theorem Creating.link (h : Creating R root va level k s used (p :: rest)) (hlevel : level ≤ 3)
    (hd : d < level) (ht : tableAt s.phys root va d = some t)
    (habs : ¬ Present (s.phys (cell t va d))) :
    Creating R root va level k (s.newTable (cell t va d)).1 (used ++ [p]) rest ∧
      tableAt (s.newTable (cell t va d)).1.phys root va (d + 1) = some p := by
  have hp : PageAligned p := (h.free.frames p (by simp)).aligned
  have hpage : s.lastUnused = p := h.free.pages.head_eq
  have hnew : ∀ r ∈ R, ∀ va d, tableAt s.phys r va d ≠ some p := h.free.unused p (by simp)
  have htal := tableAt_aligned (h.tables.roots root h.tables.root_mem) ht
  have hne : t ≠ p := fun heq => hnew root h.tables.root_mem va d (heq ▸ ht)
  have hpriv := h.tables.priv va rfl d
  have hm : Linked s.phys _ (cell t va d) p := newTable_linked h.free.pages hp htal hne
  obtain ⟨htables, hfree, hgrown, hnext⟩ := link_step h.tables h.free rfl (by omega) ht habs
  have hstate : (s.newTable (cell t va d)).1.phys =
      phyWrite64 (zeroTable s.phys p) (cell t va d) (p ||| 0x7) := by
    simp only [Kmem.newTable, kmemGetpage, hpage]
  have hrev : (used ++ [p]).reverse = p :: used.reverse := by simp
  refine ⟨⟨htables, hfree, ?_, ?_, ?_, ?_, ?_⟩, hnext⟩
  · have hout : (s.newTable (cell t va d)).1.handedOut = s.lastUnused :: s.handedOut := rfl
    rw [hrev, hout, hpage, h.handed, List.cons_append]
  · have hbefore := missingLevels_of_absent level ht habs
    have hafter := missingLevels_of_absent level hnext
      (by rw [hm.zero]; decide)
    have := h.missing
    rw [hafter, List.length_append, List.length_singleton]
    omega
  · rw [hrev, hstate]
    exact h.linked.link ht habs (zeroFilled_zeroTable s.phys p)
      (tableAt_zeroTable h.tables.roots hp hnew)
  · intro r hr va'
    rw [hgrown.translate r hr, h.translate r hr]
  · exact h.leaves.trans (noNewLeaf_link h.tables.roots h.tables.root_mem hp hnew (by omega) ht
      habs hpriv hm)

/-- **The creation**, where the free list lasts for the missing levels. -/
theorem kmemPagingAddrCreate_created (hlevel : level ≤ 3)
    (htab : DistinctTables k.phys R root va level) (hfree : Free k R L)
    (henough : missingLevels k.phys root va level ≤ L.length) :
    Created R root va level L k (kmemPagingAddrCreate k root va level).1
      (kmemPagingAddrCreate k root va level).2 := by
  cases hfound : kmemPagingAddr k.phys root va level with
  | some addr =>
    have hrun : kmemPagingAddrCreate k root va level = (k, addr) := by
      simp only [kmemPagingAddrCreate, pagingAddrCreate, hfound]
    have hzero : missingLevels k.phys root va level = 0 :=
      missingLevels_of_found (by rw [hfound]; exact Option.some_ne_none addr)
    rw [hrun]
    refine ⟨hfound, ?_, ?_, ?_, fun _ _ _ => rfl, .refl R _⟩
    · rw [hzero]
      rfl
    · rw [hzero]
      exact hfree.pages
    · rw [hzero]
      exact .nil
  | none =>
    have hstart : Creating R root va level k k [] L :=
      ⟨htab.tables hfound, hfree, rfl, Nat.zero_add _, .nil, fun _ _ _ => rfl, .refl R _⟩
    have hrule := pagingAddrCreate_rule Kmem.phys (fun k pa => (k.newTable pa).1) root va level
      (fun s => ∃ used rest, L = used ++ rest ∧ Creating R root va level k s used rest)
      (fun _ => True) ⟨[], L, rfl, hstart⟩ (fun _ _ _ => trivial) ?_ trivial
    · obtain ⟨⟨used, rest, rfl, h⟩, haddr⟩ := hrule
      have hnone := missingLevels_of_found (m := (kmemPagingAddrCreate k root va level).1.phys)
        (by rw [kmemPagingAddrCreate, haddr]; exact Option.some_ne_none _)
      have hlen : missingLevels k.phys root va level = used.length := by
        have := h.missing
        rw [kmemPagingAddrCreate] at hnone
        omega
      refine ⟨haddr, ?_, ?_, ?_, h.translate, h.leaves⟩
      · rw [hlen, List.take_left']
        · exact h.handed
        · rfl
      · rw [hlen, List.drop_left']
        · exact h.free.pages
        · rfl
      · rw [hlen, List.take_left']
        · exact h.linked
        · rfl
    · rintro s i pa ⟨used, rest, hL, h⟩ hi hpa hnext -
      rw [h.tables.kmemPagingAddr rfl (by omega), Option.map_eq_some_iff] at hpa
      obtain ⟨t, ht, rfl⟩ := hpa
      have habs : ¬ Present (s.phys (cell t va i)) := by
        intro hpres
        have htable := tableAt_succ_iff.mpr
          ⟨t, ht, hpres, h.tables.small va rfl i (by omega) t ht hpres, rfl⟩
        rw [kmemPagingAddr_of_table htable] at hnext
        cases hnext
      -- a level is missing, so a page is left
      have hmissing := missingLevels_of_absent level ht habs
      have hroom : rest ≠ [] := by
        rintro rfl
        have := h.missing
        rw [hL, List.append_nil] at henough
        omega
      obtain ⟨p, rest, rfl⟩ := List.exists_cons_of_ne_nil hroom
      obtain ⟨h', htable⟩ := h.link hlevel hi ht habs
      exact ⟨⟨used ++ [p], rest, by rw [hL, List.append_assoc, List.singleton_append], h'⟩, _,
        kmemPagingAddr_of_table htable⟩

end

/-! ## The two versions -/

theorem kmemPagingAddrCreate_of_found {k : Kmem} {root va addr : Word} {level : Nat}
    (h : kmemPagingAddr k.phys root va level = some addr) :
    kmemPagingAddrCreate k root va level = (k, addr) := by
  simp only [kmemPagingAddrCreate, pagingAddrCreate, h]

theorem mmanPagingAddrCreate_of_found {s : Mman} {root va addr : Word} {level : Nat}
    (h : kmemPagingAddr s.phys root va level = some addr) :
    mmanPagingAddrCreate s root va level = (s, addr) := by
  simp only [mmanPagingAddrCreate, pagingAddrCreate, h]

/-- The memory manager's version is the kernel's, as far as the memory is concerned. -/
theorem kmemPagingAddrCreate_kmem (s : Mman) (root va : Word) (level : Nat) :
    kmemPagingAddrCreate s.kmem root va level =
      Prod.map Mman.kmem id (mmanPagingAddrCreate s root va level) :=
  pagingAddrCreate_hom Mman.kmem (fun _ => rfl) (fun _ _ => rfl) s

/-- Beside the memory it changes `page_refcount`: a page it takes is counted as often as it is
    taken. -/
theorem mmanPagingAddrCreate_counts (s : Mman) (root va : Word) (level : Nat) :
    ∃ ps, (mmanPagingAddrCreate s root va level).1.kmem.handedOut = ps ++ s.kmem.handedOut ∧
      (∀ page, (mmanPagingAddrCreate s root va level).1.pageCount page =
        s.pageCount page + ps.count page) ∧
      (mmanPagingAddrCreate s root va level).1 =
        { s with
          kmem := (mmanPagingAddrCreate s root va level).1.kmem
          pageRefcount := (mmanPagingAddrCreate s root va level).1.pageRefcount } := by
  refine pagingAddrCreate_keeps (fun s' : Mman => ∃ ps,
    s'.kmem.handedOut = ps ++ s.kmem.handedOut ∧
    (∀ page, s'.pageCount page = s.pageCount page + ps.count page) ∧
    s' = { s with kmem := s'.kmem, pageRefcount := s'.pageRefcount }) ⟨[], rfl, fun _ => rfl, rfl⟩ ?_
  intro s' pa h
  obtain ⟨ps, hout, hcount, hframe⟩ := h
  refine ⟨s'.kmem.lastUnused :: ps, ?_, ?_, ?_⟩
  · rw [List.cons_append, ← hout]
    rfl
  · intro page
    have hnew : (s'.newTable pa).pageCount page =
        s'.pageCount page + if s'.kmem.lastUnused = page then 1 else 0 := pageCount_incrementPage
    rw [hnew, hcount, List.count_cons, Nat.add_assoc]
    simp only [beq_iff_eq]
  · rw [hframe]
    rfl

/-- **Creating the tables** for an address, in both versions. -/
theorem paging_addr_create_exact {s : Mman} {R : Set Word} {root va : Word} {level : Nat}
    {L : List Word} (hlevel : level ≤ 3) (htab : DistinctTables s.phys R root va level)
    (hfree : Free s.kmem R L)
    (henough : missingLevels s.phys root va level ≤ L.length) :
    ∃ k addr s',
      kmemPagingAddrCreate s.kmem root va level = (k, addr) ∧
      mmanPagingAddrCreate s root va level = (s', addr) ∧
      Created R root va level L s.kmem k addr ∧
      -- a second call does nothing
      kmemPagingAddrCreate k root va level = (k, addr) ∧
      mmanPagingAddrCreate s' root va level = (s', addr) ∧
      -- the memory manager counts the new tables, and does nothing else besides
      (∀ page, s'.pageCount page = s.pageCount page +
        if page ∈ L.take (missingLevels s.phys root va level) then 1 else 0) ∧
      s' = { s with kmem := k, pageRefcount := s'.pageRefcount } := by
  have hcreated := kmemPagingAddrCreate_created hlevel htab hfree henough
  have hsame := kmemPagingAddrCreate_kmem s root va level
  obtain ⟨ps, hout, hcount, hframe⟩ := mmanPagingAddrCreate_counts s root va level
  generalize mmanPagingAddrCreate s root va level = run at hsame hout hcount hframe
  rw [hsame] at hcreated
  have hps : ps = (L.take (missingLevels s.phys root va level)).reverse := by
    have hhanded := hcreated.handed
    rw [Prod.map_fst, hout] at hhanded
    exact List.append_cancel_right hhanded
  refine ⟨run.1.kmem, run.2, run.1, hsame, rfl, hcreated,
    kmemPagingAddrCreate_of_found hcreated.found, mmanPagingAddrCreate_of_found hcreated.found,
    ?_, hframe⟩
  intro page
  have hnd : (L.take (missingLevels s.phys root va level)).Nodup :=
    hfree.nodup.sublist (List.take_sublist _ _)
  rw [hcount, hps, List.count_reverse, hnd.count]

theorem twoRoots_distinct (va : Word) (level : Nat) (hlevel : level ≤ 3) :
    DistinctTables twoRootsMman.phys {0x20000, 0x40000} 0x20000 va level where
  roots := (twoRoots_tables {va}).roots
  root_mem := (twoRoots_tables {va}).root_mem
  priv := (twoRoots_tables {va}).priv va rfl
  small d hd := (twoRoots_tables {va}).small va rfl d (by omega)

/-- The tables for the first page of the empty root are three pages from the list. -/
theorem paging_addr_create_exact_of_twoRoots :
    ∃ s', (mmanPagingAddrCreate twoRootsMman 0x20000 0 3).1 = s' ∧
      kmemPagingAddr s'.phys 0x20000 0 3 = some (mmanPagingAddrCreate twoRootsMman 0x20000 0 3).2 ∧
      s'.kmem.handedOut = [0x32000, 0x31000, 0x30000] ∧
      s'.pageCount 0x31000 = 1 := by
  have hmissing : missingLevels twoRootsMman.phys 0x20000 0 3 = 3 :=
    missingLevels_of_absent 3 (d := 0) rfl (by decide)
  obtain ⟨k, addr, s', -, hrun, hcreated, -, -, hcount, hframe⟩ :=
    paging_addr_create_exact le_rfl (twoRoots_distinct 0 3 le_rfl) twoRoots_free
      (by rw [hmissing]; decide)
  have hk : s'.kmem = k := by rw [hframe]
  have hhanded := hcreated.handed
  have hpage := hcount 0x31000
  rw [show twoRootsMman.kmem.phys = twoRootsMman.phys from rfl, hmissing] at hhanded
  rw [hmissing] at hpage
  refine ⟨s', by rw [hrun], ?_, ?_, ?_⟩
  · rw [hrun, Mman.phys, hk]
    exact hcreated.found
  · rw [hk, hhanded]
    rfl
  · rw [hpage]
    decide

end Refk
