import Refk.Kernel.AddressSpace

/-!
# What `task_load_elf` builds

A loadable image, in a kernel whose roots are isolated and that has enough free pages, gets a root
of its own: it shows the bytes of the image and zeros behind them, in pages with the rights that the
headers ask for, has a stack, and maps nothing else but what all roots share; and nothing that was
there before is touched. The pages of two segments, and of the stack, must not meet: a page that is
mapped twice loses what was in it.
-/

namespace Refk

open Lib

/-- The address of a page. -/
def pageAddr (n : Nat) : Word := BitVec.ofNat 64 (n * 0x1000)

/-- The pages from the one of `start` to `end_`. -/
def pageRange (start end_ : Nat) : List Nat :=
  List.range' (start / 0x1000) ((end_ + 0xfff) / 0x1000 - start / 0x1000)

/-- The pages of a segment. -/
def Phdr.pages (ph : Phdr) : List Nat :=
  pageRange ph.pVaddr.toNat (ph.pVaddr.toNat + ph.pMemsz.toNat)

/-- The rights of a segment. -/
def Phdr.mapFlags (ph : Phdr) : Word := if ph.IsCode then kmemMapCode else kmemMapData

/-- What a segment has at a place. -/
def Phdr.byte (ph : Phdr) (image : ElfImage) (i : Nat) : Byte :=
  if i < ph.pFilesz.toNat then image (ph.pOffset + BitVec.ofNat 64 i) else 0

/-- The pages of the stack, from the top. -/
def stackPages (stackSize : Word) : List Nat :=
  (List.range ((stackSize.toNat + 0xfff) / 0x1000)).map fun i => 0x80000 - 1 - i

/-- The program headers. -/
def ElfImage.phdrs (image : ElfImage) : List Phdr := (List.range image.phnum).map image.phdr

/-- The segments to load. -/
def ElfImage.loads (image : ElfImage) : List Phdr := image.phdrs.filter fun ph => ph.pType = ptLoad

/-- All the pages, with their rights. -/
def elfPages (image : ElfImage) (stackSize : Word) : List (Nat × Word) :=
  (stackPages stackSize).map (·, kmemMapData) ++
    image.loads.flatMap fun ph => ph.pages.map (·, ph.mapFlags)

/-- The segments are in the user half, and no page is in two of them or in the stack. -/
structure Loadable (image : ElfImage) (stackSize : Word) : Prop where
  stack : stackSize.toNat ≤ 0x80000000
  sizes : ∀ ph ∈ image.loads, ph.pFilesz.toNat ≤ ph.pMemsz.toNat
  user : ∀ ph ∈ image.loads, ph.pVaddr.toNat + ph.pMemsz.toNat ≤ 2 ^ 47
  apart : ((elfPages image stackSize).map Prod.fst).Nodup

/-! ## The loops -/

section
variable {k : Kmem} {root : Word}

theorem pageNumber_pageAddr {n : Nat} (h : n < 2 ^ 35) : pageNumber (pageAddr n) = n := by
  rw [pageNumber, pageAddr, BitVec.toNat_ofNat]
  omega

theorem pageRange_cons {start end_ : Nat} (hal : start % 0x1000 = 0) (hlt : start < end_) :
    pageRange start end_ = start / 0x1000 :: pageRange (start + 0x1000) end_ := by
  have hcount : (end_ + 0xfff) / 0x1000 - start / 0x1000 =
      (end_ + 0xfff) / 0x1000 - (start + 0x1000) / 0x1000 + 1 := by omega
  rw [pageRange, hcount, List.range'_succ, pageRange, show (start + 0x1000) / 0x1000 =
    start / 0x1000 + 1 by omega]

theorem pageRange_nil {start end_ : Nat} (hal : start % 0x1000 = 0) (hle : end_ ≤ start) :
    pageRange start end_ = [] := by
  rw [pageRange, show (end_ + 0xfff) / 0x1000 - start / 0x1000 = 0 by omega, List.range'_zero]

/-- **The page loop** runs through the pages of its range. -/
theorem whilePages_eq (body : Kmem → Word → Kmem) {end_ : Word} (huser : end_.toNat ≤ 2 ^ 47)
    (fuel : Nat) : ∀ (k : Kmem) (start : Word), start.toNat % 0x1000 = 0 → start.toNat ≤ 2 ^ 47 →
      2 ^ 35 < fuel + start.toNat / 0x1000 →
      whilePages body fuel k start end_ =
        some ((pageRange start.toNat end_.toNat).foldl (fun k n => body k (pageAddr n)) k) := by
  induction fuel with
  | zero =>
    intro k start _ hlow hfuel
    omega
  | succ fuel ih =>
    intro k start hal hlow hfuel
    rw [whilePages]
    by_cases hlt : start < end_
    · have hnat : start.toNat < end_.toNat := hlt
      have hnext : (start + 0x1000).toNat = start.toNat + 0x1000 := by
        rw [BitVec.toNat_add, show (0x1000 : Word).toNat = 0x1000 from rfl]
        omega
      have haddr : pageAddr (start.toNat / 0x1000) = start := by
        apply BitVec.eq_of_toNat_eq
        rw [pageAddr, BitVec.toNat_ofNat]
        omega
      rw [if_pos hlt, ih _ _ (by omega) (by omega) (by omega), pageRange_cons hal hnat, hnext,
        List.foldl_cons, haddr]
    · rw [if_neg hlt, pageRange_nil hal (Nat.le_of_not_lt hlt), List.foldl_nil]

/-- The loop for the stack runs down. -/
theorem mapStack_eq (root : Word) (fuel : Nat) : ∀ (k : Kmem) (top n : Nat), n ≤ top →
    top ≤ 0x80000 → n < fuel →
    mapStack root fuel k (pageAddr top) (pageAddr n) =
      some (((List.range n).map fun i => top - 1 - i).foldl
        (fun k n => mapFresh root k (pageAddr n)) k) := by
  induction fuel with
  | zero =>
    intro k top n _ _ hfuel
    omega
  | succ fuel ih =>
    intro k top n hn htop hfuel
    have hprev : ∀ m, 0 < m → m ≤ 0x80000 → pageAddr m - 0x1000 = pageAddr (m - 1) := by
      intro m hm hle
      apply BitVec.eq_of_toNat_eq
      rw [BitVec.toNat_sub, pageAddr, pageAddr, BitVec.toNat_ofNat, BitVec.toNat_ofNat,
        show (0x1000 : Word).toNat = 0x1000 from rfl]
      omega
    rw [mapStack]
    cases n with
    | zero =>
      rw [if_neg]
      · rfl
      · exact BitVec.lt_irrefl _
    | succ n =>
      have hpos : (0 : Word) < pageAddr (n + 1) := by
        rw [BitVec.lt_def, pageAddr, BitVec.toNat_ofNat]
        show 0 < _
        omega
      rw [if_pos hpos, hprev top (by omega) htop, hprev (n + 1) (by omega) (by omega),
        Nat.add_sub_cancel, ih _ _ _ (by omega) (by omega) (by omega), List.range_succ_eq_map,
        List.map_cons, List.foldl_cons, Nat.sub_zero, List.map_map]
      congr 2
      apply List.map_congr_left
      intro i _
      rw [Function.comp_apply]
      omega

end

/-! ## Pages of a list -/

section
variable {k₀ k k' : Kmem} {cur root : Word} {L₀ L L' : List Word} {R : Set Word} {D D' : PageMap}

/-- The pages `ns` are mapped with these rights; elsewhere `D'` is `D`. -/
structure Maps (ns : List Nat) (flags : Word) (D D' : PageMap) : Prop where
  mapped : ∀ n ∈ ns, ∃ e, D' n = some e ∧ e &&& kmemFlagMask = flags
  others : ∀ n ∉ ns, D' n = D n

/-- Every page is on its frame. -/
def SameFrames (D D' : PageMap) : Prop :=
  ∀ n e, D n = some e → ∃ e', D' n = some e' ∧ e' &&& kmemFrameMask = e &&& kmemFrameMask

theorem SameFrames.trans {D'' : PageMap} (h : SameFrames D D') (h' : SameFrames D' D'') :
    SameFrames D D'' := by
  intro n e hn
  obtain ⟨e', hn', hframe⟩ := h n e hn
  obtain ⟨e'', hn'', hframe'⟩ := h' n e' hn'
  exact ⟨e'', hn'', hframe'.trans hframe⟩

theorem KeepsPages.of_sameFrames {m m' : Phys} (h : KeepsPages D' m m') (hsame : SameFrames D D') :
    KeepsPages D m m' := by
  intro n e hn a ha hpage
  obtain ⟨e', hn', hframe⟩ := hsame n e hn
  exact h n e' hn' a ha (hpage.trans hframe.symm)

/-- The flags of an entry for a frame. -/
theorem frame_flags {p flags : Word} (hp : IsFrame p) (hflags : flags &&& kmemFlagMask = flags) :
    (p ||| flags) &&& kmemFlagMask = flags := by
  rw [BitVec.and_or_distrib_right, hflags, ← hp, BitVec.and_assoc,
    show kmemFrameMask &&& kmemFlagMask = 0 by decide]
  simp

/-- **Fresh pages for all of a list** -/
theorem AddressSpace.mapAll (ns : List Nat) : ∀ {k : Kmem} {L : List Word} {D : PageMap},
    AddressSpace k₀ cur L₀ R root k L D → ns.Nodup → (∀ n ∈ ns, n < 2 ^ 35 ∧ D n = none) →
    4 * ns.length ≤ L.length → ∃ L' D',
      AddressSpace k₀ cur L₀ R root (ns.foldl (fun k n => Refk.mapFresh root k (pageAddr n)) k) L' D' ∧
      L.length ≤ L'.length + 4 * ns.length ∧ Maps ns kmemMapData D D' ∧
      KeepsPages D k.phys (ns.foldl (fun k n => Refk.mapFresh root k (pageAddr n)) k).phys := by
  induction ns with
  | nil =>
    intro k L D h _ _ _
    refine ⟨L, D, h, Nat.le_refl _, ⟨?_, fun n _ => rfl⟩, KeepsPages.refl D _⟩
    intro n hn
    cases hn
  | cons n ns ih =>
    intro k L D h hnd huser henough
    obtain ⟨hnot, hnd'⟩ := List.nodup_cons.mp hnd
    obtain ⟨hn, hnone⟩ := huser n List.mem_cons_self
    have hnum := pageNumber_pageAddr hn
    rw [List.length_cons] at henough
    have hlow : pageNumber (pageAddr n) < 2 ^ 35 := by rwa [hnum]
    obtain ⟨e, L₁, hflags, hlength, hspace, hkept⟩ := h.mapFresh hlow (by omega)
    rw [hnum] at hspace
    obtain ⟨L', D', hspace', hlength', hmaps, hkept'⟩ := ih hspace hnd' (by
      intro n' hn'
      obtain ⟨hlt, hnone'⟩ := huser n' (List.mem_cons_of_mem n hn')
      have hne : n' ≠ n := fun heq => hnot (heq ▸ hn')
      exact ⟨hlt, (Function.update_of_ne hne _ D).trans hnone'⟩) (by omega)
    refine ⟨L', D', hspace', ?_, ⟨fun n' hn' => ?_, fun n' hn' => ?_⟩, ?_⟩
    · rw [List.length_cons]
      omega
    · rcases List.mem_cons.mp hn' with rfl | hmem
      · refine ⟨e, ?_, hflags⟩
        rw [hmaps.others n' hnot, Function.update_self]
      · exact hmaps.mapped n' hmem
    · rw [List.mem_cons, not_or] at hn'
      rw [hmaps.others n' hn'.2, Function.update_of_ne hn'.1]
    · refine hkept.trans (hkept'.of_sameFrames fun n' e' hn' => ⟨e', ?_, rfl⟩)
      rwa [Function.update_of_ne]
      rintro rfl
      rw [hnone] at hn'
      cases hn'

/-- **All of a list mapped as code** -/
theorem AddressSpace.setAllFlags (ns : List Nat) : ∀ {k : Kmem} {D : PageMap},
    AddressSpace k₀ cur L₀ R root k L D → (∀ n ∈ ns, D n ≠ none) → ∃ D',
      AddressSpace k₀ cur L₀ R root (ns.foldl
        (fun k n => kmemSetFlags k root (pageAddr n) kmemMapCode) k) L D' ∧
      Maps ns kmemMapCode D D' ∧ SameFrames D D' ∧
      KeepsPages D k.phys (ns.foldl
        (fun k n => kmemSetFlags k root (pageAddr n) kmemMapCode) k).phys := by
  induction ns with
  | nil =>
    intro k D h _
    refine ⟨D, h, ⟨?_, fun n _ => rfl⟩, fun n e hn => ⟨e, hn, rfl⟩, KeepsPages.refl D _⟩
    intro n hn
    cases hn
  | cons n ns ih =>
    intro k D h hmapped
    obtain ⟨e, hn⟩ := Option.ne_none_iff_exists'.mp (hmapped n List.mem_cons_self)
    have hnum := pageNumber_pageAddr (h.user n e hn)
    have hentry : D (pageNumber (pageAddr n)) = some e := by rwa [hnum]
    obtain ⟨hspace, hkept⟩ := h.setFlags hentry
      (show kmemMapCode &&& 1 ≠ 0 by decide) (by decide)
    rw [hnum] at hspace
    have hstep : SameFrames D
        (Function.update D n (some ((e &&& kmemFrameMask) ||| kmemMapCode))) := by
      intro n' e' hn'
      by_cases heq : n' = n
      · subst heq
        obtain rfl := Option.some.inj (hn.symm.trans hn')
        exact ⟨_, Function.update_self .., or_and_mask (isFrame_and e) (by decide)⟩
      · exact ⟨e', by rwa [Function.update_of_ne heq], rfl⟩
    obtain ⟨D', hspace', hmaps, hsame, hkept'⟩ := ih hspace (by
      intro n' hn'
      obtain ⟨e', he'⟩ := Option.ne_none_iff_exists'.mp (hmapped n' (List.mem_cons_of_mem n hn'))
      obtain ⟨e'', he'', -⟩ := hstep n' e' he'
      rw [he'']
      exact Option.some_ne_none e'')
    refine ⟨D', hspace', ⟨fun n' hn' => ?_, fun n' hn' => ?_⟩, hstep.trans hsame,
      hkept.trans (hkept'.of_sameFrames hstep)⟩
    · by_cases hmem : n' ∈ ns
      · exact hmaps.mapped n' hmem
      · obtain rfl : n' = n := (List.mem_cons.mp hn').resolve_right hmem
        refine ⟨_, (hmaps.others n' hmem).trans (Function.update_self ..), ?_⟩
        exact frame_flags (isFrame_and e) (by decide)
    · rw [List.mem_cons, not_or] at hn'
      rw [hmaps.others n' hn'.2, Function.update_of_ne hn'.1]

/-! ## A segment -/

/-- What a mapped page shows stays, if the page keeps its frame and its contents. -/
theorem AddressSpace.seen_eq {va : Word} (h : AddressSpace k₀ cur L₀ R root k L D)
    (h' : AddressSpace k₀ cur L₀ R root k' L' D') (hsame : SameFrames D D')
    (hkept : KeepsPages D k.phys k'.phys) (hn : D (pageNumber va) ≠ none) :
    seen k'.phys root va = seen k.phys root va := by
  obtain ⟨e, he⟩ := Option.ne_none_iff_exists'.mp hn
  obtain ⟨e', he', hframe⟩ := hsame _ e he
  have hva := private_of_user (h.user _ e he)
  obtain ⟨hloc, hpage⟩ := pageOf_location ((h.mapped va hva).trans he)
  have hloc' := (pageOf_location ((h'.mapped va hva).trans he')).1
  rw [hframe] at hloc'
  rw [seen, seen, hloc, hloc', Option.map_some, Option.map_some, hkept.physByte he hpage]

theorem Maps.sameFrames {ns : List Nat} {flags : Word} (h : Maps ns flags D D')
    (hnew : ∀ n ∈ ns, D n = none) : SameFrames D D' := by
  intro n e hn
  refine ⟨e, ?_, rfl⟩
  rw [h.others n, hn]
  intro hmem
  rw [hnew n hmem] at hn
  cases hn

/-- The bytes of a segment are in its pages. -/
theorem mem_pages {ph : Phdr} (huser : ph.pVaddr.toNat + ph.pMemsz.toNat ≤ 2 ^ 47) {i : Nat}
    (hi : i < ph.pMemsz.toNat) : pageNumber (nthByte ph.pVaddr i) ∈ ph.pages := by
  rw [Phdr.pages, pageRange, List.mem_range'_1, pageNumber, toNat_nthByte huser hi]
  omega

theorem lt_of_mem_pages {ph : Phdr} (huser : ph.pVaddr.toNat + ph.pMemsz.toNat ≤ 2 ^ 47) {n : Nat}
    (hn : n ∈ ph.pages) : n < 2 ^ 35 := by
  rw [Phdr.pages, pageRange, List.mem_range'_1] at hn
  omega

/-- The two ends of the page loops. -/
theorem segment_pages {ph : Phdr} (huser : ph.pVaddr.toNat + ph.pMemsz.toNat ≤ 2 ^ 47) {fuel : Nat}
    (hfuel : 2 ^ 35 < fuel) (body : Kmem → Word → Kmem) (k : Kmem) :
    whilePages body fuel k (ph.pVaddr &&& pageMask) (ph.pVaddr + ph.pMemsz) =
      some (ph.pages.foldl (fun k n => body k (pageAddr n)) k) := by
  have hstart := toNat_and_pageMask ph.pVaddr
  have hend : (ph.pVaddr + ph.pMemsz).toNat = ph.pVaddr.toNat + ph.pMemsz.toNat := by
    rw [BitVec.toNat_add]
    omega
  rw [whilePages_eq body (by omega) fuel k _ (by omega) (by omega) (by omega), hstart, hend]
  rw [Phdr.pages, pageRange, pageRange, Nat.mul_div_cancel _ (by decide)]

/-- **The contents of a segment**, from the file and from nothing. -/
theorem AddressSpace.fillSegment (h : AddressSpace k₀ cur L₀ R root k L D) (image : ElfImage)
    {ph : Phdr} (hsizes : ph.pFilesz.toNat ≤ ph.pMemsz.toNat)
    (hrange : MappedRange D ph.pVaddr ph.pMemsz.toNat) : ∃ k',
      (if ph.pMemsz ≠ ph.pFilesz then (k.memcpy root ph.pVaddr
            (fun i => image (ph.pOffset + BitVec.ofNat 64 i)) ph.pFilesz).memclr root
          (ph.pVaddr + ph.pFilesz) (ph.pMemsz - ph.pFilesz)
        else k.memcpy root ph.pVaddr (fun i => image (ph.pOffset + BitVec.ofNat 64 i)) ph.pFilesz) =
          k' ∧
      AddressSpace k₀ cur L₀ R root k' L D ∧
      (∀ i < ph.pMemsz.toNat, seen k'.phys root (nthByte ph.pVaddr i) = some (ph.byte image i)) ∧
      ∀ va, va.toNat < 2 ^ 47 → (∀ i < ph.pMemsz.toNat, va ≠ nthByte ph.pVaddr i) →
        seen k'.phys root va = seen k.phys root va := by
  have huser := hrange.user
  have hfile : MappedRange D ph.pVaddr ph.pFilesz.toNat :=
    ⟨fun i hi => hrange.mapped i (by omega), by omega⟩
  obtain ⟨hspace, hshown, hothers⟩ := h.fill (fun i => image (ph.pOffset + BitVec.ofNat 64 i)) hfile
  have hrun : k.memcpy root ph.pVaddr (fun i => image (ph.pOffset + BitVec.ofNat 64 i)) ph.pFilesz =
      { k with phys := (fillLoop root (fun i => image (ph.pOffset + BitVec.ofNat 64 i))
        ph.pFilesz.toNat ⟨physByte k.phys, []⟩ 0 ph.pVaddr ph.pFilesz).words } := rfl
  rw [hrun]
  generalize (fillLoop root (fun i => image (ph.pOffset + BitVec.ofNat 64 i))
    ph.pFilesz.toNat ⟨physByte k.phys, []⟩ 0 ph.pVaddr ph.pFilesz).words = m at hspace hshown hothers
  by_cases hmore : ph.pMemsz ≠ ph.pFilesz
  · have hsub : (ph.pMemsz - ph.pFilesz).toNat = ph.pMemsz.toNat - ph.pFilesz.toNat :=
      BitVec.toNat_sub_of_le hsizes
    have hbase : (ph.pVaddr + ph.pFilesz).toNat = ph.pVaddr.toNat + ph.pFilesz.toNat := by
      rw [BitVec.toNat_add]
      omega
    have hnth : ∀ i, nthByte (ph.pVaddr + ph.pFilesz) i = nthByte ph.pVaddr (ph.pFilesz.toNat + i) := by
      intro i
      rw [nthByte, nthByte, BitVec.ofNat_add, BitVec.ofNat_toNat, BitVec.setWidth_eq,
        BitVec.add_assoc]
    have hrest : MappedRange D (ph.pVaddr + ph.pFilesz) (ph.pMemsz - ph.pFilesz).toNat := by
      refine ⟨fun i hi => ?_, by omega⟩
      rw [hnth]
      exact hrange.mapped _ (by omega)
    obtain ⟨hspace', hshown', hothers'⟩ := hspace.fill (fun _ => 0) hrest
    rw [if_pos hmore]
    refine ⟨_, rfl, hspace', fun i hi => ?_, fun va hva hout => ?_⟩
    · by_cases hlt : i < ph.pFilesz.toNat
      · rw [Phdr.byte, if_pos hlt, ← hshown i hlt]
        apply hothers'
        · rw [toNat_nthByte huser hi]
          omega
        · intro j hj heq
          have hnat := congrArg BitVec.toNat heq
          rw [hnth, toNat_nthByte huser hi, toNat_nthByte huser (by omega)] at hnat
          omega
      · obtain ⟨j, hj⟩ := Nat.exists_eq_add_of_le (Nat.le_of_not_lt hlt)
        rw [Phdr.byte, if_neg hlt, hj, ← hnth]
        exact hshown' j (by omega)
    · refine (hothers' va hva fun j hj => ?_).trans
        (hothers va hva fun j hj => hout j (by omega))
      rw [hnth]
      exact hout _ (by omega)
  · rw [if_neg hmore]
    have heq := congrArg BitVec.toNat (not_not.mp hmore)
    refine ⟨_, rfl, hspace, fun i hi => ?_, fun va hva hout => ?_⟩
    · rw [Phdr.byte, if_pos (by omega)]
      exact hshown i (by omega)
    · exact hothers va hva fun j hj => hout j (by omega)

/-- What loading segments on the pages `ns` does: `D'` maps them beside `D`, and all that was mapped
    shows what it has shown. -/
structure Loads (root : Word) (ns : List Nat) (k k' : Kmem) (D D' : PageMap) : Prop where
  others : ∀ n ∉ ns, D' n = D n
  seen : ∀ va, va.toNat < 2 ^ 47 → D (pageNumber va) ≠ none →
    seen k'.phys root va = seen k.phys root va

/-- **One segment** -/
theorem AddressSpace.loadSegment (h : AddressSpace k₀ cur L₀ R root k L D) (image : ElfImage)
    {ph : Phdr} (hload : ph.pType = ptLoad) (hsizes : ph.pFilesz.toNat ≤ ph.pMemsz.toNat)
    (huser : ph.pVaddr.toNat + ph.pMemsz.toNat ≤ 2 ^ 47) (hnew : ∀ n ∈ ph.pages, D n = none)
    (henough : 4 * ph.pages.length ≤ L.length) {fuel : Nat} (hfuel : 2 ^ 35 < fuel) :
    ∃ k' L' D', Refk.loadSegment fuel root image k ph = some k' ∧
      AddressSpace k₀ cur L₀ R root k' L' D' ∧ L.length ≤ L'.length + 4 * ph.pages.length ∧
      Loads root ph.pages k k' D D' ∧
      (∀ n ∈ ph.pages, ∃ e, D' n = some e ∧ e &&& kmemFlagMask = ph.mapFlags) ∧
      ∀ i < ph.pMemsz.toNat, Refk.seen k'.phys root (nthByte ph.pVaddr i) =
        some (ph.byte image i) := by
  obtain ⟨L₁, D₁, hspace₁, hlength, hmaps₁, hkept₁⟩ := h.mapAll ph.pages List.nodup_range'
    (fun n hn => ⟨lt_of_mem_pages huser hn, hnew n hn⟩) henough
  have hmapped : ∀ n ∈ ph.pages, D₁ n ≠ none := by
    intro n hn
    obtain ⟨e, he, -⟩ := hmaps₁.mapped n hn
    rw [he]
    exact Option.some_ne_none e
  have hrange : MappedRange D₁ ph.pVaddr ph.pMemsz.toNat :=
    ⟨fun i hi => hmapped _ (mem_pages huser hi), huser⟩
  obtain ⟨k₂, hfilled, hspace₂, hshown, hothers⟩ := hspace₁.fillSegment image hsizes hrange
  have hsame₁ := hmaps₁.sameFrames hnew
  -- what was mapped is not in the segment
  have hseen : ∀ va, va.toNat < 2 ^ 47 → D (pageNumber va) ≠ none →
      seen k₂.phys root va = seen k.phys root va := by
    intro va hva hn
    rw [hothers va hva ?_, h.seen_eq hspace₁ hsame₁ hkept₁ hn]
    rintro i hi rfl
    exact hn (hnew _ (mem_pages huser hi))
  have hrun : Refk.loadSegment fuel root image k ph =
      if ph.IsCode then some (ph.pages.foldl
        (fun k n => kmemSetFlags k root (pageAddr n) kmemMapCode) k₂) else some k₂ := by
    rw [Refk.loadSegment, if_neg (not_not.mpr hload)]
    simp only [segment_pages huser hfuel, Option.bind_eq_bind, Option.bind_some, hfilled]
  rw [hrun]
  by_cases hcode : ph.IsCode
  · obtain ⟨D', hspace', hmaps', hsame', hkept'⟩ := hspace₂.setAllFlags ph.pages hmapped
    rw [if_pos hcode]
    refine ⟨_, L₁, D', rfl, hspace', hlength, ⟨fun n hn => ?_, fun va hva hn => ?_⟩, ?_, ?_⟩
    · rw [hmaps'.others n hn, hmaps₁.others n hn]
    · obtain ⟨e, he⟩ := Option.ne_none_iff_exists'.mp hn
      obtain ⟨e', he', -⟩ := hsame₁ _ e he
      rw [hspace₂.seen_eq hspace' hsame' hkept' (by rw [he']; exact Option.some_ne_none e'),
        hseen va hva hn]
    · rw [Phdr.mapFlags, if_pos hcode]
      exact hmaps'.mapped
    · intro i hi
      rw [hspace₂.seen_eq hspace' hsame' hkept' (hmapped _ (mem_pages huser hi)), hshown i hi]
  · rw [if_neg hcode]
    refine ⟨_, L₁, D₁, rfl, hspace₂, hlength, ⟨hmaps₁.others, hseen⟩, ?_, hshown⟩
    rw [Phdr.mapFlags, if_neg hcode]
    exact hmaps₁.mapped

/-! ## All segments -/

/-- The pages of some segments. -/
def segmentPages (phs : List Phdr) : List Nat := phs.flatMap Phdr.pages

/-- **The loop over the program headers** -/
theorem AddressSpace.loadAll (image : ElfImage) {fuel : Nat} (hfuel : 2 ^ 35 < fuel)
    (phs : List Phdr) : ∀ {k : Kmem} {L : List Word} {D : PageMap},
    AddressSpace k₀ cur L₀ R root k L D →
    (∀ ph ∈ phs, ph.pType = ptLoad → ph.pFilesz.toNat ≤ ph.pMemsz.toNat ∧
      ph.pVaddr.toNat + ph.pMemsz.toNat ≤ 2 ^ 47) →
    (segmentPages (phs.filter fun ph => ph.pType = ptLoad)).Nodup →
    (∀ n ∈ segmentPages (phs.filter fun ph => ph.pType = ptLoad), D n = none) →
    4 * (segmentPages (phs.filter fun ph => ph.pType = ptLoad)).length ≤ L.length →
    ∃ k' L' D', phs.foldlM (Refk.loadSegment fuel root image) k = some k' ∧
      AddressSpace k₀ cur L₀ R root k' L' D' ∧
      Loads root (segmentPages (phs.filter fun ph => ph.pType = ptLoad)) k k' D D' ∧
      ∀ ph ∈ phs, ph.pType = ptLoad →
        (∀ n ∈ ph.pages, ∃ e, D' n = some e ∧ e &&& kmemFlagMask = ph.mapFlags) ∧
        ∀ i < ph.pMemsz.toNat, Refk.seen k'.phys root (nthByte ph.pVaddr i) =
          some (ph.byte image i) := by
  induction phs with
  | nil =>
    intro k L D h _ _ _ _
    refine ⟨k, L, D, rfl, h, ⟨fun n _ => rfl, fun va _ _ => rfl⟩, ?_⟩
    intro ph hph
    cases hph
  | cons ph phs ih =>
    intro k L D h hgood hnd hnew henough
    have hgood' : ∀ ph' ∈ phs, _ := fun ph' hph' => hgood ph' (List.mem_cons_of_mem ph hph')
    by_cases hload : ph.pType = ptLoad
    · have hfilter : (ph :: phs).filter (fun ph => ph.pType = ptLoad) =
          ph :: phs.filter fun ph => ph.pType = ptLoad := by
        rw [List.filter_cons_of_pos (by simpa using hload)]
      rw [hfilter, segmentPages, List.flatMap_cons, ← segmentPages] at hnd hnew henough ⊢
      obtain ⟨-, hnd', hapart⟩ := List.nodup_append.mp hnd
      rw [List.length_append] at henough
      obtain ⟨hsizes, huser⟩ := hgood ph List.mem_cons_self hload
      obtain ⟨k₁, L₁, D₁, hrun, hspace, hlength, hloads, hmapped, hshown⟩ := h.loadSegment image
        hload hsizes huser (fun n hn => hnew n (List.mem_append_left _ hn)) (by omega) hfuel
      obtain ⟨k', L', D', hrun', hspace', hloads', hall⟩ := ih hspace hgood' hnd'
        (fun n hn => by
          rw [hloads.others n fun hmem => hapart n hmem n hn rfl]
          exact hnew n (List.mem_append_right _ hn)) (by omega)
      have hkeep : ∀ n ∈ ph.pages, D' n = D₁ n := fun n hn =>
        hloads'.others n fun hmem => hapart n hn n hmem rfl
      refine ⟨k', L', D', ?_, hspace', ⟨fun n hn => ?_, fun va hva hn => ?_⟩, ?_⟩
      · rw [List.foldlM_cons, hrun]
        exact hrun'
      · rw [List.mem_append, not_or] at hn
        rw [hloads'.others n hn.2, hloads.others n hn.1]
      · have hnot : pageNumber va ∉ ph.pages := fun hmem =>
          hn (hnew _ (List.mem_append_left _ hmem))
        rw [hloads'.seen va hva (by rwa [hloads.others _ hnot]), hloads.seen va hva hn]
      · intro ph' hph' hload'
        rcases List.mem_cons.mp hph' with rfl | hmem
        · refine ⟨fun n hn => ?_, fun i hi => ?_⟩
          · rw [hkeep n hn]
            exact hmapped n hn
          · rw [← hshown i hi]
            apply hloads'.seen
            · rw [toNat_nthByte huser hi]
              omega
            · obtain ⟨e, he, -⟩ := hmapped _ (mem_pages huser hi)
              rw [he]
              exact Option.some_ne_none e
        · exact hall ph' hmem hload'
    · have hfilter : (ph :: phs).filter (fun ph => ph.pType = ptLoad) =
          phs.filter fun ph => ph.pType = ptLoad := by
        rw [List.filter_cons_of_neg (by simpa using hload)]
      rw [hfilter] at hnd hnew henough ⊢
      obtain ⟨k', L', D', hrun', hspace', hloads', hall⟩ := ih h hgood' hnd hnew henough
      refine ⟨k', L', D', ?_, hspace', hloads', fun ph' hph' hload' => ?_⟩
      · rw [List.foldlM_cons, Refk.loadSegment, if_pos hload]
        exact hrun'
      · rcases List.mem_cons.mp hph' with rfl | hmem
        · exact absurd hload' hload
        · exact hall ph' hmem hload'

/-! ## The new root -/

/-- A word of a page is an entry. -/
theorem exists_cell {a : Word} (ha : a &&& 7 = 0) : ∃ va, a = cell (pageOf a) va 0 := by
  have hpage : (pageOf a).toNat = a.toNat / 0x1000 * 0x1000 := toNat_and_pageMask a
  have hal : a.toNat % 8 = 0 := (toNat_and_seven a).symm.trans (congrArg BitVec.toNat ha)
  obtain ⟨va, hva⟩ := exists_pagingIndex (i := a.toNat % 0x1000 / 8) (by omega) 0
  have hidx : (pagingIndex va 0).toNat = a.toNat % 0x1000 / 8 := by
    rw [hva, BitVec.toNat_ofNat]
    omega
  refine ⟨va, BitVec.eq_of_toNat_eq ?_⟩
  rw [toNat_cell (show PageAligned (pageOf a) from pageAligned_and a), hidx, hpage]
  omega

/-- **`kmem_create_root`** starts an address space. -/
theorem Isolated.newSpace (h : Isolated k R L) (hcur : cur ∈ R) (henough : 5 ≤ L.length) :
    ∃ rest, L.length = rest.length + 5 ∧ (kmemCreateRoot cur k).2 ∈ L ∧
      AddressSpace k cur L (insert (kmemCreateRoot cur k).2 R) (kmemCreateRoot cur k).2
        (kmemCreateRoot cur k).1 rest (fun _ => none) := by
  have hc := h.current hcur henough
  obtain ⟨⟨rest, hlength, hisolated⟩, -⟩ := h.createRoot hcur henough
  obtain ⟨hmem, hshares, -⟩ := create_root_shares hc
  obtain ⟨ret, p₁, p₂, p₃, p₄, rest', hL, hret, f, hpages⟩ := hc.fresh
  obtain rfl := Chain.unique hpages hisolated.free.pages
  rw [hret] at hmem hshares hisolated ⊢
  generalize (kmemCreateRoot cur k).1 = k' at *
  have hfive : [ret, p₁, p₂, p₃, p₄] ⊆ L := by
    rw [hL]
    exact List.subset_append_left [ret, p₁, p₂, p₃, p₄] rest'
  refine ⟨rest', hlength, hmem, hisolated, .inl rfl, ?_, ?_, fun va hva => ?_, ?_, ?_, ?_, ?_,
    fun va hva => ?_, fun a ha hpage => ?_⟩
  · rw [hL]
    exact List.subset_append_right [ret, p₁, p₂, p₃, p₄] rest'
  · rintro t ⟨va, hva, d, ht⟩
    exact hfive ((hc.newTable f (hfive (by simp)) (hfive (by simp)) (hfive (by simp))
      (hfive (by simp)) ht).own hva)
  · rw [mapping, hshares.only va hva.1 hva.2]
    rfl
  · intro n e hn
    cases hn
  · intro n n' e e' hn
    cases hn
  · intro n e hn
    cases hn
  · intro n e hn
    cases hn
  · by_cases hslot : pagingIndex va 0 = 384
    · rw [mapping, hshares.slot va hslot, mapping]
    · exact hshares.window va (not_not.mp fun hwindow => hva ⟨hslot, hwindow⟩)
  · obtain ⟨va, hcell⟩ := exists_cell ha
    rw [hcell]
    exact f.intact _ va 0 (pageAligned_and a) hpage

/-! ## The whole image -/

/-- What `task_load_elf` leaves, beside the task's registers. -/
structure ElfLoaded (image : ElfImage) (stackSize cur root : Word) (R : Set Word) (L L' : List Word)
    (k k' : Kmem) : Prop where
  fresh : root ∈ L ∧ root ∉ R
  isolated : Isolated k' (insert root R) L'
  /-- The segments show their bytes. -/
  bytes : ∀ ph ∈ image.loads, ∀ i < ph.pMemsz.toNat,
    seen k'.phys root (nthByte ph.pVaddr i) = some (ph.byte image i)
  /-- Every page has its rights. -/
  pages : ∀ va flags, (pageNumber va, flags) ∈ elfPages image stackSize →
    ∃ e, mapping k'.phys root va = some e ∧ e &&& kmemFlagMask = flags
  /-- There are no others. -/
  only : ∀ va ∈ privateAddresses, pageNumber va ∉ (elfPages image stackSize).map Prod.fst →
    mapping k'.phys root va = none
  /-- The frames were free, and are not shared. -/
  frames : ∀ va ∈ privateAddresses, ∀ e, mapping k'.phys root va = some e →
    e &&& kmemFrameMask ∈ L ∧ e &&& kmemFrameMask ∉ L' ∧
      NoTable k'.phys (insert root R) (e &&& kmemFrameMask) ∧
      ∀ va' ∈ privateAddresses, ∀ e', mapping k'.phys root va' = some e' →
        e &&& kmemFrameMask = e' &&& kmemFrameMask → pageNumber va = pageNumber va'
  shared : ∀ va ∉ privateAddresses, mapping k'.phys root va = mapping k.phys cur va
  others : ∀ r ∈ R, ∀ va, translate k'.phys r va = translate k.phys r va
  memory : ∀ a, a &&& 7 = 0 → pageOf a ∉ L → k'.phys a = k.phys a

/-- The task afterwards: it starts at the entry, on the stack, under the new root. -/
def loadedTask (ts : TaskState) (root entry : Word) : TaskState :=
  Function.update (Function.update (Function.update (Function.update ts TaskState.cr3 root)
    TaskState.rsp defaultTaskStackTop) TaskState.rip entry) TaskState.state taskStateValid

theorem stack_rounded {stackSize : Word} (h : stackSize.toNat ≤ 0x80000000) :
    (stackSize + 0xfff) &&& pageMask = pageAddr ((stackSize.toNat + 0xfff) / 0x1000) := by
  have hadd : (stackSize + 0xfff).toNat = stackSize.toNat + 0xfff := by
    rw [BitVec.toNat_add, show (0xfff : Word).toNat = 0xfff from rfl]
    omega
  apply BitVec.eq_of_toNat_eq
  rw [toNat_and_pageMask, hadd, pageAddr, BitVec.toNat_ofNat]
  omega

theorem elfPages_fst (image : ElfImage) (stackSize : Word) :
    (elfPages image stackSize).map Prod.fst = stackPages stackSize ++ segmentPages image.loads := by
  rw [elfPages, List.map_append, List.map_map, List.map_flatMap, segmentPages]
  congr 1
  · exact List.map_id _
  · congr 1
    funext ph
    rw [List.map_map]
    exact List.map_id _

theorem lt_of_mem_stackPages {stackSize : Word} {n : Nat} (hn : n ∈ stackPages stackSize) :
    n < 0x80000 := by
  obtain ⟨i, -, rfl⟩ := List.mem_map.mp hn
  omega

/-- What the address space is in the end. -/
theorem AddressSpace.elfLoaded {image : ElfImage} {stackSize : Word} (h : Isolated k R L)
    (hmem : root ∈ L) (hspace : AddressSpace k cur L (insert root R) root k' L' D)
    (hpages : ∀ n flags, (n, flags) ∈ elfPages image stackSize →
      ∃ e, D n = some e ∧ e &&& kmemFlagMask = flags)
    (honly : ∀ n ∉ (elfPages image stackSize).map Prod.fst, D n = none)
    (hbytes : ∀ ph ∈ image.loads, ∀ i < ph.pMemsz.toNat,
      Refk.seen k'.phys root (nthByte ph.pVaddr i) = some (ph.byte image i)) :
    ElfLoaded image stackSize cur root R L L' k k' where
  fresh := ⟨hmem, fun hR => h.free.unused root hmem root hR 0 0 rfl⟩
  isolated := hspace.isolated
  bytes := hbytes
  pages := by
    intro va flags hva
    obtain ⟨e, he, hflags⟩ := hpages _ flags hva
    exact ⟨e, (hspace.mapped va (private_of_user (hspace.user _ e he))).trans he, hflags⟩
  only := by
    intro va hva hnot
    rw [hspace.mapped va hva, honly _ hnot]
  frames := by
    intro va hva e he
    rw [hspace.mapped va hva] at he
    obtain ⟨hgiven, htaken⟩ := hspace.frames _ e he
    refine ⟨hgiven, htaken, hspace.apart _ e he, fun va' hva' e' he' heq => ?_⟩
    rw [hspace.mapped va' hva'] at he'
    exact hspace.distinct _ _ e e' he he' heq
  shared := hspace.shared
  others := by
    intro r hr va
    apply (translate_of_agree fun d t ht => ?_).2
    have htal := tableAt_aligned (h.root_aligned hr) ht
    apply hspace.memory _ (cell_and_seven htal)
    rw [pageOf_cell htal]
    exact fun hL => h.free.unused t hL r hr va d ht
  memory := hspace.memory

/-- **`task_load_elf`** gives a loadable image an address space of its own. -/
theorem task_load_elf_loads {tasks : TaskTable} {ts fuel : Nat} {image : ElfImage}
    {stackSize : Word} (h : Isolated k R L) (hcur : cur ∈ R) (hload : Loadable image stackSize)
    (henough : 5 + 4 * (elfPages image stackSize).length ≤ L.length) (hfuel : 2 ^ 35 < fuel) :
    ∃ k' L' root, taskLoadElf fuel cur k tasks ts image stackSize =
        some (k', Function.update tasks ts (loadedTask (tasks ts) root image.entry)) ∧
      ElfLoaded image stackSize cur root R L L' k k' := by
  have hfst := elfPages_fst image stackSize
  have hcount := congrArg List.length hfst
  rw [List.length_map, List.length_append] at hcount
  have hnd := hload.apart
  rw [hfst] at hnd
  obtain ⟨hndStack, hndSegments, hapart⟩ := List.nodup_append.mp hnd
  obtain ⟨rest, hlength, hmem, hspace⟩ := h.newSpace hcur (by omega)
  -- the stack
  obtain ⟨L₁, D₁, hspace₁, hlength₁, hmaps, -⟩ := hspace.mapAll (stackPages stackSize) hndStack
    (fun n hn => ⟨by have := lt_of_mem_stackPages hn; omega, rfl⟩) (by omega)
  have hstack := hload.stack
  have hstackRun : mapStack (kmemCreateRoot cur k).2 fuel (kmemCreateRoot cur k).1
      defaultTaskStackTop ((stackSize + 0xfff) &&& pageMask) =
      some ((stackPages stackSize).foldl (fun k' n =>
        Refk.mapFresh (kmemCreateRoot cur k).2 k' (pageAddr n)) (kmemCreateRoot cur k).1) := by
    rw [stack_rounded hstack, show defaultTaskStackTop = pageAddr 0x80000 from rfl]
    exact mapStack_eq _ fuel _ 0x80000 _ (by omega) le_rfl (by omega)
  have hstackPages : ∀ n ∈ stackPages stackSize, n ∉ segmentPages image.loads :=
    fun n hn hn' => hapart n hn n hn' rfl
  -- the segments
  obtain ⟨k', L', D', hrun, hspace', hloads, hall⟩ := hspace₁.loadAll image hfuel image.phdrs
    (fun ph hph htype => by
      have hmem' : ph ∈ image.loads := List.mem_filter.mpr ⟨hph, by simpa using htype⟩
      exact ⟨hload.sizes ph hmem', hload.user ph hmem'⟩)
    hndSegments
    (fun n hn => by
      rw [hmaps.others n fun hn' => hstackPages n hn' hn])
    (by
      change 4 * (segmentPages image.loads).length ≤ _
      omega)
  have hmemLoads : ∀ ph, ph ∈ image.loads → ph ∈ image.phdrs ∧ ph.pType = ptLoad := by
    intro ph hph
    obtain ⟨hmem', htype⟩ := List.mem_filter.mp hph
    exact ⟨hmem', by simpa using htype⟩
  refine ⟨k', L', (kmemCreateRoot cur k).2, ?_, hspace'.elfLoaded h hmem ?_ ?_ ?_⟩
  · rw [ElfImage.phdrs, List.foldlM_map] at hrun
    rw [taskLoadElf]
    simp only [hstackRun, Option.bind_eq_bind, Option.bind_some, hrun]
    simp [TaskTable.set, loadedTask]
  · intro n flags hn
    rw [elfPages, List.mem_append] at hn
    rcases hn with hn | hn
    · obtain ⟨n', hn', heq⟩ := List.mem_map.mp hn
      obtain ⟨rfl, rfl⟩ := Prod.mk.inj heq
      rw [hloads.others n' (hstackPages n' hn')]
      exact hmaps.mapped n' hn'
    · obtain ⟨ph, hph, hmap⟩ := List.mem_flatMap.mp hn
      obtain ⟨n', hn', heq⟩ := List.mem_map.mp hmap
      obtain ⟨rfl, rfl⟩ := Prod.mk.inj heq
      obtain ⟨hmem', htype⟩ := hmemLoads ph hph
      exact (hall ph hmem' htype).1 n' hn'
  · intro n hn
    rw [hfst, List.mem_append, not_or] at hn
    rw [hloads.others n hn.2, hmaps.others n hn.1]
  · intro ph hph
    obtain ⟨hmem', htype⟩ := hmemLoads ph hph
    exact (hall ph hmem' htype).2

end

/-- An image of two segments: three bytes of code at `0x400000`, and at `0x600ffe` four bytes of data,
    one of them from the file. -/
def twoSegments : ElfImage := fun off =>
  ([(26, 0x40), (32, 64), (56, 2),
    (64, 1), (68, 5), (72, 0xb0), (82, 0x40), (96, 3), (104, 3),
    (120, 1), (124, 6), (128, 0xb3), (136, 0xfe), (137, 0x0f), (138, 0x60), (152, 1), (160, 4),
    (0xb0, 0x90), (0xb1, 0x90), (0xb2, 0xf4), (0xb3, 7)].lookup off).getD 0

theorem twoSegments_loadable : Loadable twoSegments 0x1000 where
  stack := by decide
  sizes := by decide +kernel
  user := by decide +kernel
  apart := by decide +kernel

/-- Pages for four pages and their tables, beside those of `windowKmem`. -/
def sixteenPages : List Word := (List.range 16).map fun i => 0x100000 + pageAddr i

theorem mem_sixteenPages {p : Word} (hp : p ∈ sixteenPages) :
    IsFrame p ∧ p.toNat / 0x100000 = 1 := by
  obtain ⟨i, hi, rfl⟩ := List.mem_map.mp hp
  have hlt := List.mem_range.mp hi
  have hnat : (0x100000 + pageAddr i).toNat = 0x100000 + i * 0x1000 := by
    rw [BitVec.toNat_add, pageAddr, BitVec.toNat_ofNat, show (0x100000 : Word).toNat = 0x100000 from rfl]
    omega
  refine ⟨isFrame_of_lt ?_ (by omega), by omega⟩
  rw [PageAligned, hnat]
  omega

theorem sixteenPages_isolated : Isolated (sixteenPages.foldl kmemUnuse windowKmem) {0x10000}
    (sixteenPages.reverse ++ [0x30000, 0x31000, 0x32000, 0x33000, 0x34000]) := by
  have hlow : ∀ e ∈ windowTables, e.2.2.2.toNat / 0x100000 ≠ 1 := by decide
  refine (windowKmem_isolated.unuseAll (l := sixteenPages) (fun p hp => ?_) (by decide +kernel)).1
  obtain ⟨hframe, hmega⟩ := mem_sixteenPages hp
  have hne : ∀ q : Word, q.toNat / 0x100000 ≠ 1 → p ≠ q := by
    rintro q hq rfl
    exact hq hmega
  refine ⟨hframe, hne 0 (by decide), ?_, fun r hr va d ht => ?_⟩
  · simp only [List.mem_cons, List.not_mem_nil, or_false, not_or]
    exact ⟨hne _ (by decide), hne _ (by decide), hne _ (by decide), hne _ (by decide),
      hne _ (by decide)⟩
  · obtain rfl : r = 0x10000 := hr
    cases d with
    | zero => exact hne _ (by decide) (Option.some.inj ht).symm
    | succ d =>
      obtain ⟨t, ht₀, hpres, -, htarget⟩ := tableAt_succ_iff.mp ht
      obtain ⟨-, e, he, -, -, htarget'⟩ := windowKmem_entry
        (tableAt_aligned windowKmem_current.root_aligned ht₀) hpres
      exact hne _ (hlow e he) (htarget.symm.trans htarget')

/-- The first task, with one page of stack. -/
theorem task_load_elf_loads_of_twoSegments : ∃ k' L' root,
    taskLoadElf (2 ^ 35 + 1) 0x10000 (sixteenPages.foldl kmemUnuse windowKmem) (fun _ _ => 0) 1
        twoSegments 0x1000 =
      some (k', Function.update (fun _ _ => 0) 1 (loadedTask (fun _ => 0) root twoSegments.entry)) ∧
    ElfLoaded twoSegments 0x1000 0x10000 root {0x10000}
      (sixteenPages.reverse ++ [0x30000, 0x31000, 0x32000, 0x33000, 0x34000]) L'
      (sixteenPages.foldl kmemUnuse windowKmem) k' :=
  task_load_elf_loads sixteenPages_isolated rfl twoSegments_loadable (by decide +kernel) (by decide)

end Refk
