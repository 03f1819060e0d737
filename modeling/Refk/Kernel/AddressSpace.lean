import Refk.Klib.Elf
import Refk.Scheduler.MmanCreate
import Refk.Scheduler.MmanIsolation

/-!
# An address space under construction

Between `kmem_create_root` and the first run of a task, the kernel maps pages into the new root,
fills them, and changes their flags. `AddressSpace` says what the root maps by then, as a function
from page numbers to entries, and that it is built of nothing but pages of the free list. Each of
the four operations is one change of that function, or of the bytes behind it.
-/

namespace Refk

open Lib

/-- What a root maps in its user half: the entries, by page number. -/
abbrev PageMap := Nat → Option Word

/-- The byte that `va` shows through a root. -/
def seen (m : Phys) (root va : Word) : Option Byte := (location m root va).map (physByte m)

/-- The page is no table of a root. -/
def NoTable (m : Phys) (R : Set Word) (p : Word) : Prop :=
  ∀ r ∈ R, ∀ va d, tableAt m r va d ≠ some p

/-- The root `root`, made in the state `k₀` under `cur` of pages of its free list `L₀`, maps the
    user pages `D`, on frames of their own, and what all roots share. -/
structure AddressSpace (k₀ : Kmem) (cur : Word) (L₀ : List Word) (R : Set Word) (root : Word)
    (k : Kmem) (L : List Word) (D : PageMap) : Prop where
  isolated : Isolated k R L
  root_mem : root ∈ R
  rest : L ⊆ L₀
  own : ∀ t, OwnTable k.phys root t → t ∈ L₀
  mapped : ∀ va ∈ privateAddresses, mapping k.phys root va = D (pageNumber va)
  user : ∀ n e, D n = some e → n < 2 ^ 35
  distinct : ∀ n n' e e', D n = some e → D n' = some e' →
    e &&& kmemFrameMask = e' &&& kmemFrameMask → n = n'
  frames : ∀ n e, D n = some e → e &&& kmemFrameMask ∈ L₀ ∧ e &&& kmemFrameMask ∉ L
  apart : ∀ n e, D n = some e → NoTable k.phys R (e &&& kmemFrameMask)
  shared : ∀ va ∉ privateAddresses, mapping k.phys root va = mapping k₀.phys cur va
  memory : ∀ a, a &&& 7 = 0 → pageOf a ∉ L₀ → k.phys a = k₀.phys a

/-- What is mapped has kept its contents. -/
def KeepsPages (D : PageMap) (m m' : Phys) : Prop :=
  ∀ n e, D n = some e → ∀ a, a &&& 7 = 0 → pageOf a = e &&& kmemFrameMask → m' a = m a

theorem KeepsPages.refl (D : PageMap) (m : Phys) : KeepsPages D m m := fun _ _ _ _ _ _ => rfl

theorem KeepsPages.trans {D : PageMap} {m m₁ m₂ : Phys} (h : KeepsPages D m m₁)
    (h' : KeepsPages D m₁ m₂) : KeepsPages D m m₂ := by
  intro n e hn a ha hpage
  rw [h' n e hn a ha hpage, h n e hn a ha hpage]

/-! ## User addresses -/

/-- A page of the user half is private. -/
theorem private_of_user {va : Word} (h : pageNumber va < 2 ^ 35) : va ∈ privateAddresses := by
  have hidx : (pagingIndex va 0).toNat = va.toNat / 2 ^ 39 % 512 := toNat_pagingIndex va 0
  have hlow : (pagingIndex va 0).toNat < 256 := by
    unfold pageNumber at h
    omega
  constructor
  · intro hslot
    rw [hslot] at hlow
    revert hlow
    decide
  · rintro ⟨w, hw, hpre⟩
    have hhigh : 288 ≤ (pagingIndex w 0).toNat := by
      simp only [windows, List.mem_cons, List.not_mem_nil, or_false] at hw
      rcases hw with rfl | rfl | rfl | rfl
      · decide
      · decide
      · decide
      · decide
    rw [← hpre 0 (by omega)] at hhigh
    omega

section
variable {k₀ k k' : Kmem} {cur root va p t e : Word} {L₀ L L' : List Word} {R : Set Word}
  {D : PageMap} {m' : Phys} {d n : Nat}

theorem AddressSpace.root_aligned (h : AddressSpace k₀ cur L₀ R root k L D) : PageAligned root :=
  h.isolated.root_aligned h.root_mem

theorem AddressSpace.tables (h : AddressSpace k₀ cur L₀ R root k L D) :
    Tables k.phys R root privateAddresses := h.isolated.tables root h.root_mem

/-! ## Creating tables -/

/-- A table that is linked in. -/
theorem AddressSpace.link (h : AddressSpace k₀ cur L₀ R root k (p :: L) D)
    (hva : va ∈ privateAddresses) (hd : d < 3) (ht : tableAt k.phys root va d = some t)
    (habs : ¬ Present (k.phys (cell t va d))) :
    AddressSpace k₀ cur L₀ R root (k.newTable (cell t va d)).1 L D ∧
      KeepsPages D k.phys (k.newTable (cell t va d)).1.phys ∧
      (∀ q, q ≠ p → NoTable k.phys R q → NoTable (k.newTable (cell t va d)).1.phys R q) ∧
      tableAt (k.newTable (cell t va d)).1.phys root va (d + 1) = some p := by
  have hcases : ∀ r ∈ R, ∀ va' d' t', tableAt (k.newTable (cell t va d)).1.phys r va' d' = some t' →
      (r = root ∧ d' = d + 1 ∧ SamePrefix (d + 1) va' va ∧ t' = p) ∨
        tableAt k.phys r va' d' = some t' :=
    fun r hr va' d' t' ht' => link_cases h.tables h.isolated.free hva hd ht habs hr ht'
  obtain ⟨hlinked, halone, hnew⟩ := h.isolated.link (V := ∅) h.root_mem hva hd ht habs
  have hpL : p ∈ L₀ := h.rest List.mem_cons_self
  have htranslate : ∀ va', translate (k.newTable (cell t va d)).1.phys root va' =
      translate k.phys root va' :=
    fun va' => halone.translate root h.root_mem va' fun _ va'' hva'' => absurd hva'' (by simp)
  have hmapping : ∀ va', mapping (k.newTable (cell t va d)).1.phys root va' =
      mapping k.phys root va' := by
    intro va'
    rw [mapping, mapping, htranslate]
  have hown : ∀ t', OwnTable (k.newTable (cell t va d)).1.phys root t' → t' ∈ L₀ := by
    intro t' hown
    obtain ⟨va', hva', d', ht'⟩ := hown
    rcases hcases root h.root_mem va' d' t' ht' with ⟨-, -, -, rfl⟩ | hold
    · exact hpL
    · exact h.own t' ⟨va', hva', d', hold⟩
  have hno : ∀ q, q ≠ p → NoTable k.phys R q → NoTable (k.newTable (cell t va d)).1.phys R q := by
    intro q hq hold r hr va' d' ht'
    rcases hcases r hr va' d' q ht' with ⟨-, -, -, heq⟩ | ht''
    · exact hq heq
    · exact hold r hr va' d' ht''
  have hapart : ∀ n e, D n = some e →
      NoTable (k.newTable (cell t va d)).1.phys R (e &&& kmemFrameMask) := by
    intro n e hn
    exact hno _ (fun heq => (h.frames n e hn).2 (heq ▸ List.mem_cons_self)) (h.apart n e hn)
  refine ⟨⟨hlinked, h.root_mem, ?_, hown, ?_, h.user, h.distinct, ?_, hapart, ?_, ?_⟩, ?_, hno, hnew⟩
  · exact fun q hq => h.rest (List.mem_cons_of_mem p hq)
  · intro va' hva'
    rw [hmapping]
    exact h.mapped va' hva'
  · intro n e hn
    obtain ⟨hmem, hnot⟩ := h.frames n e hn
    exact ⟨hmem, fun hL => hnot (List.mem_cons_of_mem p hL)⟩
  · intro va' hva'
    rw [hmapping]
    exact h.shared va' hva'
  · intro a ha hpage
    rw [halone.memory a (fun ho => hpage (hown _ ho)) (iff_of_false ?_ ?_)]
    · exact h.memory a ha hpage
    · exact fun hL => hpage (h.rest hL)
    · exact fun hL => hpage (h.rest (List.mem_cons_of_mem p hL))
  · intro n e hn a _ hpage
    obtain ⟨-, hnot⟩ := h.frames n e hn
    apply halone.memory a
    · rintro ⟨va', -, d', ht'⟩
      rw [hpage] at ht'
      exact hapart n e hn root h.root_mem va' d' ht'
    · rw [hpage]
      exact iff_of_false hnot fun hL => hnot (List.mem_cons_of_mem p hL)

theorem kmemPagingAddrCreate_taken_le (k : Kmem) (root va : Word) (level : Nat) :
    (kmemPagingAddrCreate k root va level).1.taken ≤ k.taken + level := by
  have hcreate := kmemPagingAddrCreate_kmem { windowMman with kmem := k } root va level
  have hle := @create_taken_le { windowMman with kmem := k } root va level
  rw [hcreate]
  exact hle

/-- **`kmem_paging_addr_create`** changes no mapping. -/
theorem AddressSpace.create (h : AddressSpace k₀ cur L₀ R root k L D)
    (hva : va ∈ privateAddresses) (hthree : 3 ≤ L.length) : ∃ k' t L',
      kmemPagingAddrCreate k root va 3 = (k', cell t va 3) ∧
      tableAt k'.phys root va 3 = some t ∧ L' ⊆ L ∧ L.length ≤ L'.length + 3 ∧
      AddressSpace k₀ cur L₀ R root k' L' D ∧ KeepsPages D k.phys k'.phys ∧
      ∀ q ∉ L, NoTable k.phys R q → NoTable k'.phys R q := by
  obtain ⟨⟨hle, hspace, hkept, hno⟩, haddr⟩ := pagingAddrCreate_rule Kmem.phys
    (fun k pa => (k.newTable pa).1) root va 3
    (fun k' => k.taken ≤ k'.taken ∧
      AddressSpace k₀ cur L₀ R root k' (L.drop (k'.taken - k.taken)) D ∧
      KeepsPages D k.phys k'.phys ∧ ∀ q ∉ L, NoTable k.phys R q → NoTable k'.phys R q)
    (fun k' => k'.taken ≤ k.taken + 3)
    ⟨le_rfl, by rwa [Nat.sub_self, List.drop_zero], KeepsPages.refl D k.phys, fun _ _ hq => hq⟩
    (fun k' _ hgood => (Nat.le_succ k'.taken).trans hgood)
    (by
      rintro k' i pa ⟨hle, hspace, hkept, hno⟩ hi hpa hnext hgood
      have hwalk : ∀ d ≤ 3, kmemPagingAddr k'.phys root va d =
          (tableAt k'.phys root va d).map (cell · va d) := fun d hd =>
        hspace.tables.kmemPagingAddr hva hd
      rw [hwalk i (by omega), Option.map_eq_some_iff] at hpa
      obtain ⟨t, ht, rfl⟩ := hpa
      have habs : ¬ Present (k'.phys (cell t va i)) := by
        intro hpres
        rw [hwalk (i + 1) (by omega), Option.map_eq_none_iff] at hnext
        have hsome := tableAt_succ_iff.mpr
          ⟨t, ht, hpres, hspace.tables.small va hva i hi t ht hpres, rfl⟩
        rw [hnext] at hsome
        cases hsome
      have hroom : k'.taken + 1 ≤ k.taken + 3 := hgood
      have hlt : k'.taken - k.taken < L.length := by omega
      rw [List.drop_eq_getElem_cons hlt] at hspace
      obtain ⟨hspace', hkept', hno', hnew⟩ := hspace.link hva hi ht habs
      refine ⟨⟨?_, ?_, hkept.trans hkept', fun q hq hold => ?_⟩, _, kmemPagingAddr_of_table hnew⟩
      · rw [newTable_taken]
        omega
      · rw [newTable_taken, Nat.sub_add_comm hle]
        exact hspace'
      · exact hno' q (fun heq => hq (heq ▸ List.getElem_mem hlt)) (hno q hq hold))
    (kmemPagingAddrCreate_taken_le k root va 3)
  have hroom := kmemPagingAddrCreate_taken_le k root va 3
  change k.taken ≤ (kmemPagingAddrCreate k root va 3).1.taken at hle
  change AddressSpace k₀ cur L₀ R root (kmemPagingAddrCreate k root va 3).1
    (L.drop ((kmemPagingAddrCreate k root va 3).1.taken - k.taken)) D at hspace
  change KeepsPages D k.phys (kmemPagingAddrCreate k root va 3).1.phys at hkept
  change ∀ q ∉ L, _ → NoTable (kmemPagingAddrCreate k root va 3).1.phys R q at hno
  change _ = some (kmemPagingAddrCreate k root va 3).2 at haddr
  have hwalk := hspace.tables.kmemPagingAddr hva (le_refl 3)
  obtain ⟨t, ht, heq⟩ := Option.map_eq_some_iff.mp (hwalk.symm.trans haddr)
  have hlength : L.length ≤
      (L.drop ((kmemPagingAddrCreate k root va 3).1.taken - k.taken)).length + 3 := by
    rw [List.length_drop]
    omega
  exact ⟨_, t, _, Prod.ext rfl heq.symm, ht, List.drop_subset _ L, hlength, hspace, hkept, hno⟩

/-! ## Entries -/

/-- A page is taken. -/
theorem AddressSpace.getpage (h : AddressSpace k₀ cur L₀ R root k (p :: L) D) :
    AddressSpace k₀ cur L₀ R root (kmemGetpage k).1 L D where
  isolated := h.isolated.getpage
  root_mem := h.root_mem
  rest := fun _ hq => h.rest (List.mem_cons_of_mem p hq)
  own := h.own
  mapped := h.mapped
  user := h.user
  distinct := h.distinct
  frames := fun n e hn =>
    ⟨(h.frames n e hn).1, fun hL => (h.frames n e hn).2 (List.mem_cons_of_mem p hL)⟩
  apart := h.apart
  shared := h.shared
  memory := h.memory

/-- A frame for a page of the user half: nobody's so far. -/
structure FrameFor (L₀ L : List Word) (R : Set Word) (m : Phys) (D : PageMap) (n : Nat)
    (frame : Word) : Prop where
  given : frame ∈ L₀
  taken : frame ∉ L
  no_table : NoTable m R frame
  single : ∀ n' e, D n' = some e → n' ≠ n → e &&& kmemFrameMask ≠ frame

/-- **A write to a last-level entry** changes the mapping of one page. -/
theorem AddressSpace.leaf (h : AddressSpace k₀ cur L₀ R root k L D)
    (huser : pageNumber va < 2 ^ 35) (ht : tableAt k.phys root va 3 = some t) (hp : Present e)
    (hframe : FrameFor L₀ L R k.phys D (pageNumber va) (e &&& kmemFrameMask)) :
    AddressSpace k₀ cur L₀ R root
        { k with phys := Function.update k.phys (cell t va 3) e } L
        (Function.update D (pageNumber va) (some e)) ∧
      KeepsPages D k.phys (Function.update k.phys (cell t va 3) e) := by
  have hva := private_of_user huser
  have htal := tableAt_aligned h.root_aligned ht
  obtain ⟨hisolated, halone, htables⟩ := h.isolated.leaf (V := {va}) h.root_mem hva rfl ht e
  have hother : ∀ va', ¬ SamePrefix 4 va' va →
      mapping (Function.update k.phys (cell t va 3) e) root va' = mapping k.phys root va' := by
    intro va' hnot
    rw [mapping, mapping, halone.translate root h.root_mem va' fun _ va'' hva'' => ?_]
    obtain rfl : va'' = va := hva''
    exact hnot
  have hentry : ∀ n' e', Function.update D (pageNumber va) (some e) n' = some e' →
      (n' = pageNumber va ∧ e' = e) ∨ (n' ≠ pageNumber va ∧ D n' = some e') := by
    intro n' e' hn'
    by_cases heq : n' = pageNumber va
    · rw [heq, Function.update_self, Option.some.injEq] at hn'
      exact .inl ⟨heq, hn'.symm⟩
    · rw [Function.update_of_ne heq] at hn'
      exact .inr ⟨heq, hn'⟩
  have hcell : ∀ a, pageOf a ≠ t →
      Function.update k.phys (cell t va 3) e a = k.phys a := by
    intro a hpage
    apply Function.update_of_ne
    rintro rfl
    exact hpage (pageOf_cell htal)
  refine ⟨⟨hisolated, h.root_mem, h.rest, ?_, ?_, ?_, ?_, ?_, ?_, ?_, ?_⟩, ?_⟩
  · rintro t' ⟨va', hva', d', ht'⟩
    rw [htables root h.root_mem] at ht'
    exact h.own t' ⟨va', hva', d', ht'⟩
  · intro va' hva'
    by_cases hsame : SamePrefix 4 va' va
    · have hnum := samePrefix_four_iff.mp hsame
      rw [hnum, Function.update_self, mapping, translate_samePrefix hsame, ← mapping]
      have ht' := (htables root h.root_mem va 3).trans ht
      rw [mapping_of_table ht' (by rwa [Function.update_self]), Function.update_self]
    · rw [hother va' hsame, Function.update_of_ne fun heq => hsame (samePrefix_four_iff.mpr heq)]
      exact h.mapped va' hva'
  · intro n' e' hn'
    rcases hentry n' e' hn' with ⟨rfl, -⟩ | ⟨-, hold⟩
    · exact huser
    · exact h.user n' e' hold
  · intro n₁ n₂ e₁ e₂ h₁ h₂ heq
    rcases hentry n₁ e₁ h₁ with ⟨rfl, rfl⟩ | ⟨hne₁, hold₁⟩
    · rcases hentry n₂ e₂ h₂ with ⟨rfl, -⟩ | ⟨hne₂, hold₂⟩
      · rfl
      · exact absurd heq.symm (hframe.single n₂ e₂ hold₂ hne₂)
    · rcases hentry n₂ e₂ h₂ with ⟨rfl, rfl⟩ | ⟨hne₂, hold₂⟩
      · exact absurd heq (hframe.single n₁ e₁ hold₁ hne₁)
      · exact h.distinct n₁ n₂ e₁ e₂ hold₁ hold₂ heq
  · intro n' e' hn'
    rcases hentry n' e' hn' with ⟨-, rfl⟩ | ⟨-, hold⟩
    · exact ⟨hframe.given, hframe.taken⟩
    · exact h.frames n' e' hold
  · intro n' e' hn' r hr va' d'
    rw [htables r hr]
    rcases hentry n' e' hn' with ⟨-, rfl⟩ | ⟨-, hold⟩
    · exact hframe.no_table r hr va' d'
    · exact h.apart n' e' hold r hr va' d'
  · intro va' hva'
    rw [hother va' (not_samePrefix_of_private hva' hva)]
    exact h.shared va' hva'
  · intro a ha hpage
    have hne : pageOf a ≠ t := fun heq => hpage (heq ▸ h.own t ⟨va, hva, 3, ht⟩)
    exact (hcell a hne).trans (h.memory a ha hpage)
  · intro n' e' hn' a _ hpage
    apply hcell a
    intro heq
    exact h.apart n' e' hn' root h.root_mem va 3 (ht.trans (congrArg some (heq.symm.trans hpage)))

/-- **`kmem_map` of a fresh page** -/
theorem AddressSpace.mapFresh (h : AddressSpace k₀ cur L₀ R root k L D)
    (huser : pageNumber va < 2 ^ 35) (hfour : 4 ≤ L.length) :
    ∃ e L', e &&& kmemFlagMask = kmemMapData ∧ L.length ≤ L'.length + 4 ∧
      AddressSpace k₀ cur L₀ R root (mapFresh root k va) L'
        (Function.update D (pageNumber va) (some e)) ∧
      KeepsPages D k.phys (mapFresh root k va).phys := by
  cases L with
  | nil => exact absurd hfour (by simp)
  | cons p L =>
    have hpage : (kmemGetpage k).2 = p := h.isolated.free.pages.getpage_eq
    have hp : IsFrame p := h.isolated.free.frames p List.mem_cons_self
    obtain ⟨k', t, L', hcreate, ht, hsub, hlength, hspace, hkept, hno⟩ := h.getpage.create
      (private_of_user huser) (by simpa using hfour)
    have hpL : p ∉ L := (List.nodup_cons.mp h.isolated.free.nodup).1
    have hframe : FrameFor L₀ L' R k'.phys D (pageNumber va)
        ((p ||| kmemMapData) &&& kmemFrameMask) := by
      rw [data_frame hp]
      refine ⟨h.rest List.mem_cons_self, fun hmem => hpL (hsub hmem), ?_, fun n e hn _ heq => ?_⟩
      · exact hno p hpL fun r hr va d => h.isolated.free.unused p List.mem_cons_self r hr va d
      · exact (h.frames n e hn).2 (heq ▸ List.mem_cons_self)
    obtain ⟨hdone, hkept'⟩ := hspace.leaf huser ht (present_data p hp) hframe
    have hrun : Refk.mapFresh root k va =
        { k' with phys := Function.update k'.phys (cell t va 3) (p ||| kmemMapData) } := by
      simp only [Refk.mapFresh, kmemMap, hpage, hcreate]
    refine ⟨_, L', data_flags hp, ?_, ?_, ?_⟩
    · rw [List.length_cons]
      omega
    · rw [hrun]
      exact hdone
    · rw [hrun]
      exact hkept.trans hkept'

theorem AddressSpace.walks (h : AddressSpace k₀ cur L₀ R root k L D)
    (hva : va ∈ privateAddresses) : WalksTables k.phys root va :=
  fun d hd t ht hp => h.tables.small va hva d hd t ht hp

/-- A mapped page has its last-level table. -/
theorem AddressSpace.table_of_mapped (h : AddressSpace k₀ cur L₀ R root k L D)
    (hn : D (pageNumber va) = some e) : ∃ t, tableAt k.phys root va 3 = some t ∧
      k.phys (cell t va 3) = e ∧ Present e := by
  have hva := private_of_user (h.user _ e hn)
  obtain ⟨hleaf, hp⟩ := (h.walks hva).mapping_iff.mp ((h.mapped va hva).trans hn)
  rw [(h.walks hva).leafEntry, Option.map_eq_some_iff] at hleaf
  obtain ⟨t, ht, he⟩ := hleaf
  exact ⟨t, ht, he, hp⟩

/-- **`kmem_set_flags`** of a mapped page -/
theorem AddressSpace.setFlags {flags : Word} (h : AddressSpace k₀ cur L₀ R root k L D)
    (hn : D (pageNumber va) = some e) (hp : flags &&& 1 ≠ 0) (hflags : flags &&& kmemFrameMask = 0) :
    AddressSpace k₀ cur L₀ R root (kmemSetFlags k root va flags) L
        (Function.update D (pageNumber va) (some ((e &&& kmemFrameMask) ||| flags))) ∧
      KeepsPages D k.phys (kmemSetFlags k root va flags).phys := by
  obtain ⟨t, ht, he, -⟩ := h.table_of_mapped hn
  have hrun : kmemSetFlags k root va flags = { k with
      phys := Function.update k.phys (cell t va 3) ((e &&& kmemFrameMask) ||| flags) } := by
    simp only [kmemSetFlags, kmemPagingAddrCreate_of_table ht, phyRead64, he, phyWrite64]
  have hframe : ((e &&& kmemFrameMask) ||| flags) &&& kmemFrameMask = e &&& kmemFrameMask :=
    or_and_mask (isFrame_and e) hflags
  have hpres : Present ((e &&& kmemFrameMask) ||| flags) := by
    rw [Present, (isFrame_and e).aligned.or_and (by decide)]
    exact hp
  rw [hrun]
  apply h.leaf (h.user _ e hn) ht hpres
  rw [hframe]
  obtain ⟨hmem, hnot⟩ := h.frames _ e hn
  exact ⟨hmem, hnot, h.apart _ e hn, fun n' e' hn' hne heq => hne (h.distinct _ _ _ _ hn' hn heq)⟩

/-! ## Contents -/

theorem cell_and_seven (ht : PageAligned t) : cell t va d &&& 7 = 0 := by
  apply and_seven_of_aligned
  rw [toNat_cell ht]
  unfold PageAligned at ht
  omega

theorem page_and_seven (hp : PageAligned p) : p &&& 7 = 0 := by
  apply and_seven_of_aligned
  unfold PageAligned at hp
  omega

/-- A memory that differs from `m` in the pages of `D` only, as far as words go. -/
def OnlyPages (D : PageMap) (m m' : Phys) : Prop :=
  ∀ a, a &&& 7 = 0 → (∀ n e, D n = some e → pageOf a ≠ e &&& kmemFrameMask) → m' a = m a

/-- What is written into the mapped pages changes no walk. -/
theorem AddressSpace.cells (h : AddressSpace k₀ cur L₀ R root k L D)
    (hsame : OnlyPages D k.phys m') : ∀ r ∈ R, ∀ va d t, tableAt k.phys r va d = some t →
      m' (cell t va d) = k.phys (cell t va d) := by
  intro r hr va d t ht
  have htal := tableAt_aligned (h.isolated.root_aligned hr) ht
  apply hsame _ (cell_and_seven htal)
  intro n e hn heq
  rw [pageOf_cell htal] at heq
  exact h.apart n e hn r hr va d (heq ▸ ht)

theorem AddressSpace.mapping_eq (h : AddressSpace k₀ cur L₀ R root k L D)
    (hsame : OnlyPages D k.phys m') (va : Word) : mapping m' root va = mapping k.phys root va := by
  rw [mapping, mapping, (translate_of_agree (h.cells hsame root h.root_mem va)).2]

/-- **What is written into the mapped pages** leaves the address space. -/
theorem AddressSpace.refill (h : AddressSpace k₀ cur L₀ R root k L D)
    (hsame : OnlyPages D k.phys m') : AddressSpace k₀ cur L₀ R root { k with phys := m' } L D := by
  have hcell := h.cells hsame
  have hagree : ∀ r ∈ R, ∀ va, _ := fun r hr va => translate_of_agree (hcell r hr va)
  have hmapping := h.mapping_eq hsame
  have hfree : Free { k with phys := m' } R L := by
    refine ⟨h.isolated.free.pages.congr fun q hq => ?_, h.isolated.free.frames,
      h.isolated.free.nodup, fun q hq r hr va d => ?_⟩
    · have hal := (h.isolated.free.frames q hq).aligned
      apply hsame q (page_and_seven hal)
      intro n e hn heq
      rw [pageOf_self hal] at heq
      exact (h.frames n e hn).2 (heq ▸ hq)
    · change tableAt m' r va d ≠ some q
      rw [(hagree r hr va).1 d]
      exact h.isolated.free.unused q hq r hr va d
  refine ⟨⟨fun r hr => ((h.isolated.tables r hr).of_agree hcell).1, fun r hr va hva => ?_, hfree⟩,
    h.root_mem, h.rest, ?_, ?_, h.user, h.distinct, h.frames, ?_, ?_, ?_⟩
  · obtain ⟨t, ht⟩ := h.isolated.windows r hr va hva
    exact ⟨t, ((hagree r hr va).1 3).trans ht⟩
  · rintro t ⟨va, hva, d, ht⟩
    exact h.own t ⟨va, hva, d, ((hagree root h.root_mem va).1 d).symm.trans ht⟩
  · intro va hva
    rw [hmapping]
    exact h.mapped va hva
  · intro n e hn r hr va d
    change tableAt m' r va d ≠ _
    rw [(hagree r hr va).1 d]
    exact h.apart n e hn r hr va d
  · intro va hva
    rw [hmapping]
    exact h.shared va hva
  · intro a ha hpage
    exact (hsame a ha fun n e hn heq => hpage (heq ▸ (h.frames n e hn).1)).trans (h.memory a ha hpage)

/-! ### Filling -/

theorem pageOf_location {m : Phys} (h : mapping m root va = some e) :
    location m root va = some ((e &&& kmemFrameMask) + (va &&& 0xfff)) ∧
      pageOf ((e &&& kmemFrameMask) + (va &&& 0xfff)) = e &&& kmemFrameMask := by
  refine ⟨by rw [location, h, Option.map_some], ?_⟩
  rw [and_fff_eq, pageOf]
  exact page_add (isFrame_and e).aligned (Nat.mod_lt _ (by decide))

/-- What a mapped page shows is as it was, if the page has kept its contents. -/
theorem KeepsPages.physByte {m m' : Phys} {a : Word} (h : KeepsPages D m m') (hn : D n = some e)
    (hpage : pageOf a = e &&& kmemFrameMask) : physByte m' a = physByte m a := by
  obtain ⟨hal, -, -, hword⟩ := word_of_byte a
  rw [Refk.physByte, Refk.physByte, h n e hn _ hal (hword.trans hpage)]

/-- User addresses are told apart by page and offset. -/
theorem user_ext {va va' : Word} (h : va.toNat < 2 ^ 47) (h' : va'.toNat < 2 ^ 47)
    (hpage : pageNumber va = pageNumber va') (hoff : va &&& 0xfff = va' &&& 0xfff) : va = va' := by
  apply BitVec.eq_of_toNat_eq
  have hnat := congrArg BitVec.toNat hoff
  rw [toNat_and_fff, toNat_and_fff] at hnat
  unfold pageNumber at hpage
  omega

theorem toNat_nthByte {vaddr : Word} {i N : Nat} (h : vaddr.toNat + N ≤ 2 ^ 47) (hi : i < N) :
    (nthByte vaddr i).toNat = vaddr.toNat + i := by
  rw [nthByte, BitVec.toNat_add, BitVec.toNat_ofNat]
  omega

/-- Two user pages on one frame are the same, byte by byte. -/
theorem AddressSpace.location_inj {va' a : Word} (h : AddressSpace k₀ cur L₀ R root k L D)
    (huser : va.toNat < 2 ^ 47) (huser' : va'.toNat < 2 ^ 47)
    (hloc : location k.phys root va = some a) (hloc' : location k.phys root va' = some a) :
    va = va' := by
  have hpage : ∀ va : Word, va.toNat < 2 ^ 47 → pageNumber va < 2 ^ 35 := by
    intro va hva
    unfold pageNumber
    omega
  have hsome : ∀ va, va.toNat < 2 ^ 47 → location k.phys root va = some a → ∃ e,
      D (pageNumber va) = some e ∧ (e &&& kmemFrameMask) + (va &&& 0xfff) = a ∧
        pageOf a = e &&& kmemFrameMask := by
    intro va hva hloc
    have hmapped := h.mapped va (private_of_user (hpage va hva))
    obtain ⟨e, he, rfl⟩ := Option.map_eq_some_iff.mp hloc
    exact ⟨e, hmapped.symm.trans he, rfl, (pageOf_location he).2⟩
  obtain ⟨e, hn, ha, hframe⟩ := hsome va huser hloc
  obtain ⟨e', hn', ha', hframe'⟩ := hsome va' huser' hloc'
  have hsame := hframe.symm.trans hframe'
  refine user_ext huser huser' (h.distinct _ _ _ _ hn hn' hsame) ?_
  rw [← ha', hsame] at ha
  exact (BitVec.add_right_inj _).mp ha

/-- The range is mapped, and in the user half. -/
structure MappedRange (D : PageMap) (vaddr : Word) (size : Nat) : Prop where
  mapped : ∀ i < size, D (pageNumber (nthByte vaddr i)) ≠ none
  user : vaddr.toNat + size ≤ 2 ^ 47

theorem AddressSpace.plainRange {vaddr : Word} {size : Nat}
    (h : AddressSpace k₀ cur L₀ R root k L D) (hrange : MappedRange D vaddr size) :
    PlainRange k.phys root vaddr size := by
  have hentry : ∀ i < size, nthByte vaddr i ∈ privateAddresses := by
    intro i hi
    obtain ⟨e, he⟩ := Option.ne_none_iff_exists'.mp (hrange.mapped i hi)
    exact private_of_user (h.user _ e he)
  refine ⟨h.root_aligned, fun i hi => h.walks (hentry i hi), ?_, ?_⟩
  · intro i hi j hj e e' he he' hframe
    rw [h.mapped _ (hentry i hi)] at he
    rw [h.mapped _ (hentry j hj)] at he'
    have hpage := h.distinct _ _ _ _ he he' hframe
    apply BitVec.eq_of_toNat_eq
    rw [pageNumber, pageNumber, toNat_nthByte hrange.user hi, toNat_nthByte hrange.user hj] at hpage
    rw [toNat_and_pageMask, toNat_and_pageMask, toNat_nthByte hrange.user hi,
      toNat_nthByte hrange.user hj]
    have hend := hrange.user
    omega
  · intro i hi e he j hj d t ht heq
    rw [h.mapped _ (hentry i hi)] at he
    exact h.apart _ e he root h.root_mem _ d (heq ▸ ht)

/-- **`kmem_memcpy` and `kmem_memclr`** into a mapped range are seen there, and nowhere else. -/
theorem AddressSpace.fill {vaddr size : Word} (source : Nat → Byte)
    (h : AddressSpace k₀ cur L₀ R root k L D) (hrange : MappedRange D vaddr size.toNat) :
    AddressSpace k₀ cur L₀ R root { k with phys := (fillLoop root source size.toNat
        ⟨physByte k.phys, []⟩ 0 vaddr size).words } L D ∧
      (∀ i < size.toNat, seen (fillLoop root source size.toNat ⟨physByte k.phys, []⟩ 0 vaddr
        size).words root (nthByte vaddr i) = some (source i)) ∧
      ∀ va, va.toNat < 2 ^ 47 → (∀ i < size.toNat, va ≠ nthByte vaddr i) →
        seen (fillLoop root source size.toNat ⟨physByte k.phys, []⟩ 0 vaddr size).words root va =
          seen k.phys root va := by
  -- the walk is over the words of the bytes of the words
  have hsame : OnlyPages D k.phys (PhyBytes.mk (physByte k.phys) []).words :=
    fun a ha _ => words_physByte [] ha
  have hspace := h.refill hsame
  have hplain := hspace.plainRange hrange
  have hstops : StopsAtAbsent (PhyBytes.mk (physByte k.phys) []).words root vaddr size.toNat := by
    intro i hi hnone
    obtain ⟨e, he⟩ := Option.ne_none_iff_exists'.mp (hrange.mapped i hi)
    have hmapped := hspace.mapped _ (private_of_user (h.user _ e he))
    rw [he] at hmapped
    cases hnone.symm.trans hmapped
  have hall : ∀ i < size.toNat,
      mapping (PhyBytes.mk (physByte k.phys) []).words root (nthByte vaddr i) ≠ none := by
    intro i hi hnone
    obtain ⟨e, he⟩ := Option.ne_none_iff_exists'.mp (hrange.mapped i hi)
    have hmapped := hspace.mapped _ (private_of_user (h.user _ e he))
    exact hrange.mapped i hi (hmapped.symm.trans hnone)
  obtain ⟨hshown, hothers, -⟩ := (fillLoop_exact source hplain).mpr hstops
  have hshown := hshown hall
  have hothers := hothers hall
  generalize fillLoop root source size.toNat ⟨physByte k.phys, []⟩ 0 vaddr size = filled at *
  have hbytes : physByte filled.words = filled.bytes := funext (physByte_words filled)
  have hfilled : OnlyPages D (PhyBytes.mk (physByte k.phys) []).words filled.words := by
    intro a ha hpage
    apply words_congr
    intro j hj
    apply hothers
    intro i hi hloc
    obtain ⟨e, he, heq⟩ := Option.map_eq_some_iff.mp hloc
    obtain ⟨e', hn⟩ := Option.ne_none_iff_exists'.mp (hrange.mapped i hi)
    have hmapped := hspace.mapped _ (private_of_user (h.user _ e' hn))
    rw [he] at hmapped
    have hframe := (pageOf_location he).2
    rw [heq, (byte_of_word ha hj).2.2] at hframe
    exact hpage _ e hmapped.symm hframe
  have hmapping := hspace.mapping_eq hfilled
  refine ⟨hspace.refill hfilled, fun i hi => ?_, fun va hva hout => ?_⟩
  · rw [seen, hbytes]
    exact hshown i hi
  · have hold : location (PhyBytes.mk (physByte k.phys) []).words root va =
        location k.phys root va := by
      rw [location, h.mapping_eq hsame, location]
    have hnew : location filled.words root va = location k.phys root va := by
      rw [location, hmapping, ← location, hold]
    rw [seen, seen, hnew, hbytes]
    cases hloc : location k.phys root va with
    | none => rfl
    | some a =>
      rw [Option.map_some, Option.map_some, hothers a fun i hi hloc' => hout i hi ?_]
      have huser : (nthByte vaddr i).toNat < 2 ^ 47 := by
        rw [toNat_nthByte hrange.user hi]
        have hend := hrange.user
        omega
      exact hspace.location_inj hva huser (hold.trans hloc) hloc'

end

end Refk
