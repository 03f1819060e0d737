import Refk.Scheduler.MmanTidy
import Refk.Scheduler.TaskFrame

/-!
# The pages of a task

A task gets its pages at the first addresses of two areas that are not mapped in its root, and
the scheduler maps its channels again in windows of its own. `mmanTaskSetup_spec` says what is
mapped once this is done: the pages of the task, and its two windows.
-/

namespace Refk

open Lib

/-- Where the windows are. -/
def channelArea : Set Word :=
  {va | va &&& 0xfff = 0 ∧ localChannelBase ≤ va ∧
    va < localChannelBase + (localChannelSize / channelSize) * localChannelSize}

/-- Two of the first pages from `base` on are not mapped: there is room for a task's pages. -/
def Room (m : Phys) (root base : Word) : Prop :=
  ∃ i j, i < j ∧ j < 2 ^ 22 ∧ isMapped m root (nthPage base i) = false ∧
    isMapped m root (nthPage base j) = false

/-! ## Addresses -/

section
variable {va va' : Word} {i j : Nat}

theorem toNat_pagingIndex_zero (va : Word) : (pagingIndex va 0).toNat = pageNumber va / 2 ^ 27 := by
  rw [toNat_pagingIndex]
  unfold pageNumber
  omega

/-- The root entries of the areas that tasks and windows are in. -/
theorem mem_ownAddresses (h : pageNumber va < 2 ^ 27 ∨ pageNumber va / 2 ^ 27 = 256) :
    va ∈ ownAddresses := by
  have hshared : ∀ w ∈ phyMapBase :: windows, 288 ≤ (pagingIndex w 0).toNat := by
    intro w hw
    simp only [windows, List.mem_cons, List.not_mem_nil, or_false] at hw
    rcases hw with rfl | rfl | rfl | rfl | rfl <;> decide
  intro w hw heq
  have := hshared w hw
  rw [← heq, toNat_pagingIndex_zero] at this
  omega

theorem aligned_nthPage {base : Word} (h : base &&& 0xfff = 0) (i : Nat) :
    nthPage base i &&& 0xfff = 0 := by
  rw [and_fff_eq_zero, PageAligned] at h ⊢
  unfold nthPage
  rw [BitVec.toNat_add, BitVec.toNat_mul, BitVec.toNat_ofNat,
    show (0x1000 : Word).toNat = 0x1000 from rfl]
  omega

theorem pageNumber_storage (hi : i < 2 ^ 22) :
    pageNumber (nthPage localStorageBase i) = 0x510400 + i := by
  rw [pageNumber_nthPage, show pageNumber localStorageBase = 0x510400 from rfl]
  omega

theorem pageNumber_channel (hi : i < 2 ^ 22) :
    pageNumber (nthPage taskChannelStart i) = 2 ^ 35 + i := by
  rw [pageNumber_nthPage, show pageNumber taskChannelStart = 2 ^ 35 from rfl]
  omega

theorem pageNumber_temporary : pageNumber temporaryMapAddress = 0x50000 := rfl

theorem toNat_localWindow (hi : i < 0x1000) : (localWindow i).toNat = 0xcadd40000 + i * 2 ^ 24 := by
  unfold localWindow
  rw [BitVec.toNat_add, BitVec.toNat_mul, BitVec.toNat_ofNat,
    show localChannelBase.toNat = 0xcadd40000 from rfl,
    show localChannelSize.toNat = 2 ^ 24 from rfl]
  omega

theorem pageNumber_localWindow (hi : i < 0x1000) :
    pageNumber (localWindow i) = 0xcadd40 + i * 0x1000 := by
  rw [pageNumber, toNat_localWindow hi]
  omega

theorem channelArea_iff : va ∈ channelArea ↔
    va.toNat % 0x1000 = 0 ∧ 0xcadd40000 ≤ va.toNat ∧ va.toNat < 0xcadd40000 + 2 ^ 36 := by
  change va &&& 0xfff = 0 ∧ _ ↔ _
  rw [and_fff_eq_zero, PageAligned]
  simp only [BitVec.le_def, BitVec.lt_def]
  rfl

theorem localWindow_mem (hi : i < 0x1000) : localWindow i ∈ channelArea := by
  rw [channelArea_iff, toNat_localWindow hi]
  omega

theorem pageNumber_of_mem (h : va ∈ channelArea) :
    0xcadd40 ≤ pageNumber va ∧ pageNumber va < 0xcadd40 + 2 ^ 24 := by
  rw [channelArea_iff] at h
  unfold pageNumber
  omega

/-- Different pages of the area are different pages. -/
theorem samePrefix_iff_of_mem (h : va ∈ channelArea) (h' : va' ∈ channelArea) :
    SamePrefix 4 va va' ↔ va = va' := by
  rw [samePrefix_four_iff, ← BitVec.toNat_inj]
  rw [channelArea_iff] at h h'
  unfold pageNumber
  omega

theorem localWindow_inj (hi : i < 0x1000) (hj : j < 0x1000) (h : localWindow i = localWindow j) :
    i = j := by
  have := congrArg BitVec.toNat h
  rw [toNat_localWindow hi, toNat_localWindow hj] at this
  omega

end

/-! ## The searches -/

theorem firstFrom_spec {p : Nat → Bool} {fuel i j : Nat} (h : firstFrom p fuel i = some j) :
    i ≤ j ∧ j < i + fuel ∧ p j = true ∧ ∀ k, i ≤ k → k < j → p k = false := by
  induction fuel generalizing i with
  | zero => cases h
  | succ fuel ih =>
    rw [firstFrom] at h
    split_ifs at h with hp
    · obtain rfl := Option.some.inj h
      exact ⟨le_rfl, by omega, hp, fun k hk hlt => absurd hlt (by omega)⟩
    · obtain ⟨hle, hlt, hpj, hbefore⟩ := ih h
      refine ⟨by omega, by omega, hpj, fun k hk hlt' => ?_⟩
      rcases Nat.eq_or_lt_of_le hk with rfl | hgt
      · simpa using hp
      · exact hbefore k hgt hlt'

/-- A search that has something to find finds it. -/
theorem firstFrom_isSome {p : Nat → Bool} {fuel i j : Nat} (hp : p j = true) (hi : i ≤ j)
    (hj : j < i + fuel) : ∃ k, firstFrom p fuel i = some k := by
  induction fuel generalizing i with
  | zero => omega
  | succ fuel ih =>
    rw [firstFrom]
    split_ifs with hpi
    · exact ⟨i, rfl⟩
    · refine ih ?_ (by omega)
      rcases Nat.eq_or_lt_of_le hi with rfl | hlt
      · exact absurd hp hpi
      · exact hlt

section
variable {m m' : Mman} {R L : List Word} {id i : Nat} {root own va base : Word}

/-- The check of one page of a known root. -/
theorem mmanCheckAnyMapped_one (hid : m.rootAddress id = root) (h₀ : root ≠ 0)
    (hal : va &&& 0xfff = 0) :
    mmanCheckAnyMapped m id va 0x1000 = 0 ↔ isMapped m.phys root va = false := by
  simp only [mmanCheckAnyMapped, hid, h₀, hal, pageSize_aligned, if_false, ne_eq, not_true,
    pageOffsets_one, List.any_cons, List.any_nil, add_zero_word, Bool.or_false]
  cases isMapped m.phys root va <;> simp

/-- What `first_unmapped` finds is the first page that is not mapped. -/
theorem firstUnmapped_spec (hid : m.rootAddress id = root) (h₀ : root ≠ 0) (hal : base &&& 0xfff = 0)
    (h : firstUnmapped m id base = some va) :
    ∃ i, va = nthPage base i ∧ isMapped m.phys root (nthPage base i) = false ∧
      ∀ j < i, isMapped m.phys root (nthPage base j) = true := by
  obtain ⟨i, hfound, rfl⟩ := Option.map_eq_some_iff.mp h
  obtain ⟨-, -, hi, hbefore⟩ := firstFrom_spec hfound
  have hcheck : ∀ j, mmanCheckAnyMapped m id (nthPage base j) 0x1000 = 0 ↔
      isMapped m.phys root (nthPage base j) = false := fun j =>
    mmanCheckAnyMapped_one hid h₀ (aligned_nthPage hal j)
  refine ⟨i, rfl, (hcheck i).mp (of_decide_eq_true hi), fun j hj => ?_⟩
  have := hbefore j (Nat.zero_le j) hj
  rw [decide_eq_false_iff_not] at this
  rw [← Bool.not_eq_false]
  exact fun hfalse => this ((hcheck j).mpr hfalse)

theorem firstUnmapped_isSome (hid : m.rootAddress id = root) (h₀ : root ≠ 0)
    (hal : base &&& 0xfff = 0) {j : Nat} (hj : j < 2 ^ 22)
    (hfree : isMapped m.phys root (nthPage base j) = false) :
    ∃ va, firstUnmapped m id base = some va := by
  obtain ⟨k, hk⟩ : ∃ k, firstFrom (fun i =>
      mmanCheckAnyMapped m id (base + BitVec.ofNat 64 i * 0x1000) 0x1000 = 0) (2 ^ 52) 0 = some k :=
    firstFrom_isSome (j := j) (decide_eq_true ((mmanCheckAnyMapped_one hid h₀ (aligned_nthPage hal j)).mpr hfree))
    (Nat.zero_le j) (by omega)
  exact ⟨_, Option.map_eq_some_iff.mpr ⟨k, hk, rfl⟩⟩

/-- What `find_available_local` finds is a window that is not mapped. -/
theorem findAvailableLocal_spec (hid : m.rootAddress (mmanOwnRoot m) = own) (h₀ : own ≠ 0)
    (h : findAvailableLocal m ≠ -1) : ∃ i < 0x1000, findAvailableLocal m = localWindow i ∧
      isMapped m.phys own (localWindow i) = false := by
  unfold findAvailableLocal at h ⊢
  cases hfind : (List.range (localChannelSize / channelSize).toNat).find? fun i =>
      mmanCheckAnyMapped m (mmanOwnRoot m) (localWindow i) 0x1000 = 0 with
  | none =>
    rw [hfind] at h
    exact absurd rfl h
  | some i =>
    have hlt : i < 0x1000 := List.mem_range.mp (List.mem_of_find?_eq_some hfind)
    have hcheck := List.find?_some hfind
    rw [decide_eq_true_eq] at hcheck
    exact ⟨i, hlt, rfl, (mmanCheckAnyMapped_one hid h₀ (localWindow_mem hlt).1).mp hcheck⟩

end

/-! ## Setting a task up -/

/-- What the setup of a task works on: its root, and the scheduler's own. -/
structure Site (m : Mman) (R L : List Word) (id : Nat) (root own : Word) : Prop where
  tidy : Tidy m R L
  id : m.rootAddress id = root
  mem : root ∈ R
  ownId : m.rootAddress (mmanOwnRoot m) = own
  own : own ∈ R

section
variable {m m' : Mman} {R L : List Word} {id : Nat} {root own va va' r : Word} {n : Nat} {b : Prop}

theorem MapsBut.iff_or {m m' : Phys} (h : MapsBut R root va True m m') (hr : r ∈ R)
    (hlow : pagingIndex va' 0 ≠ 384) :
    Mapped m' r va' ↔ Mapped m r va' ∨ (r = root ∧ SamePrefix 4 va' va) := by
  rcases h r hr va' hlow with ⟨heq, h⟩ | ⟨hne, h⟩
  · exact iff_of_true (h.mpr trivial) (.inr heq)
  · rw [h, or_iff_left hne]

theorem MapsBut.iff_and {m m' : Phys} (h : MapsBut R root va False m m') (hr : r ∈ R)
    (hlow : pagingIndex va' 0 ≠ 384) :
    Mapped m' r va' ↔ Mapped m r va' ∧ ¬ (r = root ∧ SamePrefix 4 va' va) := by
  rcases h r hr va' hlow with ⟨heq, h⟩ | ⟨hne, h⟩
  · exact iff_of_false h.mp fun hh => hh.2 heq
  · rw [h, and_iff_left hne]

theorem SameRoots.rootAddress (h : SameRoots m m') (id : Nat) :
    m'.rootAddress id = m.rootAddress id := by
  rw [Mman.rootAddress, Mman.rootAddress, h.rootMap]

theorem SameRoots.rootCount (h : SameRoots m m') (id : Nat) : m'.rootCount id = m.rootCount id := by
  rw [Mman.rootCount, Mman.rootCount, h.rootRefcount]

/-- A turn on one page is a turn on the site. -/
theorem Site.turned (h : Site m R L id root own) (hturn : Turned R L r va b n m m') :
    ∃ L', Site m' R L' id root own ∧ L.length ≤ L'.length + n := by
  obtain ⟨L', htidy, hlen⟩ := hturn.tidy
  refine ⟨L', ⟨htidy, ?_, h.mem, ?_, h.own⟩, hlen⟩
  · rw [hturn.roots.rootAddress, h.id]
  · rw [hturn.roots.rootAddress, mmanOwnRoot, hturn.roots.thisRootId]
    exact h.ownId

theorem Site.not_mapped (h : Site m R L id root own) (hr : r ∈ R) (hva : va ∈ ownAddresses) :
    isMapped m.phys r va = false ↔ ¬ Mapped m.phys r va := by
  rw [← Bool.not_eq_true]
  exact not_congr (h.tidy.counted.layout.isMapped_iff hr (h.tidy.low hr hva))

theorem own_storage {i : Nat} (hi : i < 2 ^ 22) : nthPage localStorageBase i ∈ ownAddresses :=
  mem_ownAddresses (.inl (by rw [pageNumber_storage hi]; omega))

theorem own_channel {i : Nat} (hi : i < 2 ^ 22) : nthPage taskChannelStart i ∈ ownAddresses :=
  mem_ownAddresses (.inr (by rw [pageNumber_channel hi]; omega))

theorem own_area (h : va ∈ channelArea) : va ∈ ownAddresses := by
  have := pageNumber_of_mem h
  exact mem_ownAddresses (.inl (by omega))

theorem own_temporary : temporaryMapAddress ∈ ownAddresses :=
  mem_ownAddresses (.inl (by rw [pageNumber_temporary]; omega))

/-- **`add_channel`** maps one page of the task, and one window. -/
theorem mmanAddChannel_spec (h : Site m R L id root own) {j : Nat} (hj : j < 2 ^ 22)
    (hroom : isMapped m.phys root (nthPage taskChannelStart j) = false) (hL : 10 ≤ L.length)
    {la ca : Word} (hadd : mmanAddChannel m id = some (m', la, ca)) (hla : la ≠ -1) :
    (∃ k ≤ j, ca = nthPage taskChannelStart k ∧ ¬ Mapped m.phys root ca) ∧
    (∃ i < 0x1000, la = localWindow i) ∧ ¬ Mapped m.phys own la ∧
    (∃ L', Site m' R L' id root own ∧ L.length ≤ L'.length + 10) ∧
    ∀ r ∈ R, ∀ va', pagingIndex va' 0 ≠ 384 → (Mapped m'.phys r va' ↔ Mapped m.phys r va' ∨
      (r = root ∧ SamePrefix 4 va' ca) ∨ (r = own ∧ SamePrefix 4 va' la)) := by
  have hlay := h.tidy.counted.layout
  simp only [mmanAddChannel, channelSize, Option.bind_eq_bind, Option.bind_eq_some_iff,
    Option.pure_def, Option.some.injEq, Prod.mk.injEq] at hadd
  obtain ⟨ca', hca, rfl, rfl, rfl⟩ := hadd
  obtain ⟨k, rfl, hfree, hbefore⟩ := firstUnmapped_spec h.id (hlay.roots root h.mem).2 (by decide) hca
  obtain ⟨i, hi, hwin, hwinfree⟩ := findAvailableLocal_spec h.ownId (hlay.roots own h.own).2 hla
  have hk : k ≤ j := by
    by_contra hgt
    rw [hbefore j (by omega)] at hroom
    cases hroom
  rw [hwin]
  have hcown : nthPage taskChannelStart k ∈ ownAddresses := own_channel (by omega)
  have hlown : localWindow i ∈ ownAddresses := own_area (localWindow_mem hi)
  have hcal : nthPage taskChannelStart k &&& 0xfff = 0 := aligned_nthPage (by decide) k
  have hcfree := (h.not_mapped h.mem hcown).mp hfree
  have hlfree := (h.not_mapped h.own hlown).mp hwinfree
  -- the window is not where the task's page is
  have hapart : ¬ SamePrefix 4 (localWindow i) (nthPage taskChannelStart k) := by
    rw [samePrefix_four_iff, pageNumber_localWindow hi, pageNumber_channel (by omega)]
    omega
  have hanon := h.tidy.anonymous h.id h.mem hcown hcal hcfree (by omega)
  obtain ⟨L₁, h₁, hlen₁⟩ := h.turned hanon
  generalize (mmanAnonymous m id (nthPage taskChannelStart k) 0x1000).1 = m₁ at *
  have hlfree₁ : ¬ Mapped m₁.phys own (localWindow i) := by
    rw [hanon.maps.iff_or h.own (h.tidy.low h.own hlown)]
    rintro (hmap | ⟨-, hpre⟩)
    · exact hlfree hmap
    · exact hapart hpre
  have hcmap₁ : Mapped m₁.phys root (nthPage taskChannelStart k) :=
    (hanon.maps.self h.mem (h.tidy.low h.mem hcown)).mpr trivial
  have hmirror := h₁.tidy.mirror h₁.ownId h₁.own h₁.id h₁.mem hlown hcown (localWindow_mem hi).1 hcal
    hlfree₁ hcmap₁ (by omega)
  obtain ⟨L₂, h₂, hlen₂⟩ := h₁.turned hmirror
  refine ⟨⟨k, hk, rfl, hcfree⟩, ⟨i, hi, rfl⟩, hlfree, ⟨L₂, h₂, by omega⟩, fun r hr va' hlow => ?_⟩
  rw [hmirror.maps.iff_or hr hlow, hanon.maps.iff_or hr hlow, or_assoc]

/-- **`add_storage`** and the scheduler's window on it. -/
theorem mmanAddStorage_spec (h : Site m R L id root own) {j : Nat} (hj : j < 2 ^ 22)
    (hroom : isMapped m.phys root (nthPage localStorageBase j) = false)
    (htemp : ¬ Mapped m.phys own temporaryMapAddress) (hL : 10 ≤ L.length) {gs : Word}
    (hadd : mmanAddStorage m id = some (m', gs)) :
    (∃ i ≤ j, gs = nthPage localStorageBase i) ∧
    (∃ L', Site (mmanMirror m' (mmanOwnRoot m') temporaryMapAddress id gs 0x1000).1 R L' id root own ∧
      L.length ≤ L'.length + 10) ∧
    ∀ r ∈ R, ∀ va, pagingIndex va 0 ≠ 384 →
      (Mapped (mmanMirror m' (mmanOwnRoot m') temporaryMapAddress id gs 0x1000).1.phys r va ↔
        (Mapped m.phys r va ∨ r = root ∧ SamePrefix 4 va gs) ∨
          r = own ∧ SamePrefix 4 va temporaryMapAddress) := by
  have hlay := h.tidy.counted.layout
  simp only [mmanAddStorage, localStorageSize, Option.bind_eq_bind, Option.bind_eq_some_iff,
    Option.pure_def, Option.some.injEq, Prod.mk.injEq] at hadd
  obtain ⟨gs', hgs, rfl, rfl⟩ := hadd
  obtain ⟨i, rfl, hfree, hbefore⟩ :=
    firstUnmapped_spec h.id (hlay.roots root h.mem).2 (by decide) hgs
  have hi : i ≤ j := by
    by_contra hgt
    rw [hbefore j (by omega)] at hroom
    cases hroom
  have hsown : nthPage localStorageBase i ∈ ownAddresses := own_storage (by omega)
  have hsal : nthPage localStorageBase i &&& 0xfff = 0 := aligned_nthPage (by decide) i
  have hanon := h.tidy.anonymous h.id h.mem hsown hsal ((h.not_mapped h.mem hsown).mp hfree)
    (by omega)
  obtain ⟨L₁, h₁, hlen₁⟩ := h.turned hanon
  generalize (mmanAnonymous m id (nthPage localStorageBase i) 0x1000).1 = m₁ at *
  have htemp₁ : ¬ Mapped m₁.phys own temporaryMapAddress := by
    rw [hanon.maps.iff_or h.own (h.tidy.low h.own own_temporary)]
    rintro (hmap | ⟨-, hpre⟩)
    · exact htemp hmap
    · rw [samePrefix_four_iff, pageNumber_temporary, pageNumber_storage (by omega)] at hpre
      omega
  have hsmap₁ : Mapped m₁.phys root (nthPage localStorageBase i) :=
    (hanon.maps.self h.mem (h.tidy.low h.mem hsown)).mpr trivial
  have hmirror := h₁.tidy.mirror h₁.ownId h₁.own h₁.id h₁.mem own_temporary hsown (by decide) hsal
    htemp₁ hsmap₁ (by omega)
  obtain ⟨L₂, h₂, hlen₂⟩ := h₁.turned hmirror
  refine ⟨⟨i, hi, rfl⟩, ⟨L₂, h₂, by omega⟩, fun r hr va hlow => ?_⟩
  rw [hmirror.maps.iff_or hr hlow, hanon.maps.iff_or hr hlow]

/-- What a task's setup has mapped: three pages of the task, and two windows of the scheduler. -/
structure TablesSetUp (R L : List Word) (id : Nat) (root own : Word) (w : Windows) (m m' : Mman) :
    Prop where
  site : ∃ L', Site m' R L' id root own ∧ L.length ≤ L'.length + 30
  sin : ∃ i < 0x1000, w.sin = localWindow i
  gin : ∃ i < 0x1000, w.gin = localWindow i
  sin_free : ¬ Mapped m.phys own w.sin
  gin_free : ¬ Mapped m.phys own w.gin
  apart : w.sin ≠ w.gin
  pages : ∃ i < 2 ^ 22, ∃ k < 2 ^ 22, ∃ k' < 2 ^ 22, w.gs = nthPage localStorageBase i ∧
    ∀ r ∈ R, ∀ va, pagingIndex va 0 ≠ 384 → (Mapped m'.phys r va ↔
      ((Mapped m.phys r va ∨ r = root ∧ SamePrefix 4 va w.gs) ∨
        ((r = root ∧ SamePrefix 4 va (nthPage taskChannelStart k)) ∨
          (r = own ∧ SamePrefix 4 va w.sin)) ∨
        (r = root ∧ SamePrefix 4 va (nthPage taskChannelStart k')) ∨
          (r = own ∧ SamePrefix 4 va w.gin)) ∧ ¬ (r = own ∧ SamePrefix 4 va temporaryMapAddress))

/-- **`task_setup`**, in pages. -/
theorem mmanTaskSetup_spec (h : Site m R L id root own) (hstorage : Room m.phys root localStorageBase)
    (hchannel : Room m.phys root taskChannelStart)
    (htemp : ¬ Mapped m.phys own temporaryMapAddress) (hL : 30 ≤ L.length) {w : Windows}
    (hset : mmanTaskSetup m id = some (m', w)) (hsin : w.sin ≠ -1) (hgin : w.gin ≠ -1) :
    TablesSetUp R L id root own w m m' := by
  have hlay := h.tidy.counted.layout
  obtain ⟨a, b, hab, hb, ha', -⟩ := hstorage
  obtain ⟨c, d, hcd, hd, hc', hd'⟩ := hchannel
  simp only [mmanTaskSetup, Option.bind_eq_bind, Option.bind_eq_some_iff, Option.pure_def,
    Option.some.injEq, Prod.mk.injEq, Prod.exists] at hset
  obtain ⟨m₁, gs, hstore, m₃, sin, ca, hadd, m₄, gin, cb, hadd', rfl, rfl⟩ := hset
  dsimp only at hsin hgin ⊢
  obtain ⟨⟨i, hi, rfl⟩, ⟨L₂, h₂, hlen₂⟩, hmaps₂⟩ :=
    mmanAddStorage_spec h (by omega) ha' htemp (by omega) hstore
  have hi : i < 2 ^ 22 := by omega
  generalize (mmanMirror m₁ (mmanOwnRoot m₁) temporaryMapAddress id (nthPage localStorageBase i)
    0x1000).1 = m₂ at *
  -- the channels: the first page takes the first free address, so the other one stays free
  have hroom : ∀ e, e < 2 ^ 22 → isMapped m.phys root (nthPage taskChannelStart e) = false →
      isMapped m₂.phys root (nthPage taskChannelStart e) = false := by
    intro e he hfree
    have hown := own_channel he
    rw [h₂.not_mapped h.mem hown, hmaps₂ root h.mem _ (h.tidy.low h.mem hown)]
    rw [h.not_mapped h.mem hown] at hfree
    rintro ((hmap | ⟨-, hpre⟩) | ⟨-, hpre⟩)
    · exact hfree hmap
    · rw [samePrefix_four_iff, pageNumber_storage hi, pageNumber_channel he] at hpre
      omega
    · rw [samePrefix_four_iff, pageNumber_temporary, pageNumber_channel he] at hpre
      omega
  obtain ⟨⟨k, hk, rfl, hkfree⟩, ⟨x, hx, rfl⟩, hsinfree, ⟨L₃, h₃, hlen₃⟩, hmaps₃⟩ :=
    mmanAddChannel_spec h₂ (j := c) (by omega) (hroom c (by omega) hc') (by omega) hadd hsin
  have hroom₃ : isMapped m₃.phys root (nthPage taskChannelStart d) = false := by
    have hown := own_channel hd
    have hfree := (h₂.not_mapped h.mem hown).mp (hroom d hd hd')
    rw [h₃.not_mapped h.mem hown, hmaps₃ root h.mem _ (h.tidy.low h.mem hown)]
    rintro (hmap | ⟨-, hpre⟩ | ⟨-, hpre⟩)
    · exact hfree hmap
    · rw [samePrefix_four_iff, pageNumber_channel hd, pageNumber_channel (by omega)] at hpre
      omega
    · rw [samePrefix_four_iff, pageNumber_channel hd, pageNumber_localWindow hx] at hpre
      omega
  obtain ⟨⟨k', hk', rfl, -⟩, ⟨y, hy, rfl⟩, hginfree, ⟨L₄, h₄, hlen₄⟩, hmaps₄⟩ :=
    mmanAddChannel_spec h₃ hd hroom₃ (by omega) hadd' hgin
  -- the window is given up
  have hunmap := h₄.tidy.unmap h₄.ownId h₄.own own_temporary (by decide)
  obtain ⟨L₅, h₅, hlen₅⟩ := h₄.turned hunmap
  generalize (mmanUnmap m₄ (mmanOwnRoot m₄) temporaryMapAddress 0x1000).1 = m₅ at *
  have hall : ∀ r ∈ R, ∀ va, pagingIndex va 0 ≠ 384 → (Mapped m₅.phys r va ↔
      ((Mapped m.phys r va ∨ r = root ∧ SamePrefix 4 va (nthPage localStorageBase i)) ∨
        ((r = root ∧ SamePrefix 4 va (nthPage taskChannelStart k)) ∨
          (r = own ∧ SamePrefix 4 va (localWindow x))) ∨
        (r = root ∧ SamePrefix 4 va (nthPage taskChannelStart k')) ∨
          (r = own ∧ SamePrefix 4 va (localWindow y))) ∧
        ¬ (r = own ∧ SamePrefix 4 va temporaryMapAddress)) := by
    intro r hr va hlow
    rw [hunmap.maps.iff_and hr hlow, hmaps₄ r hr va hlow, hmaps₃ r hr va hlow,
      hmaps₂ r hr va hlow]
    refine and_congr_left fun hnot => ?_
    rw [or_iff_left hnot, or_assoc]
  have hwin : ∀ z, z < 0x1000 → ¬ Mapped m₂.phys own (localWindow z) →
      ¬ Mapped m.phys own (localWindow z) := by
    intro z hz hnot hmap
    have hlow := h.tidy.low h.own (own_area (localWindow_mem hz))
    rw [hmaps₂ own h.own _ hlow] at hnot
    exact hnot (.inl (.inl hmap))
  have hylow := h.tidy.low h.own (own_area (localWindow_mem hy))
  rw [hmaps₃ own h.own _ hylow] at hginfree
  refine ⟨⟨L₅, h₅, by omega⟩, ⟨x, hx, rfl⟩, ⟨y, hy, rfl⟩, hwin x hx hsinfree, ?_, ?_,
    ⟨i, hi, k, by omega, k', by omega, rfl, hall⟩⟩
  · exact hwin y hy fun hmap => hginfree (.inl hmap)
  · intro heq
    have heq : localWindow x = localWindow y := heq
    refine hginfree (.inr (.inr ⟨rfl, ?_⟩))
    rw [heq]
    exact fun _ _ => rfl

/-- The windows after a task's setup. -/
theorem TablesSetUp.window {w : Windows} (h : TablesSetUp R L id root own w m m') (hown : own ∈ R)
    (hva : va ∈ channelArea) :
    Mapped m'.phys own va ↔ Mapped m.phys own va ∨ va = w.sin ∨ va = w.gin := by
  obtain ⟨i, hi, k, hk, k', hk', hgs, hpages⟩ := h.pages
  obtain ⟨x, hx, hsin⟩ := h.sin
  obtain ⟨y, hy, hgin⟩ := h.gin
  have hpage := pageNumber_of_mem hva
  rw [hpages own hown va (low_of_own (own_area hva))]
  have hno : ∀ va', pageNumber va' < 0xcadd40 ∨ 2 ^ 35 ≤ pageNumber va' → ¬ SamePrefix 4 va va' := by
    intro va' hva' hpre
    rw [samePrefix_four_iff] at hpre
    omega
  have hstorage : ¬ SamePrefix 4 va w.gs := hno _ (by rw [hgs, pageNumber_storage hi]; omega)
  have hchan := hno (nthPage taskChannelStart k) (by rw [pageNumber_channel hk]; omega)
  have hchan' := hno (nthPage taskChannelStart k') (by rw [pageNumber_channel hk']; omega)
  have htemp := hno temporaryMapAddress (by rw [pageNumber_temporary]; omega)
  rw [hsin, hgin, samePrefix_iff_of_mem hva (localWindow_mem hx),
    samePrefix_iff_of_mem hva (localWindow_mem hy)]
  simp only [hstorage, hchan, hchan', htemp, and_false, or_false, false_or, not_false_eq_true,
    and_true, true_and]

/-- The storage window is free again. -/
theorem TablesSetUp.temporary {w : Windows} (h : TablesSetUp R L id root own w m m')
    (hown : own ∈ R) : ¬ Mapped m'.phys own temporaryMapAddress := by
  obtain ⟨i, -, k, -, k', -, -, hpages⟩ := h.pages
  rw [hpages own hown _ (low_of_own own_temporary)]
  exact fun hmap => hmap.2 ⟨rfl, fun _ _ => rfl⟩

end

end Refk
