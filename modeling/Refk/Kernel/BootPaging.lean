import Refk.Kernel.Kmem
import Refk.Kernel.AddressSpace

/-!
# `kernel/multiboot.s` — the first page tables

`setup_paging` fills nine tables in the kernel image: the first 2 MB and the bootstrap code where
they are, the kernel from `0xffffffff80000000` on, its code read-only and its data not executable,
and 64 GB of physical memory by pages of 1 GB. It writes 32 bits at a time; the tables have been
cleared before, and entries are below 4 GB but for the upper half that the last two loops write.

`setup_paging_maps` is the whole of it: what every address maps to under the tables that are left.
They are the ones that `kmem_init` needs for the first free list.
-/

namespace Refk

open Lib

/-- What the assembler and the linker script decide: where the tables are, and the sections of the
    kernel. -/
structure BootImage where
  /-- `paging_data_start` -/
  pagingData : BitVec 32
  /-- `_code_phy_begin` -/
  codeBegin : BitVec 32
  /-- `_code_phy_end` -/
  codeEnd : BitVec 32
  /-- `_data_phy_begin` -/
  dataBegin : BitVec 32
  /-- `_data_phy_end` -/
  dataEnd : BitVec 32

namespace BootImage

variable (b : BootImage)

def pagingP4 : BitVec 32 := b.pagingData
def pagingIdP3 : BitVec 32 := b.pagingData + 0x1000
def pagingIdP2 : BitVec 32 := b.pagingData + 0x2000
def pagingIdLowP1 : BitVec 32 := b.pagingData + 0x3000
def pagingIdBootstrapP1 : BitVec 32 := b.pagingData + 0x4000
def pagingHighP3 : BitVec 32 := b.pagingData + 0x5000
def pagingHighP2 : BitVec 32 := b.pagingData + 0x6000
def pagingHighP1 : BitVec 32 := b.pagingData + 0x7000
def pagingPhyP3 : BitVec 32 := b.pagingData + 0x8000
def pagingDataEnd : BitVec 32 := b.pagingData + 0x9000

end BootImage

/-- `mov dword [a], v` -/
def movDword (m : Nat → Byte) (a v : BitVec 32) : Nat → Byte := store m a.toNat (toLe 4 v.toNat)

/-- A loop that stores an entry for every page from `esi` up to `stop`, with `lowFlags` in its lower
    and `high` for its upper half. It is run through once before it looks at `stop`. -/
def mapLoop (lowFlags high stop : BitVec 32) : Nat → (Nat → Byte) → BitVec 32 → BitVec 32 →
    Option ((Nat → Byte) × BitVec 32)
  | 0, _, _, _ => none
  | fuel + 1, m, esi, edi =>
    let (m, edi) := stosd m edi (esi ||| lowFlags)
    let (m, edi) := stosd m edi high
    let esi := esi + 0x1000
    if esi.slt stop then mapLoop lowFlags high stop fuel m esi edi else some (m, edi)

/-- `.low_map` -/
def lowMap (b : BootImage) (fuel : Nat) (m : Nat → Byte) : Option ((Nat → Byte) × BitVec 32) :=
  mapLoop 0x3 0 0x200000 fuel m 0 b.pagingIdLowP1

/-- `.bootstrap_map` -/
def bootstrapMap (b : BootImage) (fuel : Nat) (m : Nat → Byte) :
    Option ((Nat → Byte) × BitVec 32) :=
  mapLoop 0x3 0 0x1200000 fuel m 0x1000000 b.pagingIdBootstrapP1

/-- `.code_map` -/
def codeMap (b : BootImage) (fuel : Nat) (m : Nat → Byte) : Option ((Nat → Byte) × BitVec 32) :=
  mapLoop 0x1 0 b.codeEnd fuel m b.codeBegin
    (b.pagingHighP1 + ((b.codeBegin - 0x1000000) >>> 9))

/-- `.data_map`, which goes on where `.code_map` has stopped. -/
def dataMap (b : BootImage) (fuel : Nat) (m : Nat → Byte) (edi : BitVec 32) :
    Option ((Nat → Byte) × BitVec 32) :=
  mapLoop 0x03 0x80000000 b.dataEnd fuel m b.dataBegin edi

/-- `.phy_repeat` -/
def phyRepeat (b : BootImage) : Nat → (Nat → Byte) → BitVec 32 → BitVec 32 → (Nat → Byte)
  | 0, m, _, _ => m
  | ecx + 1, m, eax, ebx =>
    let m := movDword m (ebx + b.pagingPhyP3) 0x83
    let m := movDword m (ebx + b.pagingPhyP3 + 4) eax
    let m := movDword m (ebx + b.pagingPhyP3 + 8) (0x83 + 0x40000000)
    let m := movDword m (ebx + b.pagingPhyP3 + 12) eax
    let m := movDword m (ebx + b.pagingPhyP3 + 16) (0x83 + 0x80000000)
    let m := movDword m (ebx + b.pagingPhyP3 + 20) eax
    let m := movDword m (ebx + b.pagingPhyP3 + 24) (0x83 + 0xc0000000)
    let m := movDword m (ebx + b.pagingPhyP3 + 28) eax
    phyRepeat b ecx m (eax + 1) (ebx + 32)

/-- `setup_paging`, up to the load of `cr3`. -/
def setupPaging (b : BootImage) (fuel : Nat) (m : Nat → Byte) : Option (Nat → Byte) := do
  let m := repStosd ((b.pagingDataEnd - b.pagingData) >>> 2).toNat m b.pagingData
  let m := movDword m b.pagingP4 (b.pagingIdP3 + 0x03)
  let m := movDword m b.pagingIdP3 (b.pagingIdP2 + 0x03)
  let m := movDword m b.pagingIdP2 (b.pagingIdLowP1 + 0x03)
  let m := movDword m (b.pagingIdP2 + 8 * 8) (b.pagingIdBootstrapP1 + 0x03)
  let (m, _) ← lowMap b fuel m
  let (m, _) ← bootstrapMap b fuel m
  let m := movDword m (b.pagingP4 + 511 * 8) (b.pagingHighP3 ||| 3)
  let m := movDword m (b.pagingHighP3 + 510 * 8) (b.pagingHighP2 ||| 3)
  let m := movDword m b.pagingHighP2 (b.pagingHighP1 ||| 3)
  let (m, edi) ← codeMap b fuel m
  let (m, _) ← dataMap b fuel m edi
  let m := phyRepeat b 16 m 0 0
  return movDword m (b.pagingP4 + 384 * 8) (b.pagingPhyP3 ||| 3)

/-! ## What it is for -/

/-- The words of a memory of bytes. -/
def memWords (m : Nat → Byte) : Phys := fun a => BitVec.ofNat 64 (ofLe (load m a.toNat 8))

/-- Where the processor gets to: the physical address, by the size of the page that the walk ends
    at, and the bits of the entry that are no address. -/
def resolve (m : Phys) (root va : Word) : Option (Nat × Nat) := do
  let walk ← translate m root va
  let entry ← walk.getLast?
  let size := 2 ^ (12 + (4 - walk.length) * 9)
  return (entry.toNat % 2 ^ 52 / size * size + va.toNat % size,
    entry.toNat % 0x1000 + entry.toNat / 2 ^ 52 * 2 ^ 52)

/-- The number of pages that a loop from `start` to `stop` stores. -/
def loopPages (start stop : BitVec 32) : Nat := (stop.toNat - start.toNat + 0xfff) / 0x1000

/-- What the linker script sees to: the tables and the sections are page-aligned and in the kernel's
    2 MB, the data begins on the page behind the code, and neither section is empty. -/
structure BootImage.Linked (b : BootImage) : Prop where
  tables_aligned : b.pagingData.toNat % 0x1000 = 0
  tables_low : 0x1000000 ≤ b.pagingData.toNat
  tables_high : b.pagingData.toNat + 0x9000 ≤ b.codeBegin.toNat
  code_aligned : b.codeBegin.toNat % 0x1000 = 0
  code : b.codeBegin.toNat < b.codeEnd.toNat
  data_begin : b.dataBegin.toNat = b.codeBegin.toNat + loopPages b.codeBegin b.codeEnd * 0x1000
  data : b.dataBegin.toNat < b.dataEnd.toNat
  fits : b.dataEnd.toNat ≤ 0x1200000

/-- What an address is for, by the 48 bits that a walk uses: the physical address and the rights. -/
def BootImage.place (b : BootImage) (v : Nat) : Option (Nat × Nat) :=
  if v < 0x200000 ∨ 0x1000000 ≤ v ∧ v < 0x1200000 then some (v, 0x3)
  else if 0xc00000000000 ≤ v ∧ v < 0xc00000000000 + 64 * 0x40000000 then
    some (v - 0xc00000000000, 0x83)
  else
    let a := v - 0xffff80000000 + 0x1000000
    if v < 0xffff80000000 then none
    else if b.codeBegin.toNat ≤ a ∧ a < b.dataBegin.toNat then some (a, 0x1)
    else if b.dataBegin.toNat ≤ a ∧
        a < b.dataBegin.toNat + loopPages b.dataBegin b.dataEnd * 0x1000 then
      some (a, 0x3 + 2 ^ 63)
    else none

/-- The index of a page of the kernel in its last table. -/
def kernelIndex (a : BitVec 32) : Nat := (a.toNat - 0x1000000) / 0x1000

namespace BootImage

variable (b : BootImage)

/-- The entries of `paging_p4`. -/
def p4Entry (i : Nat) : Nat :=
  if i = 0 then b.pagingIdP3.toNat + 3
  else if i = 511 then b.pagingHighP3.toNat + 3
  else if i = 384 then b.pagingPhyP3.toNat + 3 else 0

/-- The entries of a table that leads on in one place only. -/
def linkEntry (slot : Nat) (next : BitVec 32) (i : Nat) : Nat :=
  if i = slot then next.toNat + 3 else 0

/-- The entries of `paging_id_p2`. -/
def idP2Entry (i : Nat) : Nat :=
  if i = 0 then b.pagingIdLowP1.toNat + 3
  else if i = 8 then b.pagingIdBootstrapP1.toNat + 3 else 0

/-- The entries of a table that maps 2 MB from `base` on. -/
def idP1Entry (base i : Nat) : Nat := base + i * 0x1000 + 3

/-- The entries of `paging_high_p1`. -/
def highP1Entry (i : Nat) : Nat :=
  if kernelIndex b.codeBegin ≤ i ∧ i < kernelIndex b.dataBegin then 0x1000000 + i * 0x1000 + 1
  else if kernelIndex b.dataBegin ≤ i ∧
      i < kernelIndex b.dataBegin + loopPages b.dataBegin b.dataEnd then
    0x1000000 + i * 0x1000 + 3 + 2 ^ 63
  else 0

/-- The entries of `paging_phy_p3`. -/
def phyP3Entry (i : Nat) : Nat := if i < 64 then i * 0x40000000 + 0x83 else 0

/-- The entries of the nine tables. -/
def entries : Nat → Nat → Nat
  | 0 => b.p4Entry
  | 1 => linkEntry 0 b.pagingIdP2
  | 2 => b.idP2Entry
  | 3 => idP1Entry 0
  | 4 => idP1Entry 0x1000000
  | 5 => linkEntry 510 b.pagingHighP2
  | 6 => linkEntry 0 b.pagingHighP1
  | 7 => b.highP1Entry
  | _ => phyP3Entry

end BootImage

/-- The quad word at an address. -/
def qword (m : Nat → Byte) (a : Nat) : Nat := ofLe (load m a 8)

/-- The nine tables at `P` hold these entries, and other memory is as in `m₀`. -/
structure TablesAt (P : Nat) (T : Nat → Nat → Nat) (m₀ m : Nat → Byte) : Prop where
  entry : ∀ j < 9, ∀ i < 512, qword m (P + j * 0x1000 + i * 8) = T j i
  others : ∀ a, (a < P ∨ P + 0x9000 ≤ a) → m a = m₀ a

/-- One entry of the tables. -/
def setEntry (T : Nat → Nat → Nat) (j i v : Nat) : Nat → Nat → Nat := fun j' i' =>
  if j' = j ∧ i' = i then v else T j' i'

/-- A stretch of entries of a table. -/
def setEntries (T : Nat → Nat → Nat) (j c n : Nat) (f : Nat → Nat) : Nat → Nat → Nat := fun j' i' =>
  if j' = j ∧ c ≤ i' ∧ i' < c + n then f (i' - c) else T j' i'

section
variable {P : Nat} {T : Nat → Nat → Nat} {m₀ m : Nat → Byte} {j i v : Nat}

/-! ## Stores -/

theorem qword_store_off {xs : List Byte} {a s : Nat} (h : a + 8 ≤ s ∨ s + xs.length ≤ a) :
    qword (store m s xs) a = qword m a := by
  rw [qword, load_store_of_disjoint h, qword]

theorem qword_split (m : Nat → Byte) (a : Nat) :
    qword m a = ofLe (load m a 4) + 2 ^ 32 * ofLe (load m (a + 4) 4) := by
  rw [qword, show 8 = 4 + 4 from rfl, load_add, ofLe_append, length_load]
  rfl

theorem load_store_four {s v : Nat} (hv : v < 2 ^ 32) :
    ofLe (load (store m s (toLe 4 v)) s 4) = v := by
  have hself : load (store m s (toLe 4 v)) s (toLe 4 v).length = toLe 4 v := load_store_self
  rw [length_toLe] at hself
  rw [hself, ofLe_toLe_of_lt (by omega)]

/-- A store to the lower half of an entry whose upper half is clear. -/
theorem TablesAt.low (h : TablesAt P T m₀ m) (hj : j < 9) (hi : i < 512) (hT : T j i < 2 ^ 32)
    (hv : v < 2 ^ 32) :
    TablesAt P (setEntry T j i v) m₀ (store m (P + j * 0x1000 + i * 8) (toLe 4 v)) := by
  refine ⟨fun j' hj' i' hi' => ?_, fun a ha => ?_⟩
  · rw [setEntry]
    by_cases hsame : j' = j ∧ i' = i
    · obtain ⟨rfl, rfl⟩ := hsame
      have hold := h.entry j' hj i' hi
      rw [qword_split] at hold
      have hhigh : load (store m (P + j' * 0x1000 + i' * 8) (toLe 4 v))
          (P + j' * 0x1000 + i' * 8 + 4) 4 = load m (P + j' * 0x1000 + i' * 8 + 4) 4 := by
        apply load_store_of_disjoint
        rw [length_toLe]
        omega
      rw [if_pos ⟨rfl, rfl⟩, qword_split, load_store_four hv, hhigh]
      omega
    · rw [if_neg hsame, qword_store_off, h.entry j' hj' i' hi']
      rw [length_toLe]
      omega
  · rw [← h.others a ha]
    rcases ha with ha | ha
    · exact store_of_lt (by omega)
    · apply store_of_le
      rw [length_toLe]
      omega

/-- Both halves of an entry. -/
theorem TablesAt.both {lo hi : Nat} (h : TablesAt P T m₀ m) (hj : j < 9) (hi' : i < 512)
    (hlo : lo < 2 ^ 32) (hhi : hi < 2 ^ 32) :
    TablesAt P (setEntry T j i (lo + 2 ^ 32 * hi)) m₀
      (store (store m (P + j * 0x1000 + i * 8) (toLe 4 lo)) (P + j * 0x1000 + i * 8 + 4)
        (toLe 4 hi)) := by
  refine ⟨fun j' hj' k hk => ?_, fun a ha => ?_⟩
  · rw [setEntry]
    by_cases hsame : j' = j ∧ k = i
    · obtain ⟨rfl, rfl⟩ := hsame
      rw [if_pos ⟨rfl, rfl⟩, qword_split, load_store_four hhi]
      have hlow : load (store (store m (P + j' * 0x1000 + k * 8) (toLe 4 lo))
          (P + j' * 0x1000 + k * 8 + 4) (toLe 4 hi)) (P + j' * 0x1000 + k * 8) 4 =
          load (store m (P + j' * 0x1000 + k * 8) (toLe 4 lo)) (P + j' * 0x1000 + k * 8) 4 :=
        load_store_of_disjoint (by omega)
      rw [hlow, load_store_four hlo]
    · rw [if_neg hsame, qword_store_off, qword_store_off, h.entry j' hj' k hk]
      · rw [length_toLe]
        omega
      · rw [length_toLe]
        omega
  · rw [← h.others a ha]
    rcases ha with ha | ha
    · rw [store_of_lt (by omega), store_of_lt (by omega)]
    · rw [store_of_le, store_of_le]
      · rw [length_toLe]
        omega
      · rw [length_toLe]
        omega

theorem TablesAt.congr {T' : Nat → Nat → Nat} (h : TablesAt P T m₀ m)
    (heq : ∀ j < 9, ∀ i < 512, T j i = T' j i) : TablesAt P T' m₀ m :=
  ⟨fun j hj i hi => (h.entry j hj i hi).trans (heq j hj i hi), h.others⟩

/-! ## The loops -/

/-- Flags in the low twelve bits of a page's address. -/
theorem toNat_or_flags {w : Nat} {a flags : BitVec w} (ha : a.toNat % 0x1000 = 0)
    (hflags : flags.toNat < 0x1000) : (a ||| flags).toNat = a.toNat + flags.toNat := by
  have hor := Nat.two_pow_add_eq_or_of_lt (i := 12) (b := flags.toNat) hflags (a.toNat / 0x1000)
  have hmul : 2 ^ 12 * (a.toNat / 0x1000) = a.toNat := by omega
  rw [hmul] at hor
  rw [BitVec.toNat_or, ← hor]

theorem slt_of_low {a b : BitVec 32} (ha : a.toNat < 2 ^ 31) (hb : b.toNat < 2 ^ 31) :
    a.slt b = decide (a.toNat < b.toNat) := by
  have hint : ∀ c : BitVec 32, c.toNat < 2 ^ 31 → c.toInt = c.toNat := by
    intro c hc
    apply BitVec.toInt_eq_toNat_of_lt
    omega
  rw [BitVec.slt, hint a ha, hint b hb]
  simp

/-- One more entry of a stretch. -/
theorem setEntries_cons (T : Nat → Nat → Nat) (j i n : Nat) (f : Nat → Nat) :
    setEntries (setEntry T j i (f 0)) j (i + 1) n (fun k => f (k + 1)) =
      setEntries T j i (n + 1) f := by
  funext j' i'
  simp only [setEntries, setEntry]
  by_cases hj : j' = j
  · by_cases hi : i' = i
    · subst hi
      rw [if_neg (by omega), if_pos ⟨hj, rfl⟩, if_pos (by omega), Nat.sub_self]
    · by_cases hin : i + 1 ≤ i' ∧ i' < i + 1 + n
      · rw [if_pos ⟨hj, hin⟩, if_pos (by omega), show i' - (i + 1) + 1 = i' - i by omega]
      · rw [if_neg (by omega), if_neg (by omega), if_neg (by omega)]
  · rw [if_neg (by omega), if_neg (by omega), if_neg (by omega)]

/-- One turn of a loop over pages. -/
theorem mapLoop_turn {lowFlags esi edi : BitVec 32} (high : BitVec 32) (hP : P + 0x9000 < 2 ^ 31)
    (hflags : lowFlags.toNat < 0x1000) (hj : j < 9) (hi : i < 512) (h : TablesAt P T m₀ m)
    (hesi : esi.toNat % 0x1000 = 0) (hedi : edi.toNat = P + j * 0x1000 + i * 8) :
    TablesAt P (setEntry T j i (esi.toNat + lowFlags.toNat + 2 ^ 32 * high.toNat)) m₀
        (stosd (stosd m edi (esi ||| lowFlags)).1 (stosd m edi (esi ||| lowFlags)).2 high).1 ∧
      (stosd (stosd m edi (esi ||| lowFlags)).1 (stosd m edi (esi ||| lowFlags)).2 high).2.toNat =
        P + j * 0x1000 + (i + 1) * 8 := by
  have hor := toNat_or_flags hesi hflags
  have hlt := (esi ||| lowFlags).isLt
  rw [hor] at hlt
  obtain ⟨hmem₁, hedi₁⟩ := stosd_eq m edi (esi ||| lowFlags) (by omega)
  rw [hedi] at hedi₁
  obtain ⟨hmem₂, hedi₂⟩ := stosd_eq (stosd m edi (esi ||| lowFlags)).1
    (stosd m edi (esi ||| lowFlags)).2 high (by omega)
  rw [hedi₁] at hmem₂ hedi₂
  constructor
  · rw [hmem₂, hmem₁, hor, hedi]
    exact h.both hj hi hlt high.isLt
  · rw [hedi₂]
    omega

/-- **A loop over pages** stores one entry for each. -/
theorem mapLoop_tables (lowFlags high stop : BitVec 32) (hP : P + 0x9000 < 2 ^ 31)
    (hflags : lowFlags.toNat < 0x1000) (hstop : stop.toNat < 2 ^ 31 - 0x1000) (hj : j < 9)
    (n : Nat) : ∀ (fuel : Nat) (m : Nat → Byte) (T : Nat → Nat → Nat) (esi edi : BitVec 32)
      (i : Nat),
      TablesAt P T m₀ m → esi.toNat % 0x1000 = 0 → edi.toNat = P + j * 0x1000 + i * 8 →
      esi.toNat + n * 0x1000 < stop.toNat → stop.toNat ≤ esi.toNat + (n + 1) * 0x1000 →
      i + n < 512 → n < fuel →
      ∃ m' edi', mapLoop lowFlags high stop fuel m esi edi = some (m', edi') ∧
        edi'.toNat = P + j * 0x1000 + (i + n + 1) * 8 ∧
        TablesAt P (setEntries T j i (n + 1) fun k =>
          esi.toNat + k * 0x1000 + lowFlags.toNat + 2 ^ 32 * high.toNat) m₀ m' := by
  induction n with
  | zero =>
    intro fuel m T esi edi i h hesi hedi hlt hle hi hfuel
    obtain ⟨fuel, rfl⟩ : ∃ f, fuel = f + 1 := ⟨fuel - 1, by omega⟩
    obtain ⟨htables, hnext⟩ := mapLoop_turn high hP hflags hj (by omega) h hesi hedi
    have hesi' : (esi + 0x1000).toNat = esi.toNat + 0x1000 :=
      toNat_add_ofNat (n := 0x1000) (by omega)
    have hdone : ¬ (esi + 0x1000).slt stop = true := by
      rw [slt_of_low (by omega) (by omega), decide_eq_true_eq]
      omega
    refine ⟨_, _, ?_, hnext, htables.congr fun j' _ i' _ => ?_⟩
    · rw [mapLoop]
      simp only [if_neg hdone]
    · rw [setEntry, setEntries]
      by_cases hsame : j' = j ∧ i' = i
      · rw [if_pos hsame, if_pos (by omega), hsame.2, Nat.sub_self, Nat.zero_mul, Nat.add_zero]
      · rw [if_neg hsame, if_neg (by omega)]
  | succ n ih =>
    intro fuel m T esi edi i h hesi hedi hlt hle hi hfuel
    obtain ⟨fuel, rfl⟩ : ∃ f, fuel = f + 1 := ⟨fuel - 1, by omega⟩
    obtain ⟨htables, hnext⟩ := mapLoop_turn high hP hflags hj (by omega) h hesi hedi
    have hesi' : (esi + 0x1000).toNat = esi.toNat + 0x1000 :=
      toNat_add_ofNat (n := 0x1000) (by omega)
    have hmore : (esi + 0x1000).slt stop = true := by
      rw [slt_of_low (by omega) (by omega), decide_eq_true_eq]
      omega
    obtain ⟨m', edi', hrun, hedi', htables'⟩ := ih fuel _ _ (esi + 0x1000) _ (i + 1) htables
      (by omega) hnext (by omega) (by omega) (by omega) (by omega)
    refine ⟨m', edi', ?_, ?_, htables'.congr fun j' _ i' _ => ?_⟩
    · rw [mapLoop]
      simp only [if_pos hmore]
      exact hrun
    · rw [hedi']
      omega
    · have hcons := setEntries_cons T j i (n + 1) fun k =>
        esi.toNat + k * 0x1000 + lowFlags.toNat + 2 ^ 32 * high.toNat
      rw [Nat.zero_mul, Nat.add_zero] at hcons
      have hshift : (fun k =>
            esi.toNat + 0x1000 + k * 0x1000 + lowFlags.toNat + 2 ^ 32 * high.toNat) =
          fun k => esi.toNat + (k + 1) * 0x1000 + lowFlags.toNat + 2 ^ 32 * high.toNat := by
        funext k
        omega
      rw [← hcons, hesi', hshift]

theorem ofLe_zeros {l : List Byte} (h : ∀ x ∈ l, x = 0) : ofLe l = 0 := by
  induction l with
  | nil => rfl
  | cons x l ih =>
    rw [ofLe, h x List.mem_cons_self, ih fun y hy => h y (List.mem_cons_of_mem x hy)]
    rfl

/-- The tables are cleared. -/
theorem repStosd_tables (m : Nat → Byte) (edi : BitVec 32) (h : edi.toNat + 0x9000 < 2 ^ 31) :
    TablesAt edi.toNat (fun _ _ => 0) m (repStosd 0x2400 m edi) := by
  rw [repStosd_zero 0x2400 (by omega)]
  have hlength : (List.replicate (4 * 0x2400) (0 : Byte)).length = 0x9000 := by
    rw [List.length_replicate]
  generalize hzeros : List.replicate (4 * 0x2400) (0 : Byte) = zeros at hlength
  have hall : ∀ x ∈ zeros, x = 0 := by
    rw [← hzeros]
    exact fun x hx => List.eq_of_mem_replicate hx
  have hzero : ∀ a, edi.toNat ≤ a → a < edi.toNat + 0x9000 → store m edi.toNat zeros a = 0 := by
    intro a hle hlt
    obtain ⟨k, rfl⟩ := Nat.exists_eq_add_of_le hle
    have hk : k < zeros.length := by omega
    rw [store_add hk]
    exact hall _ (List.getElem_mem hk)
  refine ⟨fun j hj i hi => ofLe_zeros fun x hx => ?_, fun a ha => ?_⟩
  · obtain ⟨k, hk, rfl⟩ := List.mem_map.mp hx
    have hk8 := List.mem_range.mp hk
    exact hzero _ (by omega) (by omega)
  · rcases ha with ha | ha
    · exact store_of_lt ha
    · exact store_of_le (by omega)

/-- One page of 1 GB. -/
theorem movDword_pair (lo hi : BitVec 32) {a a' : BitVec 32} (h : TablesAt P T m₀ m) (hj : j < 9)
    (hi' : i < 512) (ha : a.toNat = P + j * 0x1000 + i * 8) (ha' : a'.toNat = a.toNat + 4) :
    TablesAt P (setEntry T j i (lo.toNat + 2 ^ 32 * hi.toNat)) m₀
      (movDword (movDword m a lo) a' hi) := by
  have hboth := h.both hj hi' lo.isLt hi.isLt
  rw [movDword, movDword, ha', ha]
  exact hboth

/-- The four entries of one turn, before those of the turns behind it. -/
theorem setEntries_four (T : Nat → Nat → Nat) (e n j' i' : Nat) :
    setEntries (setEntry (setEntry (setEntry (setEntry T 8 (4 * e) (0x83 + 2 ^ 32 * e))
      8 (4 * e + 1) (0x40000083 + 2 ^ 32 * e)) 8 (4 * e + 2) (0x80000083 + 2 ^ 32 * e))
      8 (4 * e + 3) (0xc0000083 + 2 ^ 32 * e)) 8 (4 * (e + 1)) (4 * n)
      (fun k => (4 * (e + 1) + k) * 0x40000000 + 0x83) j' i' =
    setEntries T 8 (4 * e) (4 * (n + 1)) (fun k => (4 * e + k) * 0x40000000 + 0x83) j' i' := by
  simp only [setEntries, setEntry]
  by_cases hj : j' = 8
  · by_cases hrest : 4 * (e + 1) ≤ i' ∧ i' < 4 * (e + 1) + 4 * n
    · rw [if_pos ⟨hj, hrest⟩, if_pos (by omega)]
      omega
    · rw [if_neg (by omega)]
      split_ifs <;> omega
  · rw [if_neg (by omega), if_neg (by omega), if_neg (by omega), if_neg (by omega),
      if_neg (by omega), if_neg (by omega)]

/-- **The physical memory map** -/
theorem phyRepeat_tables {b : BootImage} (hb : b.pagingPhyP3.toNat = P + 8 * 0x1000)
    (hP : P + 0x9000 < 2 ^ 31) (n : Nat) : ∀ (m : Nat → Byte) (T : Nat → Nat → Nat)
      (eax ebx : BitVec 32), TablesAt P T m₀ m → ebx.toNat = 32 * eax.toNat →
      4 * (eax.toNat + n) ≤ 64 →
      TablesAt P (setEntries T 8 (4 * eax.toNat) (4 * n) fun k =>
        (4 * eax.toNat + k) * 0x40000000 + 0x83) m₀ (phyRepeat b n m eax ebx) := by
  induction n with
  | zero =>
    intro m T eax ebx h _ _
    refine h.congr fun j _ i _ => ?_
    rw [setEntries, if_neg (by omega)]
  | succ n ih =>
    intro m T eax ebx h hebx hle
    have hbase : (ebx + b.pagingPhyP3).toNat = P + 8 * 0x1000 + 4 * eax.toNat * 8 := by
      rw [BitVec.toNat_add, hb, hebx]
      omega
    have hadd : ∀ k, k ≤ 28 → (ebx + b.pagingPhyP3 + BitVec.ofNat 32 k).toNat =
        P + 8 * 0x1000 + 4 * eax.toNat * 8 + k := by
      intro k hk
      rw [toNat_add_ofNat (by omega), hbase]
    have h₁ := movDword_pair 0x83 eax (i := 4 * eax.toNat) h (by omega : 8 < 9) (by omega) hbase
      ((hadd 4 (by omega)).trans (by rw [hbase]))
    have h₂ := movDword_pair (0x83 + 0x40000000) eax (i := 4 * eax.toNat + 1) h₁ (by omega : 8 < 9)
      (by omega) ((hadd 8 (by omega)).trans (by omega))
      ((hadd 12 (by omega)).trans (by rw [hadd 8 (by omega)]))
    have h₃ := movDword_pair (0x83 + 0x80000000) eax (i := 4 * eax.toNat + 2) h₂ (by omega : 8 < 9)
      (by omega) ((hadd 16 (by omega)).trans (by omega))
      ((hadd 20 (by omega)).trans (by rw [hadd 16 (by omega)]))
    have h₄ := movDword_pair (0x83 + 0xc0000000) eax (i := 4 * eax.toNat + 3) h₃ (by omega : 8 < 9)
      (by omega) ((hadd 24 (by omega)).trans (by omega))
      ((hadd 28 (by omega)).trans (by rw [hadd 24 (by omega)]))
    rw [show (0x83 : BitVec 32).toNat = 0x83 from rfl] at h₁ h₂ h₃ h₄
    have heax : (eax + 1).toNat = eax.toNat + 1 := toNat_add_ofNat (n := 1) (by omega)
    have hebx' : (ebx + 32).toNat = 32 * (eax + 1).toNat := by
      rw [heax, BitVec.toNat_add, hebx, show (32 : BitVec 32).toNat = 32 from rfl]
      omega
    have hrest := ih _ _ (eax + 1) (ebx + 32) h₄ hebx' (by omega)
    rw [heax] at hrest
    refine hrest.congr fun j' _ i' _ => ?_
    exact setEntries_four T eax.toNat n j' i'

/-! ## The tables -/

theorem movDword_entry {a v : BitVec 32} {e : Nat} (h : TablesAt P T m₀ m) (hj : j < 9)
    (hi : i < 512) (ha : a.toNat = P + j * 0x1000 + i * 8) (hT : T j i < 2 ^ 32)
    (hv : v.toNat = e) :
    TablesAt P (setEntry T j i e) m₀ (movDword m a v) := by
  rw [movDword, ha, hv]
  exact h.low hj hi hT (hv ▸ v.isLt)

theorem BootImage.Linked.bounds {b : BootImage} (hb : b.Linked) :
    b.pagingData.toNat + 0x9000 ≤ 0x1200000 := by
  have := hb.tables_high
  have := hb.code
  have := hb.data
  have := hb.fits
  have := hb.data_begin
  omega

theorem BootImage.Linked.table {b : BootImage} (hb : b.Linked) {k : Nat} (hk : k ≤ 9) :
    (b.pagingData + BitVec.ofNat 32 (k * 0x1000)).toNat = b.pagingData.toNat + k * 0x1000 := by
  have := hb.bounds
  exact toNat_add_ofNat (by omega)

theorem loopPages_bounds {start stop : BitVec 32} (h : start.toNat < stop.toNat) :
    ∃ n, loopPages start stop = n + 1 ∧ start.toNat + n * 0x1000 < stop.toNat ∧
      stop.toNat ≤ start.toNat + (n + 1) * 0x1000 := by
  refine ⟨(stop.toNat - start.toNat + 0xfff) / 0x1000 - 1, ?_, ?_, ?_⟩
  · rw [loopPages]
    omega
  · omega
  · omega

/-- What has been written, the last first. -/
theorem written_entries {b : BootImage} {nc nd : Nat}
    (hnd : loopPages b.dataBegin b.dataEnd = nd + 1)
    (hdi : kernelIndex b.dataBegin = kernelIndex b.codeBegin + nc + 1)
    (hcode : b.codeBegin.toNat = 0x1000000 + kernelIndex b.codeBegin * 0x1000)
    (hdata : b.dataBegin.toNat = 0x1000000 + (kernelIndex b.codeBegin + nc + 1) * 0x1000)
    (hj : j < 9) (hi : i < 512) :
    setEntry (setEntries (setEntries (setEntries (setEntry (setEntry (setEntry (setEntries
      (setEntries
      (setEntry (setEntry (setEntry (setEntry (fun _ _ => 0)
        0 0 (b.pagingIdP3.toNat + 3)) 1 0 (b.pagingIdP2.toNat + 3))
        2 0 (b.pagingIdLowP1.toNat + 3)) 2 8 (b.pagingIdBootstrapP1.toNat + 3))
        3 0 512 (fun k => 0 + k * 0x1000 + 3 + 2 ^ 32 * 0))
        4 0 512 (fun k => 0x1000000 + k * 0x1000 + 3 + 2 ^ 32 * 0))
        0 511 (b.pagingHighP3.toNat + 3)) 5 510 (b.pagingHighP2.toNat + 3))
        6 0 (b.pagingHighP1.toNat + 3))
        7 (kernelIndex b.codeBegin) (nc + 1)
          (fun k => b.codeBegin.toNat + k * 0x1000 + 1 + 2 ^ 32 * 0))
        7 (kernelIndex b.codeBegin + nc + 1) (nd + 1)
          (fun k => b.dataBegin.toNat + k * 0x1000 + 3 + 2 ^ 32 * 2 ^ 31))
        8 (4 * 0) (4 * 16) (fun k => (4 * 0 + k) * 0x40000000 + 0x83))
        0 384 (b.pagingPhyP3.toNat + 3) j i = b.entries j i := by
  simp only [setEntry, setEntries]
  interval_cases j
  all_goals
    simp only [BootImage.entries, BootImage.p4Entry, BootImage.linkEntry, BootImage.idP2Entry,
      BootImage.idP1Entry, BootImage.highP1Entry, BootImage.phyP3Entry, Nat.reduceEqDiff, false_and,
      true_and, if_false, hdi, hnd]
  case «7» =>
    by_cases hc : kernelIndex b.codeBegin ≤ i ∧ i < kernelIndex b.codeBegin + nc + 1
    · rw [if_neg (by omega), if_pos (by omega), if_pos hc]
      omega
    · by_cases hd : kernelIndex b.codeBegin + nc + 1 ≤ i ∧
          i < kernelIndex b.codeBegin + nc + 1 + (nd + 1)
      · rw [if_pos hd, if_neg hc, if_pos hd]
        omega
      · rw [if_neg hd, if_neg (by omega), if_neg hc, if_neg hd]
  case «8» =>
    simp only [Nat.mul_zero, Nat.zero_add, Nat.sub_zero, Nat.zero_le, true_and, Nat.reduceMul]
  all_goals
    clear hnd hdi hcode hdata
    split_ifs <;> omega

/-- `setup_paging` fills the tables. -/
theorem setupPaging_tables {b : BootImage} (hb : b.Linked) {fuel : Nat} (hfuel : 512 ≤ fuel)
    (m : Nat → Byte) :
    ∃ m', setupPaging b fuel m = some m' ∧ TablesAt b.pagingData.toNat b.entries m m' := by
  have hbounds := hb.bounds
  have haligned := hb.tables_aligned
  have hlow := hb.tables_low
  have h0 : b.pagingP4.toNat = b.pagingData.toNat := rfl
  have h1 : b.pagingIdP3.toNat = b.pagingData.toNat + 1 * 0x1000 := hb.table (k := 1) (by omega)
  have h2 : b.pagingIdP2.toNat = b.pagingData.toNat + 2 * 0x1000 := hb.table (k := 2) (by omega)
  have h3 : b.pagingIdLowP1.toNat = b.pagingData.toNat + 3 * 0x1000 := hb.table (k := 3) (by omega)
  have h4 : b.pagingIdBootstrapP1.toNat = b.pagingData.toNat + 4 * 0x1000 :=
    hb.table (k := 4) (by omega)
  have h5 : b.pagingHighP3.toNat = b.pagingData.toNat + 5 * 0x1000 := hb.table (k := 5) (by omega)
  have h6 : b.pagingHighP2.toNat = b.pagingData.toNat + 6 * 0x1000 := hb.table (k := 6) (by omega)
  have h7 : b.pagingHighP1.toNat = b.pagingData.toNat + 7 * 0x1000 := hb.table (k := 7) (by omega)
  have h8 : b.pagingPhyP3.toNat = b.pagingData.toNat + 8 * 0x1000 := hb.table (k := 8) (by omega)
  have hcount : ((b.pagingDataEnd - b.pagingData) >>> 2).toNat = 0x2400 := by
    rw [BootImage.pagingDataEnd, BitVec.add_comm, BitVec.add_sub_cancel]
    rfl
  have hcode := hb.code
  have hdata := hb.data
  have hfits := hb.fits
  have hnext := hb.data_begin
  have hcodeAligned := hb.code_aligned
  have hfirst := hb.tables_high
  have hm₀ := repStosd_tables m b.pagingData (by omega)
  have hm₁ := movDword_entry (a := b.pagingP4) (v := b.pagingIdP3 + 3) (i := 0) hm₀
    (by omega : 0 < 9) (by omega) rfl (by omega) (toNat_add_ofNat (n := 3) (by omega))
  have hm₂ := movDword_entry (a := b.pagingIdP3) (v := b.pagingIdP2 + 3) (i := 0) hm₁
    (by omega : 1 < 9) (by omega) h1 (by simp [setEntry]) (toNat_add_ofNat (n := 3) (by omega))
  have hm₃ := movDword_entry (a := b.pagingIdP2) (v := b.pagingIdLowP1 + 3) (i := 0) hm₂
    (by omega : 2 < 9) (by omega) h2 (by simp [setEntry]) (toNat_add_ofNat (n := 3) (by omega))
  have hm₄ := movDword_entry (a := b.pagingIdP2 + 8 * 8) (v := b.pagingIdBootstrapP1 + 3)
    (i := 8) hm₃
    (by omega : 2 < 9) (by omega) ((toNat_add_ofNat (n := 64) (by omega)).trans (by omega))
    (by simp [setEntry]) (toNat_add_ofNat (n := 3) (by omega))
  obtain ⟨m₅, edi₅, hrun₅, -, hm₅⟩ := mapLoop_tables 0x3 0 0x200000 (by omega)
    (by decide) (by decide) (by omega : 3 < 9) 511 fuel _ _ 0 b.pagingIdLowP1 0 hm₄ rfl h3
    (by decide) (by decide) (by omega) (by omega)
  obtain ⟨m₆, edi₆, hrun₆, -, hm₆⟩ := mapLoop_tables 0x3 0 0x1200000 (by omega)
    (by decide) (by decide) (by omega : 4 < 9) 511 fuel _ _ 0x1000000
    b.pagingIdBootstrapP1 0 hm₅ rfl h4 (by decide) (by decide) (by omega) (by omega)
  have hm₇ := movDword_entry (a := b.pagingP4 + 511 * 8) (v := b.pagingHighP3 ||| 3) (i := 511) hm₆
    (by omega : 0 < 9) (by omega) ((toNat_add_ofNat (n := 4088) (by rw [h0]; omega)).trans
      (by rw [h0])) (by simp [setEntry, setEntries])
    (toNat_or_flags (by omega) (by decide))
  have hm₈ := movDword_entry (a := b.pagingHighP3 + 510 * 8) (v := b.pagingHighP2 ||| 3)
    (i := 510) hm₇
    (by omega : 5 < 9) (by omega) ((toNat_add_ofNat (n := 4080) (by omega)).trans (by omega))
    (by simp [setEntry, setEntries]) (toNat_or_flags (by omega) (by decide))
  have hm₉ := movDword_entry (a := b.pagingHighP2) (v := b.pagingHighP1 ||| 3) (i := 0) hm₈
    (by omega : 6 < 9) (by omega) (h6.trans (by omega))
    (by simp [setEntry, setEntries]) (toNat_or_flags (by omega) (by decide))
  have hedi : (b.pagingHighP1 + ((b.codeBegin - 0x1000000) >>> 9)).toNat =
      b.pagingData.toNat + 7 * 0x1000 + kernelIndex b.codeBegin * 8 := by
    rw [kernelIndex]
    have hsub : (b.codeBegin - 0x1000000).toNat = b.codeBegin.toNat - 0x1000000 := by
      rw [BitVec.toNat_sub_of_le]
      · rfl
      · rw [BitVec.le_def, show (0x1000000 : BitVec 32).toNat = 0x1000000 from rfl]
        omega
    rw [BitVec.toNat_add, BitVec.toNat_ushiftRight, hsub, h7, Nat.shiftRight_eq_div_pow]
    omega
  obtain ⟨nc, hnc, hclt, hcle⟩ := loopPages_bounds hcode
  obtain ⟨nd, hnd, hdlt, hdle⟩ := loopPages_bounds hdata
  rw [hnc] at hnext
  have hci : kernelIndex b.codeBegin * 0x1000 = b.codeBegin.toNat - 0x1000000 := by
    rw [kernelIndex]
    omega
  have hdi : kernelIndex b.dataBegin = kernelIndex b.codeBegin + nc + 1 := by
    rw [kernelIndex, kernelIndex]
    omega
  obtain ⟨m₁₀, edi₁₀, hrun₁₀, hedi₁₀, hm₁₀⟩ := mapLoop_tables 0x1 0 b.codeEnd (by omega) (by decide)
    (by omega) (by omega : 7 < 9) nc fuel _ _ b.codeBegin _ _ hm₉ hcodeAligned hedi hclt hcle
    (by omega) (by omega)
  have hdataAligned : b.dataBegin.toNat % 0x1000 = 0 := by omega
  obtain ⟨m₁₁, edi₁₁, hrun₁₁, -, hm₁₁⟩ := mapLoop_tables 0x03 0x80000000 b.dataEnd (by omega)
    (by decide) (by omega) (by omega : 7 < 9) nd fuel _ _ b.dataBegin edi₁₀ _ hm₁₀ hdataAligned
    hedi₁₀ hdlt hdle (by omega) (by omega)
  have hm₁₂ := phyRepeat_tables h8 (by omega) 16 _ _ 0 0 hm₁₁ rfl (by decide)
  have hm₁₃ := movDword_entry (a := b.pagingP4 + 384 * 8) (v := b.pagingPhyP3 ||| 3) (i := 384) hm₁₂
    (by omega : 0 < 9) (by omega) ((toNat_add_ofNat (n := 3072) (by rw [h0]; omega)).trans
      (by rw [h0])) (by simp [setEntry, setEntries]) (toNat_or_flags (by omega) (by decide))
  refine ⟨_, ?_, hm₁₃.congr fun j hj i hi => ?_⟩
  · rw [setupPaging, hcount]
    simp only [lowMap, bootstrapMap, codeMap, dataMap, hrun₅, hrun₆, hrun₁₀, hrun₁₁,
      Option.bind_eq_bind, Option.bind_some]
    rfl
  · have hwritten := written_entries hnd hdi (by omega) (by omega) hj hi
    exact hwritten

end

/-! ## What the tables map -/

section
variable {m : Phys} {root va t : Word} {d : Nat}

/-- A walk that comes to an entry for a page ends there. -/
theorem translate_of_page (h : tableAt m root va d = some t) (hp : Present (m (cell t va d)))
    (hpage : IsPage d (m (cell t va d))) :
    ∃ walk, translate m root va = some walk ∧ walk.length = d + 1 ∧
      walk.getLast? = some (m (cell t va d)) := by
  have habove : ∀ k < d, pageAt m root va k = none := by
    intro k hk
    obtain ⟨t₀, h₀, -, hn⟩ := tableAt_above h hk
    refine pageAt_eq_none_iff.mpr fun e he hh => hn ?_
    rw [entryAt, h₀, Option.map_some, Option.some.injEq] at he
    exact he ▸ hh.2
  have hentry : entryAt m root va d = some (m (cell t va d)) := by simp [entryAt, h]
  have hat : pageAt m root va d =
      some ((List.range (d + 1)).filterMap (entryAt m root va)) := by
    rw [pageAt, hentry]
    simp only [Option.bind_eq_bind, Option.bind_some]
    rw [if_pos ⟨hp, hpage⟩]
  refine ⟨(List.range (d + 1)).filterMap (entryAt m root va), ?_, ?_, ?_⟩
  · have hle := tableAt_le_three h
    have hrange : List.range 4 = List.range d ++ d :: List.range' (d + 1) (3 - d) := by
      interval_cases d <;> rfl
    have hnone : (List.range d).findSome? (pageAt m root va) = none := by
      rw [List.findSome?_eq_none_iff]
      intro k hk
      exact habove k (List.mem_range.mp hk)
    rw [translate, hrange, List.findSome?_append, hnone, List.findSome?_cons, hat]
    rfl
  · rw [List.length_filterMap_eq_countP, List.countP_eq_length.mpr]
    · exact List.length_range
    · intro k hk
      obtain ⟨t₀, h₀⟩ := tableAt_of_le h (Nat.le_of_lt_succ (List.mem_range.mp hk))
      simp [entryAt, h₀]
  · rw [List.range_succ, List.filterMap_append]
    simp [hentry]

theorem toNat_and_one (e : Word) : (e &&& 1).toNat = e.toNat % 2 := by
  rw [BitVec.toNat_and]
  exact Nat.and_one_is_mod e.toNat

theorem present_iff {e : Word} : Present e ↔ e.toNat % 2 = 1 := by
  rw [Present, ne_eq, ← BitVec.toNat_inj, toNat_and_one]
  simp

theorem large_iff {e : Word} : e &&& 0x80 ≠ 0 ↔ e.toNat / 128 % 2 = 1 := by
  have hbit : e.getLsbD 7 = decide (e.toNat / 128 % 2 = 1) := Nat.testBit_eq_decide_div_mod_eq
  have hand := BitVec.and_twoPow e 7
  rw [show BitVec.twoPow 64 7 = 0x80 from rfl, hbit] at hand
  rw [hand]
  by_cases h : e.toNat / 128 % 2 = 1
  · simp [h]
  · simp [h]

/-- The words of the tables. -/
theorem TablesAt.cell {P : Nat} {T : Nat → Nat → Nat} {m₀ m : Nat → Byte} {j : Nat}
    (h : TablesAt P T m₀ m) (hP : P % 0x1000 = 0) (hP' : P + 0x9000 < 2 ^ 32) (hj : j < 9)
    (va : Word) (d : Nat) :
    memWords m (cell (BitVec.ofNat 64 (P + j * 0x1000)) va d) =
      BitVec.ofNat 64 (T j (pagingIndex va d).toNat) := by
  have hlt := pagingIndex_lt va d
  have htable : (BitVec.ofNat 64 (P + j * 0x1000)).toNat = P + j * 0x1000 := by
    rw [BitVec.toNat_ofNat]
    omega
  rw [memWords, toNat_cell (by rw [PageAligned, htable]; omega), htable, ← h.entry j hj _ hlt]
  rfl

end

/-- A step down the tables. -/
theorem TablesAt.down {P : Nat} {T : Nat → Nat → Nat} {m₀ m : Nat → Byte} {j d : Nat}
    {root va : Word} (h : TablesAt P T m₀ m) (j' : Nat) (hP : P % 0x1000 = 0)
    (hP' : P + 0x9000 < 2 ^ 32)
    (hj : j < 9) (hj' : j' < 9) (hd : d < 3)
    (ht : tableAt (memWords m) root va d = some (BitVec.ofNat 64 (P + j * 0x1000)))
    (hT : T j (pagingIndex va d).toNat = P + j' * 0x1000 + 3) :
    tableAt (memWords m) root va (d + 1) = some (BitVec.ofNat 64 (P + j' * 0x1000)) := by
  have hcell := h.cell hP hP' hj va d
  rw [hT] at hcell
  have hnat : (BitVec.ofNat 64 (P + j' * 0x1000 + 3)).toNat = P + j' * 0x1000 + 3 := by
    rw [BitVec.toNat_ofNat]
    omega
  refine tableAt_succ_iff.mpr ⟨_, ht, ?_, ?_, ?_⟩
  · rw [hcell, present_iff, hnat]
    omega
  · rw [hcell, IsPage, large_iff, hnat]
    omega
  · rw [hcell, ← BitVec.toNat_inj, toNat_and_pageMask, hnat, BitVec.toNat_ofNat]
    omega

/-- An entry that is clear. -/
theorem TablesAt.clear {P : Nat} {T : Nat → Nat → Nat} {m₀ m : Nat → Byte} {j d : Nat}
    {root va : Word} (h : TablesAt P T m₀ m) (hP : P % 0x1000 = 0) (hP' : P + 0x9000 < 2 ^ 32)
    (hj : j < 9)
    (ht : tableAt (memWords m) root va d = some (BitVec.ofNat 64 (P + j * 0x1000)))
    (hT : T j (pagingIndex va d).toNat = 0) : resolve (memWords m) root va = .none := by
  have hcell := h.cell hP hP' hj va d
  rw [hT] at hcell
  have habs : ¬ Present (memWords m (Refk.cell (BitVec.ofNat 64 (P + j * 0x1000)) va d)) := by
    rw [hcell, present_iff]
    decide
  rw [resolve, translate_of_absent ht habs]
  rfl

/-- A page of the size of the level. -/
theorem TablesAt.page {P : Nat} {T : Nat → Nat → Nat} {m₀ m : Nat → Byte} {j d e : Nat}
    {root va : Word} (h : TablesAt P T m₀ m) (hP : P % 0x1000 = 0) (hP' : P + 0x9000 < 2 ^ 32)
    (hj : j < 9)
    (ht : tableAt (memWords m) root va d = some (BitVec.ofNat 64 (P + j * 0x1000)))
    (hT : T j (pagingIndex va d).toNat = e) (he : e < 2 ^ 64) (hp : e % 2 = 1)
    (hpage : d = 3 ∨ d = 1 ∧ e / 128 % 2 = 1) :
    resolve (memWords m) root va = some
      (e % 2 ^ 52 / 2 ^ (12 + (3 - d) * 9) * 2 ^ (12 + (3 - d) * 9) +
      va.toNat % 2 ^ (12 + (3 - d) * 9), e % 0x1000 + e / 2 ^ 52 * 2 ^ 52) := by
  have hcell := h.cell hP hP' hj va d
  rw [hT] at hcell
  have hnat : (BitVec.ofNat 64 e).toNat = e := by
    rw [BitVec.toNat_ofNat]
    omega
  have hpresent : Present (memWords m (Refk.cell (BitVec.ofNat 64 (P + j * 0x1000)) va d)) := by
    rw [hcell, present_iff, hnat]
    exact hp
  have hends : IsPage d (memWords m (Refk.cell (BitVec.ofNat 64 (P + j * 0x1000)) va d)) := by
    rw [hcell, IsPage, large_iff, hnat]
    omega
  obtain ⟨walk, hwalk, hlength, hlast⟩ := translate_of_page ht hpresent hends
  rw [resolve, hwalk]
  simp only [Option.bind_eq_bind, Option.bind_some, hlast, hlength, hcell, hnat]
  rw [show 4 - (d + 1) = 3 - d by omega]
  rfl

section
variable {b : BootImage} {m₀ m : Nat → Byte} {va : Word}

/-- The part of an address that a walk uses, by its indices. -/
theorem toNat_indices (va : Word) :
    va.toNat % 2 ^ 48 = (pagingIndex va 0).toNat * 2 ^ 39 + (pagingIndex va 1).toNat * 2 ^ 30 +
      (pagingIndex va 2).toNat * 2 ^ 21 + (pagingIndex va 3).toNat * 2 ^ 12 +
      va.toNat % 2 ^ 12 := by
  rw [toNat_pagingIndex, toNat_pagingIndex, toNat_pagingIndex, toNat_pagingIndex]
  omega

theorem some_pair {x x' y y' : Nat} (hx : x = x') (hy : y = y') : some (x, y) = some (x', y') := by
  rw [hx, hy]

/-- The lowest 512 GB. -/
theorem low_maps (hb : b.Linked) (h : TablesAt b.pagingData.toNat b.entries m₀ m)
    (h0 : (pagingIndex va 0).toNat = 0) :
    resolve (memWords m) (BitVec.ofNat 64 (b.pagingData.toNat + 0 * 0x1000)) va =
      b.place (va.toNat % 2 ^ 48) := by
  have hP := hb.tables_aligned
  have hbounds := hb.bounds
  have hindices := toNat_indices va
  have hi1 := pagingIndex_lt va 1
  have hi2 := pagingIndex_lt va 2
  have hi3 := pagingIndex_lt va 3
  have ht1 := h.down 1 hP (by omega) (by omega : 0 < 9) (by omega) (by omega : 0 < 3) rfl <| by
    rw [h0]
    exact congrArg (· + 3) (hb.table (k := 1) (by omega))
  by_cases h1 : (pagingIndex va 1).toNat = 0
  · have ht2 := h.down 2 hP (by omega) (by omega : 1 < 9) (by omega) (by omega : 1 < 3) ht1 <| by
      rw [h1]
      exact congrArg (· + 3) (hb.table (k := 2) (by omega))
    by_cases h2 : (pagingIndex va 2).toNat = 0
    · have ht3 := h.down 3 hP (by omega) (by omega : 2 < 9) (by omega) (by omega : 2 < 3) ht2 <| by
        rw [h2]
        exact congrArg (· + 3) (hb.table (k := 3) (by omega))
      rw [h.page (e := 0 + (pagingIndex va 3).toNat * 0x1000 + 3) hP (by omega)
        (by omega : 3 < 9) ht3 rfl
        (by omega) (by omega) (.inl rfl), BootImage.place, if_pos (by omega)]
      exact some_pair (by omega) (by omega)
    · by_cases h8 : (pagingIndex va 2).toNat = 8
      · have ht3 := h.down 4 hP (by omega) (by omega : 2 < 9) (by omega)
          (by omega : 2 < 3) ht2 <| by
          rw [h8]
          exact congrArg (· + 3) (hb.table (k := 4) (by omega))
        rw [h.page (e := 0x1000000 + (pagingIndex va 3).toNat * 0x1000 + 3) hP (by omega)
          (by omega : 4 < 9)
          ht3 rfl (by omega) (by omega) (.inl rfl), BootImage.place, if_pos (by omega)]
        exact some_pair (by omega) (by omega)
      · have hnone : b.entries 2 (pagingIndex va 2).toNat = 0 := by
          show b.idP2Entry _ = 0
          rw [BootImage.idP2Entry, if_neg h2, if_neg h8]
        rw [h.clear hP (by omega) (by omega : 2 < 9) ht2 hnone, BootImage.place, if_neg (by omega),
          if_neg (by omega)]
        simp only []
        rw [if_pos (by omega)]
  · have hnone : b.entries 1 (pagingIndex va 1).toNat = 0 := if_neg h1
    rw [h.clear hP (by omega) (by omega : 1 < 9) ht1 hnone, BootImage.place, if_neg (by omega),
      if_neg (by omega)]
    simp only []
    rw [if_pos (by omega)]

/-- The physical memory map. -/
theorem phy_maps (hb : b.Linked) (h : TablesAt b.pagingData.toNat b.entries m₀ m)
    (h0 : (pagingIndex va 0).toNat = 384) :
    resolve (memWords m) (BitVec.ofNat 64 (b.pagingData.toNat + 0 * 0x1000)) va =
      b.place (va.toNat % 2 ^ 48) := by
  have hP := hb.tables_aligned
  have hbounds := hb.bounds
  have hindices := toNat_indices va
  have hi1 := toNat_pagingIndex va 1
  have hi2 := pagingIndex_lt va 2
  have hi3 := pagingIndex_lt va 3
  have ht1 := h.down 8 hP (by omega) (by omega : 0 < 9) (by omega) (by omega : 0 < 3) rfl <| by
    rw [h0]
    exact congrArg (· + 3) (hb.table (k := 8) (by omega))
  by_cases h1 : (pagingIndex va 1).toNat < 64
  · rw [h.page (e := (pagingIndex va 1).toNat * 0x40000000 + 0x83) hP (by omega)
      (by omega : 8 < 9) ht1
      (if_pos h1) (by omega) (by omega) (.inr ⟨rfl, by omega⟩), BootImage.place, if_neg (by omega),
      if_pos (by omega)]
    exact some_pair (by omega) (by omega)
  · have hnone : b.entries 8 (pagingIndex va 1).toNat = 0 := if_neg h1
    rw [h.clear hP (by omega) (by omega : 8 < 9) ht1 hnone, BootImage.place, if_neg (by omega),
      if_neg (by omega)]
    simp only []
    rw [if_pos (by omega)]

/-- The 2 MB of the kernel. -/
theorem place_high (hb : b.Linked) {i r : Nat} (hi : i < 512) (hr : r < 0x1000) :
    b.place (0xffff80000000 + i * 0x1000 + r) =
      if kernelIndex b.codeBegin ≤ i ∧ i < kernelIndex b.dataBegin then
        some (0x1000000 + i * 0x1000 + r, 0x1)
      else if kernelIndex b.dataBegin ≤ i ∧
          i < kernelIndex b.dataBegin + loopPages b.dataBegin b.dataEnd then
        some (0x1000000 + i * 0x1000 + r, 0x3 + 2 ^ 63)
      else none := by
  have hcode := hb.code_aligned
  have hlow := hb.tables_low
  have hfirst := hb.tables_high
  have hnext := hb.data_begin
  have hci : b.codeBegin.toNat = 0x1000000 + kernelIndex b.codeBegin * 0x1000 := by
    rw [kernelIndex]
    omega
  have hdi : b.dataBegin.toNat = 0x1000000 + kernelIndex b.dataBegin * 0x1000 := by
    rw [kernelIndex]
    omega
  have hbase : 0xffff80000000 + i * 0x1000 + r - 0xffff80000000 + 0x1000000 =
      0x1000000 + i * 0x1000 + r := by
    omega
  rw [BootImage.place, if_neg (by omega), if_neg (by omega), hbase, if_neg (by omega), hci, hdi]
  generalize kernelIndex b.codeBegin = c
  generalize kernelIndex b.dataBegin = d
  generalize loopPages b.dataBegin b.dataEnd = n
  by_cases hc : c ≤ i ∧ i < d
  · rw [if_pos hc, if_pos (by omega)]
  · by_cases hd : d ≤ i ∧ i < d + n
    · rw [if_neg hc, if_pos hd, if_neg (by omega), if_pos (by omega)]
    · rw [if_neg hc, if_neg hd, if_neg (by omega), if_neg (by omega)]

/-- The kernel. -/
theorem high_maps (hb : b.Linked) (h : TablesAt b.pagingData.toNat b.entries m₀ m)
    (h0 : (pagingIndex va 0).toNat = 511) :
    resolve (memWords m) (BitVec.ofNat 64 (b.pagingData.toNat + 0 * 0x1000)) va =
      b.place (va.toNat % 2 ^ 48) := by
  have hP := hb.tables_aligned
  have hbounds := hb.bounds
  have hindices := toNat_indices va
  have hi1 := pagingIndex_lt va 1
  have hi2 := pagingIndex_lt va 2
  have hi3 := pagingIndex_lt va 3
  have hcode := hb.code_aligned
  have hlow := hb.tables_low
  have hfirst := hb.tables_high
  have hnext := hb.data_begin
  have hfits := hb.fits
  have hdata := hb.data
  obtain ⟨nd, hnd, hdlt, hdle⟩ := loopPages_bounds hb.data
  have ht1 := h.down 5 hP (by omega) (by omega : 0 < 9) (by omega) (by omega : 0 < 3) rfl <| by
    rw [h0]
    exact congrArg (· + 3) (hb.table (k := 5) (by omega))
  by_cases h1 : (pagingIndex va 1).toNat = 510
  · have ht2 := h.down 6 hP (by omega) (by omega : 5 < 9) (by omega) (by omega : 1 < 3) ht1 <| by
      rw [h1]
      exact congrArg (· + 3) (hb.table (k := 6) (by omega))
    by_cases h2 : (pagingIndex va 2).toNat = 0
    · have ht3 := h.down 7 hP (by omega) (by omega : 6 < 9) (by omega) (by omega : 2 < 3) ht2 <| by
        rw [h2]
        exact congrArg (· + 3) (hb.table (k := 7) (by omega))
      have hv : va.toNat % 2 ^ 48 =
          0xffff80000000 + (pagingIndex va 3).toNat * 0x1000 + va.toNat % 2 ^ 12 := by
        omega
      have hrest : va.toNat % 2 ^ 12 < 0x1000 := by omega
      have hplace := place_high hb hi3 hrest
      have hentry := congrFun (show b.entries 7 = b.highP1Entry from rfl) (pagingIndex va 3).toNat
      rw [BootImage.highP1Entry] at hentry
      -- the indices as numbers of their own, not as differences that would be computed
      generalize kernelIndex b.codeBegin = c at hplace hentry
      generalize kernelIndex b.dataBegin = d at hplace hentry
      generalize loopPages b.dataBegin b.dataEnd = n at hplace hentry
      rw [hv, hplace]
      by_cases hc : c ≤ (pagingIndex va 3).toNat ∧ (pagingIndex va 3).toNat < d
      · rw [if_pos hc] at hentry
        rw [if_pos hc, h.page hP (by omega) (by omega : 7 < 9) ht3 hentry (by omega) (by omega)
          (.inl rfl)]
        exact some_pair (by omega) (by omega)
      · by_cases hd : d ≤ (pagingIndex va 3).toNat ∧ (pagingIndex va 3).toNat < d + n
        · rw [if_neg hc, if_pos hd] at hentry
          rw [if_neg hc, if_pos hd, h.page hP (by omega) (by omega : 7 < 9) ht3 hentry (by omega)
            (by omega) (.inl rfl)]
          exact some_pair (by omega) (by omega)
        · rw [if_neg hc, if_neg hd] at hentry
          rw [if_neg hc, if_neg hd, h.clear hP (by omega) (by omega : 7 < 9) ht3 hentry]
    · have hnone : b.entries 6 (pagingIndex va 2).toNat = 0 := if_neg h2
      rw [h.clear hP (by omega) (by omega : 6 < 9) ht2 hnone, BootImage.place, if_neg (by omega),
        if_neg (by omega)]
      simp only []
      rw [if_neg (by omega), if_neg (by omega), if_neg (by omega)]
  · have hnone : b.entries 5 (pagingIndex va 1).toNat = 0 := if_neg h1
    rw [h.clear hP (by omega) (by omega : 5 < 9) ht1 hnone, BootImage.place, if_neg (by omega),
      if_neg (by omega)]
    simp only []
    by_cases hv : va.toNat % 2 ^ 48 < 0xffff80000000
    · rw [if_pos hv]
    · rw [if_neg hv, if_neg (by omega), if_neg (by omega)]

end

/-- **`setup_paging` maps what it is to map**, and nothing else: whatever the memory has been, the
    tables that are left take every address to its place, and no byte outside of them has
    changed. -/
theorem setup_paging_maps {b : BootImage} (hb : b.Linked) {fuel : Nat} (hfuel : 512 ≤ fuel)
    (m : Nat → Byte) :
    ∃ m', setupPaging b fuel m = some m' ∧
      (∀ va, resolve (memWords m') (b.pagingP4.setWidth 64) va = b.place (va.toNat % 2 ^ 48)) ∧
      ∀ a, (a < b.pagingData.toNat ∨ b.pagingDataEnd.toNat ≤ a) → m' a = m a := by
  obtain ⟨m', hrun, htables⟩ := setupPaging_tables hb hfuel m
  have hbounds := hb.bounds
  have hend : b.pagingDataEnd.toNat = b.pagingData.toNat + 9 * 0x1000 :=
    hb.table (k := 9) (by omega)
  have hroot : b.pagingP4.setWidth 64 = BitVec.ofNat 64 (b.pagingData.toNat + 0 * 0x1000) := by
    rw [Nat.zero_mul, Nat.add_zero, ← BitVec.toNat_inj, BitVec.toNat_setWidth, BitVec.toNat_ofNat]
    rfl
  refine ⟨m', hrun, fun va => ?_, fun a ha => htables.others a (by omega)⟩
  rw [hroot]
  by_cases h0 : (pagingIndex va 0).toNat = 0
  · exact low_maps hb htables h0
  · by_cases h384 : (pagingIndex va 0).toNat = 384
    · exact phy_maps hb htables h384
    · by_cases h511 : (pagingIndex va 0).toNat = 511
      · exact high_maps hb htables h511
      · have hlt := pagingIndex_lt va 0
        have hi1 := pagingIndex_lt va 1
        have hi2 := pagingIndex_lt va 2
        have hi3 := pagingIndex_lt va 3
        have hindices := toNat_indices va
        have hnone : b.entries 0 (pagingIndex va 0).toNat = 0 :=
          (if_neg h0).trans ((if_neg h511).trans (if_neg h384))
        rw [htables.clear hb.tables_aligned (by omega) (by omega : 0 < 9) rfl hnone,
          BootImage.place,
          if_neg (by omega), if_neg (by omega)]
        simp only []
        rw [if_pos (by omega)]

/-- An image with 5 pages of code and 2 of data. -/
def smallImage : BootImage := ⟨0x1001000, 0x100c000, 0x1010001, 0x1011000, 0x1012345⟩

theorem smallImage_linked : smallImage.Linked := by
  constructor <;> decide

theorem setup_paging_maps_of_smallImage : ∃ m', setupPaging smallImage 512 (fun _ => 0) = some m' ∧
    (∀ va, resolve (memWords m') (smallImage.pagingP4.setWidth 64) va =
      smallImage.place (va.toNat % 2 ^ 48)) ∧
    ∀ a, (a < smallImage.pagingData.toNat ∨ smallImage.pagingDataEnd.toNat ≤ a) → m' a = 0 :=
  setup_paging_maps smallImage_linked (le_refl 512) _

/-! ## The first free list -/

theorem BootImage.Linked.word {b : BootImage} (hb : b.Linked) {k : Nat} (hk : k ≤ 9) :
    (b.pagingData + BitVec.ofNat 32 (k * 0x1000)).setWidth 64 =
      BitVec.ofNat 64 (b.pagingData.toNat + k * 0x1000) := by
  rw [← BitVec.toNat_inj, BitVec.toNat_setWidth, hb.table hk, BitVec.toNat_ofNat]

/-- The tables are frames in the kernel image. -/
theorem BootImage.Linked.image {b : BootImage} (hb : b.Linked) {k : Nat} (hk : k < 9) :
    IsFrame (BitVec.ofNat 64 (b.pagingData.toNat + k * 0x1000)) ∧
      ¬ OutsideKernel (b.dataEnd.setWidth 64)
        (BitVec.ofNat 64 (b.pagingData.toNat + k * 0x1000)) := by
  have hbounds := hb.bounds
  have haligned := hb.tables_aligned
  have hlow := hb.tables_low
  have hhigh := hb.tables_high
  have hcode := hb.code
  have hdata := hb.data
  have hnext := hb.data_begin
  have htable : (BitVec.ofNat 64 (b.pagingData.toNat + k * 0x1000)).toNat =
      b.pagingData.toNat + k * 0x1000 := by
    rw [BitVec.toNat_ofNat]
    omega
  constructor
  · apply isFrame_of_lt
    · rw [PageAligned, htable]
      omega
    · omega
  · rw [OutsideKernel, htable, BitVec.toNat_setWidth, show kernelPbase.toNat = 0x1000000 from rfl]
    omega

/-- `setup_paging` leaves the tables that `kmem_init` starts from. -/
theorem TablesAt.bootTables {b : BootImage} {m₀ m : Nat → Byte} (hb : b.Linked)
    (h : TablesAt b.pagingData.toNat b.entries m₀ m) :
    BootTables (b.dataEnd.setWidth 64) (b.pagingP4.setWidth 64) (b.pagingHighP3.setWidth 64)
      (memWords m) := by
  have hbounds := hb.bounds
  have haligned := hb.tables_aligned
  have hfits := hb.fits
  have hroot : b.pagingP4.setWidth 64 = BitVec.ofNat 64 (b.pagingData.toNat + 0 * 0x1000) :=
    (congrArg _ (BitVec.add_zero _).symm).trans (hb.word (k := 0) (by omega))
  have hp3 : b.pagingHighP3.setWidth 64 = BitVec.ofNat 64 (b.pagingData.toNat + 5 * 0x1000) :=
    hb.word (k := 5) (by omega)
  have hlow : (b.pagingData.toNat + 5 * 0x1000) % 2 ^ 64 = b.pagingData.toNat + 5 * 0x1000 :=
    Nat.mod_eq_of_lt (by omega)
  rw [hroot, hp3]
  refine ⟨?_, hb.image (by omega), hb.image (by omega), ?_, ?_, ?_⟩
  · rw [BitVec.toNat_setWidth]
    omega
  · rw [ne_eq, ← BitVec.toNat_inj, BitVec.toNat_ofNat, BitVec.toNat_ofNat]
    omega
  · have hentry : b.entries 0 511 = b.pagingHighP3.toNat + 3 := rfl
    have hhigh : b.pagingHighP3.toNat = b.pagingData.toNat + 5 * 0x1000 :=
      hb.table (k := 5) (by omega)
    rw [h.cell haligned (by omega) (by omega),
      show (pagingIndex kmemBaseAddr 0).toNat = 511 from rfl, hentry, hhigh, ← BitVec.toNat_inj, toNat_or_flags]
    · rw [BitVec.toNat_ofNat, BitVec.toNat_ofNat, hlow, show (3 : Word).toNat = 3 from rfl]
      omega
    · rw [BitVec.toNat_ofNat, hlow]
      omega
    · decide
  · rw [h.cell haligned (by omega) (by omega),
      show (pagingIndex kmemBaseAddr 1).toNat = 511 from rfl]
    rfl

/-- **From `setup_paging` to the free list**: under the tables it leaves, and nothing released
    yet, `kmem_init` makes the list that it should exactly from the maps that are plain. -/
theorem setupPaging_lists {b : BootImage} (hb : b.Linked) {fuel : Nat} (hfuel : 512 ≤ fuel)
    (m : Nat → Byte) {regions : List (Word × Word)} (hregions : Regions regions)
    (rest : List (Word × Word)) :
    ∃ m', setupPaging b fuel m = some m' ∧
      (ListsExactly (b.dataEnd.setWidth 64) (b.pagingP4.setWidth 64) regions
          (regions ++ (0, 0) :: rest) ⟨memWords m', 0, []⟩ ↔
        PlainMap (b.dataEnd.setWidth 64) regions) := by
  obtain ⟨m', hrun, htables⟩ := setupPaging_tables hb hfuel m
  exact ⟨m', hrun, listsExactly_iff hregions rfl (htables.bootTables hb)⟩

end Refk
