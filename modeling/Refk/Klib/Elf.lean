import Refk.Klib.Memcpy
import Refk.Klib.Task

/-!
# `klib/task.c` — loading an ELF image

`task_load_elf` makes a root for a task: a stack below 2 GB, and for every `PT_LOAD` header the
pages it needs, filled through the new root and mapped as code afterwards where the header asks for
it. The image is read where it is, as a function on offsets. A loop over pages compares with an
end that it may never get to (an end in the last page of the address space), so the loops have a
number of turns to make; `none` says that these are used up.
-/

namespace Refk

open Lib

/-- `KMEM_MAP_CODE` -/
def kmemMapCode : Word := 0x5

/-- `kmem_set_flags` -/
def kmemSetFlags (k : Kmem) (root vaddr flags : Word) : Kmem :=
  let (k, addr) := kmemPagingAddrCreate k root vaddr 3
  { k with phys := phyWrite64 k.phys addr ((phyRead64 k.phys addr &&& kmemFrameMask) ||| flags) }

/-- The byte at an address, off the word it is in. -/
def physByte (m : Phys) (a : Word) : Byte := ((m (a &&& ~~~7)) >>> (8 * (a &&& 7).toNat)).setWidth 8

/-- `kmem_memcpy` -/
def Kmem.memcpy (k : Kmem) (root vaddr : Word) (data : Nat → Byte) (size : Word) : Kmem :=
  { k with phys := (kmemMemcpy (physByte k.phys) root vaddr data size).words }

/-- `kmem_memclr` -/
def Kmem.memclr (k : Kmem) (root vaddr size : Word) : Kmem :=
  { k with phys := (kmemMemclr (physByte k.phys) root vaddr size).words }

/-! ## The image -/

/-- The bytes at `elf_image`, by offset. -/
abbrev ElfImage := Word → Byte

/-- What is read of an `Elf64_Phdr`. -/
structure Phdr where
  pType : BitVec 32
  pFlags : BitVec 32
  pOffset : Word
  pVaddr : Word
  pFilesz : Word
  pMemsz : Word
  deriving DecidableEq

/-- `PT_LOAD` -/
def ptLoad : BitVec 32 := 1

/-- `PF_X` -/
def pfX : BitVec 32 := 1

/-- `PF_W` -/
def pfW : BitVec 32 := 2

namespace ElfImage

/-- The number of `n` bytes at an offset. -/
def field (image : ElfImage) (off : Word) (n : Nat) : Nat :=
  ofLe (load (fun i => image (off + BitVec.ofNat 64 i)) 0 n)

/-- `header->e_entry` -/
def entry (image : ElfImage) : Word := BitVec.ofNat 64 (image.field 24 8)

/-- `header->e_phoff` -/
def phoff (image : ElfImage) : Word := BitVec.ofNat 64 (image.field 32 8)

/-- `header->e_phnum` -/
def phnum (image : ElfImage) : Nat := image.field 56 2

/-- `phdrs[i]` -/
def phdr (image : ElfImage) (i : Nat) : Phdr :=
  let off := image.phoff + BitVec.ofNat 64 (i * 56)
  { pType := BitVec.ofNat 32 (image.field off 4)
    pFlags := BitVec.ofNat 32 (image.field (off + 4) 4)
    pOffset := BitVec.ofNat 64 (image.field (off + 8) 8)
    pVaddr := BitVec.ofNat 64 (image.field (off + 16) 8)
    pFilesz := BitVec.ofNat 64 (image.field (off + 32) 8)
    pMemsz := BitVec.ofNat 64 (image.field (off + 40) 8) }

end ElfImage

/-! ## The loader -/

/-- `kmem_map(root, vaddr, kmem_getpage(), KMEM_MAP_DATA)` -/
def mapFresh (root : Word) (k : Kmem) (vaddr : Word) : Kmem :=
  let (k, page) := kmemGetpage k
  kmemMap k root vaddr page kmemMapData

/-- `while(start < end) { …; start += 0x1000; }` -/
def whilePages (body : Kmem → Word → Kmem) : Nat → Kmem → Word → Word → Option Kmem
  | 0, _, _, _ => none
  | fuel + 1, k, start, end_ =>
    if start < end_ then whilePages body fuel (body k start) (start + 0x1000) end_ else some k

/-- The loop for the stack. -/
def mapStack (root : Word) : Nat → Kmem → Word → Word → Option Kmem
  | 0, _, _, _ => none
  | fuel + 1, k, stackBottom, stackSize =>
    if 0 < stackSize then
      mapStack root fuel (mapFresh root k (stackBottom - 0x1000)) (stackBottom - 0x1000)
        (stackSize - 0x1000)
    else some k

/-- The segment is mapped as code. -/
def Phdr.IsCode (ph : Phdr) : Prop := ph.pFlags &&& pfX ≠ 0 ∨ ph.pFlags &&& pfW = 0

instance (ph : Phdr) : Decidable ph.IsCode := inferInstanceAs (Decidable (_ ∨ _))

/-- One turn of the loop over the program headers. -/
def loadSegment (fuel : Nat) (root : Word) (image : ElfImage) (k : Kmem) (ph : Phdr) :
    Option Kmem :=
  if ph.pType ≠ ptLoad then some k
  else do
    let start := ph.pVaddr &&& pageMask
    let end_ := ph.pVaddr + ph.pMemsz
    let k ← whilePages (mapFresh root) fuel k start end_
    let k := k.memcpy root ph.pVaddr (fun i => image (ph.pOffset + BitVec.ofNat 64 i)) ph.pFilesz
    let k := if ph.pMemsz ≠ ph.pFilesz then
        k.memclr root (ph.pVaddr + ph.pFilesz) (ph.pMemsz - ph.pFilesz)
      else k
    if ph.IsCode then
      whilePages (fun k va => kmemSetFlags k root va kmemMapCode) fuel k start end_
    else some k

/-- `DEFAULT_TASK_STACK_TOP` -/
def defaultTaskStackTop : Word := 0x80000000

/-- `task_load_elf`, with `kmem_current()` as an argument. -/
def taskLoadElf (fuel : Nat) (current : Word) (k : Kmem) (tasks : TaskTable) (ts : Nat)
    (image : ElfImage) (stackSize : Word) : Option (Kmem × TaskTable) := do
  let (k, cr3) := kmemCreateRoot current k
  let tasks := tasks.set ts TaskState.cr3 cr3
  let stackSize := (stackSize + 0xfff) &&& pageMask
  let k ← mapStack cr3 fuel k defaultTaskStackTop stackSize
  let tasks := tasks.set ts TaskState.rsp defaultTaskStackTop
  let k ← (List.range image.phnum).foldlM (fun k i => loadSegment fuel cr3 image k (image.phdr i)) k
  let tasks := tasks.set ts TaskState.rip image.entry
  some (k, tasks.set ts TaskState.state taskStateValid)

/-! ## Bytes of words -/

theorem and_seven_of_aligned {a : Word} (h : a.toNat % 8 = 0) : a &&& 7 = 0 := by
  rw [← BitVec.toNat_inj, BitVec.toNat_and]
  exact (Nat.and_two_pow_sub_one_eq_mod a.toNat 3).trans h

theorem toNat_and_seven (a : Word) : (a &&& 7).toNat = a.toNat % 8 := by
  rw [BitVec.toNat_and]
  exact Nat.and_two_pow_sub_one_eq_mod a.toNat 3

theorem toNat_and_not_seven (a : Word) : (a &&& ~~~7).toNat = a.toNat / 8 * 8 := by
  have hbit : ∀ i < 64, (~~~7 : Word).getLsbD i = decide (3 ≤ i) := by decide
  have hshift : a &&& (~~~7 : Word) = (a >>> 3) <<< 3 := by
    refine BitVec.eq_of_getLsbD_eq fun i hi => ?_
    rw [BitVec.getLsbD_and, hbit i hi]
    by_cases h : i < 3
    · simp [h, hi]
    · simp [h, hi, show 3 + (i - 3) = i by omega]
      omega
  rw [hshift, BitVec.toNat_shiftLeft, BitVec.toNat_ushiftRight, Nat.shiftLeft_eq,
    Nat.shiftRight_eq_div_pow]
  omega

/-- Where a byte is, in its word. -/
theorem byte_of_word {a : Word} {i : Nat} (ha : a &&& 7 = 0) (hi : i < 8) :
    (a + BitVec.ofNat 64 i) &&& ~~~7 = a ∧ ((a + BitVec.ofNat 64 i) &&& 7).toNat = i ∧
      pageOf (a + BitVec.ofNat 64 i) = pageOf a := by
  have hal : a.toNat % 8 = 0 := (toNat_and_seven a).symm.trans (congrArg BitVec.toNat ha)
  have hadd : (a + BitVec.ofNat 64 i).toNat = a.toNat + i := by
    have hlt := a.isLt
    rw [BitVec.toNat_add, BitVec.toNat_ofNat]
    omega
  refine ⟨BitVec.eq_of_toNat_eq ?_, ?_, BitVec.eq_of_toNat_eq ?_⟩
  · rw [toNat_and_not_seven, hadd]
    omega
  · rw [toNat_and_seven, hadd]
    omega
  · rw [pageOf, pageOf, toNat_and_pageMask, toNat_and_pageMask, hadd]
    omega

/-- Every byte is in a word. -/
theorem word_of_byte (a : Word) : (a &&& ~~~7) &&& 7 = 0 ∧
    (a &&& ~~~7) + BitVec.ofNat 64 (a &&& 7).toNat = a ∧ (a &&& 7).toNat < 8 ∧
      pageOf (a &&& ~~~7) = pageOf a := by
  have hword := toNat_and_not_seven a
  have hoff := toNat_and_seven a
  refine ⟨and_seven_of_aligned (by omega), BitVec.eq_of_toNat_eq ?_, by omega,
    BitVec.eq_of_toNat_eq ?_⟩
  · rw [BitVec.toNat_add, BitVec.toNat_ofNat, hword, hoff]
    have hlt := a.isLt
    omega
  · rw [pageOf, pageOf, toNat_and_pageMask, toNat_and_pageMask, hword]
    omega

theorem toNat_physByte (m : Phys) (a : Word) :
    (physByte m a).toNat = (m (a &&& ~~~7)).toNat / 256 ^ (a &&& 7).toNat % 256 := by
  rw [physByte, BitVec.toNat_setWidth, BitVec.toNat_ushiftRight, Nat.shiftRight_eq_div_pow, pow_mul]
  rfl

theorem words_physByte {m : Phys} {a : Word} (l : List Word) (ha : a &&& 7 = 0) :
    (PhyBytes.mk (physByte m) l).words a = m a := by
  have hload : load (fun i => physByte m (a + BitVec.ofNat 64 i)) 0 8 = toLe 8 (m a).toNat := by
    rw [← load_bytes]
    apply List.map_congr_left
    intro i hi
    obtain ⟨hword, hoff, -⟩ := byte_of_word ha (List.mem_range.mp hi)
    apply BitVec.eq_of_toNat_eq
    rw [Nat.zero_add, toNat_physByte, hword, hoff, BitVec.toNat_ofNat]
  rw [PhyBytes.words, hload, ofLe_toLe_of_lt (m a).isLt, BitVec.ofNat_toNat, BitVec.setWidth_eq]

theorem physByte_words (p : PhyBytes) (a : Word) : physByte p.words a = p.bytes a := by
  obtain ⟨-, hsplit, hlt, -⟩ := word_of_byte a
  have hword : (p.words (a &&& ~~~7)).toNat =
      ofLe (load (fun i => p.bytes ((a &&& ~~~7) + BitVec.ofNat 64 i)) 0 8) := by
    have hbound := ofLe_lt (load (fun i => p.bytes ((a &&& ~~~7) + BitVec.ofNat 64 i)) 0 8)
    rw [length_load] at hbound
    rw [PhyBytes.words, BitVec.toNat_ofNat]
    exact Nat.mod_eq_of_lt hbound
  have hpart := @ofLe_load_part (fun i => p.bytes ((a &&& ~~~7) + BitVec.ofNat 64 i)) 0
    (a &&& 7).toNat 1 8 (by omega)
  apply BitVec.eq_of_toNat_eq
  rw [pow_one] at hpart
  rw [toNat_physByte, hword, ← hpart]
  simp only [load, List.range_one, List.map_cons, List.map_nil, Nat.zero_add, Nat.add_zero, hsplit,
    ofLe, Nat.mul_zero]

end Refk
