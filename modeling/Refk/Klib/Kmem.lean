import Mathlib.Tactic

/-!
# `klib/kmem.c` — page frames and page tables

Physical memory is the array of its 64-bit words, by address: everything here and in the
memory manager goes through `phy_read64`/`phy_write64` at multiples of eight, so two accesses
touch the same bytes exactly when their addresses are equal.

The free pages are a list threaded through the pages themselves, headed by `*last_unused`.
A walk of the four-level tables is `kmem_paging_addr`, which answers the address of the entry
it stops at; its `ok` flag is the `Option`.
-/

namespace Refk

/-- `uint64_t` -/
abbrev Word := BitVec 64

/-- The words of physical memory. -/
abbrev Phys := Word → Word

abbrev phyRead64 (m : Phys) (address : Word) : Word := m address

abbrev phyWrite64 (m : Phys) (address value : Word) : Phys := Function.update m address value

/-- `KMEM_FLAG_MASK` -/
def kmemFlagMask : Word := 0x8000000000000fff

/-- `~KMEM_FLAG_MASK` -/
def kmemFrameMask : Word := ~~~kmemFlagMask

/-- `~0xfff` -/
def pageMask : Word := ~~~(0xfff : Word)

/-- `KMEM_MAP_DATA` -/
def kmemMapData : Word := 0x8000000000000003

/-- `KMEM_BASE_ADDR` -/
def kmemBaseAddr : Word := 0xffffffffffa00000

/-- `TASK_BASE` -/
def taskBase : Word := 0xffffffffffe00000

/-- `DESC_BASE` -/
def descBase : Word := 0xffffffffffc00000

/-- `STATUS_BASE` -/
def statusBase : Word := 0xffff900000000000

/-- Where every root maps physical memory. -/
def phyMapBase : Word := 0xffffc00000000000

/-- Physical memory, `*last_unused`, and the answers of `kmem_getpage` so far, latest first; the
    last is bookkeeping that no function reads. -/
structure Kmem where
  phys : Phys
  lastUnused : Word
  handedOut : List Word

/-- The number of `kmem_getpage` calls made so far. -/
def Kmem.taken (k : Kmem) : Nat := k.handedOut.length

/-- `kmem_unuse` -/
def kmemUnuse (k : Kmem) (page : Word) : Kmem :=
  { k with phys := phyWrite64 k.phys page k.lastUnused, lastUnused := page }

/-- `kmem_getpage`. An empty list is not special: its head `0` is read through like any
    other. -/
def kmemGetpage (k : Kmem) : Kmem × Word :=
  let ret := k.lastUnused
  ({ k with lastUnused := phyRead64 k.phys ret, handedOut := ret :: k.handedOut }, ret)

/-- The index of `address` into a table of the given level. -/
def pagingIndex (address : Word) (level : Nat) : Word :=
  (address >>> (12 + (3 - level) * 9)) &&& 0x1ff

/-- `kmem_paging_addr`: where the entry for `address` is, if the tables above it are
    present. -/
def kmemPagingAddr (m : Phys) (root address : Word) : Nat → Option Word
  | 0 => some (root + pagingIndex address 0 * 8)
  | level + 1 => do
    let prev ← kmemPagingAddr m root address level
    let entry := phyRead64 m prev
    if entry &&& 1 = 0 then none
    else some ((entry &&& pageMask) + pagingIndex address (level + 1) * 8)

/-- `for(int i = 0; i < 512; i ++) phy_write64(table + i*8, 0);` -/
def zeroTable (m : Phys) (table : Word) : Phys :=
  (List.range 512).foldl (fun m i => phyWrite64 m (table + BitVec.ofNat 64 i * 8) 0) m

/-! ## Creating the intermediate tables

The kernel's and the memory manager's `paging_addr_create` differ in what else happens to a
new table, so the loop is over any state that has a physical memory. -/

section
variable {σ : Type} (phys : σ → Phys) (newTable : σ → Word → σ)

/-- One turn of the loop; the `Word` is `pa`, the entry of the level above. -/
def createLevel (root vaddr : Word) (st : σ × Word) (i : Nat) : σ × Word :=
  match kmemPagingAddr (phys st.1) root vaddr i with
  | some a => (st.1, a)
  | none =>
    let s := newTable st.1 st.2
    (s, (kmemPagingAddr (phys s) root vaddr i).getD 0)

def pagingAddrCreate (s : σ) (root vaddr : Word) (level : Nat) : σ × Word :=
  match kmemPagingAddr (phys s) root vaddr level with
  | some addr => (s, addr)
  | none =>
    let s' := ((List.range (level + 1)).foldl (createLevel phys newTable root vaddr) (s, -1)).1
    (s', (kmemPagingAddr (phys s') root vaddr level).getD 0)

end

/-- A page from the free list, zeroed, with the entry `pa` made to point to it. -/
def Kmem.newTable (k : Kmem) (pa : Word) : Kmem × Word :=
  let (k, ntable) := kmemGetpage k
  let phys := zeroTable k.phys ntable
  ({ k with phys := phyWrite64 phys pa (ntable ||| 0x7) }, ntable)

/-- `kmem_paging_addr_create` -/
def kmemPagingAddrCreate (k : Kmem) (root vaddr : Word) (level : Nat) : Kmem × Word :=
  pagingAddrCreate Kmem.phys (fun k pa => (k.newTable pa).1) k root vaddr level

/-- `kmem_map` -/
def kmemMap (k : Kmem) (root vaddr page flags : Word) : Kmem :=
  let (k, addr) := kmemPagingAddrCreate k root vaddr 3
  { k with phys := phyWrite64 k.phys addr (page ||| flags) }

/-- Copies the entry for `vaddr` from the root in `cr3` to `ret`. -/
def copyEntry (current ret : Word) (k : Kmem) (vaddr : Word) (level : Nat) : Kmem :=
  let (k, nentry) := kmemPagingAddrCreate k ret vaddr level
  let (k, bentry) := kmemPagingAddrCreate k current vaddr level
  { k with phys := phyWrite64 k.phys nentry (phyRead64 k.phys bentry) }

/-- `kmem_create_root`, with `kmem_current()` as an argument. -/
def kmemCreateRoot (current : Word) (k : Kmem) : Kmem × Word :=
  let (k, ret) := kmemGetpage k
  let k := { k with phys := zeroTable k.phys ret }
  let k := copyEntry current ret k phyMapBase 0
  let k := copyEntry current ret k taskBase 2
  let k := copyEntry current ret k descBase 2
  let k := copyEntry current ret k kmemBaseAddr 2
  let k := copyEntry current ret k statusBase 2
  (k, ret)

end Refk
