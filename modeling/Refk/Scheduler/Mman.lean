import Refk.Clib.AvlMap
import Refk.Klib.Kmem

/-!
# `kernel/scheduler/mman.c` — the memory manager

Three maps over the page tables: which id is which root, how many tasks use a root, and how
many references there are to a page. The operations work on one root at a time, page by page;
`forPages` is their common loop, which hands the body the offset that `address`, `size` and
whatever else moves with them have advanced by.

Ids are `uint64_t` handed out in order and never reused, counts are `uint64_t` incremented one
at a time: both are `Nat`. A `(void *)` value `0` in a map is no different from no value,
which is what the `getD 0`s say.
-/

namespace Refk

instance : LinearOrder Word where
  le_refl := BitVec.le_refl
  le_trans _ _ _ := BitVec.le_trans
  le_antisymm _ _ := BitVec.le_antisymm
  le_total := BitVec.le_total
  toDecidableLE := inferInstance
  lt_iff_le_not_ge a b := by bv_omega

/-- The manager's state. `cr3` is the root it runs under (`kmem_current()`), and
    `pagefreeCalls` are the calls made to `pagefree_callback`, latest first. -/
structure Mman where
  kmem : Kmem
  cr3 : Word
  rootMap : AvlMap Nat Word avlPtrcmp
  rootRefcount : AvlMap Nat Nat avlPtrcmp
  pageRefcount : AvlMap Word Nat avlPtrcmp
  nextId : Nat
  thisRootId : Nat
  pagefreeCalls : List Word

namespace Mman

/-- Physical memory. -/
def phys (s : Mman) : Phys := s.kmem.phys

/-- `phy_write64` -/
def write (s : Mman) (address value : Word) : Mman :=
  { s with kmem := { s.kmem with phys := phyWrite64 s.kmem.phys address value } }

/-- `kmem_getpage` -/
def getpage (s : Mman) : Mman × Word :=
  let (k, page) := kmemGetpage s.kmem
  ({ s with kmem := k }, page)

/-- `root_map`'s entry for an id, `0` if there is none. -/
def rootAddress (s : Mman) (id : Nat) : Word := (s.rootMap.search id).getD 0

/-- `root_refcount`'s entry, `0` if there is none. -/
def rootCount (s : Mman) (id : Nat) : Nat := (s.rootRefcount.search id).getD 0

/-- `page_refcount`'s entry, `0` if there is none. -/
def pageCount (s : Mman) (page : Word) : Nat := (s.pageRefcount.search page).getD 0

end Mman

/-- `increment_page` -/
def incrementPage (s : Mman) (page : Word) : Mman :=
  let current := s.pageCount page
  { s with pageRefcount := (s.pageRefcount.insert page (current + 1)).1 }

/-- `decrement_page` -/
def decrementPage (s : Mman) (page : Word) : Mman :=
  let current := s.pageCount page
  if current = 0 then s
  else if current > 1 then
    { s with pageRefcount := (s.pageRefcount.insert page (current - 1)).1 }
  else
    let s := { s with pagefreeCalls := page :: s.pagefreeCalls }
    let s := { s with pageRefcount := (s.pageRefcount.remove page).1 }
    { s with kmem := kmemUnuse s.kmem page }

/-- What `paging_addr_create` does for a missing table: the kernel's steps, and a reference. -/
def Mman.newTable (s : Mman) (pa : Word) : Mman :=
  let (k, ntable) := s.kmem.newTable pa
  incrementPage { s with kmem := k } ntable

/-- `paging_addr_create` -/
def mmanPagingAddrCreate (s : Mman) (root vaddr : Word) (level : Nat) : Mman × Word :=
  pagingAddrCreate Mman.phys Mman.newTable s root vaddr level

/-- `while(size > 0) { …; address += 0x1000; size -= 0x1000; }` for a multiple of the page
    size: the body once for every page, with its offset. -/
def forPages {σ : Type} (size : Word) (body : σ → Word → σ) (s : σ) : σ :=
  (List.range (size.toNat / 0x1000)).foldl (fun s i => body s (BitVec.ofNat 64 i * 0x1000)) s

/-- The offsets of the pages of a range. -/
def pageOffsets (size : Word) : List Word :=
  (List.range (size.toNat / 0x1000)).map fun i => BitVec.ofNat 64 i * 0x1000

/-! ## Mapping -/

/-- The loop body of `mman_anonymous`. -/
def anonymousPage (root : Word) (s : Mman) (address : Word) : Mman :=
  let (s, eaddr) := mmanPagingAddrCreate s root address 3
  let (s, paddr) := s.getpage
  let s := s.write eaddr (paddr ||| kmemMapData)
  incrementPage s paddr

/-- `mman_anonymous` -/
def mmanAnonymous (s : Mman) (rootId : Nat) (address size : Word) : Mman × Int :=
  let root := s.rootAddress rootId
  if root = 0 then (s, -1)
  else if address &&& 0xfff ≠ 0 then (s, -1)
  else if size &&& 0xfff ≠ 0 then (s, -1)
  else (forPages size (fun s off => anonymousPage root s (address + off)) s, 0)

/-- The loop body of `mman_physical`. -/
def physicalPage (root : Word) (s : Mman) (address paddress : Word) : Mman :=
  let (s, eaddr) := mmanPagingAddrCreate s root address 3
  s.write eaddr (paddress ||| kmemMapData)

/-- `mman_physical` -/
def mmanPhysical (s : Mman) (rootId : Nat) (address paddress size : Word) : Mman × Int :=
  let root := s.rootAddress rootId
  if root = 0 then (s, -1)
  else if address &&& 0xfff ≠ 0 then (s, -1)
  else if paddress &&& 0xfff ≠ 0 then (s, -1)
  else if size &&& 0xfff ≠ 0 then (s, -1)
  else (forPages size (fun s off => physicalPage root s (address + off) (paddress + off)) s, 0)

/-- Whether the walk is complete and the entry present. -/
def isMapped (m : Phys) (root address : Word) : Bool :=
  match kmemPagingAddr m root address 3 with
  | none => false
  | some eaddr => phyRead64 m eaddr &&& 1 ≠ 0

/-- `mman_check_all_mapped` -/
def mmanCheckAllMapped (s : Mman) (rootId : Nat) (address size : Word) : Int :=
  let root := s.rootAddress rootId
  if root = 0 then -1
  else if address &&& 0xfff ≠ 0 then -1
  else if size &&& 0xfff ≠ 0 then -1
  else if (pageOffsets size).all fun off => isMapped s.phys root (address + off) then 1
  else 0

/-- `mman_check_any_mapped` -/
def mmanCheckAnyMapped (s : Mman) (rootId : Nat) (address size : Word) : Int :=
  let root := s.rootAddress rootId
  if root = 0 then -1
  else if address &&& 0xfff ≠ 0 then -1
  else if size &&& 0xfff ≠ 0 then -1
  else if (pageOffsets size).any fun off => isMapped s.phys root (address + off) then 1
  else 0

/-- The loop body of `mman_mirror`. -/
def mirrorPage (root sroot : Word) (s : Mman) (address saddress : Word) : Mman :=
  let (s, eaddr) := mmanPagingAddrCreate s root address 3
  let (s, saddr) := mmanPagingAddrCreate s sroot saddress 3
  let sentry := phyRead64 s.phys saddr
  let s := s.write eaddr (phyRead64 s.phys saddr)
  incrementPage s (sentry &&& kmemFrameMask)

/-- `mman_mirror` -/
def mmanMirror (s : Mman) (rootId : Nat) (address : Word) (srootId : Nat)
    (saddress size : Word) : Mman × Int :=
  let root := s.rootAddress rootId
  if root = 0 then (s, -1)
  else
    let sroot := s.rootAddress srootId
    if sroot = 0 then (s, -1)
    else if mmanCheckAnyMapped s rootId address size ≠ 0 then (s, 1)
    else if mmanCheckAllMapped s srootId saddress size ≠ 1 then (s, 1)
    else
      (forPages size (fun s off => mirrorPage root sroot s (address + off) (saddress + off)) s, 0)

/-- The loop bodies of `mman_unmap` and `mman_protect`: `f` on the entry's address and value,
    if the walk is complete and the entry present. -/
def onEntry (root : Word) (f : Mman → Word → Word → Mman) (s : Mman) (address : Word) : Mman :=
  match kmemPagingAddr s.phys root address 3 with
  | none => s
  | some eaddr =>
    let entry := phyRead64 s.phys eaddr
    if entry &&& 1 ≠ 0 then f s eaddr entry else s

/-- The common frame of `mman_unmap` and `mman_protect`. -/
def onEntries (s : Mman) (rootId : Nat) (address size : Word) (f : Mman → Word → Word → Mman) :
    Mman × Int :=
  let root := s.rootAddress rootId
  if root = 0 then (s, -1)
  else if address &&& 0xfff ≠ 0 then (s, -1)
  else if size &&& 0xfff ≠ 0 then (s, -1)
  else (forPages size (fun s off => onEntry root f s (address + off)) s, 0)

/-- What `mman_unmap` does to a present entry. -/
def unmapEntry (s : Mman) (eaddr entry : Word) : Mman :=
  (decrementPage s (entry &&& kmemFrameMask)).write eaddr 0

/-- `mman_unmap` -/
def mmanUnmap (s : Mman) (rootId : Nat) (address size : Word) : Mman × Int :=
  onEntries s rootId address size unmapEntry

/-- `mman_protect` -/
def mmanProtect (s : Mman) (rootId : Nat) (address size flags : Word) : Mman × Int :=
  onEntries s rootId address size fun s eaddr entry =>
    s.write eaddr ((entry &&& kmemFrameMask) ||| flags)

/-- `mman_get_phy` -/
def mmanGetPhy (s : Mman) (rootId : Nat) (address : Word) : Word :=
  let cr3 := s.rootAddress rootId
  if cr3 = 0 then -1
  else
    match kmemPagingAddr s.phys cr3 (address &&& pageMask) 3 with
    | none => 0
    | some entry => (phyRead64 s.phys entry &&& kmemFrameMask) ||| (address &&& 0xfff)

/-! ## Roots -/

/-- The loop of `remove_helper` and `import_helper`: the body on the frame of every present
    entry of a table, but for the physical memory map in a root. -/
def forEntries (isRoot : Bool) (table : Word) (body : Mman → Word → Mman) (s : Mman) : Mman :=
  (List.range 512).foldl (fun s i =>
    if isRoot ∧ i = 384 then s
    else
      let entry := phyRead64 s.phys (table + BitVec.ofNat 64 i * 8)
      if entry &&& 1 = 0 then s else body s (entry &&& kmemFrameMask)) s

/-- `remove_helper(root, 3 - below)` -/
def removeHelper : Nat → Word → Mman → Mman
  | 0, table, s => forEntries false table decrementPage s
  | below + 1, table, s =>
    forEntries (below + 1 = 3) table
      (fun s page => decrementPage (removeHelper below page s) page) s

/-- `import_helper(root, 3 - below)` -/
def importHelper : Nat → Word → Mman → Mman
  | 0, table, s => forEntries false table incrementPage s
  | below + 1, table, s =>
    forEntries (below + 1 = 3) table
      (fun s page => importHelper below page (incrementPage s page)) s

/-- `gen_id` -/
def genId (s : Mman) : Mman × Nat := ({ s with nextId := s.nextId + 1 }, s.nextId)

/-- `import_root` -/
def importRoot (s : Mman) (root : Word) : Mman × Nat :=
  let s := incrementPage s root
  let s := importHelper 3 root s
  let (s, id) := genId s
  ({ s with rootMap := (s.rootMap.insert id root).1 }, id)

/-- `mman_import_root` -/
def mmanImportRoot (s : Mman) (cr3 : Word) : Mman × Nat := importRoot s cr3

/-- `mman_make_root` -/
def mmanMakeRoot (s : Mman) : Mman × Nat :=
  let (k, address) := kmemCreateRoot s.cr3 s.kmem
  importRoot { s with kmem := k } address

/-- `mman_own_root` -/
def mmanOwnRoot (s : Mman) : Nat := s.thisRootId

/-- `mman_is_root` -/
def mmanIsRoot (s : Mman) (root : Nat) : Bool := s.rootAddress root ≠ 0

/-- `mman_get_root_cr3` -/
def mmanGetRootCr3 (s : Mman) (root : Nat) : Word := s.rootAddress root

/-- `mman_increment_root` -/
def mmanIncrementRoot (s : Mman) (root : Nat) : Mman :=
  { s with rootRefcount := (s.rootRefcount.insert root (s.rootCount root + 1)).1 }

/-- `mman_decrement_root` -/
def mmanDecrementRoot (s : Mman) (root : Nat) : Mman :=
  let current := s.rootCount root
  if current = 0 then s
  else if current > 1 then
    { s with rootRefcount := (s.rootRefcount.insert root (current - 1)).1 }
  else
    let s := { s with rootRefcount := (s.rootRefcount.remove root).1 }
    let cr3 := (s.rootMap.remove root).2.getD 0
    let s := { s with rootMap := (s.rootMap.remove root).1 }
    decrementPage (removeHelper 3 cr3 s) cr3

/-- `mman_init`, over a free list that the kernel has set up. -/
def mmanInit (kmem : Kmem) (cr3 bootprocCr3 : Word) : Mman :=
  let s : Mman := ⟨kmem, cr3, .empty, .empty, .empty, 0x1000, 0, []⟩
  let (s, id) := importRoot s cr3
  let s := mmanIncrementRoot { s with thisRootId := id } id
  (importRoot s bootprocCr3).1

end Refk
