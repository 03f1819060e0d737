import Refk.Klib.FreeList
import Refk.Scheduler.State

/-!
# `kernel/scheduler/synch.c` — wait, wake, and the two indexes of synch objects

An object lives under its physical address in `synch_objects`, and in the list of its page in
`synch_pages`. Its waiters are a list of their own. The loops of `synch_wake` and
`synch_destroy` have the same body, `wakeTurn`; a `while` loop over a list gets as many turns as
there are live blocks.
-/

namespace Refk

open Lib

/-- `synch_make`, with its answer: the object, `0` for none. -/
def synchMake (s : Sched) (phy : Word) : Sched × Nat :=
  let over_ := (phy &&& 0xfff) + 8
  if over_ < 8 then (s, 0)
  else
    let (s, ret) := s.alloc (.object ⟨phy, 0⟩)
    let s := { s with synchObjects := (s.synchObjects.insert phy ret).1 }
    -- the new head of the page's list, in front of what `avl_insert` answers
    let next := (s.synchPages.search (pageOf phy)).getD 0
    let (s, pobj) := s.alloc (.pageObject ⟨next, ret⟩)
    ({ s with synchPages := (s.synchPages.insert (pageOf phy) pobj).1 }, ret)

/-- One turn of the loops over a list of waiters: the record `w` is read and its task
    unblocked, `w` advances, and the record it now points to is freed. -/
def wakeTurn (s : Sched) (w : Nat) : Option (Sched × Nat) := do
  let wait ← s.wait? w
  let info ← s.taskInfo wait.taskId
  let s := s.modifyState info.state (· &&& ~~~taskStateBlocked)
  let w := wait.next
  let t := w
  let s ← s.free t
  return (s, w)

/-- `for(uint64_t i = 0; i < count; i ++) { if(!w) break; … }` -/
def wakeLoop : Nat → Sched → Nat → Option Sched
  | 0, s, _ => some s
  | count + 1, s, w =>
    if w = 0 then some s
    else do
      let (s, w) ← wakeTurn s w
      wakeLoop count s w

/-- The search of `synch_destroy` for the list element before the object's, which is unlinked
    and freed. -/
def unlinkLoop (object : Nat) : Nat → Sched → Nat → Option Sched
  | 0, _, _ => none
  | fuel + 1, s, p =>
    if p = 0 then some s
    else do
      let pobj ← s.pageObject? p
      if pobj.next = 0 then some s
      else do
        let n ← s.pageObject? pobj.next
        if n.object = object then do
          let s ← s.put p (.pageObject { pobj with next := n.next })
          s.free pobj.next
        else unlinkLoop object fuel s pobj.next

/-- `synch_destroy`'s update of the list of the object's page. -/
def unlinkObject (s : Sched) (object : Nat) (page : Word) : Option Sched := do
  let pobjAddr := (s.synchPages.search page).getD 0
  let pobj ← s.pageObject? pobjAddr
  -- head case
  if pobj.object = object then
    Sched.free { s with synchPages := (s.synchPages.insert page pobj.next).1 } pobjAddr
  else unlinkLoop object (s.heap.live.length + 1) s pobjAddr

/-- `synch_destroy` -/
def synchDestroy (s : Sched) (object : Nat) : Option Sched := do
  let obj ← s.object? object
  let s ← wakeLoop (s.heap.live.length + 1) s obj.head
  let s ← unlinkObject s object (pageOf obj.phyAddr)
  s.free object

/-- The loop of `free_objects`. -/
def freeObjectsLoop (page : Word) : Nat → Sched → Option Sched
  | 0, _ => none
  | fuel + 1, s =>
    let pobjAddr := (s.synchPages.search page).getD 0
    if pobjAddr = 0 then some s
    else do
      let pobj ← s.pageObject? pobjAddr
      let s ← synchDestroy s pobj.object
      freeObjectsLoop page fuel s

/-- `free_objects` -/
def freeObjects (s : Sched) (page : Word) : Option Sched :=
  freeObjectsLoop page (s.heap.live.length + 1) s

/-- `synch_from_phy` -/
def synchFromPhy (s : Sched) (phy : Word) : Nat := (s.synchObjects.search phy).getD 0

/-- `synch_wait` -/
def synchWait (s : Sched) (taskId object : Nat) (value : Word) : Option (Sched × Int) := do
  let obj ← s.object? object
  if s.mman.phys obj.phyAddr = value then do
    let (s, wait) := s.alloc (.wait ⟨obj.head, taskId⟩)
    let s ← s.put object (.object { obj with head := wait })
    let info ← s.taskInfo taskId
    return (s.modifyState info.state (· ||| taskStateBlocked), 0)
  else return (s, 1)

/-- `synch_wake` -/
def synchWake (s : Sched) (object : Nat) (value count : Word) : Option Sched := do
  let obj ← s.object? object
  if s.mman.phys obj.phyAddr = value then wakeLoop count.toNat s obj.head
  else return s

/-- The memory manager's new state, and its calls of `pagefree_callback`, in order. -/
def Sched.setMman (s : Sched) (mman : Mman) : Option Sched :=
  let calls := mman.pagefreeCalls.take
    (mman.pagefreeCalls.length - s.mman.pagefreeCalls.length)
  calls.reverse.foldlM freeObjects { s with mman := mman }

end Refk
