import Refk.Scheduler.Synch

/-!
# `kernel/scheduler/task.c` — tasks and their channels

A task gets a page of local storage and two channels in its own address space, and the
scheduler maps the channels' pages again in windows of its own. A `task_info_t` is filled in
as the code fills it in; the fields that are not assigned yet are `0`.

The words that `task_setup` stores in the task's local storage are for the task alone and are
not part of the model.
-/

namespace Refk

open Lib

/-- `TASK_CHANNEL_START` -/
def taskChannelStart : Word := 0xffff800000000000

/-- `LOCAL_CHANNEL_BASE` -/
def localChannelBase : Word := 0xcadd40000

/-- `LOCAL_CHANNEL_SIZE` -/
def localChannelSize : Word := 0x1000000

/-- `CHANNEL_SIZE` -/
def channelSize : Word := 0x1000

/-- `LOCAL_STORAGE_BASE` -/
def localStorageBase : Word := 0x510400000

/-- `LOCAL_STORAGE_SIZE` -/
def localStorageSize : Word := 0x1000

/-- `TEMPORARY_MAP_ADDRESS` -/
def temporaryMapAddress : Word := 0x50000000

/-- The window `find_available_local` tries in its turn `i`. -/
def localWindow (i : Nat) : Word := localChannelBase + BitVec.ofNat 64 i * localChannelSize

/-- `find_available_local` -/
def findAvailableLocal (m : Mman) : Word :=
  match (List.range (localChannelSize / channelSize).toNat).find? fun i =>
    mmanCheckAnyMapped m (mmanOwnRoot m) (localWindow i) 0x1000 = 0 with
  | some i => localWindow i
  | none => -1

/-- `for(uint64_t i = 0; ; i ++)` up to the first `i` with `p i`. -/
def firstFrom (p : Nat → Bool) : Nat → Nat → Option Nat
  | 0, _ => none
  | fuel + 1, i => if p i then some i else firstFrom p fuel (i + 1)

/-- The first page from `base` on that is not mapped, `none` for a search without end: the
    addresses repeat after 2^52 turns. -/
def firstUnmapped (m : Mman) (rootId : Nat) (base : Word) : Option Word :=
  (firstFrom (fun i => mmanCheckAnyMapped m rootId (base + BitVec.ofNat 64 i * 0x1000) 0x1000 = 0)
    (2 ^ 52) 0).map fun i => base + BitVec.ofNat 64 i * 0x1000

/-- `add_channel`: the scheduler's window, and the task's address. -/
def addChannel (s : Sched) (rootId : Nat) : Option (Sched × Word × Word) := do
  let localAddr := findAvailableLocal s.mman
  let caddr ← firstUnmapped s.mman rootId taskChannelStart
  let s ← s.setMman (mmanAnonymous s.mman rootId caddr channelSize).1
  let s ← s.setMman
    (mmanMirror s.mman (mmanOwnRoot s.mman) localAddr rootId caddr channelSize).1
  return (s, localAddr, caddr)

/-- `add_storage` -/
def addStorage (s : Sched) (rootId : Nat) : Option (Sched × Word) := do
  let saddr ← firstUnmapped s.mman rootId localStorageBase
  let s ← s.setMman (mmanAnonymous s.mman rootId saddr localStorageSize).1
  return (s, saddr)

/-- `comm_init` of a window, which faults if there is none. -/
def Sched.initChannel (s : Sched) (addr length : Word) : Option Sched := do
  if addr = -1 then none
  else do
    let (cc, _) ← commInit (s.channels addr) length commSimple
    return { s with channels := Function.update s.channels addr cc }

/-- `task_setup` -/
def taskSetup (s : Sched) (ts info : Nat) : Option Sched := do
  let i ← s.info? info
  let (s, gs) ← addStorage s i.rootId
  let s := { s with tasks := s.tasks.set ts TaskState.gsBase gs }
  let s ← s.setMman
    (mmanMirror s.mman (mmanOwnRoot s.mman) temporaryMapAddress i.rootId gs 0x1000).1
  -- create scheduler channel
  let (s, localAddr, _) ← addChannel s i.rootId
  let sout := localAddr + channelSize / 2
  let s ← s.put info (.info (some { i with sin := localAddr, sout := sout }))
  let s ← s.initChannel localAddr (channelSize / 2)
  let s ← s.initChannel sout (channelSize / 2)
  -- create incoming message channel
  let (s, gin, _) ← addChannel s i.rootId
  let s ← s.put info (.info (some { i with sin := localAddr, sout := sout, gin := gin }))
  let s ← s.initChannel gin channelSize
  s.setMman (mmanUnmap s.mman (mmanOwnRoot s.mman) temporaryMapAddress 0x1000).1

/-- `gen_id` -/
def Sched.genId (s : Sched) : Sched × Nat :=
  let (m, id) := Refk.genId s.mman
  ({ s with mman := m }, id)

/-- `sched_task_attach` -/
def schedTaskAttach (s : Sched) (ts info : Nat) : Option (Sched × Nat) := do
  let (s, id) := s.genId
  let s := { s with taskMap := (s.taskMap.insert id info).1 }
  let imported := mmanImportRoot s.mman (s.tasks ts TaskState.cr3)
  let s := { s with mman := mmanIncrementRoot imported.1 imported.2 }
  let s ← s.put info (.info (some ⟨id, ts, imported.2, 0, 0, 0⟩))
  let s ← taskSetup s ts info
  return (s, id)

/-- The answer `-1`, as a task id. -/
def noTask : Nat := 2 ^ 64 - 1

/-- `sched_task_create` -/
def schedTaskCreate (s : Sched) (rootId info : Nat) : Option (Sched × Nat) := do
  if ¬ mmanIsRoot s.mman rootId then return (s, noTask)
  else do
    let (tasks, ts) ← taskCreate s.tasks
    let (s, id) := { s with tasks := tasks }.genId
    let s := { s with taskMap := (s.taskMap.insert id info).1 }
    let s := { s with mman := mmanIncrementRoot s.mman rootId }
    let s := { s with tasks := s.tasks.set ts TaskState.cr3 (mmanGetRootCr3 s.mman rootId) }
    let s ← s.put info (.info (some ⟨id, ts, rootId, 0, 0, 0⟩))
    let s ← taskSetup s ts info
    return (s, id)

/-- `if(info->gin) mman_unmap(…)` -/
def Sched.unmapWindow (s : Sched) (gin : Word) : Option Sched :=
  if gin = 0 then some s
  else s.setMman (mmanUnmap s.mman (mmanOwnRoot s.mman) gin channelSize).1

/-- `sched_task_reap`, with its answer: the task's record, `0` for none. -/
def schedTaskReap (s : Sched) (taskId : Nat) : Option (Sched × Nat) := do
  let info := s.getInfo taskId
  if info = 0 then return (s, 0)
  else do
    let i ← s.info? info
    let s ← s.setMman (mmanDecrementRoot s.mman (s.tasks i.state TaskState.cr3).toNat)
    let i ← s.info? info
    let s := { s with tasks := s.tasks.set i.state TaskState.state 0 }
    let s := { s with tasks := s.tasks.set i.state TaskState.cr3 0 }
    let s ← s.unmapWindow i.gin
    return ({ s with taskMap := (s.taskMap.remove taskId).1 }, info)

/-- `sched_set_state` -/
def schedSetState (s : Sched) (taskId : Nat) (index value : Word) : Option Sched := do
  let info := s.getInfo taskId
  if info ≠ 0 ∧ index < 32 then do
    let i ← s.info? info
    return { s with tasks := s.tasks.set i.state index.toNat value }
  else return s

/-- `sched_set_name` -/
def schedSetName (s : Sched) (taskId : Nat) (name : List Byte) : Sched :=
  { s with namedTasks := (s.namedTasks.insert (name.take (strLen name)) taskId).1 }

/-- `sched_named_task` -/
def schedNamedTask (s : Sched) (name : List Byte) : Nat := (s.namedTasks.search name).getD 0

end Refk
