import Refk.Clib.Comm
import Refk.Clib.Str
import Refk.Klib.Task
import Refk.Lib.Heap
import Refk.Scheduler.Mman

/-!
# The scheduler's state

The global variables of `kernel/scheduler`: the memory manager's, the task table, the maps of
tasks, names and synch objects, the request queue, and the heap that the maps and the queue
point into. Pointers into the heap are its addresses; a pointer to a `task_state_t` is a slot
of the task table, and one to a `comm_t` the address of its window in the scheduler's own
address space.

A function answers `none` where the code has no defined behaviour: it follows a pointer that
is null, was freed or was never written.
-/

namespace Refk

open Lib

/-- `task_info_t` -/
structure TaskInfo where
  id : Nat
  state : Nat
  rootId : Nat
  sin : Word
  sout : Word
  gin : Word
  deriving DecidableEq

/-- `synch_wait_t` -/
structure SynchWait where
  next : Nat
  taskId : Nat
  deriving DecidableEq

/-- `synchobj_t` -/
structure SynchObj where
  phyAddr : Word
  head : Nat
  deriving DecidableEq

/-- `page_object_t` -/
structure PageObject where
  next : Nat
  object : Nat
  deriving DecidableEq

/-- What the scheduler allocates. A `task_info_t` has no contents before it is filled in. -/
inductive Block
  | info (contents : Option TaskInfo)
  | wait (contents : SynchWait)
  | object (contents : SynchObj)
  | pageObject (contents : PageObject)
  deriving DecidableEq

/-- `queue_entry` -/
structure QueueEntry where
  taskId : Nat
  info : Nat
  deriving DecidableEq

/-- The number of entries of `queue`. -/
def queueLength : Nat := 100

/-- The scheduler's variables. -/
structure Sched where
  mman : Mman
  tasks : TaskTable
  heap : Heap Block
  taskMap : AvlMap Nat Nat avlPtrcmp
  namedTasks : AvlMap (List Byte) Nat strCmp
  synchObjects : AvlMap Word Nat avlPtrcmp
  synchPages : AvlMap Word Nat avlPtrcmp
  queue : Nat → QueueEntry
  queueSize : Nat
  channels : Word → Comm

namespace Sched

variable (s : Sched)

/-! ## Following pointers -/

def info? (p : Nat) : Option TaskInfo :=
  match s.heap.cells p with
  | some (.info contents) => contents
  | _ => none

def wait? (p : Nat) : Option SynchWait :=
  match s.heap.cells p with
  | some (.wait contents) => some contents
  | _ => none

def object? (p : Nat) : Option SynchObj :=
  match s.heap.cells p with
  | some (.object contents) => some contents
  | _ => none

def pageObject? (p : Nat) : Option PageObject :=
  match s.heap.cells p with
  | some (.pageObject contents) => some contents
  | _ => none

/-- `heap_alloc`, with the first contents. -/
def alloc (b : Block) : Sched × Nat := ({ s with heap := s.heap.alloc b }, s.heap.fresh)

/-- `heap_free` -/
def free (p : Nat) : Option Sched := (s.heap.free p).map fun heap => { s with heap := heap }

/-- A store through a pointer. -/
def put (p : Nat) (b : Block) : Option Sched :=
  (s.heap.put p b).map fun heap => { s with heap := heap }

/-- `sched_get_info` -/
def getInfo (taskId : Nat) : Nat := (s.taskMap.search taskId).getD 0

/-- `*sched_get_info(task_id)` -/
def taskInfo (taskId : Nat) : Option TaskInfo := s.info? (s.getInfo taskId)

/-- `TASK_MEM(slot)->state = f(TASK_MEM(slot)->state)` -/
def modifyState (slot : Nat) (f : Word → Word) : Sched :=
  { s with tasks := s.tasks.set slot TaskState.state (f (s.tasks slot TaskState.state)) }

/-- The maps of `task_init` and `synch_init`, and an empty queue, all of whose entries are
    zero. -/
def init (mman : Mman) (tasks : TaskTable) (allocator : Allocator) (channels : Word → Comm) :
    Sched where
  mman := mman
  tasks := tasks
  heap := .empty allocator
  taskMap := .empty
  namedTasks := .empty
  synchObjects := .empty
  synchPages := .empty
  queue _ := ⟨0, 0⟩
  queueSize := 0
  channels := channels

/-! ## What the pointers point to -/

variable {s} {s' : Sched} {p q : Nat} {b : Block}

theorem info?_eq_some {i : TaskInfo} :
    s.info? p = some i ↔ s.heap.cells p = some (.info (some i)) := by
  unfold info?
  split
  next c hc => simp [hc]
  next hc => exact ⟨fun h => (by cases h), fun h => absurd h (hc _)⟩

theorem wait?_eq_some {w : SynchWait} :
    s.wait? p = some w ↔ s.heap.cells p = some (.wait w) := by
  unfold wait?
  split
  next c hc => simp [hc]
  next hc => exact ⟨fun h => (by cases h), fun h => absurd h (hc _)⟩

theorem object?_eq_some {o : SynchObj} :
    s.object? p = some o ↔ s.heap.cells p = some (.object o) := by
  unfold object?
  split
  next c hc => simp [hc]
  next hc => exact ⟨fun h => (by cases h), fun h => absurd h (hc _)⟩

theorem pageObject?_eq_some {o : PageObject} :
    s.pageObject? p = some o ↔ s.heap.cells p = some (.pageObject o) := by
  unfold pageObject?
  split
  next c hc => simp [hc]
  next hc => exact ⟨fun h => (by cases h), fun h => absurd h (hc _)⟩

theorem info?_congr (h : s'.heap.cells p = s.heap.cells p) : s'.info? p = s.info? p := by
  simp only [info?, h]

theorem wait?_congr (h : s'.heap.cells p = s.heap.cells p) : s'.wait? p = s.wait? p := by
  simp only [wait?, h]

theorem object?_congr (h : s'.heap.cells p = s.heap.cells p) : s'.object? p = s.object? p := by
  simp only [object?, h]

theorem taskInfo_congr {taskId : Nat} (hmap : s'.taskMap = s.taskMap)
    (hcells : s'.heap.cells (s.getInfo taskId) = s.heap.cells (s.getInfo taskId)) :
    s'.taskInfo taskId = s.taskInfo taskId := by
  have hget : s'.getInfo taskId = s.getInfo taskId := by rw [getInfo, hmap, getInfo]
  rw [taskInfo, hget]
  exact info?_congr hcells

section
variable {slot slot' index : Nat} {f : Word → Word}

@[simp] theorem modifyState_self :
    (s.modifyState slot f).tasks slot TaskState.state = f (s.tasks slot TaskState.state) :=
  TaskTable.set_self

theorem modifyState_of_slot_ne (h : slot' ≠ slot) :
    (s.modifyState slot f).tasks slot' = s.tasks slot' :=
  TaskTable.set_of_slot_ne h

end

/-- A store through a pointer to a live block succeeds. -/
theorem put_of_some {b' : Block} (b : Block) (h : s.heap.cells p = some b') :
    ∃ heap : Heap Block, s.put p b = some { s with heap := heap } ∧
      heap.cells = Function.update s.heap.cells p (some b) ∧ heap.live = s.heap.live := by
  obtain ⟨heap, hput, hcells, hlive, -⟩ := Heap.put_of_some b h
  exact ⟨heap, by rw [put, hput]; rfl, hcells, hlive⟩

theorem free_of_some (h : s.heap.cells p = some b) :
    ∃ heap : Heap Block, s.free p = some { s with heap := heap } ∧
      heap.cells = Function.update s.heap.cells p none ∧
      heap.live = s.heap.live.filter (· ≠ p) := by
  obtain ⟨heap, hfree, hcells, hlive, -⟩ := Heap.free_of_some h
  exact ⟨heap, by rw [free, hfree]; rfl, hcells, hlive⟩

@[simp] theorem free_null : s.free 0 = some s := by
  rw [free, Heap.free_null]
  rfl

/-- **What `heap_free` can do.** -/
theorem free_cases (h : s.free p = some s') :
    ∃ heap : Heap Block, s' = { s with heap := heap } ∧ s.heap.free p = some heap := by
  obtain ⟨heap, hfree, rfl⟩ := Option.map_eq_some_iff.mp h
  exact ⟨heap, rfl, hfree⟩

theorem put_cases (h : s.put p b = some s') :
    ∃ heap : Heap Block, s' = { s with heap := heap } ∧ s.heap.put p b = some heap := by
  obtain ⟨heap, hput, rfl⟩ := Option.map_eq_some_iff.mp h
  exact ⟨heap, rfl, hput⟩

end Sched

end Refk
