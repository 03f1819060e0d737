import Refk.Klib.Kmem

/-!
# `klib/task.c` — the table of task states

A `task_state_t` is an array of 32 words, which is also how the scheduler's clients address
it; the names of its fields are indices. The table `TASK_MEM(0) …` has `NUM_TASKS` of them,
and a pointer into it is an index. A slot counts as free as long as its state word does not
say `VALID`.
-/

namespace Refk

/-- `NUM_TASKS` -/
def numTasks : Nat := 4096

/-- `TASK_STATE_VALID` -/
def taskStateValid : Word := 0x01

/-- `TASK_STATE_RUNNABLE` -/
def taskStateRunnable : Word := 0x02

/-- `TASK_STATE_BLOCKED` -/
def taskStateBlocked : Word := 0x08

/-- `task_state_t`, as its words. -/
abbrev TaskState := Nat → Word

namespace TaskState

def rax : Nat := 0
def rsp : Nat := 6
def rflags : Nat := 16
def rip : Nat := 17
def cs : Nat := 18
def ds : Nat := 19
def es : Nat := 20
def fs : Nat := 21
def gs : Nat := 22
def ss : Nat := 23
def gsBase : Nat := 25
def cr3 : Nat := 26
def state : Nat := 27

def Valid (ts : TaskState) : Prop := ts state &&& taskStateValid ≠ 0
def Runnable (ts : TaskState) : Prop := ts state &&& taskStateRunnable ≠ 0
def Blocked (ts : TaskState) : Prop := ts state &&& taskStateBlocked ≠ 0

instance (ts : TaskState) : Decidable ts.Valid := inferInstanceAs (Decidable (_ ≠ _))
instance (ts : TaskState) : Decidable ts.Runnable := inferInstanceAs (Decidable (_ ≠ _))
instance (ts : TaskState) : Decidable ts.Blocked := inferInstanceAs (Decidable (_ ≠ _))

end TaskState

/-- The task table, by slot. -/
abbrev TaskTable := Nat → TaskState

/-- `TASK_MEM(slot)`'s word `index` becomes `value`. -/
def TaskTable.set (tasks : TaskTable) (slot index : Nat) (value : Word) : TaskTable :=
  Function.update tasks slot (Function.update (tasks slot) index value)

section
variable {tasks : TaskTable} {slot slot' index index' : Nat} {value : Word}

@[simp] theorem TaskTable.set_self : tasks.set slot index value slot index = value := by
  simp [set]

theorem TaskTable.set_of_index_ne (h : index' ≠ index) :
    tasks.set slot index value slot index' = tasks slot index' := by
  simp [set, h]

theorem TaskTable.set_of_slot_ne (h : slot' ≠ slot) :
    tasks.set slot index value slot' = tasks slot' := by
  simp [set, h]

end

/-- `find_available`: the first slot from 1 on that is not valid. -/
def findAvailable (tasks : TaskTable) : Option Nat :=
  (List.range' 1 (numTasks - 1)).find? fun i => ¬ (tasks i).Valid

/-- `task_create` -/
def taskCreate (tasks : TaskTable) : Option (TaskTable × Nat) :=
  (findAvailable tasks).map fun ts =>
    let tasks := tasks.set ts TaskState.cs 0x08
    let tasks := tasks.set ts TaskState.ds 0x10
    let tasks := tasks.set ts TaskState.es 0x10
    let tasks := tasks.set ts TaskState.fs 0x10
    let tasks := tasks.set ts TaskState.gs 0x10
    let tasks := tasks.set ts TaskState.ss 0x10
    let tasks := tasks.set ts TaskState.rflags 0x2
    (tasks, ts)

/-- `task_set_local`, with `kmem_current()` as an argument. -/
def taskSetLocal (tasks : TaskTable) (current : Word) (ts : Nat) (entry stackTop : Word) :
    TaskTable :=
  let tasks := tasks.set ts TaskState.cr3 current
  let tasks := tasks.set ts TaskState.rsp stackTop
  let tasks := tasks.set ts TaskState.rip entry
  tasks.set ts TaskState.state taskStateValid

/-- A task of the scheduler's own is valid, and starts at `entry` with its stack, in the address
    space that was current; the other slots stay. -/
theorem taskSetLocal_spec (tasks : TaskTable) (current : Word) (ts : Nat) (entry stackTop : Word) :
    (taskSetLocal tasks current ts entry stackTop ts).Valid ∧
      taskSetLocal tasks current ts entry stackTop ts TaskState.cr3 = current ∧
      taskSetLocal tasks current ts entry stackTop ts TaskState.rsp = stackTop ∧
      taskSetLocal tasks current ts entry stackTop ts TaskState.rip = entry ∧
      ∀ slot, slot ≠ ts → taskSetLocal tasks current ts entry stackTop slot = tasks slot := by
  refine ⟨?_, ?_, ?_, ?_, fun slot hne => ?_⟩
  · simp [taskSetLocal, TaskState.Valid, taskStateValid]
  · simp [taskSetLocal, TaskTable.set_of_index_ne, TaskState.state, TaskState.rip, TaskState.rsp,
      TaskState.cr3]
  · simp [taskSetLocal, TaskTable.set_of_index_ne, TaskState.state, TaskState.rip, TaskState.rsp]
  · simp [taskSetLocal, TaskTable.set_of_index_ne, TaskState.state, TaskState.rip]
  · simp [taskSetLocal, TaskTable.set_of_slot_ne hne]

/-- The first slot from 1 on that is not valid. -/
def FirstFree (tasks : TaskTable) (ts : Nat) : Prop :=
  1 ≤ ts ∧ ¬ (tasks ts).Valid ∧ ∀ j, 1 ≤ j → j < ts → (tasks j).Valid

section
variable {tasks tasks' : TaskTable} {ts ts' slot : Nat}

/-- What `find_available` finds is free, and everything before it is not. -/
theorem findAvailable_spec (h : findAvailable tasks = some ts) :
    1 ≤ ts ∧ ts < numTasks ∧ ¬ (tasks ts).Valid ∧ ∀ i, 1 ≤ i → i < ts → (tasks i).Valid := by
  obtain ⟨hfree, as, bs, hsplit, hbefore⟩ := List.find?_eq_some_iff_append.mp h
  have hmem : ts ∈ List.range' 1 (numTasks - 1) := by
    rw [hsplit]
    simp
  obtain ⟨hge, hlt⟩ := List.mem_range'_1.mp hmem
  refine ⟨hge, by rw [numTasks] at *; omega, by simpa using hfree, fun i hi hlt' => ?_⟩
  have hi' : i ∈ List.range' 1 (numTasks - 1) := List.mem_range'_1.mpr ⟨hi, by omega⟩
  have hsorted : (as ++ ts :: bs).Pairwise (· < ·) := hsplit ▸ List.pairwise_lt_range'
  rw [hsplit, List.mem_append, List.mem_cons] at hi'
  rcases hi' with hi' | rfl | hi'
  · simpa using hbefore i hi'
  · exact absurd hlt' (Nat.lt_irrefl _)
  · have hgt := (List.pairwise_cons.mp (List.pairwise_append.mp hsorted).2.1).1 i hi'
    exact absurd hlt' (Nat.lt_asymm hgt)

/-- It finds nothing only when every slot is valid. -/
theorem findAvailable_eq_none :
    findAvailable tasks = none ↔ ∀ i, 1 ≤ i → i < numTasks → (tasks i).Valid := by
  simp only [findAvailable, List.find?_eq_none, List.mem_range'_1, decide_not, Bool.not_eq_true,
    Bool.not_eq_false', decide_eq_true_eq]
  refine ⟨fun h i hi hlt => h i ⟨hi, ?_⟩, fun h i hi => h i hi.1 ?_⟩ <;>
    rw [numTasks] at * <;> omega

/-- The slot that is found is the first. -/
theorem firstFree_of_found (h : findAvailable tasks = some ts) : FirstFree tasks ts := by
  obtain ⟨hge, -, hfree, hbefore⟩ := findAvailable_spec h
  exact ⟨hge, hfree, hbefore⟩

theorem FirstFree.unique (h : FirstFree tasks ts) (h' : FirstFree tasks ts') : ts = ts' := by
  rcases Nat.lt_trichotomy ts ts' with hlt | heq | hgt
  · exact absurd (h'.2.2 ts h.1 hlt) h.2.1
  · exact heq
  · exact absurd (h.2.2 ts' h'.1 hgt) h'.2.1

theorem FirstFree.found (h : FirstFree tasks ts) (hlt : ts < numTasks) :
    findAvailable tasks = some ts := by
  cases hfind : findAvailable tasks with
  | none => exact absurd (findAvailable_eq_none.mp hfind ts h.1 hlt) h.2.1
  | some ts' => rw [(firstFree_of_found hfind).unique h]

/-- A slot is handed out as it is found, but for seven registers that are neither `cr3` nor the
    state. -/
theorem taskCreate_spec (h : taskCreate tasks = some (tasks', ts)) :
    findAvailable tasks = some ts ∧ tasks' ts TaskState.state = tasks ts TaskState.state ∧
      ∀ slot, slot ≠ ts → tasks' slot = tasks slot := by
  simp only [taskCreate, Option.map_eq_some_iff, Prod.mk.injEq] at h
  obtain ⟨ts, hfind, rfl, rfl⟩ := h
  refine ⟨hfind, ?_, fun slot hne => ?_⟩
  · simp [TaskTable.set_of_index_ne, TaskState.state, TaskState.rflags, TaskState.ss,
      TaskState.gs, TaskState.fs, TaskState.es, TaskState.ds, TaskState.cs]
  · simp [TaskTable.set_of_slot_ne hne]

end

end Refk
