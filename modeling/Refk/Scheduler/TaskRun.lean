import Refk.Lib.Run
import Refk.Scheduler.TaskFrame

/-!
# Histories of tasks

Tasks are attached and created, have words of their state set, and are reaped. The record that
a task gets is one that was just allocated, as `listen` and a spawn request do it. `TaskInv` is
the bookkeeping that every such history keeps; the lemmas after it say what a step does to the
tasks as a whole, by id.
-/

namespace Refk

open Lib

/-- The calls into `task.c`. -/
inductive TaskOp
  | attach (ts : Nat)
  | create (rootId : Nat)
  | setState (taskId : Nat) (index value : Word)
  | reap (taskId : Nat)

/-- The scheduler with a block for the next task's record. -/
def Sched.withRecord (s : Sched) : Sched := (s.alloc (.info none)).1

def taskStep (s : Sched) : TaskOp → Option (Sched × Nat)
  | .attach ts => schedTaskAttach s.withRecord ts s.heap.fresh
  | .create rootId => schedTaskCreate s.withRecord rootId s.heap.fresh
  | .setState taskId index value => (schedSetState s taskId index value).map fun s => (s, 0)
  | .reap taskId => schedTaskReap s taskId

/-- The bookkeeping: no synch object exists, every id in `task_map` has a record of its own, and
    was handed out by `gen_id`. -/
structure TaskInv (s : Sched) : Prop where
  noObjects : NoObjects s
  live : ∀ id p, s.taskMap.search id = some p → ∃ i, s.info? p = some i ∧ i.id = id
  bound : ∀ id p, s.taskMap.search id = some p → id < s.mman.nextId

theorem TaskInv.init (mman : Mman) (tasks : TaskTable) (allocator : Allocator)
    (channels : Word → Comm) : TaskInv (.init mman tasks allocator channels) where
  noObjects _ := rfl
  live _ _ h := by cases h
  bound _ _ h := by cases h

section
variable {s s' : Sched} {id ts rootId q r : Nat} {m : Mman} {w : Windows} {i : TaskInfo}

/-- A task's record, from its id. -/
theorem taskInfo_eq_some : s.taskInfo q = some i ↔
    ∃ p, s.taskMap.search q = some p ∧ s.info? p = some i := by
  unfold Sched.taskInfo Sched.getInfo
  cases hs : s.taskMap.search q with
  | none =>
    refine ⟨fun h => ?_, fun ⟨p, hp, _⟩ => by cases hp⟩
    rw [Sched.info?_eq_some, Option.getD_none, s.heap.null] at h
    cases h
  | some p => exact ⟨fun h => ⟨p, rfl, h⟩, fun ⟨p', hp', h⟩ => Option.some.inj hp' ▸ h⟩

theorem TaskInv.lt_nextId (h : TaskInv s) (hq : s.taskInfo q = some i) : q < s.mman.nextId := by
  obtain ⟨p, hp, -⟩ := taskInfo_eq_some.mp hq
  exact h.bound q p hp

theorem taskInfo_of_getInfo_eq_zero (hq : s.getInfo q = 0) : s.taskInfo q = none := by
  rw [Sched.taskInfo, hq]
  cases hi : s.info? 0 with
  | none => rfl
  | some i =>
    rw [Sched.info?_eq_some, s.heap.null] at hi
    cases hi

theorem cells_withRecord {p : Nat} (hp : p ≠ s.heap.fresh) :
    s.withRecord.heap.cells p = s.heap.cells p := Heap.cells_alloc_of_ne hp

theorem NoObjects.withRecord (h : NoObjects s) : NoObjects s.withRecord := h

/-- Allocating the record is part of the birth. -/
theorem Born.of_withRecord (h : Born s.withRecord s' id ts s.heap.fresh rootId m w) :
    Born s s' id ts s.heap.fresh rootId m w :=
  { h with cells := fun p hp => (h.cells p hp).trans (cells_withRecord hp) }

/-- **A birth adds one task** and leaves the others as they are. -/
theorem Born.taskInfo (h : Born s s' id ts s.heap.fresh rootId m w) (hs : TaskInv s) (q : Nat) :
    s'.taskInfo q = if id = q then
      some ⟨id, ts, rootId, w.sin, w.sin + channelSize / 2, w.gin⟩ else s.taskInfo q := by
  ext i
  rw [taskInfo_eq_some, h.taskMap]
  simp only [AvlMap.search_insert_ptr]
  split_ifs with hq
  · constructor
    · rintro ⟨p, hp, hi⟩
      obtain rfl := Option.some.inj hp
      rw [h.record] at hi
      exact hi
    · exact fun hi => ⟨_, rfl, h.record.trans hi⟩
  · rw [taskInfo_eq_some]
    refine exists_congr fun p => and_congr_right fun hp => ?_
    obtain ⟨i', hi', -⟩ := hs.live q p hp
    have hne : p ≠ s.heap.fresh := (Heap.fresh_ne (Sched.info?_eq_some.mp hi')).symm
    rw [Sched.info?_congr (h.cells p hne)]

theorem TaskInv.born (hs : TaskInv s) (h : Born s s' id ts s.heap.fresh rootId m w)
    (hid : id = s.mman.nextId) (hm : s.mman.nextId < m.nextId) : TaskInv s' := by
  have hnext : s'.mman.nextId = m.nextId := (mmanTaskSetup_roots h.mman).nextId
  refine ⟨fun page => ?_, fun q p hp => ?_, fun q p hp => ?_⟩
  · rw [h.synchPages]
    exact hs.noObjects page
  · rw [h.taskMap, AvlMap.search_insert_ptr] at hp
    split_ifs at hp with hq
    · obtain rfl := Option.some.inj hp
      exact ⟨_, h.record, hq⟩
    · obtain ⟨i, hi, hid⟩ := hs.live q p hp
      have hne : p ≠ s.heap.fresh := (Heap.fresh_ne (Sched.info?_eq_some.mp hi)).symm
      exact ⟨i, (Sched.info?_congr (h.cells p hne)).trans hi, hid⟩
  · rw [h.taskMap, AvlMap.search_insert_ptr] at hp
    rw [hnext]
    split_ifs at hp with hq
    · omega
    · exact (hs.bound q p hp).trans hm

/-- `mman_import_root`, in ids. -/
theorem nextId_mmanImportRoot {m' : Mman} {cr3 : Word} {rootId : Nat}
    (h : mmanImportRoot m cr3 = (m', rootId)) : m'.nextId = m.nextId + 1 := by
  obtain ⟨m₀, -, heq⟩ := importRoot_spec m cr3
  rw [mmanImportRoot, heq] at h
  exact congrArg (fun a => a.1.nextId) h.symm

/-- A reap leaves the other ids as they are. -/
theorem taskInfo_remove {m : Mman} {tasks : TaskTable} (taskId q : Nat) :
    ({ s with mman := m, tasks := tasks, taskMap := (s.taskMap.remove taskId).1 } : Sched).taskInfo
      q = if taskId = q then none else s.taskInfo q := by
  ext i
  rw [taskInfo_eq_some]
  simp only [AvlMap.search_remove_ptr]
  split_ifs
  · simp
  · rw [taskInfo_eq_some]
    rfl

theorem nextId_mmanTaskReap (m : Mman) (cr3 gin : Word) :
    (mmanTaskReap m cr3 gin).nextId = m.nextId := by
  simp only [mmanTaskReap]
  split_ifs
  · exact (mmanDecrementRoot_spec m cr3.toNat).2.2.1
  · rw [(sameRoots_mmanUnmap _ _ _ _).nextId]
    exact (mmanDecrementRoot_spec m cr3.toNat).2.2.1

theorem TaskInv.reaped {tasks : TaskTable} {taskId : Nat} (hs : TaskInv s)
    (hm : m.nextId = s.mman.nextId) :
    TaskInv { s with mman := m, tasks := tasks, taskMap := (s.taskMap.remove taskId).1 } := by
  refine ⟨hs.noObjects, fun q p hp => ?_, fun q p hp => ?_⟩ <;>
    simp only [AvlMap.search_remove_ptr] at hp <;> split_ifs at hp
  · exact hs.live q p hp
  · rw [hm]
    exact hs.bound q p hp

/-- **What a step does**: a task is born, or reaped, or has a word set, or nothing happens. -/
inductive TaskStepped (s s' : Sched) : TaskOp → Prop
  | attached {ts rootId : Nat} {m : Mman} {w : Windows}
      (imported : mmanImportRoot (genId s.mman).1 (s.tasks ts TaskState.cr3) = (m, rootId))
      (born : Born s s' s.mman.nextId ts s.heap.fresh rootId (mmanIncrementRoot m rootId) w) :
      TaskStepped s s' (.attach ts)
  | refused {rootId : Nat} (unknown : mmanIsRoot s.mman rootId = false) (same : s' = s.withRecord) :
      TaskStepped s s' (.create rootId)
  | created {rootId ts : Nat} {w : Windows} (known : mmanIsRoot s.mman rootId = true)
      (found : findAvailable s.tasks = some ts)
      (born : Born s s' s.mman.nextId ts s.heap.fresh rootId
        (mmanIncrementRoot (genId s.mman).1 rootId) w)
      (cr3 : s'.tasks ts TaskState.cr3 = s.mman.rootAddress rootId) :
      TaskStepped s s' (.create rootId)
  | unset {taskId : Nat} {index value : Word} (same : s' = s) :
      TaskStepped s s' (.setState taskId index value)
  | set {taskId : Nat} {index value : Word} {i : TaskInfo} (info : s.taskInfo taskId = some i)
      (eq : s' = { s with tasks := s.tasks.set i.state index.toNat value }) :
      TaskStepped s s' (.setState taskId index value)
  | unknown {taskId : Nat} (none : s.taskInfo taskId = none) (same : s' = s) :
      TaskStepped s s' (.reap taskId)
  | reaped {taskId : Nat} {i : TaskInfo} (info : s.taskInfo taskId = some i)
      (eq : s' = { s with
        mman := mmanTaskReap s.mman (s.tasks i.state TaskState.cr3) i.gin
        tasks := (s.tasks.set i.state TaskState.state 0).set i.state TaskState.cr3 0
        taskMap := (s.taskMap.remove taskId).1 }) :
      TaskStepped s s' (.reap taskId)

theorem taskStep_cases {op : TaskOp} (hs : TaskInv s) (h : taskStep s op = some (s', r)) :
    TaskStepped s s' op := by
  cases op with
  | attach ts =>
    obtain ⟨rfl, m, rootId, w, himport, hborn⟩ := schedTaskAttach_spec hs.noObjects.withRecord h
    exact .attached himport hborn.of_withRecord
  | create rootId =>
    rcases schedTaskCreate_spec hs.noObjects.withRecord h with
      ⟨hroot, rfl, -⟩ | ⟨hroot, rfl, ts, w, hfind, hborn, hcr3⟩
    · exact .refused hroot rfl
    · exact .created hroot hfind hborn.of_withRecord hcr3
  | setState taskId index value =>
    obtain ⟨s₁, hset, heq⟩ := Option.map_eq_some_iff.mp h
    obtain ⟨rfl, -⟩ := Prod.mk.inj heq
    rcases schedSetState_spec hset with rfl | ⟨i, hi, rfl⟩
    · exact .unset rfl
    · exact .set hi rfl
  | reap taskId =>
    rcases schedTaskReap_spec hs.noObjects h with ⟨hnone, rfl⟩ | ⟨i, hi, rfl⟩
    · exact .unknown (taskInfo_of_getInfo_eq_zero hnone) rfl
    · exact .reaped hi rfl

/-- An allocation changes no task. -/
theorem TaskInv.withRecord (hs : TaskInv s) : TaskInv s.withRecord := by
  refine ⟨hs.noObjects, fun q p hp => ?_, hs.bound⟩
  obtain ⟨i, hi, hid⟩ := hs.live q p hp
  exact ⟨i, Sched.info?_eq_some.mpr (Heap.cells_alloc_of_some (Sched.info?_eq_some.mp hi)), hid⟩

theorem TaskInv.taskInfo_withRecord (hs : TaskInv s) (q : Nat) :
    s.withRecord.taskInfo q = s.taskInfo q := by
  ext i
  simp only [taskInfo_eq_some]
  refine exists_congr fun p => and_congr_right fun hp => ?_
  obtain ⟨i', hi', -⟩ := hs.live q p hp
  have hne : p ≠ s.heap.fresh := (Heap.fresh_ne (Sched.info?_eq_some.mp hi')).symm
  rw [Sched.info?_congr (cells_withRecord hne)]

/-- **Every step keeps the bookkeeping.** -/
theorem TaskInv.step {op : TaskOp} (hs : TaskInv s) (h : TaskStepped s s' op) : TaskInv s' := by
  cases h with
  | attached himport hborn =>
    refine hs.born hborn rfl ?_
    have hnext := nextId_mmanImportRoot himport
    have hgen : (genId s.mman).1.nextId = s.mman.nextId + 1 := rfl
    change s.mman.nextId < _
    simp only [mmanIncrementRoot]
    omega
  | refused _ hsame => exact hsame ▸ hs.withRecord
  | created _ _ hborn _ => exact hs.born hborn rfl (Nat.lt_succ_self _)
  | unset hsame => exact hsame ▸ hs
  | set hi heq => exact heq ▸ ⟨hs.noObjects, hs.live, hs.bound⟩
  | unknown _ hsame => exact hsame ▸ hs
  | reaped hi heq => exact heq ▸ hs.reaped (nextId_mmanTaskReap _ _ _)

end

end Refk
