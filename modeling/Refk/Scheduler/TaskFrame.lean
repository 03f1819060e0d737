import Refk.Scheduler.MmanFrame
import Refk.Scheduler.SynchFrame
import Refk.Scheduler.Task

/-!
# What the task operations do

`task_setup` interleaves the memory manager's work with the bookkeeping; the first part of this
file is that work by itself, the second what is left of a task operation when it is taken out.
There are no synch objects here, so the page-free callback has nothing to do.
-/

namespace Refk

open Lib

/-! ## The memory manager's part -/

/-- `add_channel`'s mappings: the new state, the scheduler's window and the task's address. -/
def mmanAddChannel (m : Mman) (rootId : Nat) : Option (Mman × Word × Word) := do
  let caddr ← firstUnmapped m rootId taskChannelStart
  let localAddr := findAvailableLocal m
  let m := (mmanAnonymous m rootId caddr channelSize).1
  return ((mmanMirror m (mmanOwnRoot m) localAddr rootId caddr channelSize).1, localAddr, caddr)

/-- `add_storage`'s mapping. -/
def mmanAddStorage (m : Mman) (rootId : Nat) : Option (Mman × Word) := do
  let saddr ← firstUnmapped m rootId localStorageBase
  return ((mmanAnonymous m rootId saddr localStorageSize).1, saddr)

/-- The windows of a new task. -/
structure Windows where
  gs : Word
  sin : Word
  gin : Word

/-- `task_setup`'s mappings. -/
def mmanTaskSetup (m : Mman) (rootId : Nat) : Option (Mman × Windows) := do
  let (m, gs) ← mmanAddStorage m rootId
  let m := (mmanMirror m (mmanOwnRoot m) temporaryMapAddress rootId gs 0x1000).1
  let (m, sin, _) ← mmanAddChannel m rootId
  let (m, gin, _) ← mmanAddChannel m rootId
  return ((mmanUnmap m (mmanOwnRoot m) temporaryMapAddress 0x1000).1, ⟨gs, sin, gin⟩)

section
variable {m m' : Mman} {rootId : Nat}

theorem mmanAddChannel_quiet {a : Word × Word} (h : mmanAddChannel m rootId = some (m', a)) :
    Quiet m m' := by
  simp only [mmanAddChannel, Option.bind_eq_bind, Option.bind_eq_some_iff, Option.pure_def,
    Option.some.injEq, Prod.mk.injEq] at h
  obtain ⟨caddr, -, rfl, -⟩ := h
  exact (quiet_mmanAnonymous m rootId caddr channelSize).trans (quiet_mmanMirror _ _ _ _ _ _)

theorem mmanAddStorage_quiet {a : Word} (h : mmanAddStorage m rootId = some (m', a)) :
    Quiet m m' := by
  simp only [mmanAddStorage, Option.bind_eq_bind, Option.bind_eq_some_iff, Option.pure_def,
    Option.some.injEq, Prod.mk.injEq] at h
  obtain ⟨saddr, -, rfl, -⟩ := h
  exact quiet_mmanAnonymous m rootId saddr localStorageSize

/-- Setting a task up changes no root. -/
theorem mmanTaskSetup_roots {w : Windows} (h : mmanTaskSetup m rootId = some (m', w)) :
    SameRoots m m' := by
  simp only [mmanTaskSetup, Option.bind_eq_bind, Option.bind_eq_some_iff, Option.pure_def,
    Option.some.injEq, Prod.mk.injEq, Prod.exists] at h
  obtain ⟨m₁, gs, h₁, m₂, sin, c, h₂, m₃, gin, c', h₃, rfl, -⟩ := h
  refine (mmanAddStorage_quiet h₁).roots.trans ?_
  refine (quiet_mmanMirror m₁ (mmanOwnRoot m₁) temporaryMapAddress rootId gs 0x1000).roots.trans ?_
  refine (mmanAddChannel_quiet h₂).roots.trans ?_
  exact (mmanAddChannel_quiet h₃).roots.trans (sameRoots_mmanUnmap m₃ _ _ _)

end

/-! ## The rest -/

/-- From `s` to `s'` the task of the record `info`, in slot `ts`, was set up. -/
structure SetUp (s s' : Sched) (ts info : Nat) (i : TaskInfo) (w : Windows) : Prop where
  mman : mmanTaskSetup s.mman i.rootId = some (s'.mman, w)
  taskMap : s'.taskMap = s.taskMap
  synchPages : s'.synchPages = s.synchPages
  queue : s'.queue = s.queue
  queueSize : s'.queueSize = s.queueSize
  record : s'.info? info =
    some { i with sin := w.sin, sout := w.sin + channelSize / 2, gin := w.gin }
  cells : ∀ p, p ≠ info → s'.heap.cells p = s.heap.cells p
  tasks : ∀ slot, slot ≠ ts → s'.tasks slot = s.tasks slot
  slot : ∀ index, index ≠ TaskState.gsBase → s'.tasks ts index = s.tasks ts index
  sin : w.sin ≠ -1
  gin : w.gin ≠ -1

section
variable {s s' : Sched} {ts info : Nat}

theorem addChannel_eq (h : NoObjects s) (rootId : Nat) : addChannel s rootId =
    (mmanAddChannel s.mman rootId).map fun a => ({ s with mman := a.1 }, a.2) := by
  unfold addChannel mmanAddChannel
  cases firstUnmapped s.mman rootId taskChannelStart with
  | none => rfl
  | some caddr =>
    have hno : ∀ m, NoObjects { s with mman := m } := fun _ => h
    simp only [setMman_of_noObjects h, Option.bind_eq_bind, Option.bind_some]
    rw [setMman_of_noObjects (hno _)]
    rfl

theorem addStorage_eq (h : NoObjects s) (rootId : Nat) : addStorage s rootId =
    (mmanAddStorage s.mman rootId).map fun a => ({ s with mman := a.1 }, a.2) := by
  unfold addStorage mmanAddStorage
  cases firstUnmapped s.mman rootId localStorageBase with
  | none => rfl
  | some saddr =>
    simp only [setMman_of_noObjects h, Option.bind_eq_bind, Option.bind_some]
    rfl

theorem initChannel_cases {addr length : Word} (h : s.initChannel addr length = some s') :
    addr ≠ -1 ∧ ∃ cc, s' = { s with channels := Function.update s.channels addr cc } := by
  unfold Sched.initChannel at h
  split_ifs at h with haddr
  simp only [Option.bind_eq_bind, Option.bind_eq_some_iff, Prod.exists, Option.pure_def,
    Option.some.injEq] at h
  obtain ⟨cc, r, -, rfl⟩ := h
  exact ⟨haddr, cc, rfl⟩

/-- **`task_setup`**: the mappings, the record's windows, and the task's `gs`. -/
theorem taskSetup_spec (hno : NoObjects s) (h : taskSetup s ts info = some s') :
    ∃ i w, s.info? info = some i ∧ SetUp s s' ts info i w := by
  have hno' : ∀ m tasks heap channels, NoObjects
      { s with mman := m, tasks := tasks, heap := heap, channels := channels } :=
    fun _ _ _ _ => hno
  simp only [taskSetup, addStorage_eq hno, Option.bind_eq_bind, Option.bind_eq_some_iff,
    Option.map_eq_some_iff, Prod.exists, Prod.mk.injEq] at h
  obtain ⟨i, hi, s₁, gs, ⟨m₁, gs', hstorage, rfl, rfl⟩, s₂, hmirror, s₃, sin, c, hchan, s₄, hput,
    s₅, hinit, s₆, hinit', s₇, gin, c', hchan', s₈, hput', s₉, hinit'', hunmap⟩ := h
  rw [setMman_of_noObjects (hno' _ _ _ _)] at hmirror
  obtain rfl := Option.some.inj hmirror
  rw [addChannel_eq (hno' _ _ _ _)] at hchan
  obtain ⟨⟨m₂, sin', c₂⟩, hadd, heq⟩ := Option.map_eq_some_iff.mp hchan
  obtain ⟨rfl, rfl, rfl⟩ : _ ∧ sin' = sin ∧ c₂ = c := by simpa using heq
  obtain ⟨heap, rfl, hheap⟩ := Sched.put_cases hput
  obtain ⟨hsin, cc₁, rfl⟩ := initChannel_cases hinit
  obtain ⟨-, cc₂, rfl⟩ := initChannel_cases hinit'
  rw [addChannel_eq (hno' _ _ _ _)] at hchan'
  obtain ⟨⟨m₃, gin', c₃⟩, hadd', heq'⟩ := Option.map_eq_some_iff.mp hchan'
  obtain ⟨rfl, rfl, rfl⟩ : _ ∧ gin' = gin ∧ c₃ = c' := by simpa using heq'
  obtain ⟨heap', rfl, hheap'⟩ := Sched.put_cases hput'
  obtain ⟨hgin, cc₃, rfl⟩ := initChannel_cases hinit''
  rw [setMman_of_noObjects (hno' _ _ _ _)] at hunmap
  obtain rfl := Option.some.inj hunmap
  obtain ⟨-, hcells, -⟩ := Heap.put_cases hheap
  obtain ⟨-, hcells', -⟩ := Heap.put_cases hheap'
  change heap'.cells = Function.update heap.cells info _ at hcells'
  refine ⟨i, ⟨gs', sin', gin'⟩, hi, ?_, rfl, rfl, rfl, rfl, ?_, fun p hp => ?_, fun slot hslot => ?_,
    fun index hindex => ?_, hsin, hgin⟩
  · simp only [mmanTaskSetup, hstorage, Option.bind_eq_bind, Option.bind_some, hadd, hadd']
    rfl
  · refine Sched.info?_eq_some.mpr ?_
    change heap'.cells info = _
    rw [hcells', Function.update_self]
  · change heap'.cells p = _
    rw [hcells', Function.update_of_ne hp, hcells, Function.update_of_ne hp]
  · exact TaskTable.set_of_slot_ne hslot
  · exact TaskTable.set_of_index_ne hindex

/-- From `s` to `s'` the task `id` was added, with the record `info` and the slot `ts`, in the
    root `rootId`; `m` is the memory manager once it counts the task. -/
structure Born (s s' : Sched) (id ts info rootId : Nat) (m : Mman) (w : Windows) : Prop where
  mman : mmanTaskSetup m rootId = some (s'.mman, w)
  taskMap : s'.taskMap = (s.taskMap.insert id info).1
  synchPages : s'.synchPages = s.synchPages
  queue : s'.queue = s.queue
  queueSize : s'.queueSize = s.queueSize
  record : s'.info? info =
    some ⟨id, ts, rootId, w.sin, w.sin + channelSize / 2, w.gin⟩
  cells : ∀ p, p ≠ info → s'.heap.cells p = s.heap.cells p
  tasks : ∀ slot, slot ≠ ts → s'.tasks slot = s.tasks slot
  state : s'.tasks ts TaskState.state = s.tasks ts TaskState.state
  sin : w.sin ≠ -1
  gin : w.gin ≠ -1

/-- What follows once the record is filled in. -/
theorem taskSetup_born {id rootId : Nat} {m : Mman} {tasks : TaskTable} {heap : Heap Block}
    (hno : NoObjects s)
    (hcells : heap.cells = Function.update s.heap.cells info
      (some (.info (some ⟨id, ts, rootId, 0, 0, 0⟩))))
    (htasks : ∀ slot, slot ≠ ts → tasks slot = s.tasks slot)
    (hstate : tasks ts TaskState.state = s.tasks ts TaskState.state)
    (h : taskSetup { s with
      mman := m, tasks := tasks, heap := heap, taskMap := (s.taskMap.insert id info).1 } ts info =
        some s') :
    (∃ w, Born s s' id ts info rootId m w) ∧
      s'.tasks ts TaskState.cr3 = tasks ts TaskState.cr3 := by
  obtain ⟨i, w, hi, hset⟩ := taskSetup_spec (s := { s with
    mman := m, tasks := tasks, heap := heap, taskMap := (s.taskMap.insert id info).1 }) hno h
  have hcell := Sched.info?_eq_some.mp hi
  change heap.cells info = _ at hcell
  rw [hcells, Function.update_self] at hcell
  obtain rfl : (⟨id, ts, rootId, 0, 0, 0⟩ : TaskInfo) = i := by simpa using hcell
  refine ⟨⟨w, hset.mman, hset.taskMap, hset.synchPages, hset.queue, hset.queueSize, hset.record,
    fun p hp => ?_, fun slot hslot => ?_, ?_, hset.sin, hset.gin⟩, hset.slot _ (by decide)⟩
  · rw [hset.cells p hp]
    change heap.cells p = _
    rw [hcells, Function.update_of_ne hp]
  · rw [hset.tasks slot hslot, ← htasks slot hslot]
  · rw [hset.slot _ (by decide), ← hstate]

/-- **`sched_task_attach`** -/
theorem schedTaskAttach_spec {id : Nat} (hno : NoObjects s)
    (h : schedTaskAttach s ts info = some (s', id)) :
    id = s.mman.nextId ∧ ∃ m rootId w,
      mmanImportRoot (genId s.mman).1 (s.tasks ts TaskState.cr3) = (m, rootId) ∧
      Born s s' id ts info rootId (mmanIncrementRoot m rootId) w := by
  simp only [schedTaskAttach, Sched.genId] at h
  generalize hroot : mmanImportRoot (genId s.mman).1 (s.tasks ts TaskState.cr3) = imported at h
  obtain ⟨m, rootId⟩ := imported
  simp only [Option.bind_eq_bind, Option.bind_eq_some_iff, Option.pure_def, Option.some.injEq,
    Prod.mk.injEq] at h
  obtain ⟨s₁, hput, s₂, hsetup, rfl, rfl⟩ := h
  obtain ⟨heap, rfl, hheap⟩ := Sched.put_cases hput
  obtain ⟨-, hcells, -⟩ := Heap.put_cases hheap
  obtain ⟨⟨w, hborn⟩, -⟩ := taskSetup_born hno hcells (fun _ _ => rfl) rfl hsetup
  exact ⟨rfl, m, rootId, w, rfl, hborn⟩

/-- **`sched_task_create`**: an unknown root is refused, otherwise the first free slot is
    taken. -/
theorem schedTaskCreate_spec {id rootId : Nat} (hno : NoObjects s)
    (h : schedTaskCreate s rootId info = some (s', id)) :
    (mmanIsRoot s.mman rootId = false ∧ s' = s ∧ id = noTask) ∨
      mmanIsRoot s.mman rootId = true ∧ id = s.mman.nextId ∧ ∃ ts w,
        findAvailable s.tasks = some ts ∧
        Born s s' id ts info rootId (mmanIncrementRoot (genId s.mman).1 rootId) w ∧
        s'.tasks ts TaskState.cr3 = s.mman.rootAddress rootId := by
  simp only [schedTaskCreate] at h
  split_ifs at h with hroot
  · simp only [Sched.genId, Option.bind_eq_bind, Option.bind_eq_some_iff, Option.pure_def,
      Option.some.injEq, Prod.mk.injEq, Prod.exists] at h
    obtain ⟨tasks, ts, hcreate, s₁, hput, s₂, hsetup, rfl, rfl⟩ := h
    obtain ⟨heap, rfl, hheap⟩ := Sched.put_cases hput
    obtain ⟨-, hcells, -⟩ := Heap.put_cases hheap
    obtain ⟨hfind, hstate, htasks⟩ := taskCreate_spec hcreate
    obtain ⟨⟨w, hborn⟩, hcr3⟩ := taskSetup_born hno hcells
      (fun slot hslot => (TaskTable.set_of_slot_ne hslot).trans (htasks slot hslot))
      ((TaskTable.set_of_index_ne (by decide)).trans hstate) hsetup
    refine .inr ⟨hroot, rfl, ts, w, hfind, hborn, hcr3.trans ?_⟩
    exact TaskTable.set_self
  · simp only [Option.pure_def, Option.some.injEq, Prod.mk.injEq] at h
    exact .inl ⟨by simpa using hroot, h.1.symm, h.2.symm⟩

/-- The memory manager's part of a reap. -/
def mmanTaskReap (m : Mman) (cr3 gin : Word) : Mman :=
  let m := mmanDecrementRoot m cr3.toNat
  if gin = 0 then m else (mmanUnmap m (mmanOwnRoot m) gin channelSize).1

/-- **`sched_task_reap`** -/
theorem schedTaskReap_spec {taskId r : Nat} (hno : NoObjects s)
    (h : schedTaskReap s taskId = some (s', r)) :
    (s.getInfo taskId = 0 ∧ s' = s) ∨ ∃ i, s.taskInfo taskId = some i ∧
      s' = { s with
        mman := mmanTaskReap s.mman (s.tasks i.state TaskState.cr3) i.gin
        tasks := (s.tasks.set i.state TaskState.state 0).set i.state TaskState.cr3 0
        taskMap := (s.taskMap.remove taskId).1 } := by
  have hno' : ∀ m tasks, NoObjects { s with mman := m, tasks := tasks } := fun _ _ => hno
  simp only [schedTaskReap] at h
  split_ifs at h with hinfo
  · simp only [Option.pure_def, Option.some.injEq, Prod.mk.injEq] at h
    exact .inl ⟨hinfo, h.1.symm⟩
  · simp only [setMman_of_noObjects hno, Option.bind_eq_bind, Option.bind_eq_some_iff,
      Option.pure_def, Option.some.injEq, Prod.mk.injEq] at h
    obtain ⟨i, hi, s₁, rfl, i', hi', s₂, hunmap, rfl, -⟩ := h
    obtain rfl : i = i' := Option.some.inj (hi.symm.trans hi')
    refine .inr ⟨i, hi, ?_⟩
    unfold Sched.unmapWindow at hunmap
    split_ifs at hunmap with hgin
    · obtain rfl := Option.some.inj hunmap
      simp only [mmanTaskReap, if_pos hgin]
    · rw [setMman_of_noObjects (hno' _ _)] at hunmap
      obtain rfl := Option.some.inj hunmap
      simp only [mmanTaskReap, if_neg hgin]

/-- **`sched_set_state`** -/
theorem schedSetState_spec {taskId : Nat} {index value : Word}
    (h : schedSetState s taskId index value = some s') :
    s' = s ∨ ∃ i, s.taskInfo taskId = some i ∧
      s' = { s with tasks := s.tasks.set i.state index.toNat value } := by
  simp only [schedSetState] at h
  split_ifs at h with hok
  · simp only [Option.bind_eq_bind, Option.bind_eq_some_iff, Option.pure_def,
      Option.some.injEq] at h
    obtain ⟨i, hi, rfl⟩ := h
    exact .inr ⟨i, hi, rfl⟩
  · exact .inl (Option.some.inj h).symm

end

end Refk
