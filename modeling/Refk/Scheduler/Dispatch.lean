import Refk.Scheduler.Choose
import Refk.Scheduler.Schedulable
import Refk.Scheduler.RootArg

/-!
# `kernel/scheduler/scheduler.c` — who is resumed

The timer's handler, `change_task`, goes by `RUNNABLE`; the handler of the software interrupt,
`process_queue`, by `BLOCKED`, after it has processed requests. What they pass to `transfer` is a
slot of the task table, or null.
-/

namespace Refk

open Lib

/-- `change_task` -/
def changeTask (tasks : TaskTable) (ret : Nat) : Option Nat :=
  if (tasks ret).Runnable then chooseNext tasks ret else some ret

/-- `process_queue`, behind its `process_for`. -/
def processQueue (tasks : TaskTable) (ret : Nat) : Option Nat :=
  if (tasks ret).Blocked then chooseNext tasks ret else some ret

/-- The scheduler, the slot that runs, and whether its software interrupt is being processed. -/
structure Dispatch where
  sched : Sched
  running : Nat
  interrupted : Bool

inductive DispatchOp
  /-- The timer. -/
  | tick
  /-- A software interrupt. -/
  | interrupt
  /-- A packet from an entry of the queue, as it stands in the locals: in `listen`, which runs as
      the task in slot 1, or for the interrupt. -/
  | request (q : Nat) (l : Locals)
  /-- The requests for the interrupt are done. -/
  | resume
  /-- Channels, memory and registers have changed. -/
  | clients (channels : Word → Comm) (phys : Phys) (registers : TaskTable)

/-- The words of the tasks that run are theirs, but for the state and `cr3`. -/
def withRegisters (tasks registers : TaskTable) : TaskTable := fun slot index =>
  if index = TaskState.state ∨ index = TaskState.cr3 then tasks slot index
  else registers slot index

/-- `transfer(0, next)`, which is also the output. -/
def Dispatch.transfer (D : Dispatch) (next : Option Nat) : Dispatch × Option (Option Nat) :=
  (⟨D.sched, next.getD D.running, false⟩, some next)

/-- One step. -/
def dispatchStep (D : Dispatch) : DispatchOp → Option (Dispatch × Option (Option Nat))
  | .tick =>
    if D.interrupted then none else some (D.transfer (changeTask D.sched.tasks D.running))
  | .interrupt =>
    if D.interrupted then none else some ({ D with interrupted := true }, none)
  | .request q l =>
    if D.interrupted ∨ D.running = 1 then
      (listenStep D.sched (.request q l)).map fun s => ({ D with sched := s }, none)
    else none
  | .resume =>
    if D.interrupted then some (D.transfer (processQueue D.sched.tasks D.running)) else none
  | .clients channels phys registers => (listenStep D.sched (.clients channels phys)).map fun s =>
      ({ D with sched := { s with tasks := withRegisters s.tasks registers } }, none)

/-- **What may be resumed.** -/
def Resumable (s : Sched) (next : Option Nat) : Prop :=
  ∃ slot, next = some slot ∧ (s.tasks slot).Valid ∧ ¬ (s.tasks slot).Blocked ∧
    KnownCr3 s.mman (s.tasks slot TaskState.cr3)

/-- A word that a task has set leaves the slot that is running valid, and no valid slot with a
    `cr3` that is not known; a task that is reaped is not the one that is running, and if its `cr3`
    happens to be the id of a root with one task, no other slot runs in that root. (What is mapped
    stays off the task table itself, which is no page of a window here.) -/
def ResumesWell (s : Sched) (running q : Nat) : Request → Prop
  | .setState task index value => ∀ i, s.taskInfo task.toNat = some i →
      ((s.tasks.set i.state index.toNat value i.state).Valid →
        KnownCr3 s.mman (s.tasks.set i.state index.toNat value i.state TaskState.cr3)) ∧
      (i.state = running → (s.tasks.set i.state index.toNat value i.state).Valid)
  | .reap task => ∀ i, s.taskInfo (taskArg s q task) = some i → i.state ≠ running ∧
      (s.mman.rootCount (s.tasks i.state TaskState.cr3).toNat = 1 →
        ∀ slot, slot ≠ i.state → (s.tasks slot).Valid →
          s.tasks slot TaskState.cr3 = s.mman.cr3 ∨
            ∃ id, id ≠ (s.tasks i.state TaskState.cr3).toNat ∧
              s.mman.rootMap.search id = some (s.tasks slot TaskState.cr3))
  | r => r.OffScheduler s q

/-- The condition on a step. -/
def DispatchesWell (D : Dispatch) : DispatchOp → Prop
  | .request q l => ResumesWell D.sched D.running q l.request
  | _ => True

/-! ## Requests that write states -/

section
variable {s s' : Sched} {q taskId : Nat} {i : TaskInfo}

/-- A word of a task's state that another task has set. -/
theorem setState_schedulable {running : Nat} {task index value : Word} {ws : List (Nat × Word)}
    (hs : Schedulable s) (hwell : ResumesWell s running q (.setState task index value))
    (h : effect s q (.setState task index value) = some (s', ws)) :
    Schedulable s' ∧ ((s.tasks running).Valid → (s'.tasks running).Valid) := by
  simp only [effect, Option.bind_eq_bind, Option.bind_eq_some_iff] at h
  obtain ⟨s₁, hset, h⟩ := h
  cases h
  rcases schedSetState_spec hset with rfl | ⟨i, hi, rfl⟩
  · exact ⟨hs, id⟩
  · obtain ⟨hknown, hrunning⟩ := hwell i hi
    have hother : ∀ slot, slot ≠ i.state →
        (s.tasks.set i.state index.toNat value) slot = s.tasks slot :=
      fun slot hne => TaskTable.set_of_slot_ne hne
    refine ⟨(hs.but i.state).of_slot (hs.records _ _ hi) hother hknown, fun hv => ?_⟩
    by_cases heq : i.state = running
    · rw [← heq]
      exact hrunning heq
    · change ((s.tasks.set i.state index.toNat value) running).Valid
      rw [hother running (Ne.symm heq)]
      exact hv

/-- `sched_task_reap` up to its `avl_remove`: the slot of the task, and its root, are given up. -/
theorem reapMemory_schedulable (hs : Schedulable s) (hi : s.taskInfo taskId = some i)
    (hroot : s.mman.rootCount (s.tasks i.state TaskState.cr3).toNat = 1 →
      ∀ slot, slot ≠ i.state → (s.tasks slot).Valid → s.tasks slot TaskState.cr3 = s.mman.cr3 ∨
        ∃ id, id ≠ (s.tasks i.state TaskState.cr3).toNat ∧
          s.mman.rootMap.search id = some (s.tasks slot TaskState.cr3))
    (h : reapMemory s taskId = some s') :
    Schedulable s' ∧ ∀ slot, slot ≠ i.state → (s.tasks slot).Valid → (s'.tasks slot).Valid := by
  have hinfo : s.info? (s.getInfo taskId) = some i := hi
  simp only [reapMemory, hinfo, Option.bind_eq_bind, Option.bind_some, Option.bind_eq_some_iff] at h
  obtain ⟨s₁, hdecrement, i', hi', hunmap⟩ := h
  obtain ⟨-, hsearch, -, hcr3, -⟩ := mmanDecrementRoot_spec s.mman
    (s.tasks i.state TaskState.cr3).toNat
  have hreleased := setMman_released hdecrement
  -- the record is still the one that was read at first
  obtain rfl : i = i' := Option.some.inj (hinfo.symm.trans (hreleased.info _ _ hi'))
  have h₀ : SchedulableBut (some i.state) { s with
      mman := mmanDecrementRoot s.mman (s.tasks i.state TaskState.cr3).toNat } := by
    refine ⟨hs.valid, hs.runnable, hs.unblocked, fun slot hne hv => ?_, hs.records⟩
    have hne' : slot ≠ i.state := fun heq => hne (congrArg some heq.symm)
    by_cases hone : s.mman.rootCount (s.tasks i.state TaskState.cr3).toNat = 1
    · rcases hroot hone slot hne' hv with hown | ⟨id, hid, hmap⟩
      · exact .inl (hown.trans hcr3.symm)
      · exact .inr ⟨id, by rw [hsearch, if_neg fun hand => hid hand.1.symm]; exact hmap⟩
    · rcases hs.known hv with hown | ⟨id, hmap⟩
      · exact .inl (hown.trans hcr3.symm)
      · exact .inr ⟨id, by rw [hsearch, if_neg fun hand => hone hand.2]; exact hmap⟩
  have h₁ := hreleased.schedulableKept.schedulable _ h₀
  have hother : ∀ slot, slot ≠ i.state → ((s₁.tasks.set i.state TaskState.state 0).set i.state
      TaskState.cr3 0) slot = s₁.tasks slot := by
    intro slot hne
    rw [TaskTable.set_of_slot_ne hne, TaskTable.set_of_slot_ne hne]
  have h₂ : Schedulable { s₁ with
      tasks := (s₁.tasks.set i.state TaskState.state 0).set i.state TaskState.cr3 0 } := by
    refine h₁.of_slot (hs.records _ _ hi) hother fun hv => absurd ?_ hv
    rw [TaskTable.set_of_index_ne (by decide), TaskTable.set_self]
    rfl
  have hrest : SchedulableKept { s₁ with
      tasks := (s₁.tasks.set i.state TaskState.state 0).set i.state TaskState.cr3 0 } s' := by
    unfold Sched.unmapWindow at hunmap
    split_ifs at hunmap
    · obtain rfl := Option.some.inj hunmap
      exact .refl _
    · exact setMman_schedulableKept (sameRoots_mmanUnmap _ _ _ _) hunmap
  refine ⟨hrest.schedulable none h₂, fun slot hne hv => hrest.valid slot ?_⟩
  change (((s₁.tasks.set i.state TaskState.state 0).set i.state TaskState.cr3 0) slot).Valid
  rw [hother slot hne]
  exact hreleased.schedulableKept.valid slot hv

theorem removeFromQueue_schedulableKept (s : Sched) (id : Nat) :
    SchedulableKept s (removeFromQueue s id) := by
  unfold removeFromQueue
  split
  · exact .refl s
  · exact .of_same (fun _ => rfl) (fun _ => rfl) (fun _ hc => hc) fun _ _ hi => hi

/-- A reap of another task than the one that is running. -/
theorem reap_schedulable {running : Nat} {task : Word} {ws : List (Nat × Word)} (hs : Schedulable s)
    (hwell : ResumesWell s running q (.reap task)) (h : effect s q (.reap task) = some (s', ws)) :
    Schedulable s' ∧ ((s.tasks running).Valid → (s'.tasks running).Valid) := by
  simp only [effect, Option.bind_eq_bind, Option.bind_eq_some_iff] at h
  obtain ⟨⟨s₁, info⟩, hreap, s₂, hfree, h⟩ := h
  cases h
  change schedTaskReap s (taskArg s q task) = some (s₁, info) at hreap
  have hrest := (removeFromQueue_schedulableKept s₁ (taskArg s q task)).trans
    (Released.of_free hfree).schedulableKept
  rw [schedTaskReap_eq] at hreap
  by_cases hknown : s.getInfo (taskArg s q task) = 0
  · rw [if_pos hknown] at hreap
    obtain ⟨rfl, -⟩ := Prod.mk.inj (Option.some.inj hreap)
    exact ⟨hrest.schedulable none hs, hrest.valid running⟩
  · rw [if_neg hknown] at hreap
    obtain ⟨s₀, hmemory, heq⟩ := Option.map_eq_some_iff.mp hreap
    obtain ⟨rfl, -⟩ := Prod.mk.inj heq
    obtain ⟨i, hi⟩ : ∃ i, s.taskInfo (taskArg s q task) = some i := by
      simp only [reapMemory, Option.bind_eq_bind, Option.bind_eq_some_iff] at hmemory
      obtain ⟨i, hi, -⟩ := hmemory
      exact ⟨i, hi⟩
    obtain ⟨hrunning, hroot⟩ := hwell i hi
    obtain ⟨hs₀, hvalid⟩ := reapMemory_schedulable hs hi hroot hmemory
    have hs₁ : Schedulable { s₀ with taskMap := (s₀.taskMap.remove (taskArg s q task)).1 } :=
      ⟨hs₀.valid, hs₀.runnable, hs₀.unblocked, hs₀.roots, hs₀.records⟩
    exact ⟨hrest.schedulable none hs₁,
      fun hv => hrest.valid running (hvalid running hrunning.symm hv)⟩

/-- **One request** under the condition. -/
theorem effect_schedulable {running : Nat} {r : Request} {ws : List (Nat × Word)}
    (hs : Schedulable s) (hwell : ResumesWell s running q r) (h : effect s q r = some (s', ws)) :
    Schedulable s' ∧ ((s.tasks running).Valid → (s'.tasks running).Valid) := by
  have hkept : r.KeepsStates →
      Schedulable s' ∧ ((s.tasks running).Valid → (s'.tasks running).Valid) := by
    intro hr
    have hkept := effect_schedulableKept hs hr h
    exact ⟨hkept.schedulable none hs, hkept.valid running⟩
  cases r with
  | setState task index value => exact setState_schedulable hs hwell h
  | reap task => exact reap_schedulable hs hwell h
  | _ => exact hkept trivial

end

/-! ## Runs -/

/-- A slot of the table that is valid and not blocked. -/
def Chosen (tasks : TaskTable) (next : Option Nat) : Prop :=
  ∃ slot < numTasks, next = some slot ∧ (tasks slot).Valid ∧ ¬ (tasks slot).Blocked

/-- The slot that runs is valid, and but for an interrupt it is not blocked. -/
structure DispatchInv (D : Dispatch) : Prop where
  schedulable : Schedulable D.sched
  lt : D.running < numTasks
  valid : (D.sched.tasks D.running).Valid
  unblocked : D.interrupted = false → ¬ (D.sched.tasks D.running).Blocked

section
variable {D D' : Dispatch} {op : DispatchOp} {out : Option (Option Nat)} {ret : Nat}

/-- The scheduler is always there to be resumed. -/
theorem Schedulable.eligible {s : Sched} (hs : Schedulable s) : Eligible s.tasks 1 :=
  ⟨by decide, by decide, hs.valid, hs.runnable, hs.unblocked⟩

/-- `choose_next` from a valid slot. -/
theorem chooseNext_chosen {s : Sched} (hs : Schedulable s) (hret : ret < numTasks)
    (hvalid : (s.tasks ret).Valid) : Chosen s.tasks (chooseNext s.tasks ret) := by
  by_cases hno : ∀ i, Eligible s.tasks i → i = ret
  · obtain rfl : 1 = ret := hno 1 hs.eligible
    exact ⟨1, hret, by rw [chooseNext_alone hret hno, if_neg hs.unblocked], hvalid, hs.unblocked⟩
  · simp only [not_forall] at hno
    obtain ⟨i, hi, hne⟩ := hno
    obtain ⟨slot, hfirst⟩ := exists_firstBehind hret hi hne
    have hchoose := chooseNext_first hfirst
    obtain ⟨_, -, -, -, heligible, -⟩ := hfirst
    exact ⟨slot, heligible.lt, hchoose, heligible.valid, heligible.not_blocked⟩

/-- The slot that is chosen runs. -/
theorem DispatchInv.transfer {next : Option Nat} (h : DispatchInv D)
    (hnext : Chosen D.sched.tasks next) :
    DispatchInv (D.transfer next).1 ∧ Resumable D.sched next := by
  obtain ⟨slot, hlt, rfl, hvalid, hunblocked⟩ := hnext
  have hknown := h.schedulable.known hvalid
  exact ⟨⟨h.schedulable, hlt, hvalid, fun _ => hunblocked⟩, slot, rfl, hvalid, hunblocked, hknown⟩

/-- **One step** under the condition. -/
theorem DispatchInv.step (h : DispatchInv D) (hwell : DispatchesWell D op)
    (hstep : dispatchStep D op = some (D', out)) :
    DispatchInv D' ∧ ∀ next, out = some next → Resumable D.sched next := by
  cases op with
  | tick =>
    simp only [dispatchStep] at hstep
    split_ifs at hstep with hinterrupted
    obtain ⟨rfl, rfl⟩ := Prod.mk.inj (Option.some.inj hstep)
    have hunblocked := h.unblocked (Bool.eq_false_iff.mpr hinterrupted)
    have hchosen : Chosen D.sched.tasks (changeTask D.sched.tasks D.running) := by
      unfold changeTask
      split
      · exact chooseNext_chosen h.schedulable h.lt h.valid
      · exact ⟨D.running, h.lt, rfl, h.valid, hunblocked⟩
    have hnext := h.transfer hchosen
    refine ⟨hnext.1, fun next hout => ?_⟩
    obtain rfl := Option.some.inj hout
    exact hnext.2
  | interrupt =>
    simp only [dispatchStep] at hstep
    split_ifs at hstep
    obtain ⟨rfl, rfl⟩ := Prod.mk.inj (Option.some.inj hstep)
    exact ⟨⟨h.schedulable, h.lt, h.valid, by simp⟩, by simp⟩
  | request q l =>
    simp only [dispatchStep] at hstep
    split_ifs at hstep with hlisten
    obtain ⟨s, hrequest, heq⟩ := Option.map_eq_some_iff.mp hstep
    obtain ⟨rfl, rfl⟩ := Prod.mk.inj heq
    obtain ⟨⟨s₁, l'⟩, hhandle, rfl⟩ := Option.map_eq_some_iff.mp hrequest
    obtain ⟨ws, heffect⟩ := effect_of_handle hhandle
    obtain ⟨hschedulable, hvalid⟩ := effect_schedulable h.schedulable hwell heffect
    refine ⟨⟨hschedulable, h.lt, hvalid h.valid, fun hfalse => ?_⟩, by simp⟩
    -- outside of the interrupt it is the scheduler's own slot
    have hself : D.running = 1 := hlisten.resolve_left fun htrue => by
      rw [show D.interrupted = false from hfalse] at htrue
      cases htrue
    change ¬ (s₁.tasks D.running).Blocked
    rw [hself]
    exact hschedulable.unblocked
  | resume =>
    simp only [dispatchStep] at hstep
    split_ifs at hstep with hinterrupted
    obtain ⟨rfl, rfl⟩ := Prod.mk.inj (Option.some.inj hstep)
    have hchosen : Chosen D.sched.tasks (processQueue D.sched.tasks D.running) := by
      unfold processQueue
      split
      · exact chooseNext_chosen h.schedulable h.lt h.valid
      · rename_i hunblocked
        exact ⟨D.running, h.lt, rfl, h.valid, hunblocked⟩
    have hnext := h.transfer hchosen
    refine ⟨hnext.1, fun next hout => ?_⟩
    obtain rfl := Option.some.inj hout
    exact hnext.2
  | clients channels phys registers =>
    simp only [dispatchStep] at hstep
    obtain ⟨s, hlisten, heq⟩ := Option.map_eq_some_iff.mp hstep
    obtain ⟨rfl, rfl⟩ := Prod.mk.inj heq
    obtain rfl := Option.some.inj hlisten
    refine ⟨⟨?_, h.lt, h.valid, h.unblocked⟩, by simp⟩
    have hs := h.schedulable
    exact ⟨hs.valid, hs.runnable, hs.unblocked, hs.roots, hs.records⟩

/-- The scheduler runs first. -/
def Dispatch.start (s : Sched) : Dispatch := ⟨s, 1, false⟩

/-- **The dispatcher resumes what may run**, in every run whose requests all meet the condition. -/
theorem dispatcher_resumes {s : Sched} {tr : List (DispatchOp × Option (Option Nat))}
    (hs : Schedulable s) (hrun : RunIf dispatchStep DispatchesWell (Dispatch.start s) tr D) :
    Along dispatchStep (Dispatch.start s)
      (fun D _ out _ => ∀ next, out = some next → Resumable D.sched next) tr := by
  have hstart : DispatchInv (Dispatch.start s) :=
    ⟨hs, (by decide : 1 < numTasks), hs.valid, fun _ => hs.unblocked⟩
  have hiff := Along.iff_of_invariant DispatchInv hstart
    (P := fun D _ out _ => ∀ next, out = some next → Resumable D.sched next)
    (Q := fun _ _ _ _ => True)
    (fun D op D' out h hwell hstep => by
      obtain ⟨hinv, hout⟩ := h.step hwell hstep
      exact ⟨iff_of_true hout trivial, fun _ => hinv⟩) hrun
  exact hiff.mpr fun _ _ _ _ _ _ _ _ _ => trivial

end

/-- The scheduler's task, and that of a client in its own root. -/
def runningClient : Sched := { mappedClient with
  tasks := fun slot index =>
    if slot = 1 ∨ slot = 2 then
      if index = TaskState.state then wantedValue
      else if index = TaskState.cr3 then if slot = 1 then 0x20000 else 0x40000
      else 0
    else 0 }

theorem schedulable_runningClient : Schedulable runningClient := by
  refine ⟨by decide, by decide, by decide, fun slot _ hv => ?_, fun p i hi => ?_⟩
  · by_cases hone : slot = 1
    · rw [hone]
      exact .inl rfl
    · by_cases htwo : slot = 2
      · rw [htwo]
        exact .inr ⟨0x1001, by decide⟩
      · have hzero : runningClient.tasks slot TaskState.state = 0 :=
          if_neg (not_or.mpr ⟨hone, htwo⟩)
        rw [TaskState.Valid, hzero] at hv
        exact absurd rfl hv
  · have hcell := Sched.info?_eq_some.mp hi
    have hcells : runningClient.heap.cells = Function.update (fun _ => none) 1
        (some (.info (some ⟨7, 2, 0x1001, 0, 0, 0⟩))) := rfl
    rw [hcells] at hcell
    by_cases hp : p = 1
    · rw [hp, Function.update_self] at hcell
      cases hcell
      decide
    · rw [Function.update_of_ne hp] at hcell
      cases hcell

/-- `SCHED_WAIT` at address 0, while there is a zero. -/
def waitRequest : Locals := (leftover 0 0).receive [1]

theorem runningClient_tick : dispatchStep (Dispatch.start runningClient) .tick =
    some (⟨runningClient, 2, false⟩, some (some 2)) := by
  have hnext : changeTask runningClient.tasks 1 = some 2 := by decide
  simp only [dispatchStep, Dispatch.start, hnext]
  rfl

/-- The client is run and waits: another task is resumed. -/
theorem dispatcher_resumes_of_wait : ∃ tr D, Run dispatchStep (Dispatch.start runningClient) tr D ∧
    Along dispatchStep (Dispatch.start runningClient)
      (fun D _ out _ => ∀ next, out = some next → Resumable D.sched next) tr ∧
    (D.sched.tasks 2).Blocked ∧ D.running ≠ 2 := by
  have hexec : (dispatchStep ⟨runningClient, 2, true⟩ (.request 0 waitRequest)).map
      (fun p => (p.1.interrupted, p.1.running, decide (p.1.sched.tasks 2).Blocked)) =
        some (true, 2, true) := by decide
  obtain ⟨⟨⟨s, running, interrupted⟩, out⟩, hwait, heq⟩ := Option.map_eq_some_iff.mp hexec
  obtain ⟨rfl, rfl, hblocked⟩ : interrupted = true ∧ running = 2 ∧ (s.tasks 2).Blocked := by
    simpa only [Prod.mk.injEq, decide_eq_true_eq] using heq
  have hstart : RunIf dispatchStep DispatchesWell (Dispatch.start runningClient) [] _ := .start
  have hwell : DispatchesWell ⟨runningClient, 2, true⟩ (.request 0 waitRequest) := by
    change ResumesWell runningClient 2 0 waitRequest.request
    rw [show waitRequest.request = .wait 0 0 by decide]
    trivial
  have hinterrupt : dispatchStep ⟨runningClient, 2, false⟩ .interrupt =
      some (⟨runningClient, 2, true⟩, none) := rfl
  have hresume : dispatchStep ⟨s, 2, true⟩ .resume =
      some (Dispatch.transfer ⟨s, 2, true⟩ (processQueue s.tasks 2)) := rfl
  have htickWell : DispatchesWell (Dispatch.start runningClient) .tick := trivial
  have hinterruptWell : DispatchesWell ⟨runningClient, 2, false⟩ .interrupt := trivial
  have hresumeWell : DispatchesWell ⟨s, 2, true⟩ .resume := trivial
  have hrun := ((hstart.snoc htickWell runningClient_tick).snoc hinterruptWell hinterrupt).snoc
    hwell hwait
  have hlast := hrun.snoc hresumeWell hresume
  have hall := dispatcher_resumes schedulable_runningClient hlast
  refine ⟨_, _, hlast.toRun, hall, hblocked, fun hrunning => ?_⟩
  obtain ⟨slot, hslot, -, hunblocked, -⟩ :=
    hall _ .resume _ [] _ _ rfl hrun.toRun hresume _ rfl
  have hself : (processQueue s.tasks 2).getD 2 = 2 := hrunning
  rw [hslot] at hself
  obtain rfl : slot = 2 := hself
  exact hunblocked hblocked

/-- **A task that reaps itself is resumed**: its state says neither `VALID` nor `BLOCKED`. -/
theorem reaped_task_is_resumed : ∃ tr D, Run dispatchStep (Dispatch.start runningClient) tr D ∧
    ¬ Along dispatchStep (Dispatch.start runningClient)
      (fun D _ out _ => ∀ next, out = some next → Resumable D.sched next) tr := by
  have hexec : (dispatchStep ⟨runningClient, 2, true⟩
      (.request 0 ((leftover 0 0).receive [11]))).map
      (fun p => (p.1.interrupted, p.1.running, p.1.sched.tasks 2 TaskState.state)) =
        some (true, 2, 0) := by decide
  obtain ⟨⟨⟨s, running, interrupted⟩, out⟩, hreap, heq⟩ := Option.map_eq_some_iff.mp hexec
  obtain ⟨rfl, rfl, hstate⟩ : interrupted = true ∧ running = 2 ∧
      s.tasks 2 TaskState.state = 0 := by
    simpa only [Prod.mk.injEq] using heq
  have hstart : Run dispatchStep (Dispatch.start runningClient) [] _ := .start
  have hinterrupt : dispatchStep ⟨runningClient, 2, false⟩ .interrupt =
      some (⟨runningClient, 2, true⟩, none) := rfl
  have hnext : processQueue s.tasks 2 = some 2 := by
    apply if_neg
    rw [TaskState.Blocked, hstate]
    decide
  have hresume : dispatchStep ⟨s, 2, true⟩ .resume =
      some (Dispatch.transfer ⟨s, 2, true⟩ (processQueue s.tasks 2)) := rfl
  have hrun := ((hstart.snoc trivial runningClient_tick).snoc trivial hinterrupt).snoc trivial hreap
  refine ⟨_, _, hrun.snoc trivial hresume, fun hall => ?_⟩
  obtain ⟨slot, hslot, hvalid, -⟩ := hall _ .resume _ [] _ _ rfl hrun hresume _ rfl
  rw [hnext] at hslot
  obtain rfl := Option.some.inj hslot
  rw [TaskState.Valid, hstate] at hvalid
  exact hvalid (by decide)

end Refk
