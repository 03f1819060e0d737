import Refk.Scheduler.TaskSupply

/-!
# The slots of tasks

A task's slot is its own if nobody else's record points to it, and it is none of those the
scheduler keeps for itself. A new task gets the first slot that does not say `VALID`; whether
this is somebody's is decided by who wrote that bit, and when: an attached task comes with it, a
spawned one gets it by a later `sched_set_state`.
-/

namespace Refk

open Lib

/-- Slot 0, the scheduler's own, and those of its interrupt handlers. -/
def Reserved (handlers : List Nat) (slot : Nat) : Prop := slot = 0 ∨ slot = 1 ∨ slot ∈ handlers

/-- **Live tasks have slots of their own.** -/
structure Apart (handlers : List Nat) (s : Sched) : Prop where
  unreserved : ∀ id i, s.taskInfo id = some i → ¬ Reserved handlers i.state
  distinct : ∀ id id' i i', s.taskInfo id = some i → s.taskInfo id' = some i' → id ≠ id' →
    i.state ≠ i'.state

/-- The slot of some live task. -/
def Sched.Held (s : Sched) (slot : Nat) : Prop := ∃ id i, s.taskInfo id = some i ∧ i.state = slot

/-- An attached task brings a slot that is nobody's, and a new one does not find somebody's slot
    to be the first without `VALID`. -/
def TaskOp.OwnSlot (handlers : List Nat) (s : Sched) : TaskOp → Prop
  | .attach ts => ¬ Reserved handlers ts ∧ ¬ s.Held ts
  | .create rootId => mmanIsRoot s.mman rootId = true → ∀ ts, FirstFree s.tasks ts → ¬ s.Held ts
  | _ => True

/-- What every history with such steps keeps. -/
structure SlotInv (handlers : List Nat) (s : Sched) : Prop where
  tasks : TaskInv s
  apart : Apart handlers s
  valid : ∀ slot ∈ 1 :: handlers, (s.tasks slot).Valid

section
variable {handlers : List Nat} {s s' : Sched} {id ts rootId : Nat} {m : Mman} {w : Windows}

theorem reserved_iff {slot : Nat} : Reserved handlers slot ↔ slot = 0 ∨ slot ∈ 1 :: handlers := by
  rw [Reserved, List.mem_cons]

/-- As long as the reserved slots say `VALID`, none of them is found. -/
theorem SlotInv.not_reserved (h : SlotInv handlers s) (hfree : FirstFree s.tasks ts) :
    ¬ Reserved handlers ts := by
  rw [reserved_iff]
  rintro (rfl | hmem)
  · exact absurd hfree.1 (by omega)
  · exact hfree.2.1 (h.valid ts hmem)

/-- Slots are apart in a state with the same tasks. -/
theorem Apart.congr (h : Apart handlers s) (hinfo : ∀ q, s'.taskInfo q = s.taskInfo q) :
    Apart handlers s' where
  unreserved q i hq := h.unreserved q i (hinfo q ▸ hq)
  distinct q q' i i' hq hq' := h.distinct q q' i i' (hinfo q ▸ hq) (hinfo q' ▸ hq')

/-- They are in a state with fewer tasks. -/
theorem Apart.remove {taskId : Nat} (h : Apart handlers s)
    (hinfo : ∀ q, s'.taskInfo q = if taskId = q then none else s.taskInfo q) :
    Apart handlers s' := by
  have hold : ∀ q i, s'.taskInfo q = some i → s.taskInfo q = some i := fun q i hq => by
    rw [hinfo] at hq
    split_ifs at hq
    exact hq
  exact ⟨fun q i hq => h.unreserved q i (hold q i hq),
    fun q q' i i' hq hq' => h.distinct q q' i i' (hold q i hq) (hold q' i' hq')⟩

/-- **A birth** keeps the slots apart if and only if the new task's slot is nobody's. -/
theorem SlotInv.apart_iff_of_born (h : SlotInv handlers s)
    (hborn : Born s s' s.mman.nextId ts s.heap.fresh rootId m w) :
    Apart handlers s' ↔ ¬ Reserved handlers ts ∧ ¬ s.Held ts := by
  have hinfo := hborn.taskInfo h.tasks
  have hself := hinfo s.mman.nextId
  rw [if_pos rfl] at hself
  have hother : ∀ q i, s.taskInfo q = some i → s.mman.nextId ≠ q ∧ s'.taskInfo q = some i := by
    intro q i hq
    have hne : s.mman.nextId ≠ q := (h.tasks.lt_nextId hq).ne'
    exact ⟨hne, by rw [hinfo, if_neg hne, hq]⟩
  constructor
  · refine fun h' => ⟨h'.unreserved _ _ hself, ?_⟩
    rintro ⟨q, i, hq, rfl⟩
    obtain ⟨hne, hq'⟩ := hother q i hq
    exact h'.distinct _ _ _ _ hself hq' hne rfl
  · rintro ⟨hres, hheld⟩
    refine ⟨fun q i hq => ?_, fun q q' i i' hq hq' hne => ?_⟩
    · rw [hinfo] at hq
      split_ifs at hq
      · obtain rfl := Option.some.inj hq
        exact hres
      · exact h.apart.unreserved q i hq
    · rw [hinfo] at hq hq'
      split_ifs at hq hq' with hnew hnew'
      · exact absurd (hnew.symm.trans hnew') hne
      · obtain rfl := Option.some.inj hq
        exact fun heq => hheld ⟨q', i', hq', heq.symm⟩
      · obtain rfl := Option.some.inj hq'
        exact fun heq => hheld ⟨q, i, hq, heq⟩
      · exact h.apart.distinct q q' i i' hq hq' hne

/-- **A step** keeps the slots apart if and only if the task that is born gets a slot of its
    own. -/
theorem SlotInv.apart_iff {op : TaskOp} (h : SlotInv handlers s) (hstep : TaskStepped s s' op) :
    Apart handlers s' ↔ op.OwnSlot handlers s := by
  cases hstep with
  | attached _ hborn => exact h.apart_iff_of_born hborn
  | refused hunknown hsame =>
    refine iff_of_true ?_ fun hknown => ?_
    · exact h.apart.congr fun q => by rw [hsame, h.tasks.taskInfo_withRecord]
    · rw [hunknown] at hknown
      cases hknown
  | created hknown hfound hborn _ =>
    have hfirst := firstFree_of_found hfound
    rw [h.apart_iff_of_born hborn]
    constructor
    · rintro ⟨-, hheld⟩ - ts' hts'
      rwa [hts'.unique hfirst]
    · exact fun hown => ⟨h.not_reserved hfirst, hown hknown _ hfirst⟩
  | unset hsame => exact iff_of_true (hsame ▸ h.apart) trivial
  | set _ heq => exact iff_of_true (h.apart.congr fun q => by rw [heq]; rfl) trivial
  | unknown _ hsame => exact iff_of_true (hsame ▸ h.apart) trivial
  | reaped _ heq =>
    exact iff_of_true (h.apart.remove fun q => by rw [heq, taskInfo_remove]) trivial

/-- The reserved slots say `VALID` as long as nobody else has them. -/
theorem SlotInv.step {op : TaskOp} (h : SlotInv handlers s) (hstep : TaskStepped s s' op)
    (hown : op.OwnSlot handlers s) : SlotInv handlers s' := by
  refine ⟨h.tasks.step hstep, (h.apart_iff hstep).mpr hown, ?_⟩
  have hkeep : ∀ ts, ¬ Reserved handlers ts → (∀ slot, slot ≠ ts → s'.tasks slot = s.tasks slot) →
      ∀ slot ∈ 1 :: handlers, (s'.tasks slot).Valid := by
    intro ts hres htasks slot hslot
    rw [htasks slot fun heq => hres (reserved_iff.mpr (.inr (heq ▸ hslot)))]
    exact h.valid slot hslot
  cases hstep with
  | attached _ hborn => exact hkeep _ hown.1 hborn.tasks
  | refused _ hsame => exact hsame ▸ h.valid
  | created _ hfound hborn _ =>
    exact hkeep _ (h.not_reserved (firstFree_of_found hfound)) hborn.tasks
  | unset hsame => exact hsame ▸ h.valid
  | set hinfo heq =>
    refine hkeep _ (h.apart.unreserved _ _ hinfo) fun slot hslot => ?_
    rw [heq]
    exact TaskTable.set_of_slot_ne hslot
  | unknown _ hsame => exact hsame ▸ h.valid
  | reaped hinfo heq =>
    refine hkeep _ (h.apart.unreserved _ _ hinfo) fun slot hslot => ?_
    rw [heq]
    exact (TaskTable.set_of_slot_ne hslot).trans (TaskTable.set_of_slot_ne hslot)

end

/-- **Slots.** In every history in which the tasks that are born get slots of their own, live
    tasks never share a slot, nor have a reserved one; and the next step keeps it so if and only
    if it, too, is of this kind. -/
theorem slots_apart {mman : Mman} {tasks : TaskTable} {allocator : Allocator}
    {channels : Word → Comm} {handlers : List Nat} {s : Sched} {tr : List (TaskOp × Nat)}
    (hvalid : ∀ slot ∈ 1 :: handlers, (tasks slot).Valid)
    (h : RunIf taskStep (fun s op => op.OwnSlot handlers s) (.init mman tasks allocator channels)
      tr s) :
    Apart handlers s ∧ ∀ op s' r, taskStep s op = some (s', r) →
      (Apart handlers s' ↔ op.OwnSlot handlers s) := by
  have h₀ : SlotInv handlers (.init mman tasks allocator channels) :=
    ⟨.init .., ⟨nofun, nofun⟩, hvalid⟩
  suffices hs : SlotInv handlers s from
    ⟨hs.apart, fun op s' r hstep => hs.apart_iff (taskStep_cases hs.tasks hstep)⟩
  refine h.invariant_state (SlotInv handlers) h₀ fun s op s' r hs hown hstep => ?_
  exact hs.step (taskStep_cases hs.tasks hstep) hown

/-- Two tasks, created on the small machine, where the first one is made valid in between. -/
theorem slots_apart_of_two : ∃ tr s i j, RunIf taskStep (fun s op => op.OwnSlot [2, 3] s)
      (smallSched (mmanInit smallMemory 0x20000 0x21000)) tr s ∧
    s.taskInfo 0x1002 = some i ∧ s.taskInfo 0x1003 = some j ∧ i.state = 4 ∧ j.state = 5 ∧
    Apart [2, 3] s := by
  have hstart := smallStart_mmanInit
  generalize mmanInit smallMemory 0x20000 0x21000 = m at hstart
  obtain ⟨s₁, id₁, h₁⟩ := hstart.create
  obtain ⟨⟨w, hborn⟩, -⟩ := hstart.born h₁
  have htasks : TaskInv (smallSched m) := TaskInv.init ..
  have htasks₁ := htasks.step (taskStep_cases htasks h₁)
  have hinfo : s₁.taskInfo 0x1002 =
      some ⟨m.nextId, 4, 0x1001, w.sin, w.sin + channelSize / 2, w.gin⟩ := by
    rw [hborn.taskInfo htasks, if_pos hstart.next]
  have hset := taskStep_setState_eq hinfo (show (27 : Word) < 32 by decide) taskStateValid
  obtain ⟨s₂, hs₂⟩ : ∃ s₂, s₂ = { s₁ with
    tasks := s₁.tasks.set 4 TaskState.state taskStateValid } := ⟨_, rfl⟩
  have hset₂ : taskStep s₁ (.setState 0x1002 27 taskStateValid) = some (s₂, 0) := by
    rw [hs₂]
    exact hset
  have hinfo₂ : ∀ q, s₂.taskInfo q = s₁.taskInfo q := fun q => by
    rw [hs₂]
    rfl
  obtain ⟨hfirst, s₃, id₃, h₃⟩ := hstart.create_other h₁ hs₂
  have hown : TaskOp.OwnSlot [2, 3] (smallSched m) (.create 0x1001) := by
    rintro - ts - ⟨id, i, hi, -⟩
    cases hi
  have hown₁ : TaskOp.OwnSlot [2, 3] s₁ (.setState 0x1002 27 taskStateValid) := trivial
  -- the only task there is has slot 4, and slot 5 is the first that is free
  have hown₂ : TaskOp.OwnSlot [2, 3] s₂ (.create 0x1001) := by
    rintro - ts hts ⟨id, i, hi, hstate⟩
    rw [hinfo₂, hborn.taskInfo htasks] at hi
    split_ifs at hi
    · cases hi
      have h₄ : 4 = ts := hstate
      have h₅ := hts.unique hfirst
      omega
    · cases hi
  have hstart₀ : RunIf taskStep (fun s op => op.OwnSlot [2, 3] s) (smallSched m) [] _ := .start
  have hrun := ((hstart₀.snoc hown h₁).snoc hown₁ hset₂).snoc hown₂ h₃
  have htasks₂ := htasks₁.step (taskStep_cases htasks₁ hset₂)
  have hnext : s₂.mman.nextId = 0x1003 := by
    have hsame : s₂.mman = s₁.mman := by rw [hs₂]
    rw [hsame]
    exact hstart.nextId_created h₁
  cases taskStep_cases htasks₂ h₃ with
  | refused hunknown _ =>
    obtain ⟨-, -, hknown, -⟩ := hstart.created h₁
    rw [hs₂] at hunknown
    rw [hknown] at hunknown
    cases hunknown
  | created _ hfound hborn₃ _ =>
    obtain rfl := (firstFree_of_found hfound).unique hfirst
    have hfirst₃ : s₃.taskInfo 0x1002 =
        some ⟨m.nextId, 4, 0x1001, w.sin, w.sin + channelSize / 2, w.gin⟩ := by
      rw [hborn₃.taskInfo htasks₂, if_neg (by omega), hinfo₂]
      exact hinfo
    have hsecond₃ := (hborn₃.taskInfo htasks₂ 0x1003).trans (if_pos hnext)
    exact ⟨_, s₃, _, _, hrun, hfirst₃, hsecond₃, rfl, rfl, (slots_apart (by decide) hrun).1⟩

/-- **Two spawns in a row** get the same slot: the first one has not said yet that it is taken. -/
theorem created_tasks_share_a_slot : ¬ ∀ (mman : Mman) (tasks : TaskTable) (allocator : Allocator)
    (channels : Word → Comm) (handlers : List Nat) (s : Sched) (tr : List (TaskOp × Nat)),
    (∀ slot ∈ 1 :: handlers, (tasks slot).Valid) →
    Run taskStep (.init mman tasks allocator channels) tr s → Apart handlers s := by
  intro hall
  have hstart := smallStart_mmanInit
  generalize mmanInit smallMemory 0x20000 0x21000 = m at hstart
  obtain ⟨s₁, id₁, h₁⟩ := hstart.create
  obtain ⟨hknown, s₂, id₂, h₂⟩ := hstart.create_again h₁
  have hrun : Run taskStep (smallSched m) [(.create 0x1001, id₁)] s₁ := RunIf.start.snoc trivial h₁
  have hslots := hall m smallTasks .bump _ [2, 3] s₂ _ (by decide) (hrun.snoc trivial h₂)
  have h₀ : SlotInv [2, 3] (smallSched m) :=
    ⟨TaskInv.init .., ⟨nofun, nofun⟩, show ∀ slot ∈ 1 :: [2, 3], (smallTasks slot).Valid by decide⟩
  have hown : TaskOp.OwnSlot [2, 3] (smallSched m) (.create 0x1001) := by
    rintro - ts - ⟨id, i, hi, -⟩
    cases hi
  have hs₁ := h₀.step (taskStep_cases h₀.tasks h₁) hown
  have hfree := (hs₁.apart_iff (taskStep_cases hs₁.tasks h₂)).mp hslots
  -- the second creation finds the slot of the first
  obtain ⟨⟨w, hborn⟩, -⟩ := hstart.born h₁
  exact hfree hknown 4 (hborn.firstFree smallTasks_firstFree)
    ⟨m.nextId, _, (hborn.taskInfo h₀.tasks _).trans (if_pos rfl), rfl⟩

end Refk
