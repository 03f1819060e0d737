import Refk.Scheduler.ListenRun
import Refk.Scheduler.TaskFrame

/-!
# What keeps the table of tasks fit for the dispatcher

The scheduler's own slot may run, every valid slot has a root that is known, and no task's record is
for the scheduler's slot (`Schedulable`). Requests keep that, and valid slots valid, but for
`SCHED_SET_STATE` and `SCHED_REAP`, which write into a task's state of their own accord.
-/

namespace Refk

open Lib

/-- The `cr3` of a registered root, or the scheduler's. -/
def KnownCr3 (m : Mman) (cr3 : Word) : Prop := cr3 = m.cr3 ∨ ∃ id, m.rootMap.search id = some cr3

/-- The scheduler's slot may run, valid slots but for `hw` have roots that are known, and no record
    is for the scheduler's slot. -/
structure SchedulableBut (hw : Option Nat) (s : Sched) : Prop where
  valid : (s.tasks 1).Valid
  runnable : (s.tasks 1).Runnable
  unblocked : ¬ (s.tasks 1).Blocked
  roots : ∀ slot, hw ≠ some slot → (s.tasks slot).Valid →
    KnownCr3 s.mman (s.tasks slot TaskState.cr3)
  records : ∀ p i, s.info? p = some i → i.state ≠ 1

/-- The tasks once `listen` has attached the hardware's. -/
abbrev Schedulable (s : Sched) : Prop := SchedulableBut none s

theorem SchedulableBut.known {s : Sched} {slot : Nat} (h : Schedulable s)
    (hv : (s.tasks slot).Valid) : KnownCr3 s.mman (s.tasks slot TaskState.cr3) :=
  h.roots slot (by simp) hv

theorem SchedulableBut.but {s : Sched} (h : Schedulable s) (slot : Nat) :
    SchedulableBut (some slot) s where
  valid := h.valid
  runnable := h.runnable
  unblocked := h.unblocked
  roots _ _ := h.known
  records := h.records

/-! ## Bits -/

section
variable {ts ts' : TaskState} {v m b : Word}

/-- A bit that is not among those that are changed. -/
theorem and_not_and (hb : ~~~m &&& b = b) : v &&& ~~~m &&& b = v &&& b := by
  rw [BitVec.and_assoc, hb]

theorem valid_congr (h : ts TaskState.state = ts' TaskState.state) : ts.Valid ↔ ts'.Valid := by
  rw [TaskState.Valid, TaskState.Valid, h]

theorem cleared_state (ts : TaskState) :
    cleared ts TaskState.state = ts TaskState.state &&& ~~~taskStateBlocked :=
  Function.update_self ..

theorem cleared_cr3 (ts : TaskState) : cleared ts TaskState.cr3 = ts TaskState.cr3 :=
  Function.update_of_ne (by decide) ..

theorem cleared_valid : (cleared ts).Valid ↔ ts.Valid := by
  rw [TaskState.Valid, cleared_state, and_not_and (by decide), TaskState.Valid]

theorem cleared_runnable : (cleared ts).Runnable ↔ ts.Runnable := by
  rw [TaskState.Runnable, cleared_state, and_not_and (by decide), TaskState.Runnable]

theorem cleared_unblocked : ¬ (cleared ts).Blocked := by
  rw [TaskState.Blocked, cleared_state, BitVec.and_assoc]
  exact not_not.mpr (by simp [taskStateBlocked])

end

/-! ## What keeps the table -/

/-- From `s` to `s'` the table stays fit for the dispatcher, and valid slots valid. -/
structure SchedulableKept (s s' : Sched) : Prop where
  schedulable : ∀ hw, SchedulableBut hw s → SchedulableBut hw s'
  valid : ∀ slot, (s.tasks slot).Valid → (s'.tasks slot).Valid

section
variable {s s' s'' : Sched} {p q ts info rootId taskId object : Nat} {m : Mman} {i i' : TaskInfo}

theorem SchedulableKept.refl (s : Sched) : SchedulableKept s s := ⟨fun _ => id, fun _ => id⟩

theorem SchedulableKept.trans (h : SchedulableKept s s') (h' : SchedulableKept s' s'') :
    SchedulableKept s s'' :=
  ⟨fun hw hs => h'.schedulable hw (h.schedulable hw hs),
    fun slot hv => h'.valid slot (h.valid slot hv)⟩

/-- States and `cr3`s stay, roots stay known, and no record is new. -/
theorem SchedulableKept.of_same
    (hstate : ∀ slot, s'.tasks slot TaskState.state = s.tasks slot TaskState.state)
    (hcr3 : ∀ slot, s'.tasks slot TaskState.cr3 = s.tasks slot TaskState.cr3)
    (hknown : ∀ cr3, KnownCr3 s.mman cr3 → KnownCr3 s'.mman cr3)
    (hinfo : ∀ p i, s'.info? p = some i → s.info? p = some i) : SchedulableKept s s' := by
  have hvalid : ∀ slot, (s'.tasks slot).Valid ↔ (s.tasks slot).Valid :=
    fun slot => valid_congr (hstate slot)
  refine ⟨fun hw hs => ⟨(hvalid 1).mpr hs.valid, ?_, ?_, ?_, ?_⟩, fun slot => (hvalid slot).mpr⟩
  · rw [TaskState.Runnable, hstate]
    exact hs.runnable
  · rw [TaskState.Blocked, hstate]
    exact hs.unblocked
  · intro slot hne hv
    rw [hcr3]
    exact hknown _ (hs.roots slot hne ((hvalid slot).mp hv))
  · exact fun p i hi => hs.records p i (hinfo p i hi)

theorem SameRoots.known {m m' : Mman} (h : SameRoots m m') {cr3 : Word} (hc : KnownCr3 m cr3) :
    KnownCr3 m' cr3 := by
  rw [KnownCr3, h.rootMap, h.cr3]
  exact hc

theorem Released.schedulableKept (h : Released s s') : SchedulableKept s s' := by
  have hvalid : ∀ slot, (s'.tasks slot).Valid ↔ (s.tasks slot).Valid := by
    intro slot
    rcases h.tasks slot with heq | heq
    · rw [heq]
    · rw [heq, cleared_valid]
  refine ⟨fun hw hs => ⟨(hvalid 1).mpr hs.valid, ?_, ?_, ?_, ?_⟩, fun slot => (hvalid slot).mpr⟩
  · rcases h.tasks 1 with heq | heq
    · rw [heq]
      exact hs.runnable
    · rw [heq, cleared_runnable]
      exact hs.runnable
  · rcases h.tasks 1 with heq | heq
    · rw [heq]
      exact hs.unblocked
    · rw [heq]
      exact cleared_unblocked
  · intro slot hne hv
    have hcr3 : s'.tasks slot TaskState.cr3 = s.tasks slot TaskState.cr3 := by
      rcases h.tasks slot with heq | heq
      · rw [heq]
      · rw [heq, cleared_cr3]
    rw [hcr3, h.mman]
    exact hs.roots slot hne ((hvalid slot).mp hv)
  · exact fun p i hi => hs.records p i (h.info p i hi)

theorem setMman_schedulableKept (hroots : SameRoots s.mman m) (h : s.setMman m = some s') :
    SchedulableKept s s' := by
  have hmman : SchedulableKept s { s with mman := m } :=
    .of_same (fun _ => rfl) (fun _ => rfl) (fun _ hc => hroots.known hc) fun _ _ hi => hi
  exact hmman.trans (setMman_released h).schedulableKept

/-- A block that is not the one that was written. -/
theorem of_update_eq_some {cells : Nat → Option Block} {b c : Block}
    (h : Function.update cells q (some c) p = some b) (hne : c ≠ b) : cells p = some b := by
  by_cases hp : p = q
  · rw [hp, Function.update_self] at h
    exact absurd (Option.some.inj h) hne
  · rwa [Function.update_of_ne hp] at h

/-- A record is written for a slot that is not the scheduler's. -/
theorem SchedulableKept.of_putInfo (h : s.put p (.info (some i)) = some s') (hi : i.state ≠ 1) :
    SchedulableKept s s' := by
  obtain ⟨heap, rfl, hheap⟩ := Sched.put_cases h
  obtain ⟨-, hcells, -⟩ := Heap.put_cases hheap
  refine ⟨fun hw hs => ⟨hs.valid, hs.runnable, hs.unblocked, hs.roots, fun q j hj => ?_⟩,
    fun _ => id⟩
  have hcell := Sched.info?_eq_some.mp hj
  change heap.cells q = _ at hcell
  rw [hcells] at hcell
  by_cases hq : q = p
  · rw [hq, Function.update_self] at hcell
    cases hcell
    exact hi
  · rw [Function.update_of_ne hq] at hcell
    exact hs.records q j (Sched.info?_eq_some.mpr hcell)

theorem addChannel_schedulableKept {a : Word × Word} (h : addChannel s rootId = some (s', a)) :
    SchedulableKept s s' := by
  simp only [addChannel, Option.bind_eq_bind, Option.bind_eq_some_iff, Option.pure_def,
    Option.some.injEq, Prod.mk.injEq] at h
  obtain ⟨caddr, -, s₁, hanonymous, s₂, hmirror, rfl, -⟩ := h
  exact (setMman_schedulableKept (quiet_mmanAnonymous _ _ _ _).roots hanonymous).trans
    (setMman_schedulableKept (quiet_mmanMirror _ _ _ _ _ _).roots hmirror)

theorem addStorage_schedulableKept {a : Word} (h : addStorage s rootId = some (s', a)) :
    SchedulableKept s s' := by
  simp only [addStorage, Option.bind_eq_bind, Option.bind_eq_some_iff, Option.pure_def,
    Option.some.injEq, Prod.mk.injEq] at h
  obtain ⟨saddr, -, s₁, hanonymous, rfl, -⟩ := h
  exact setMman_schedulableKept (quiet_mmanAnonymous _ _ _ _).roots hanonymous

theorem initChannel_schedulableKept {addr length : Word} (h : s.initChannel addr length = some s') :
    SchedulableKept s s' := by
  obtain ⟨-, cc, rfl⟩ := initChannel_cases h
  exact .of_same (fun _ => rfl) (fun _ => rfl) (fun _ => id) fun _ _ => id

/-- The record of the new task is for a slot that is not the scheduler's. -/
theorem taskSetup_schedulableKept (hi : s.info? info = some i) (hstate : i.state ≠ 1)
    (h : taskSetup s ts info = some s') : SchedulableKept s s' := by
  simp only [taskSetup, hi, Option.bind_eq_bind, Option.bind_some, Option.bind_eq_some_iff,
    Prod.exists] at h
  obtain ⟨s₁, gs, hstorage, s₂, hmirror, s₃, sin, c, hchan, s₄, hput, s₅, hinit, s₆, hinit', s₇,
    gin, c', hchan', s₈, hput', s₉, hinit'', hunmap⟩ := h
  have hword : ∀ slot index, index ≠ TaskState.gsBase →
      (s₁.tasks.set ts TaskState.gsBase gs) slot index = s₁.tasks slot index := by
    intro slot index hne
    by_cases hslot : slot = ts
    · rw [hslot]
      exact TaskTable.set_of_index_ne hne
    · rw [TaskTable.set_of_slot_ne hslot]
  have hgs : SchedulableKept s₁ { s₁ with tasks := s₁.tasks.set ts TaskState.gsBase gs } :=
    .of_same (fun slot => hword slot _ (by decide)) (fun slot => hword slot _ (by decide))
      (fun _ => id) fun _ _ => id
  have h₂ := ((addStorage_schedulableKept hstorage).trans hgs).trans
    (setMman_schedulableKept (quiet_mmanMirror _ _ _ _ _ _).roots hmirror)
  have h₄ := (h₂.trans (addChannel_schedulableKept hchan)).trans (.of_putInfo hput hstate)
  have h₆ := (h₄.trans (initChannel_schedulableKept hinit)).trans
    (initChannel_schedulableKept hinit')
  have h₈ := (h₆.trans (addChannel_schedulableKept hchan')).trans (.of_putInfo hput' hstate)
  exact (h₈.trans (initChannel_schedulableKept hinit'')).trans
    (setMman_schedulableKept (sameRoots_mmanUnmap _ _ _ _) hunmap)

/-- The record is written, and the task set up. -/
theorem newTask_schedulableKept (hi : i.state ≠ 1) (hput : s.put info (.info (some i)) = some s')
    (h : taskSetup s' ts info = some s'') : SchedulableKept s s'' := by
  refine (SchedulableKept.of_putInfo hput hi).trans (taskSetup_schedulableKept ?_ hi h)
  obtain ⟨heap, rfl, hheap⟩ := Sched.put_cases hput
  obtain ⟨-, hcells, -⟩ := Heap.put_cases hheap
  rw [Sched.info?_eq_some]
  change heap.cells info = _
  rw [hcells, Function.update_self]

theorem allocInfo_schedulableKept (s : Sched) : SchedulableKept s (s.alloc (.info none)).1 := by
  refine .of_same (fun _ => rfl) (fun _ => rfl) (fun _ => id) fun p i hi => ?_
  rw [Sched.info?_eq_some] at hi ⊢
  change Function.update s.heap.cells s.heap.fresh (some (.info none)) p = _ at hi
  exact of_update_eq_some hi (by simp)

/-- The root of the hardware's task is registered. -/
theorem imported_schedulable {root : Word} {id : Nat} (hs : SchedulableBut (some ts) s)
    (hroot : s.tasks ts TaskState.cr3 = root) (hids : ∀ id r, s.mman.rootMap.search id = some r →
      id < s.mman.nextId) (himport : mmanImportRoot s.mman root = (m, id)) :
    Schedulable { s with mman := mmanIncrementRoot m id } := by
  obtain ⟨m₀, hsame, heq⟩ := importRoot_spec s.mman root
  have heq' : importRoot s.mman root = (m, id) := himport
  rw [heq] at heq'
  obtain ⟨rfl, rfl⟩ := Prod.mk.inj heq'
  refine ⟨hs.valid, hs.runnable, hs.unblocked, fun slot _ hv => ?_, hs.records⟩
  by_cases hslot : slot = ts
  · refine .inr ⟨s.mman.nextId, ?_⟩
    change ((s.mman.rootMap.insert s.mman.nextId root).1).search _ = _
    rw [AvlMap.search_insert_ptr, if_pos rfl, hslot, hroot]
  · rcases hs.roots slot (fun hts => hslot (Option.some.inj hts).symm) hv with hown | ⟨id, hid⟩
    · exact .inl (hown.trans hsame.cr3.symm)
    · refine .inr ⟨id, ?_⟩
      change ((s.mman.rootMap.insert s.mman.nextId root).1).search _ = _
      rw [AvlMap.search_insert_ptr, if_neg (hids _ _ hid).ne', hid]

/-- **`listen` begins** with the hardware's task, which has a root that nobody knows yet. -/
theorem attach_schedulable (hs : SchedulableBut (some ts) s) (hts : ts ≠ 1)
    (hids : ∀ id r, s.mman.rootMap.search id = some r → id < s.mman.nextId)
    (h : listenStep s (.attach ts) = some s') : Schedulable s' := by
  simp only [listenStep, schedTaskAttach, Sched.genId] at h
  generalize himport : mmanImportRoot _ _ = imported at h
  obtain ⟨m, root⟩ := imported
  simp only [Option.bind_eq_bind, Option.bind_eq_some_iff, Option.pure_def, Option.some.injEq,
    Prod.exists, Prod.mk.injEq] at h
  obtain ⟨s₃, id, ⟨s₁, hput, s₂, hsetup, rfl, rfl⟩, hpush⟩ := h
  have hs₀ := (allocInfo_schedulableKept s).schedulable _ hs
  have hgen : SchedulableBut (some ts) { (s.alloc (.info none)).1 with
      mman := (genId s.mman).1
      taskMap := (s.taskMap.insert s.mman.nextId s.heap.fresh).1 } :=
    ⟨hs₀.valid, hs₀.runnable, hs₀.unblocked, hs₀.roots, hs₀.records⟩
  have himported := imported_schedulable hgen rfl
    (fun id r hid => Nat.lt_succ_of_lt (hids id r hid)) himport
  have h₂ := (newTask_schedulableKept hts hput hsetup).schedulable none himported
  unfold Sched.pushQueue at hpush
  split_ifs at hpush
  obtain rfl := Option.some.inj hpush
  exact ⟨h₂.valid, h₂.runnable, h₂.unblocked, h₂.roots, h₂.records⟩

/-- A created task is not valid yet, and its slot is not the scheduler's. -/
theorem schedTaskCreate_schedulableKept {id : Nat} (hvalid : (s.tasks 1).Valid)
    (h : schedTaskCreate s rootId info = some (s', id)) : SchedulableKept s s' := by
  simp only [schedTaskCreate] at h
  split_ifs at h with hroot
  · simp only [Sched.genId, Option.bind_eq_bind, Option.bind_eq_some_iff, Option.pure_def,
      Option.some.injEq, Prod.mk.injEq, Prod.exists] at h
    obtain ⟨tasks, ts, hcreate, s₁, hput, s₂, hsetup, rfl, rfl⟩ := h
    obtain ⟨hfind, hstate, htasks⟩ := taskCreate_spec hcreate
    obtain ⟨-, -, hfree, -⟩ := findAvailable_spec hfind
    have hts : ts ≠ 1 := by
      rintro rfl
      exact hfree hvalid
    refine SchedulableKept.trans ?_ (newTask_schedulableKept hts hput hsetup)
    -- but for the new slot, which is not valid, the table is the same
    generalize htable : tasks.set ts TaskState.cr3 _ = tasks'
    have hother : ∀ slot, slot ≠ ts → tasks' slot = s.tasks slot := by
      intro slot hslot
      rw [← htable, TaskTable.set_of_slot_ne hslot, htasks slot hslot]
    have hword : ∀ slot, tasks' slot TaskState.state = s.tasks slot TaskState.state := by
      intro slot
      by_cases hslot : slot = ts
      · rw [← htable, hslot, TaskTable.set_of_index_ne (by decide), hstate]
      · rw [hother slot hslot]
    refine ⟨fun hw hs => ⟨?_, ?_, ?_, fun slot hne hv => ?_, hs.records⟩, fun slot hv => ?_⟩
    · exact (valid_congr (hword 1)).mpr hs.valid
    · change (tasks' 1).Runnable
      rw [hother 1 hts.symm]
      exact hs.runnable
    · change ¬ (tasks' 1).Blocked
      rw [hother 1 hts.symm]
      exact hs.unblocked
    · have hold : (s.tasks slot).Valid := (valid_congr (hword slot)).mp hv
      have hslot : slot ≠ ts := by
        rintro rfl
        exact hfree hold
      change KnownCr3 _ (tasks' slot TaskState.cr3)
      rw [hother slot hslot]
      exact hs.roots slot hne hold
    · exact (valid_congr (hword slot)).mpr hv
  · simp only [Option.pure_def, Option.some.injEq, Prod.mk.injEq] at h
    obtain ⟨rfl, -⟩ := h
    exact .refl s

/-! ## Requests -/

theorem synchObject_schedulableKept (s : Sched) (phy : Word) :
    SchedulableKept s (synchObject s phy).1 := by
  simp only [synchObject]
  split
  · obtain ⟨ret, pobj, heap, -, -, -, -, hcells, heq⟩ := synchMake_spec s phy
    rw [heq]
    refine .of_same (fun _ => rfl) (fun _ => rfl) (fun _ => id) fun p i hi => ?_
    rw [Sched.info?_eq_some] at hi ⊢
    change heap.cells p = _ at hi
    rw [hcells] at hi
    have hi' := of_update_eq_some hi (by simp)
    exact of_update_eq_some hi' (by simp)
  · exact .refl s

/-- A task that waits is blocked, which the scheduler never is. -/
theorem synchWait_schedulableKept {value : Word} {r : Int}
    (hrecords : ∀ p i, s.info? p = some i → i.state ≠ 1)
    (h : synchWait s taskId object value = some (s', r)) : SchedulableKept s s' := by
  obtain ⟨o, ho, ⟨-, rfl, -⟩ | ⟨-, -, heap, info, hcells, hinfo, heq⟩⟩ := synchWait_cases h
  · exact .refl _
  · have hslot : info.state ≠ 1 := hrecords _ _ hinfo
    have hother : ∀ slot, slot ≠ info.state → s'.tasks slot = s.tasks slot := by
      intro slot hne
      rw [heq]
      exact Sched.modifyState_of_slot_ne hne
    have hvalid : ∀ slot, (s'.tasks slot).Valid ↔ (s.tasks slot).Valid := by
      intro slot
      by_cases hne : slot = info.state
      · rw [hne, heq, TaskState.Valid, Sched.modifyState_self, BitVec.and_or_distrib_right]
        simp [taskStateBlocked, taskStateValid, TaskState.Valid]
      · rw [hother slot hne]
    have hcr3 : ∀ slot, s'.tasks slot TaskState.cr3 = s.tasks slot TaskState.cr3 := by
      intro slot
      by_cases hne : slot = info.state
      · rw [hne, heq]
        exact TaskTable.set_of_index_ne (by decide)
      · rw [hother slot hne]
    refine ⟨fun hw hs => ⟨(hvalid 1).mpr hs.valid, ?_, ?_, fun slot hne hv => ?_, fun p i hi => ?_⟩,
      fun slot => (hvalid slot).mpr⟩
    · rw [hother 1 hslot.symm]
      exact hs.runnable
    · rw [hother 1 hslot.symm]
      exact hs.unblocked
    · rw [hcr3 slot, heq]
      exact hs.roots slot hne ((hvalid slot).mp hv)
    · apply hs.records p i
      rw [Sched.info?_eq_some, heq] at hi
      change heap.cells p = _ at hi
      rw [hcells] at hi
      have hi' := of_update_eq_some hi (by simp)
      exact Sched.info?_eq_some.mpr (of_update_eq_some hi' (by simp))

theorem mapEffect_schedulableKept {root : Word} {op : Nat → Mman × Int} {ws : List (Nat × Word)}
    (hroots : ∀ id, SameRoots s.mman (op id).1) (h : mapEffect s q root op = some (s', ws)) :
    SchedulableKept s s' := by
  simp only [mapEffect, Option.bind_eq_bind, Option.bind_eq_some_iff, Option.pure_def,
    Option.some.injEq, Prod.mk.injEq] at h
  obtain ⟨id, -, s₁, hset, rfl, -⟩ := h
  exact setMman_schedulableKept (hroots id) hset

/-- The request does not write into a task's state of its own accord. -/
def Request.KeepsStates : Request → Prop
  | .setState _ _ _ => False
  | .reap _ => False
  | _ => True

/-- **What requests do to the table**: nothing that matters, but for those that write states. -/
theorem effect_schedulableKept {r : Request} {ws : List (Nat × Word)} {hw : Option Nat}
    (hs : SchedulableBut hw s) (hr : r.KeepsStates) (h : effect s q r = some (s', ws)) :
    SchedulableKept s s' := by
  cases r with
  | forward task data =>
    simp only [effect] at h
    split at h
    · cases h
      exact .refl s
    · simp only [Option.bind_eq_bind, Option.bind_eq_some_iff] at h
      obtain ⟨i, -, h⟩ := h
      cases h
      exact .of_same (fun _ => rfl) (fun _ => rfl) (fun _ => id) fun _ _ => id
  | wait address value =>
    obtain ⟨phy, ⟨-, rfl⟩ | ⟨ret, hwait⟩⟩ := effect_wait h
    · exact synchObject_schedulableKept s phy
    · have hmade := synchObject_schedulableKept s phy
      exact hmade.trans (synchWait_schedulableKept (hmade.schedulable hw hs).records hwait)
  | wake address value count =>
    simp only [effect, Option.bind_eq_bind, Option.bind_eq_some_iff] at h
    obtain ⟨i, -, h⟩ := h
    split at h
    · cases h
      exact .refl s
    · simp only [Option.bind_eq_some_iff] at h
      obtain ⟨s₁, hwake, h⟩ := h
      cases h
      simp only [synchWake, Option.bind_eq_bind, Option.bind_eq_some_iff] at hwake
      obtain ⟨o, -, hwake⟩ := hwake
      split_ifs at hwake
      · exact (wakeLoop_released hwake).schedulableKept
      · obtain rfl := Option.some.inj hwake
        exact .refl _
  | mapAnonymous root address size =>
    exact mapEffect_schedulableKept (fun id => (quiet_mmanAnonymous _ _ _ _).roots) h
  | mapPhysical root address phyAddr size =>
    exact mapEffect_schedulableKept (fun id => (quiet_mmanPhysical _ _ _ _ _).roots) h
  | mapMirror root address oroot oaddress size =>
    exact mapEffect_schedulableKept (fun id => (quiet_mmanMirror _ _ _ _ _ _).roots) h
  | unmap root address size =>
    exact mapEffect_schedulableKept (fun id => sameRoots_mmanUnmap _ _ _ _) h
  | setName task name =>
    cases h
    exact .of_same (fun _ => rfl) (fun _ => rfl) (fun _ => id) fun _ _ => id
  | getNamed name =>
    cases h
    exact .refl s
  | spawn root =>
    simp only [effect, Option.bind_eq_bind, Option.bind_eq_some_iff, Prod.exists] at h
    obtain ⟨rootId, -, s₁, made, hcreate, s₂, hpush, h⟩ := h
    cases h
    have hnew := (allocInfo_schedulableKept s).trans
      (schedTaskCreate_schedulableKept hs.valid hcreate)
    unfold Sched.pushQueue at hpush
    split_ifs at hpush
    obtain rfl := Option.some.inj hpush
    exact hnew.trans (.of_same (fun _ => rfl) (fun _ => rfl) (fun _ => id) fun _ _ => id)
  | setState task index value => exact hr.elim
  | reap task => exact hr.elim
  | unknown =>
    cases h
    exact .refl s

/-- A slot other than the scheduler's is written. -/
theorem SchedulableBut.of_slot {tasks : TaskTable} {slot : Nat} (hs : SchedulableBut (some slot) s)
    (hslot : slot ≠ 1) (hother : ∀ slot', slot' ≠ slot → tasks slot' = s.tasks slot')
    (hself : (tasks slot).Valid → KnownCr3 s.mman (tasks slot TaskState.cr3)) :
    Schedulable { s with tasks := tasks } := by
  have hone := hother 1 hslot.symm
  refine ⟨?_, ?_, ?_, fun slot' _ hv => ?_, hs.records⟩
  · change (tasks 1).Valid
    rw [hone]
    exact hs.valid
  · change (tasks 1).Runnable
    rw [hone]
    exact hs.runnable
  · change ¬ (tasks 1).Blocked
    rw [hone]
    exact hs.unblocked
  · change (tasks slot').Valid at hv
    change KnownCr3 s.mman (tasks slot' TaskState.cr3)
    by_cases heq : slot' = slot
    · rw [heq] at hv ⊢
      exact hself hv
    · rw [hother slot' heq] at hv ⊢
      exact hs.roots slot' (fun hsome => heq (Option.some.inj hsome).symm) hv

end

end Refk
