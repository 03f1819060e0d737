import Refk.Scheduler.Listen
import Refk.Scheduler.SynchFrame

/-!
# What requests spare

Whatever a request does to tasks and memory, the callback for freed pages may run in the middle of
it. `Spared s s'` is what is left to say then: no wait record and no synch object is new, every task
that was known still is, and the names are what they were.
-/

namespace Refk

open Lib

structure Spared (s s' : Sched) : Prop where
  wait : ∀ p w, s'.wait? p = some w → s.wait? p = some w
  object : ∀ p o, s'.object? p = some o → s.object? p = some o
  known : ∀ id, s.getInfo id ≠ 0 → s'.getInfo id ≠ 0
  names : s'.namedTasks = s.namedTasks

/-- `sched_task_reap`, up to its `avl_remove`; with the task's record. -/
def reapMemory (s : Sched) (taskId : Nat) : Option Sched := do
  let info := s.getInfo taskId
  let i ← s.info? info
  let s ← s.setMman (mmanDecrementRoot s.mman (s.tasks i.state TaskState.cr3).toNat)
  let i ← s.info? info
  let s := { s with tasks := s.tasks.set i.state TaskState.state 0 }
  let s := { s with tasks := s.tasks.set i.state TaskState.cr3 0 }
  s.unmapWindow i.gin

section
variable {s s' s'' : Sched} {p ts info taskId : Nat} {b : Block} {m : Mman}

theorem Spared.refl (s : Sched) : Spared s s := ⟨fun _ _ => id, fun _ _ => id, fun _ => id, rfl⟩

theorem Spared.trans (h : Spared s s') (h' : Spared s' s'') : Spared s s'' where
  wait p w hw := h.wait p w (h'.wait p w hw)
  object p o ho := h.object p o (h'.object p o ho)
  known id hid := h'.known id (h.known id hid)
  names := h'.names.trans h.names

theorem Released.spared (h : Released s s') : Spared s s' where
  wait := h.wait
  object := h.object
  known id hid := by
    rw [Sched.getInfo, h.taskMap]
    exact hid
  names := h.namedTasks

/-- The heap, the tasks' map and the names are all that matters. -/
theorem Spared.of_same (hheap : s'.heap = s.heap) (hmap : s'.taskMap = s.taskMap)
    (hnames : s'.namedTasks = s.namedTasks) : Spared s s' where
  wait p w hw := by
    rw [Sched.wait?, hheap] at hw
    exact hw
  object p o ho := by
    rw [Sched.object?, hheap] at ho
    exact ho
  known id hid := by
    rw [Sched.getInfo, hmap]
    exact hid
  names := hnames

theorem Spared.of_setMman (h : s.setMman m = some s') : Spared s s' := by
  have hmman : Spared s { s with mman := m } := .of_same rfl rfl rfl
  exact hmman.trans (setMman_released h).spared

theorem Spared.of_free (h : s.free p = some s') : Spared s s' := (Released.of_free h).spared

/-- Blocks other than these two kinds come and go. -/
theorem Spared.of_cells {heap : Heap Block}
    (hcells : heap.cells = Function.update s.heap.cells p (some b)) (hwait : ∀ w, b ≠ .wait w)
    (hobject : ∀ o, b ≠ .object o) : Spared s { s with heap := heap } := by
  have hback : ∀ q b', heap.cells q = some b' → b' ≠ b → s.heap.cells q = some b' := by
    intro q b' hq hne
    rw [hcells] at hq
    by_cases heq : q = p
    · rw [heq, Function.update_self] at hq
      exact absurd (Option.some.inj hq).symm hne
    · rwa [Function.update_of_ne heq] at hq
  refine ⟨fun q w hw => ?_, fun q o ho => ?_, fun _ => id, rfl⟩
  · exact Sched.wait?_eq_some.mpr (hback q _ (Sched.wait?_eq_some.mp hw) (hwait w).symm)
  · exact Sched.object?_eq_some.mpr (hback q _ (Sched.object?_eq_some.mp ho) (hobject o).symm)

theorem Spared.of_putInfo {i : Option TaskInfo} (h : s.put p (.info i) = some s') :
    Spared s s' := by
  obtain ⟨heap, rfl, hput⟩ := Sched.put_cases h
  exact .of_cells (Heap.put_cases hput).2.1 (fun _ hb => nomatch hb) (fun _ hb => nomatch hb)

theorem Spared.of_allocInfo (s : Sched) (i : Option TaskInfo) :
    Spared s (s.alloc (.info i)).1 :=
  .of_cells (p := s.heap.fresh) rfl (fun _ hb => nomatch hb) (fun _ hb => nomatch hb)

/-! ## Tasks -/

theorem addChannel_spared {rootId : Nat} {a : Word × Word} (h : addChannel s rootId = some (s', a)) :
    Spared s s' := by
  simp only [addChannel, Option.bind_eq_bind, Option.bind_eq_some_iff, Option.pure_def,
    Option.some.injEq, Prod.mk.injEq] at h
  obtain ⟨caddr, -, s₁, hanonymous, s₂, hmirror, rfl, -⟩ := h
  exact (Spared.of_setMman hanonymous).trans (.of_setMman hmirror)

theorem addStorage_spared {rootId : Nat} {a : Word} (h : addStorage s rootId = some (s', a)) :
    Spared s s' := by
  simp only [addStorage, Option.bind_eq_bind, Option.bind_eq_some_iff, Option.pure_def,
    Option.some.injEq, Prod.mk.injEq] at h
  obtain ⟨saddr, -, s₁, hanonymous, rfl, -⟩ := h
  exact .of_setMman hanonymous

theorem initChannel_spared {addr length : Word} (h : s.initChannel addr length = some s') :
    Spared s s' := by
  unfold Sched.initChannel at h
  split_ifs at h
  simp only [Option.bind_eq_bind, Option.bind_eq_some_iff, Prod.exists, Option.pure_def,
    Option.some.injEq] at h
  obtain ⟨cc, r, -, rfl⟩ := h
  exact .of_same rfl rfl rfl

theorem taskSetup_spared (h : taskSetup s ts info = some s') : Spared s s' := by
  simp only [taskSetup, Option.bind_eq_bind, Option.bind_eq_some_iff, Prod.exists] at h
  obtain ⟨i, -, s₁, gs, hstorage, s₂, hmirror, s₃, sin, c, hchan, s₄, hput, s₅, hinit, s₆, hinit', s₇,
    gin, c', hchan', s₈, hput', s₉, hinit'', hunmap⟩ := h
  have hgs : Spared s₁ { s₁ with tasks := s₁.tasks.set ts TaskState.gsBase gs } :=
    .of_same rfl rfl rfl
  have hfirst := ((addStorage_spared hstorage).trans hgs).trans (.of_setMman hmirror)
  have hsecond := ((((addChannel_spared hchan).trans (.of_putInfo hput)).trans
    (initChannel_spared hinit)).trans (initChannel_spared hinit'))
  have hthird := ((addChannel_spared hchan').trans (.of_putInfo hput')).trans
    (initChannel_spared hinit'')
  exact ((hfirst.trans hsecond).trans hthird).trans (.of_setMman hunmap)

/-- A task is entered, with a record that is no null pointer. -/
theorem Spared.of_insert (s : Sched) (taskId : Nat) (hinfo : info ≠ 0) :
    Spared s { s with taskMap := (s.taskMap.insert taskId info).1 } := by
  refine ⟨fun _ _ => id, fun _ _ => id, fun id' hid' => ?_, rfl⟩
  rw [Sched.getInfo] at hid' ⊢
  rw [AvlMap.search_insert_ptr]
  split_ifs
  · exact hinfo
  · exact hid'

theorem schedTaskAttach_spared {r : Nat} (hinfo : info ≠ 0)
    (h : schedTaskAttach s ts info = some (s', r)) : Spared s s' := by
  simp only [schedTaskAttach, Sched.genId, Option.bind_eq_bind, Option.bind_eq_some_iff,
    Option.pure_def, Option.some.injEq, Prod.mk.injEq] at h
  obtain ⟨s₁, hput, s₂, hsetup, rfl, -⟩ := h
  refine (Spared.of_insert s s.mman.nextId hinfo).trans ?_
  refine Spared.trans ?_ ((Spared.of_putInfo hput).trans (taskSetup_spared hsetup))
  exact .of_same rfl rfl rfl

theorem schedTaskCreate_spared {rootId r : Nat} (hinfo : info ≠ 0)
    (h : schedTaskCreate s rootId info = some (s', r)) : Spared s s' := by
  simp only [schedTaskCreate] at h
  split_ifs at h
  · simp only [Sched.genId, Option.bind_eq_bind, Option.bind_eq_some_iff, Option.pure_def,
      Option.some.injEq, Prod.mk.injEq, Prod.exists] at h
    obtain ⟨tasks, ts, -, s₁, hput, s₂, hsetup, rfl, -⟩ := h
    refine (Spared.of_insert s s.mman.nextId hinfo).trans ?_
    refine Spared.trans ?_ ((Spared.of_putInfo hput).trans (taskSetup_spared hsetup))
    exact .of_same rfl rfl rfl
  · simp only [Option.pure_def, Option.some.injEq, Prod.mk.injEq] at h
    rw [← h.1]
    exact .refl s

theorem schedSetState_spared {index value : Word} (h : schedSetState s taskId index value = some s') :
    Spared s s' := by
  simp only [schedSetState] at h
  split_ifs at h
  · simp only [Option.bind_eq_bind, Option.bind_eq_some_iff, Option.pure_def,
      Option.some.injEq] at h
    obtain ⟨i, -, rfl⟩ := h
    exact .of_same rfl rfl rfl
  · obtain rfl := Option.some.inj h
    exact .refl s

/-- Reaping is the memory's part, and then the removal from the map. -/
theorem schedTaskReap_eq (s : Sched) (taskId : Nat) : schedTaskReap s taskId =
    if s.getInfo taskId = 0 then some (s, 0)
    else (reapMemory s taskId).map fun s' =>
      ({ s' with taskMap := (s'.taskMap.remove taskId).1 }, s.getInfo taskId) := by
  simp only [schedTaskReap]
  split_ifs
  · rfl
  · simp only [reapMemory, Option.bind_eq_bind, Option.map_eq_bind, Option.bind_assoc,
      Function.comp_def, Option.pure_def]

theorem reapMemory_spared (h : reapMemory s taskId = some s') : Spared s s' := by
  simp only [reapMemory, Option.bind_eq_bind, Option.bind_eq_some_iff] at h
  obtain ⟨i, -, s₁, hdecrement, i', -, hunmap⟩ := h
  have htasks : Spared s₁ { s₁ with
      tasks := (s₁.tasks.set i'.state TaskState.state 0).set i'.state TaskState.cr3 0 } :=
    .of_same rfl rfl rfl
  refine ((Spared.of_setMman hdecrement).trans htasks).trans ?_
  unfold Sched.unmapWindow at hunmap
  split_ifs at hunmap
  · obtain rfl := Option.some.inj hunmap
    exact .refl _
  · exact .of_setMman hunmap

end

end Refk
