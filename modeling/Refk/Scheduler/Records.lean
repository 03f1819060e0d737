import Refk.Scheduler.ListenRun
import Refk.Scheduler.TaskRun

/-!
# What keeps the tasks' records

`synch_wake` frees the wait record behind the one it wakes, and leaves it on the list: so a list
can point to memory that somebody else has got since, and the next wake frees that. As long as no
list points to a task's record (`RecordsUnlisted`), whatever a request does keeps the records of
the tasks, but for `SCHED_REAP` with its own `heap_free`.
-/

namespace Refk

open Lib

/-- A wait list points to the block. -/
inductive PointedTo (s : Sched) : Nat → Prop
  | next {q : Nat} {w : SynchWait} (wait : s.wait? q = some w) : PointedTo s w.next
  | head {q : Nat} {o : SynchObj} (object : s.object? q = some o) : PointedTo s o.head

/-- No wait list points to a task's record. -/
def RecordsUnlisted (s : Sched) : Prop := ∀ p, PointedTo s p → s.info? p = none

/-- From `s` to `s'` the tasks, their records and the queue stay. -/
structure RecordsKept (s s' : Sched) : Prop where
  queue : s'.queue = s.queue
  queueSize : s'.queueSize = s.queueSize
  taskMap : s'.taskMap = s.taskMap
  nextId : s.mman.nextId ≤ s'.mman.nextId
  record : ∀ p i, s.info? p = some i → ∃ i', s'.info? p = some i' ∧ i'.id = i.id
  unlisted : RecordsUnlisted s'

section
variable {s s' s'' : Sched} {p q w n object ts info rootId taskId : Nat} {m : Mman} {b : Block}
  {i i' : TaskInfo}

theorem RecordsKept.refl (hs : RecordsUnlisted s) : RecordsKept s s :=
  ⟨rfl, rfl, rfl, le_rfl, fun _ i hi => ⟨i, hi, rfl⟩, hs⟩

theorem RecordsKept.trans (h : RecordsKept s s') (h' : RecordsKept s' s'') : RecordsKept s s'' where
  queue := h'.queue.trans h.queue
  queueSize := h'.queueSize.trans h.queueSize
  taskMap := h'.taskMap.trans h.taskMap
  nextId := h.nextId.trans h'.nextId
  record p i hi := by
    obtain ⟨i₁, h₁, hid₁⟩ := h.record p i hi
    obtain ⟨i₂, h₂, hid₂⟩ := h'.record p i₁ h₁
    exact ⟨i₂, h₂, hid₂.trans hid₁⟩
  unlisted := h'.unlisted

theorem PointedTo.mono (hobject : ∀ p o, s'.object? p = some o → s.object? p = some o)
    (hwait : ∀ p w, s'.wait? p = some w → s.wait? p = some w) (hp : PointedTo s' p) :
    PointedTo s p := by
  cases hp with
  | next wait => exact .next (hwait _ _ wait)
  | head object => exact .head (hobject _ _ object)

theorem RecordsUnlisted.of_heap (hs : RecordsUnlisted s) (hheap : s'.heap = s.heap) :
    RecordsUnlisted s' := by
  intro p hp
  rw [Sched.info?_congr (show s'.heap.cells p = s.heap.cells p by rw [hheap])]
  apply hs p
  refine hp.mono (fun q o ho => ?_) fun q w hw => ?_
  · exact (Sched.object?_congr (by rw [hheap])).symm.trans ho
  · exact (Sched.wait?_congr (by rw [hheap])).symm.trans hw

/-- The heap, the queue and the map are all that matters. -/
theorem RecordsKept.of_same (hs : RecordsUnlisted s) (hheap : s'.heap = s.heap)
    (hqueue : s'.queue = s.queue) (hsize : s'.queueSize = s.queueSize)
    (hmap : s'.taskMap = s.taskMap) (hnext : s.mman.nextId ≤ s'.mman.nextId) : RecordsKept s s' := by
  refine ⟨hqueue, hsize, hmap, hnext, fun p i hi => ?_, hs.of_heap hheap⟩
  exact ⟨i, (Sched.info?_congr (by rw [hheap])).trans hi, rfl⟩

/-- What only releases other blocks keeps the records. -/
theorem RecordsKept.of_released (hs : RecordsUnlisted s) (h : Released s s')
    (hrecord : ∀ p i, s.info? p = some i → s'.info? p = some i) : RecordsKept s s' where
  queue := h.queue
  queueSize := h.queueSize
  taskMap := h.taskMap
  nextId := h.mman ▸ le_rfl
  record p i hi := ⟨i, hrecord p i hi, rfl⟩
  unlisted p hp := by
    have hnone := hs p (hp.mono h.object h.wait)
    cases hi : s'.info? p with
    | none => rfl
    | some i => rw [h.info p i hi] at hnone; cases hnone

theorem RecordsKept.of_free (hs : RecordsUnlisted s) (hp : s.info? p = none)
    (h : s.free p = some s') : RecordsKept s s' := by
  refine .of_released hs (.of_free h) fun q i hi => ?_
  obtain ⟨heap, rfl, hfree⟩ := Sched.free_cases h
  rcases Heap.free_cases hfree with ⟨-, rfl⟩ | ⟨-, hcells, -⟩
  · exact hi
  · have hne : q ≠ p := by
      rintro rfl
      rw [hp] at hi
      cases hi
    rw [← hi]
    apply Sched.info?_congr
    change heap.cells q = _
    rw [hcells, Function.update_of_ne hne]

theorem RecordsKept.of_pageObject {po : PageObject} (hs : RecordsUnlisted s) (hp : s.info? p = none)
    (h : s.put p (.pageObject po) = some s') : RecordsKept s s' ∧ s'.info? p = none := by
  have hput := Released.of_put h
  obtain ⟨heap, rfl, hheap⟩ := Sched.put_cases h
  obtain ⟨-, hcells, -⟩ := Heap.put_cases hheap
  refine ⟨.of_released hs hput fun q i hi => ?_, ?_⟩
  · have hne : q ≠ p := by
      rintro rfl
      rw [hp] at hi
      cases hi
    rw [← hi]
    apply Sched.info?_congr
    change heap.cells q = _
    rw [hcells, Function.update_of_ne hne]
  · rw [Sched.info?, show heap.cells p = some (.pageObject po) by rw [hcells, Function.update_self]]

/-- A block holds one thing. -/
theorem info?_of_pageObject {po : PageObject} (h : s.pageObject? p = some po) : s.info? p = none := by
  rw [Sched.info?, Sched.pageObject?_eq_some.mp h]

theorem info?_of_object {o : SynchObj} (h : s.object? p = some o) : s.info? p = none := by
  rw [Sched.info?, Sched.object?_eq_some.mp h]

/-! ## Waking and destroying -/

theorem wakeTurn_kept {w' : Nat} (hs : RecordsUnlisted s) (h : wakeTurn s w = some (s', w')) :
    RecordsKept s s' := by
  simp only [wakeTurn, Option.bind_eq_bind, Option.bind_eq_some_iff, Option.pure_def,
    Option.some.injEq, Prod.mk.injEq] at h
  obtain ⟨wait, hwait, info, -, s₁, hfree, rfl, -⟩ := h
  have hunblock : RecordsKept s (s.modifyState info.state (· &&& ~~~taskStateBlocked)) :=
    .of_same hs rfl rfl rfl rfl le_rfl
  exact hunblock.trans (.of_free hunblock.unlisted (hs _ (.next hwait)) hfree)

theorem wakeLoop_kept (hs : RecordsUnlisted s) (h : wakeLoop n s w = some s') :
    RecordsKept s s' := by
  induction n generalizing s w with
  | zero =>
    obtain rfl : s = s' := Option.some.inj h
    exact .refl hs
  | succ n ih =>
    rw [wakeLoop] at h
    split_ifs at h with hw
    · obtain rfl : s = s' := Option.some.inj h
      exact .refl hs
    · simp only [Option.bind_eq_bind, Option.bind_eq_some_iff, Prod.exists] at h
      obtain ⟨s₁, w₁, hturn, hloop⟩ := h
      have hkept := wakeTurn_kept hs hturn
      exact hkept.trans (ih hkept.unlisted hloop)

theorem unlinkLoop_kept (hs : RecordsUnlisted s) (h : unlinkLoop object n s p = some s') :
    RecordsKept s s' := by
  induction n generalizing p with
  | zero => cases h
  | succ n ih =>
    rw [unlinkLoop] at h
    split_ifs at h with hp
    · obtain rfl : s = s' := Option.some.inj h
      exact .refl hs
    · simp only [Option.bind_eq_bind, Option.bind_eq_some_iff] at h
      obtain ⟨pobj, hpobj, h⟩ := h
      split_ifs at h with hnext
      · obtain rfl : s = s' := Option.some.inj h
        exact .refl hs
      · simp only [Option.bind_eq_some_iff] at h
        obtain ⟨n, hn, h⟩ := h
        split_ifs at h with hobj
        · simp only [Option.bind_eq_some_iff] at h
          obtain ⟨s₁, hput, hfree⟩ := h
          obtain ⟨hkept, -⟩ := RecordsKept.of_pageObject hs (info?_of_pageObject hpobj) hput
          have hnone : s₁.info? pobj.next = none := by
            cases hi : s₁.info? pobj.next with
            | none => rfl
            | some i =>
              have hold := (Released.of_put hput).info _ i hi
              rw [info?_of_pageObject hn] at hold
              cases hold
          exact hkept.trans (.of_free hkept.unlisted hnone hfree)
        · exact ih h

theorem unlinkObject_kept {page : Word} (hs : RecordsUnlisted s)
    (h : unlinkObject s object page = some s') : RecordsKept s s' := by
  simp only [unlinkObject, Option.bind_eq_bind, Option.bind_eq_some_iff] at h
  obtain ⟨pobj, hpobj, h⟩ := h
  split_ifs at h with hhead
  · have hpages : RecordsKept s { s with
        synchPages := (s.synchPages.insert page pobj.next).1 } := .of_same hs rfl rfl rfl rfl le_rfl
    exact hpages.trans (.of_free hpages.unlisted (info?_of_pageObject hpobj) h)
  · exact unlinkLoop_kept hs h

theorem synchDestroy_kept (hs : RecordsUnlisted s) (h : synchDestroy s object = some s') :
    RecordsKept s s' := by
  simp only [synchDestroy, Option.bind_eq_bind, Option.bind_eq_some_iff] at h
  obtain ⟨o, ho, s₁, hwake, s₂, hunlink, hfree⟩ := h
  have hwoken := wakeLoop_kept hs hwake
  have hkept := hwoken.trans (unlinkObject_kept hwoken.unlisted hunlink)
  have hnone : s₂.info? object = none := by
    cases hi : s₂.info? object with
    | none => rfl
    | some i =>
      have hold := ((wakeLoop_released hwake).trans (unlinkObject_released hunlink)).info _ i hi
      rw [info?_of_object ho] at hold
      cases hold
  exact hkept.trans (.of_free hkept.unlisted hnone hfree)

theorem freeObjectsLoop_kept {page : Word} (hs : RecordsUnlisted s)
    (h : freeObjectsLoop page n s = some s') : RecordsKept s s' := by
  induction n generalizing s with
  | zero => cases h
  | succ n ih =>
    rw [freeObjectsLoop] at h
    split_ifs at h with hp
    · obtain rfl : s = s' := Option.some.inj h
      exact .refl hs
    · simp only [Option.bind_eq_bind, Option.bind_eq_some_iff] at h
      obtain ⟨pobj, -, s₁, hdestroy, hloop⟩ := h
      have hkept := synchDestroy_kept hs hdestroy
      exact hkept.trans (ih hkept.unlisted hloop)

/-- **The memory manager's operations**, the callback included. -/
theorem setMman_kept (hs : RecordsUnlisted s) (hnext : s.mman.nextId ≤ m.nextId)
    (h : s.setMman m = some s') : RecordsKept s s' := by
  have hmman : RecordsKept s { s with mman := m } := .of_same hs rfl rfl rfl rfl hnext
  refine hmman.trans ?_
  have hs₁ := hmman.unlisted
  simp only [Sched.setMman] at h
  generalize ({ s with mman := m } : Sched) = s₁ at h hs₁ ⊢
  generalize (m.pagefreeCalls.take _).reverse = calls at h
  induction calls generalizing s₁ with
  | nil =>
    obtain rfl : s₁ = s' := Option.some.inj h
    exact .refl hs₁
  | cons page calls ih =>
    simp only [List.foldlM_cons, Option.bind_eq_bind, Option.bind_eq_some_iff] at h
    obtain ⟨s₂, hfree, hrest⟩ := h
    have hkept := freeObjectsLoop_kept hs₁ hfree
    exact hkept.trans (ih s₂ hkept.unlisted hrest)

/-! ## Tasks -/

/-- A record is filled in, under the same id. -/
theorem RecordsKept.of_putInfo (hs : RecordsUnlisted s) (hp : s.info? p = some i)
    (h : s.put p (.info (some i')) = some s') (hid : i'.id = i.id) : RecordsKept s s' := by
  obtain ⟨heap, rfl, hheap⟩ := Sched.put_cases h
  obtain ⟨-, hcells, -⟩ := Heap.put_cases hheap
  have hself : ({ s with heap := heap } : Sched).info? p = some i' := by
    rw [Sched.info?_eq_some]
    change heap.cells p = _
    rw [hcells, Function.update_self]
  have hother : ∀ q, q ≠ p → heap.cells q = s.heap.cells q := by
    intro q hq
    rw [hcells, Function.update_of_ne hq]
  refine ⟨rfl, rfl, rfl, le_rfl, fun q j hj => ?_, fun q hq => ?_⟩
  · by_cases hqp : q = p
    · subst hqp
      obtain rfl := Option.some.inj (hp.symm.trans hj)
      exact ⟨i', hself, hid⟩
    · exact ⟨j, (Sched.info?_congr (hother q hqp)).trans hj, rfl⟩
  · have hback := (Spared.of_putInfo h)
    have hnone := hs q (hq.mono hback.object hback.wait)
    have hqp : q ≠ p := by
      rintro rfl
      rw [hp] at hnone
      cases hnone
    exact (Sched.info?_congr (hother q hqp)).trans hnone

theorem addChannel_kept {a : Word × Word} (hs : RecordsUnlisted s)
    (h : addChannel s rootId = some (s', a)) : RecordsKept s s' := by
  simp only [addChannel, Option.bind_eq_bind, Option.bind_eq_some_iff, Option.pure_def,
    Option.some.injEq, Prod.mk.injEq] at h
  obtain ⟨caddr, -, s₁, hanonymous, s₂, hmirror, rfl, -⟩ := h
  have hkept := setMman_kept hs (quiet_mmanAnonymous _ _ _ _).roots.nextId.ge hanonymous
  exact hkept.trans
    (setMman_kept hkept.unlisted (quiet_mmanMirror _ _ _ _ _ _).roots.nextId.ge hmirror)

theorem addStorage_kept {a : Word} (hs : RecordsUnlisted s)
    (h : addStorage s rootId = some (s', a)) : RecordsKept s s' := by
  simp only [addStorage, Option.bind_eq_bind, Option.bind_eq_some_iff, Option.pure_def,
    Option.some.injEq, Prod.mk.injEq] at h
  obtain ⟨saddr, -, s₁, hanonymous, rfl, -⟩ := h
  exact setMman_kept hs (quiet_mmanAnonymous _ _ _ _).roots.nextId.ge hanonymous

theorem initChannel_kept {addr length : Word} (hs : RecordsUnlisted s)
    (h : s.initChannel addr length = some s') : RecordsKept s s' := by
  obtain ⟨-, cc, rfl⟩ := initChannel_cases h
  exact .of_same hs rfl rfl rfl rfl le_rfl

theorem taskSetup_kept (hs : RecordsUnlisted s) (h : taskSetup s ts info = some s') :
    RecordsKept s s' := by
  simp only [taskSetup, Option.bind_eq_bind, Option.bind_eq_some_iff, Prod.exists] at h
  obtain ⟨i, hi, s₁, gs, hstorage, s₂, hmirror, s₃, sin, c, hchan, s₄, hput, s₅, hinit, s₆, hinit', s₇,
    gin, c', hchan', s₈, hput', s₉, hinit'', hunmap⟩ := h
  have h₁ := addStorage_kept hs hstorage
  have hgs : RecordsKept s₁ { s₁ with tasks := s₁.tasks.set ts TaskState.gsBase gs } :=
    .of_same h₁.unlisted rfl rfl rfl rfl le_rfl
  have h₂ := (h₁.trans hgs).trans
    (setMman_kept hgs.unlisted (quiet_mmanMirror _ _ _ _ _ _).roots.nextId.ge hmirror)
  have h₃ := h₂.trans (addChannel_kept h₂.unlisted hchan)
  -- the record is the one that was read at first
  obtain ⟨i₃, hi₃, hid₃⟩ := h₃.record info i hi
  have h₄ := h₃.trans (.of_putInfo h₃.unlisted hi₃ hput hid₃.symm)
  have h₅ := h₄.trans (initChannel_kept h₄.unlisted hinit)
  have h₆ := h₅.trans (initChannel_kept h₅.unlisted hinit')
  have h₇ := h₆.trans (addChannel_kept h₆.unlisted hchan')
  obtain ⟨i₇, hi₇, hid₇⟩ := h₇.record info i hi
  have h₈ := h₇.trans (.of_putInfo h₇.unlisted hi₇ hput' hid₇.symm)
  have h₉ := h₈.trans (initChannel_kept h₈.unlisted hinit'')
  exact h₉.trans (setMman_kept h₉.unlisted (sameRoots_mmanUnmap _ _ _ _).nextId.ge hunmap)

/-- From `s` to `s'` the task `id` was added, with the record `info`. -/
structure RecordAdded (s s' : Sched) (id info : Nat) : Prop where
  queue : s'.queue = s.queue
  queueSize : s'.queueSize = s.queueSize
  taskMap : s'.taskMap = (s.taskMap.insert id info).1
  id_eq : id = s.mman.nextId
  nextId : s.mman.nextId < s'.mman.nextId
  record : ∀ p i, s.info? p = some i → ∃ i', s'.info? p = some i' ∧ i'.id = i.id
  added : ∃ i, s'.info? info = some i ∧ i.id = id
  unlisted : RecordsUnlisted s'

/-- A record is allocated and filled in before `task_setup`, and must be no block that a wait list
    still points to. -/
theorem RecordAdded.of_setup {tasks : TaskTable} {heap : Heap Block} (hs : RecordsUnlisted s)
    (hfresh : ¬ PointedTo s s.heap.fresh) (hi : i.id = s.mman.nextId)
    (hcells : heap.cells = Function.update s.heap.cells s.heap.fresh (some (.info (some i))))
    (hnext : s.mman.nextId < m.nextId)
    (h : taskSetup { s with
      mman := m, tasks := tasks, heap := heap
      taskMap := (s.taskMap.insert s.mman.nextId s.heap.fresh).1 } ts s.heap.fresh = some s') :
    RecordAdded s s' s.mman.nextId s.heap.fresh := by
  generalize hs₁ : ({ s with
      mman := m, tasks := tasks, heap := heap
      taskMap := (s.taskMap.insert s.mman.nextId s.heap.fresh).1 } : Sched) = s₁ at h
  have hheap : s₁.heap.cells = Function.update s.heap.cells s.heap.fresh (some (.info (some i))) := by
    rw [← hs₁]
    exact hcells
  have hself : s₁.info? s.heap.fresh = some i := by
    rw [Sched.info?_eq_some, hheap, Function.update_self]
  have hother : ∀ p, p ≠ s.heap.fresh → s₁.heap.cells p = s.heap.cells p := by
    intro p hp
    rw [hheap, Function.update_of_ne hp]
  have hback : ∀ p b, s₁.heap.cells p = some b → b ≠ .info (some i) → s.heap.cells p = some b := by
    intro p b hb hne
    by_cases hp : p = s.heap.fresh
    · rw [hp, hheap, Function.update_self] at hb
      exact absurd (Option.some.inj hb).symm hne
    · rwa [hother p hp] at hb
  have hunlisted : RecordsUnlisted s₁ := by
    intro p hp
    have hold : PointedTo s p := hp.mono
      (fun q o ho => Sched.object?_eq_some.mpr
        (hback q _ (Sched.object?_eq_some.mp ho) fun hb => nomatch hb))
      fun q w hw => Sched.wait?_eq_some.mpr
        (hback q _ (Sched.wait?_eq_some.mp hw) fun hb => nomatch hb)
    have hne : p ≠ s.heap.fresh := by
      rintro rfl
      exact hfresh hold
    exact (Sched.info?_congr (hother p hne)).trans (hs p hold)
  have hkept := taskSetup_kept hunlisted h
  refine ⟨hkept.queue.trans ?_, hkept.queueSize.trans ?_, hkept.taskMap.trans ?_, rfl, ?_, ?_, ?_,
    hkept.unlisted⟩
  · rw [← hs₁]
  · rw [← hs₁]
  · rw [← hs₁]
  · have hm : s₁.mman.nextId = m.nextId := by rw [← hs₁]
    have := hkept.nextId
    omega
  · intro p j hj
    apply hkept.record
    have hp : p ≠ s.heap.fresh := (Heap.fresh_ne (Sched.info?_eq_some.mp hj)).symm
    exact (Sched.info?_congr (hother p hp)).trans hj
  · obtain ⟨i', hi', hid⟩ := hkept.record _ i hself
    exact ⟨i', hi', hid.trans hi⟩

/-- **An attached task.** -/
theorem schedTaskAttach_added {id : Nat} (hs : RecordsUnlisted s)
    (hfresh : ¬ PointedTo s s.heap.fresh)
    (h : schedTaskAttach (s.alloc (.info none)).1 ts s.heap.fresh = some (s', id)) :
    RecordAdded s s' id s.heap.fresh := by
  simp only [schedTaskAttach, Sched.genId] at h
  generalize himport : mmanImportRoot _ _ = imported at h
  obtain ⟨m, root⟩ := imported
  simp only [Option.bind_eq_bind, Option.bind_eq_some_iff, Option.pure_def, Option.some.injEq,
    Prod.mk.injEq] at h
  obtain ⟨s₁, hput, s₂, hsetup, rfl, rfl⟩ := h
  obtain ⟨heap, rfl, hheap⟩ := Sched.put_cases hput
  obtain ⟨-, hcells, -⟩ := Heap.put_cases hheap
  have hnext := nextId_mmanImportRoot himport
  refine .of_setup hs hfresh (i := ⟨s.mman.nextId, ts, root, 0, 0, 0⟩) rfl ?_ ?_ hsetup
  · rw [hcells]
    exact Function.update_idem _ _ _
  · change s.mman.nextId < m.nextId
    rw [hnext]
    exact Nat.lt_succ_of_lt (Nat.lt_succ_self _)

/-- **A created task**, in a root that is known. -/
theorem schedTaskCreate_added {id : Nat} (hs : RecordsUnlisted s)
    (hfresh : ¬ PointedTo s s.heap.fresh) (hroot : mmanIsRoot s.mman rootId)
    (h : schedTaskCreate (s.alloc (.info none)).1 rootId s.heap.fresh = some (s', id)) :
    RecordAdded s s' id s.heap.fresh := by
  simp only [schedTaskCreate] at h
  split_ifs at h with hknown
  · simp only [Sched.genId, Option.bind_eq_bind, Option.bind_eq_some_iff, Option.pure_def,
      Option.some.injEq, Prod.mk.injEq, Prod.exists] at h
    obtain ⟨tasks, ts, -, s₁, hput, s₂, hsetup, rfl, rfl⟩ := h
    obtain ⟨heap, rfl, hheap⟩ := Sched.put_cases hput
    obtain ⟨-, hcells, -⟩ := Heap.put_cases hheap
    refine .of_setup hs hfresh (i := ⟨s.mman.nextId, ts, rootId, 0, 0, 0⟩) rfl ?_ ?_ hsetup
    · rw [hcells]
      exact Function.update_idem _ _ _
    · exact Nat.lt_succ_self _
  · exact absurd hroot hknown

/-- `sched_task_reap`, up to its `avl_remove`. -/
theorem reapMemory_kept (hs : RecordsUnlisted s) (h : reapMemory s taskId = some s') :
    RecordsKept s s' := by
  simp only [reapMemory, Option.bind_eq_bind, Option.bind_eq_some_iff] at h
  obtain ⟨i, -, s₁, hdecrement, i', -, hunmap⟩ := h
  have h₁ := setMman_kept hs (mmanDecrementRoot_spec _ _).2.2.1.ge hdecrement
  have htasks : RecordsKept s₁ { s₁ with
      tasks := (s₁.tasks.set i'.state TaskState.state 0).set i'.state TaskState.cr3 0 } :=
    .of_same h₁.unlisted rfl rfl rfl rfl le_rfl
  refine (h₁.trans htasks).trans ?_
  unfold Sched.unmapWindow at hunmap
  split_ifs at hunmap
  · obtain rfl := Option.some.inj hunmap
    exact .refl htasks.unlisted
  · exact setMman_kept htasks.unlisted (sameRoots_mmanUnmap _ _ _ _).nextId.ge hunmap

/-! ## Waiting -/

/-- New blocks that are no records, where no list is led to a record. -/
theorem RecordsKept.of_heap (hs : RecordsUnlisted s) (hinfo : ∀ p, s'.info? p = s.info? p)
    (hpoint : ∀ p, PointedTo s' p → PointedTo s p ∨ s.info? p = none) (hqueue : s'.queue = s.queue)
    (hsize : s'.queueSize = s.queueSize) (hmap : s'.taskMap = s.taskMap)
    (hmman : s'.mman = s.mman) : RecordsKept s s' := by
  refine ⟨hqueue, hsize, hmap, hmman ▸ le_rfl, fun p i hi => ⟨i, (hinfo p).trans hi, rfl⟩, ?_⟩
  intro p hp
  rw [hinfo]
  exact (hpoint p hp).elim (hs p) id

theorem info?_of_cells_none (h : s.heap.cells p = none) : s.info? p = none := by
  rw [Sched.info?, h]

theorem synchObject_kept (hs : RecordsUnlisted s) (phy : Word) :
    RecordsKept s (synchObject s phy).1 := by
  simp only [synchObject]
  split
  · obtain ⟨ret, pobj, heap, hret, hpobj, -, hne, hcells, heq⟩ := synchMake_spec s phy
    rw [heq]
    generalize hs' : ({ s with
        heap := heap
        synchObjects := (s.synchObjects.insert phy ret).1
        synchPages := (s.synchPages.insert (pageOf phy) pobj).1 } : Sched) = s'
    have hcells' : s'.heap.cells = Function.update (Function.update s.heap.cells ret
        (some (.object ⟨phy, 0⟩))) pobj
          (some (.pageObject ⟨(s.synchPages.search (pageOf phy)).getD 0, ret⟩)) := by
      rw [← hs', ← hcells]
    have hat : s'.heap.cells ret = some (.object ⟨phy, 0⟩) := by
      rw [hcells', Function.update_of_ne hne, Function.update_self]
    have hat' : s'.heap.cells pobj =
        some (.pageObject ⟨(s.synchPages.search (pageOf phy)).getD 0, ret⟩) := by
      rw [hcells', Function.update_self]
    have hother : ∀ p, p ≠ ret → p ≠ pobj → s'.heap.cells p = s.heap.cells p := by
      intro p hp hp'
      rw [hcells', Function.update_of_ne hp', Function.update_of_ne hp]
    refine .of_heap hs (fun p => ?_) (fun p hp => ?_) ?_ ?_ ?_ ?_
    · by_cases hp : p = ret
      · rw [hp, info?_of_cells_none hret, Sched.info?, hat]
      · by_cases hp' : p = pobj
        · rw [hp', info?_of_cells_none hpobj, Sched.info?, hat']
        · exact Sched.info?_congr (hother p hp hp')
    · cases hp with
      | @next q w wait =>
        have hcell := Sched.wait?_eq_some.mp wait
        by_cases hq : q = ret
        · rw [hq, hat] at hcell
          cases hcell
        · by_cases hq' : q = pobj
          · rw [hq', hat'] at hcell
            cases hcell
          · rw [hother q hq hq'] at hcell
            exact .inl (.next (Sched.wait?_eq_some.mpr hcell))
      | @head q o object =>
        have hcell := Sched.object?_eq_some.mp object
        by_cases hq : q = ret
        · rw [hq, hat] at hcell
          cases hcell
          exact .inr (info?_of_cells_none s.heap.null)
        · by_cases hq' : q = pobj
          · rw [hq', hat'] at hcell
            cases hcell
          · rw [hother q hq hq'] at hcell
            exact .inl (.head (Sched.object?_eq_some.mpr hcell))
    · rw [← hs']
    · rw [← hs']
    · rw [← hs']
    · rw [← hs']
  · exact .refl hs

/-- The new wait record points where the object did. -/
theorem synchWait_kept {value : Word} {r : Int} (hs : RecordsUnlisted s)
    (h : synchWait s taskId object value = some (s', r)) : RecordsKept s s' := by
  obtain ⟨o, ho, ⟨-, rfl, -⟩ | ⟨-, -, heap, info, hcells, hinfo, heq⟩⟩ := synchWait_cases h
  · exact .refl hs
  · have hobject := Sched.object?_eq_some.mp ho
    have hne : s.heap.fresh ≠ object := Heap.fresh_ne hobject
    have hcells' : s'.heap.cells = heap.cells := by
      rw [heq]
      rfl
    have hat : s'.heap.cells object = some (.object { o with head := s.heap.fresh }) := by
      rw [hcells', hcells, Function.update_self]
    have hat' : s'.heap.cells s.heap.fresh = some (.wait ⟨o.head, taskId⟩) := by
      rw [hcells', hcells, Function.update_of_ne hne, Function.update_self]
    have hother : ∀ p, p ≠ object → p ≠ s.heap.fresh → s'.heap.cells p = s.heap.cells p := by
      intro p hp hp'
      rw [hcells', hcells, Function.update_of_ne hp, Function.update_of_ne hp']
    have hfresh : s.info? s.heap.fresh = none := info?_of_cells_none s.heap.cells_fresh
    refine .of_heap hs (fun p => ?_) (fun p hp => ?_) ?_ ?_ ?_ ?_
    · by_cases hp : p = object
      · rw [hp, info?_of_object ho, Sched.info?, hat]
      · by_cases hp' : p = s.heap.fresh
        · rw [hp', hfresh, Sched.info?, hat']
        · exact Sched.info?_congr (hother p hp hp')
    · cases hp with
      | @next q w wait =>
        have hcell := Sched.wait?_eq_some.mp wait
        by_cases hq : q = object
        · rw [hq, hat] at hcell
          cases hcell
        · by_cases hq' : q = s.heap.fresh
          · rw [hq', hat'] at hcell
            cases hcell
            exact .inl (.head ho)
          · rw [hother q hq hq'] at hcell
            exact .inl (.next (Sched.wait?_eq_some.mpr hcell))
      | @head q o' object' =>
        have hcell := Sched.object?_eq_some.mp object'
        by_cases hq : q = object
        · rw [hq, hat] at hcell
          cases hcell
          exact .inr hfresh
        · by_cases hq' : q = s.heap.fresh
          · rw [hq', hat'] at hcell
            cases hcell
          · rw [hother q hq hq'] at hcell
            exact .inl (.head (Sched.object?_eq_some.mpr hcell))
    · rw [heq]
      rfl
    · rw [heq]
      rfl
    · rw [heq]
      rfl
    · rw [heq]
      rfl

/-! ## Requests -/

/-- The request makes no task and ends none. -/
def Request.KeepsTasks : Request → Prop
  | .spawn _ => False
  | .reap _ => False
  | _ => True

theorem mapEffect_kept {root : Word} {op : Nat → Mman × Int} {ws : List (Nat × Word)}
    (hs : RecordsUnlisted s) (hnext : ∀ id, s.mman.nextId ≤ (op id).1.nextId)
    (h : mapEffect s q root op = some (s', ws)) : RecordsKept s s' := by
  simp only [mapEffect, Option.bind_eq_bind, Option.bind_eq_some_iff, Option.pure_def,
    Option.some.injEq, Prod.mk.injEq] at h
  obtain ⟨id, -, s₁, hset, rfl, -⟩ := h
  exact setMman_kept hs (hnext id) hset

/-- **What requests do to the records**: nothing, but for those that make or end tasks. -/
theorem effect_kept {r : Request} {ws : List (Nat × Word)} (hs : RecordsUnlisted s)
    (hr : r.KeepsTasks) (h : effect s q r = some (s', ws)) : RecordsKept s s' := by
  cases r with
  | forward task data =>
    simp only [effect] at h
    split at h
    · cases h
      exact .refl hs
    · simp only [Option.bind_eq_bind, Option.bind_eq_some_iff] at h
      obtain ⟨i, -, h⟩ := h
      cases h
      exact .of_same hs rfl rfl rfl rfl le_rfl
  | wait address value =>
    obtain ⟨phy, ⟨-, rfl⟩ | ⟨ret, hwait⟩⟩ := effect_wait h
    · exact synchObject_kept hs phy
    · have hkept := synchObject_kept hs phy
      exact hkept.trans (synchWait_kept hkept.unlisted hwait)
  | wake address value count =>
    simp only [effect, Option.bind_eq_bind, Option.bind_eq_some_iff] at h
    obtain ⟨i, -, h⟩ := h
    split at h
    · cases h
      exact .refl hs
    · simp only [Option.bind_eq_some_iff] at h
      obtain ⟨s₁, hwake, h⟩ := h
      cases h
      simp only [synchWake, Option.bind_eq_bind, Option.bind_eq_some_iff] at hwake
      obtain ⟨o, -, hwake⟩ := hwake
      split_ifs at hwake
      · exact wakeLoop_kept hs hwake
      · obtain rfl := Option.some.inj hwake
        exact .refl hs
  | mapAnonymous root address size =>
    exact mapEffect_kept hs (fun id => (quiet_mmanAnonymous _ _ _ _).roots.nextId.ge) h
  | mapPhysical root address phyAddr size =>
    exact mapEffect_kept hs (fun id => (quiet_mmanPhysical _ _ _ _ _).roots.nextId.ge) h
  | mapMirror root address oroot oaddress size =>
    exact mapEffect_kept hs (fun id => (quiet_mmanMirror _ _ _ _ _ _).roots.nextId.ge) h
  | unmap root address size =>
    exact mapEffect_kept hs (fun id => (sameRoots_mmanUnmap _ _ _ _).nextId.ge) h
  | setName task name =>
    cases h
    exact .of_same hs rfl rfl rfl rfl le_rfl
  | getNamed name =>
    cases h
    exact .refl hs
  | spawn root => exact hr.elim
  | setState task index value =>
    simp only [effect, Option.bind_eq_bind, Option.bind_eq_some_iff] at h
    obtain ⟨s₁, hset, h⟩ := h
    cases h
    rcases schedSetState_spec hset with rfl | ⟨i, -, rfl⟩
    · exact .refl hs
    · exact .of_same hs rfl rfl rfl rfl le_rfl
  | reap task => exact hr.elim
  | unknown =>
    cases h
    exact .refl hs

end

end Refk
