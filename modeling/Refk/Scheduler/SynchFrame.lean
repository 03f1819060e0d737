import Refk.Scheduler.Synch

/-!
# What destroying synch objects leaves alone

The page-free callback runs in the middle of the memory manager's operations, so everything
proved about a request has to survive it. `Released s s'` is what it can do: free blocks, relink
lists of page objects, and clear `BLOCKED` bits.
-/

namespace Refk

open Lib

/-- The state word after a wake. -/
def cleared (ts : TaskState) : TaskState :=
  Function.update ts TaskState.state (ts TaskState.state &&& ~~~taskStateBlocked)

/-- From `s` to `s'` blocks were freed and tasks unblocked, and page lists changed. -/
structure Released (s s' : Sched) : Prop where
  mman : s'.mman = s.mman
  taskMap : s'.taskMap = s.taskMap
  namedTasks : s'.namedTasks = s.namedTasks
  synchObjects : s'.synchObjects = s.synchObjects
  queue : s'.queue = s.queue
  queueSize : s'.queueSize = s.queueSize
  channels : s'.channels = s.channels
  tasks : ∀ slot, s'.tasks slot = s.tasks slot ∨ s'.tasks slot = cleared (s.tasks slot)
  info : ∀ p i, s'.info? p = some i → s.info? p = some i
  wait : ∀ p w, s'.wait? p = some w → s.wait? p = some w
  object : ∀ p o, s'.object? p = some o → s.object? p = some o

theorem cleared_cleared (ts : TaskState) : cleared (cleared ts) = cleared ts := by
  simp [cleared, BitVec.and_assoc]

theorem Released.refl (s : Sched) : Released s s :=
  ⟨rfl, rfl, rfl, rfl, rfl, rfl, rfl, fun _ => .inl rfl, fun _ _ => id, fun _ _ => id, fun _ _ => id⟩

theorem Released.trans {s₁ s₂ s₃ : Sched} (h : Released s₁ s₂) (h' : Released s₂ s₃) :
    Released s₁ s₃ where
  mman := h'.mman.trans h.mman
  taskMap := h'.taskMap.trans h.taskMap
  namedTasks := h'.namedTasks.trans h.namedTasks
  synchObjects := h'.synchObjects.trans h.synchObjects
  queue := h'.queue.trans h.queue
  queueSize := h'.queueSize.trans h.queueSize
  channels := h'.channels.trans h.channels
  tasks slot := by
    rcases h.tasks slot with h₁ | h₁ <;> rcases h'.tasks slot with h₂ | h₂
    · exact .inl (h₂.trans h₁)
    · exact .inr (by rw [h₂, h₁])
    · exact .inr (h₂.trans h₁)
    · exact .inr (by rw [h₂, h₁, cleared_cleared])
  info p i hi := h.info p i (h'.info p i hi)
  wait p w hw := h.wait p w (h'.wait p w hw)
  object p o ho := h.object p o (h'.object p o ho)

section
variable {s s' : Sched} {p w n object : Nat} {b : Block}

theorem Released.of_free (h : s.free p = some s') : Released s s' := by
  obtain ⟨heap, rfl, hfree⟩ := Sched.free_cases h
  refine ⟨rfl, rfl, rfl, rfl, rfl, rfl, rfl, fun _ => .inl rfl, fun q i hi => ?_, fun q w hw => ?_,
    fun q o ho => ?_⟩
  · exact Sched.info?_eq_some.mpr (Heap.cells_of_free hfree (Sched.info?_eq_some.mp hi))
  · exact Sched.wait?_eq_some.mpr (Heap.cells_of_free hfree (Sched.wait?_eq_some.mp hw))
  · exact Sched.object?_eq_some.mpr (Heap.cells_of_free hfree (Sched.object?_eq_some.mp ho))

/-- Writing a page object. -/
theorem Released.of_put {po : PageObject} (h : s.put p (.pageObject po) = some s') :
    Released s s' := by
  obtain ⟨heap, rfl, hput⟩ := Sched.put_cases h
  obtain ⟨-, hcells, -⟩ := Heap.put_cases hput
  have hback : ∀ q b, heap.cells q = some b → (∀ po, b ≠ .pageObject po) →
      s.heap.cells q = some b := by
    intro q b hq hb
    by_cases heq : q = p
    · rw [heq, hcells, Function.update_self] at hq
      exact absurd (Option.some.inj hq).symm (hb po)
    · rwa [hcells, Function.update_of_ne heq] at hq
  refine ⟨rfl, rfl, rfl, rfl, rfl, rfl, rfl, fun _ => .inl rfl, fun q i hi => ?_, fun q w hw => ?_,
    fun q o ho => ?_⟩
  · exact Sched.info?_eq_some.mpr (hback q _ (Sched.info?_eq_some.mp hi) (by simp))
  · exact Sched.wait?_eq_some.mpr (hback q _ (Sched.wait?_eq_some.mp hw) (by simp))
  · exact Sched.object?_eq_some.mpr (hback q _ (Sched.object?_eq_some.mp ho) (by simp))

theorem Released.of_unblock (s : Sched) (slot : Nat) :
    Released s (s.modifyState slot (· &&& ~~~taskStateBlocked)) := by
  refine ⟨rfl, rfl, rfl, rfl, rfl, rfl, rfl, fun slot' => ?_, fun _ _ => id, fun _ _ => id,
    fun _ _ => id⟩
  by_cases heq : slot' = slot
  · rw [heq]
    exact .inr (by simp [Sched.modifyState, TaskTable.set, cleared])
  · exact .inl (Sched.modifyState_of_slot_ne heq)

theorem Released.of_pages (s : Sched) (pages : AvlMap Word Nat avlPtrcmp) :
    Released s { s with synchPages := pages } :=
  ⟨rfl, rfl, rfl, rfl, rfl, rfl, rfl, fun _ => .inl rfl, fun _ _ => id, fun _ _ => id, fun _ _ => id⟩

theorem wakeTurn_released {w' : Nat} (h : wakeTurn s w = some (s', w')) : Released s s' := by
  simp only [wakeTurn, Option.bind_eq_bind, Option.bind_eq_some_iff, Option.pure_def,
    Option.some.injEq, Prod.mk.injEq] at h
  obtain ⟨wait, -, info, -, s₁, hfree, rfl, -⟩ := h
  exact (Released.of_unblock s info.state).trans (.of_free hfree)

theorem wakeLoop_released (h : wakeLoop n s w = some s') : Released s s' := by
  induction n generalizing s w with
  | zero =>
    obtain rfl : s = s' := Option.some.inj h
    exact .refl s
  | succ n ih =>
    rw [wakeLoop] at h
    split_ifs at h with hw
    · obtain rfl : s = s' := Option.some.inj h
      exact .refl s
    · simp only [Option.bind_eq_bind, Option.bind_eq_some_iff, Prod.exists] at h
      obtain ⟨s₁, w₁, hturn, hloop⟩ := h
      exact (wakeTurn_released hturn).trans (ih hloop)

theorem unlinkLoop_released (h : unlinkLoop object n s p = some s') : Released s s' := by
  induction n generalizing p with
  | zero => cases h
  | succ n ih =>
    rw [unlinkLoop] at h
    split_ifs at h with hp
    · obtain rfl : s = s' := Option.some.inj h
      exact .refl s
    · simp only [Option.bind_eq_bind, Option.bind_eq_some_iff] at h
      obtain ⟨pobj, -, h⟩ := h
      split_ifs at h with hnext
      · obtain rfl : s = s' := Option.some.inj h
        exact .refl s
      · simp only [Option.bind_eq_some_iff] at h
        obtain ⟨n, -, h⟩ := h
        split_ifs at h with hobj
        · simp only [Option.bind_eq_some_iff] at h
          obtain ⟨s₁, hput, hfree⟩ := h
          exact (Released.of_put hput).trans (.of_free hfree)
        · exact ih h

theorem unlinkObject_released {page : Word} (h : unlinkObject s object page = some s') :
    Released s s' := by
  simp only [unlinkObject, Option.bind_eq_bind, Option.bind_eq_some_iff] at h
  obtain ⟨pobj, -, h⟩ := h
  split_ifs at h with hhead
  · exact (Released.of_pages s _).trans (.of_free h)
  · exact unlinkLoop_released h

/-- **What `synch_destroy` does**: up to its last step it only releases, and then it frees the
    object. -/
theorem synchDestroy_cases (h : synchDestroy s object = some s') :
    ∃ o s₁, s.object? object = some o ∧ Released s s₁ ∧ s₁.free object = some s' := by
  simp only [synchDestroy, Option.bind_eq_bind, Option.bind_eq_some_iff] at h
  obtain ⟨o, ho, s₁, hwake, s₂, hunlink, hfree⟩ := h
  exact ⟨o, s₂, ho, (wakeLoop_released hwake).trans (unlinkObject_released hunlink), hfree⟩

theorem synchDestroy_released (h : synchDestroy s object = some s') : Released s s' := by
  obtain ⟨o, s₁, -, hrel, hfree⟩ := synchDestroy_cases h
  exact hrel.trans (.of_free hfree)

theorem freeObjectsLoop_released {page : Word} (h : freeObjectsLoop page n s = some s') :
    Released s s' := by
  induction n generalizing s with
  | zero => cases h
  | succ n ih =>
    rw [freeObjectsLoop] at h
    split_ifs at h with hp
    · obtain rfl : s = s' := Option.some.inj h
      exact .refl s
    · simp only [Option.bind_eq_bind, Option.bind_eq_some_iff] at h
      obtain ⟨pobj, -, s₁, hdestroy, hloop⟩ := h
      exact (synchDestroy_released hdestroy).trans (ih hloop)

theorem freeObjects_released {page : Word} (h : freeObjects s page = some s') : Released s s' :=
  freeObjectsLoop_released h

theorem freeObjects_empty {page : Word} (hpage : (s.synchPages.search page).getD 0 = 0) :
    freeObjects s page = some s := by
  rw [freeObjects, freeObjectsLoop]
  exact if_pos hpage

/-- No page has an object. -/
def NoObjects (s : Sched) : Prop := ∀ page, (s.synchPages.search page).getD 0 = 0

/-- Without objects the callback has nothing to do. -/
theorem setMman_of_noObjects (h : NoObjects s) (mman : Mman) :
    s.setMman mman = some { s with mman := mman } := by
  simp only [Sched.setMman]
  generalize (mman.pagefreeCalls.take _).reverse = calls
  have hno : NoObjects { s with mman := mman } := h
  generalize ({ s with mman := mman } : Sched) = s₁ at hno ⊢
  induction calls with
  | nil => rfl
  | cons page calls ih => rw [List.foldlM_cons, freeObjects_empty (hno page)]; exact ih

/-- **The memory manager's operations** reach the rest of the scheduler through the callback
    only. -/
theorem setMman_released {mman : Mman} (h : s.setMman mman = some s') :
    Released { s with mman := mman } s' := by
  simp only [Sched.setMman] at h
  generalize ({ s with mman := mman } : Sched) = s₁ at h ⊢
  generalize (mman.pagefreeCalls.take _).reverse = calls at h
  induction calls generalizing s₁ with
  | nil =>
    obtain rfl : s₁ = s' := Option.some.inj h
    exact .refl s₁
  | cons page calls ih =>
    simp only [List.foldlM_cons, Option.bind_eq_bind, Option.bind_eq_some_iff] at h
    obtain ⟨s₂, hfree, hrest⟩ := h
    exact (freeObjects_released hfree).trans (ih s₂ hrest)

end

end Refk
