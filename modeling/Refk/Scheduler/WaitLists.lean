import Refk.Scheduler.Names
import Refk.Scheduler.RootArg

/-!
# Who is on the wait lists

`synch_wake` and `synch_destroy` look up the task of every wait record they come across, and do not
check the answer. A wait is made by a task that is there, and what other requests do to the lists
is take records away from them. But a reap takes the task away, and leaves its records.
-/

namespace Refk

open Lib

/-- The wait records that are on the list of some object. -/
inductive Listed (s : Sched) : Nat → Prop
  | head {obj : Nat} {o : SynchObj} (object : s.object? obj = some o) (ne : o.head ≠ 0) :
      Listed s o.head
  | next {p : Nat} {w : SynchWait} (listed : Listed s p) (wait : s.wait? p = some w)
      (ne : w.next ≠ 0) : Listed s w.next

/-- **Wait lists name tasks that are there.** -/
def ListsNameLive (s : Sched) : Prop :=
  ∀ p w, Listed s p → s.wait? p = some w → s.getInfo w.taskId ≠ 0

/-- No record on a list is the task's. -/
def Unwaited (s : Sched) (id : Nat) : Prop :=
  ∀ p w, Listed s p → s.wait? p = some w → w.taskId ≠ id

/-- A task that is reaped waits nowhere, when its memory has been given back. -/
def ReapsUnwaited (s : Sched) (q : Nat) : Request → Prop
  | .reap task => s.getInfo (taskArg s q task) ≠ 0 →
    ∀ s₁, reapMemory s (taskArg s q task) = some s₁ → Unwaited s₁ (taskArg s q task)
  | _ => True

section
variable {s s' : Sched} {op : ListenOp} {q taskId : Nat} {r : Request} {ws : List (Nat × Word)}

theorem Listed.mono (hobject : ∀ p o, s'.object? p = some o → s.object? p = some o)
    (hwait : ∀ p w, s'.wait? p = some w → s.wait? p = some w) {p : Nat} (hp : Listed s' p) :
    Listed s p := by
  induction hp with
  | head object ne => exact .head (hobject _ _ object) ne
  | next _ wait ne ih => exact .next ih (hwait _ _ wait) ne

theorem ListsNameLive.spared (hs : ListsNameLive s) (h : Spared s s') : ListsNameLive s' :=
  fun p w hp hw => h.known _ (hs p w (hp.mono h.object h.wait) (h.wait p w hw))

/-- A new object has nobody on its list. -/
theorem ListsNameLive.object (hs : ListsNameLive s) (phy : Word) :
    ListsNameLive (synchObject s phy).1 := by
  simp only [synchObject]
  split
  · obtain ⟨ret, pobj, heap, hret, hpobj, -, hne, hcells, heq⟩ := synchMake_spec s phy
    rw [heq]
    generalize hs' : ({ s with
        heap := heap
        synchObjects := (s.synchObjects.insert phy ret).1
        synchPages := (s.synchPages.insert (pageOf phy) pobj).1 } : Sched) = s'
    have hcells' : s'.heap.cells = heap.cells := by rw [← hs']
    have hmap : s'.taskMap = s.taskMap := by rw [← hs']
    have hwait : ∀ p w, s'.wait? p = some w → s.wait? p = some w := by
      intro p w hw
      rw [Sched.wait?_eq_some, hcells', hcells] at hw
      by_cases hp : p = pobj
      · rw [hp, Function.update_self] at hw
        cases hw
      · rw [Function.update_of_ne hp] at hw
        by_cases hp' : p = ret
        · rw [hp', Function.update_self] at hw
          cases hw
        · rw [Function.update_of_ne hp'] at hw
          exact Sched.wait?_eq_some.mpr hw
    have hlisted : ∀ p, Listed s' p → Listed s p := by
      intro p hp
      induction hp with
      | @head obj o object ne =>
        rw [Sched.object?_eq_some, hcells', hcells] at object
        by_cases hobj : obj = pobj
        · rw [hobj, Function.update_self] at object
          cases object
        · rw [Function.update_of_ne hobj] at object
          by_cases hobj' : obj = ret
          · rw [hobj', Function.update_self] at object
            cases object
            exact absurd rfl ne
          · rw [Function.update_of_ne hobj'] at object
            exact .head (Sched.object?_eq_some.mpr object) ne
      | next _ wait ne ih => exact .next ih (hwait _ _ wait) ne
    intro p w hp hw
    rw [Sched.getInfo, hmap]
    exact hs p w (hlisted p hp) (hwait p w hw)
  · exact hs

/-- **A wait puts a task on a list that is there.** -/
theorem ListsNameLive.wait {object : Nat} {value : Word} {ret : Int} (hs : ListsNameLive s)
    (h : synchWait s taskId object value = some (s', ret)) : ListsNameLive s' := by
  obtain ⟨o, ho, ⟨-, rfl, -⟩ | ⟨-, -, heap, info, hcells, hinfo, rfl⟩⟩ := synchWait_cases h
  · exact hs
  · generalize hs' : { s with heap := heap }.modifyState info.state (· ||| taskStateBlocked) = s'
    have hcells' : s'.heap.cells = heap.cells := by rw [← hs']; rfl
    have hmap : s'.taskMap = s.taskMap := by rw [← hs']; rfl
    have hobject := Sched.object?_eq_some.mp ho
    have hne : s.heap.fresh ≠ object := Heap.fresh_ne hobject
    -- the task's own record is no null pointer
    have hknown : s.getInfo taskId ≠ 0 :=
      Heap.ne_zero_of_cells (Sched.info?_eq_some.mp hinfo)
    have hwait : ∀ p w, s'.wait? p = some w →
        p = s.heap.fresh ∧ w = ⟨o.head, taskId⟩ ∨ s.wait? p = some w := by
      intro p w hw
      rw [Sched.wait?_eq_some, hcells', hcells] at hw
      by_cases hp : p = object
      · rw [hp, Function.update_self] at hw
        cases hw
      · rw [Function.update_of_ne hp] at hw
        by_cases hp' : p = s.heap.fresh
        · rw [hp', Function.update_self] at hw
          cases hw
          exact .inl ⟨hp', rfl⟩
        · rw [Function.update_of_ne hp'] at hw
          exact .inr (Sched.wait?_eq_some.mpr hw)
    have hold : ∀ p w, s.wait? p = some w → p ≠ s.heap.fresh := by
      intro p w hw heq
      have hcell := Sched.wait?_eq_some.mp hw
      rw [heq, Heap.cells_fresh] at hcell
      cases hcell
    -- behind the new record comes the object's old list
    have hlisted : ∀ p, Listed s' p → p = s.heap.fresh ∨ Listed s p := by
      intro p hp
      induction hp with
      | @head obj o' hobj ne =>
        rw [Sched.object?_eq_some, hcells', hcells] at hobj
        by_cases hsame : obj = object
        · rw [hsame, Function.update_self] at hobj
          cases hobj
          exact .inl rfl
        · rw [Function.update_of_ne hsame] at hobj
          by_cases hfresh : obj = s.heap.fresh
          · rw [hfresh, Function.update_self] at hobj
            cases hobj
          · rw [Function.update_of_ne hfresh] at hobj
            exact .inr (.head (Sched.object?_eq_some.mpr hobj) ne)
      | next _ hw ne ih =>
        rcases hwait _ _ hw with ⟨-, rfl⟩ | hw
        · exact .inr (.head ho ne)
        · exact .inr (.next (ih.resolve_left (hold _ _ hw)) hw ne)
    intro p w hp hw
    rw [Sched.getInfo, hmap]
    rcases hwait p w hw with ⟨-, rfl⟩ | hw
    · exact hknown
    · exact hs p w ((hlisted p hp).resolve_left (hold p w hw)) hw

/-- **A task leaves the map**, and must not be on the lists, which stay as they are. -/
theorem ListsNameLive.removed_iff (hs : ListsNameLive s) (taskId : Nat) :
    ListsNameLive { s with taskMap := (s.taskMap.remove taskId).1 } ↔ Unwaited s taskId := by
  generalize hs' : ({ s with taskMap := (s.taskMap.remove taskId).1 } : Sched) = s'
  have hobject : ∀ p, s'.object? p = s.object? p := by
    intro p
    rw [← hs']
    rfl
  have hwait : ∀ p, s'.wait? p = s.wait? p := by
    intro p
    rw [← hs']
    rfl
  have hinfo : ∀ q, s'.getInfo q = if taskId = q then 0 else s.getInfo q := by
    intro q
    rw [← hs', Sched.getInfo, AvlMap.search_remove_ptr]
    split_ifs <;> rfl
  constructor
  · intro h p w hp hw heq
    have hp' : Listed s' p := hp.mono (fun p o ho => (hobject p).trans ho)
      fun p w hw => (hwait p).trans hw
    apply h p w hp' ((hwait p).trans hw)
    rw [hinfo, if_pos heq.symm]
  · intro h p w hp hw
    have hp' : Listed s p := hp.mono (fun p o ho => (hobject p).symm.trans ho)
      fun p w hw => (hwait p).symm.trans hw
    rw [hwait] at hw
    rw [hinfo, if_neg (h p w hp' hw).symm]
    exact hs p w hp' hw

theorem Unwaited.mono (h : Unwaited s taskId)
    (hobject : ∀ p o, s'.object? p = some o → s.object? p = some o)
    (hwait : ∀ p w, s'.wait? p = some w → s.wait? p = some w) : Unwaited s' taskId :=
  fun p w hp hw => h p w (hp.mono hobject hwait) (hwait p w hw)

/-- A task that waits nowhere may be reaped: what the reap gives back only takes records away. -/
theorem ReapsUnwaited.of_unwaited {task : Word} (h : Unwaited s (taskArg s q task)) :
    ReapsUnwaited s q (.reap task) := by
  intro _ s₁ hmemory
  have hspared := reapMemory_spared hmemory
  exact h.mono hspared.object hspared.wait

/-- And where the reap gives back no page with an object, nobody else may. -/
theorem reapsUnwaited_iff {task : Word} {s₁ : Sched}
    (hmemory : reapMemory s (taskArg s q task) = some s₁) (hheap : s₁.heap = s.heap) :
    ReapsUnwaited s q (.reap task) ↔
      (s.getInfo (taskArg s q task) ≠ 0 → Unwaited s (taskArg s q task)) := by
  have hobject : ∀ p, s₁.object? p = s.object? p := fun p => by
    rw [Sched.object?, hheap]
    rfl
  have hwait : ∀ p, s₁.wait? p = s.wait? p := fun p => by
    rw [Sched.wait?, hheap]
    rfl
  constructor
  · intro h hknown
    refine (h hknown s₁ hmemory).mono (fun p o ho => ?_) fun p w hw => ?_
    · rw [hobject]
      exact ho
    · rw [hwait]
      exact hw
  · intro h hknown
    exact ReapsUnwaited.of_unwaited (h hknown) hknown

/-- Whatever is not a reap keeps the lists right. -/
theorem ListsNameLive.request (hs : ListsNameLive s) (hr : ∀ task, r ≠ .reap task)
    (h : effect s q r = some (s', ws)) : ListsNameLive s' := by
  have hsparing : r.Sparing → ListsNameLive s' := fun hr => hs.spared (effect_spared hr h)
  cases r with
  | wait address value =>
    obtain ⟨phy, ⟨-, rfl⟩ | ⟨ret, hwait⟩⟩ := effect_wait h
    · exact hs.object phy
    · exact (hs.object phy).wait hwait
  | setName task name =>
    cases h
    intro p w hp hw
    refine hs p w (Listed.mono ?_ ?_ hp) hw
    · exact fun _ _ ho => ho
    · exact fun _ _ hw => hw
  | reap task => exact absurd rfl (hr task)
  | _ => exact hsparing trivial

/-- **A reap keeps the lists right** if and only if the task waits nowhere. -/
theorem ListsNameLive.reap {task : Word} (hs : ListsNameLive s)
    (h : effect s q (.reap task) = some (s', ws)) :
    ((∀ s₁ info, schedTaskReap s (taskArg s q task) = some (s₁, info) → ListsNameLive s₁) ↔
      ReapsUnwaited s q (.reap task)) ∧ (ReapsUnwaited s q (.reap task) → ListsNameLive s') := by
  rcases effect_reap h with ⟨hknown, hspared⟩ | ⟨hknown, s₁, hmemory, hspared⟩
  · refine ⟨iff_of_true (fun s₁ info hreap => ?_) fun hne => absurd hknown hne,
      fun _ => hs.spared hspared⟩
    rw [schedTaskReap_eq, if_pos hknown] at hreap
    obtain ⟨rfl, -⟩ := Prod.mk.inj (Option.some.inj hreap)
    exact hs
  · have hs₁ := hs.spared (reapMemory_spared hmemory)
    have hiff := hs₁.removed_iff (taskArg s q task)
    have hreap := schedTaskReap_eq s (taskArg s q task)
    rw [if_neg hknown, hmemory, Option.map_some] at hreap
    have hcond : ReapsUnwaited s q (.reap task) ↔ Unwaited s₁ (taskArg s q task) := by
      constructor
      · exact fun h => h hknown s₁ hmemory
      · intro h _ s₂ hs₂
        rw [hmemory] at hs₂
        obtain rfl := Option.some.inj hs₂
        exact h
    rw [hcond, ← hiff]
    refine ⟨⟨fun h => h _ _ hreap, fun h s₂ info hs₂ => ?_⟩, fun h => h.spared hspared⟩
    rw [hreap] at hs₂
    obtain ⟨rfl, -⟩ := Prod.mk.inj (Option.some.inj hs₂)
    exact h

end

end Refk
