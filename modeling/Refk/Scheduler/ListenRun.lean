import Refk.Klib.SharedWindows
import Refk.Scheduler.MmanExact
import Refk.Scheduler.Request
import Refk.Scheduler.Spared
import Refk.Scheduler.SynchIndex
import Refk.Scheduler.SynchWait

/-!
# Runs of the request loop

A run is made of requests, of the hardware task that the loop attaches to begin with, and of what
the clients do to the memory they share with the scheduler in between. Of a request the handler is
taken, with the packet already in `in`.

All requests but three are spared (`Spared`). The other three are told apart: a wait, which makes a
wait record and maybe an object, a new name, and a reap.
-/

namespace Refk

open Lib

inductive ListenOp
  /-- The loop's beginning, for the task in a slot. -/
  | attach (ts : Nat)
  /-- A packet from an entry of the queue, as it stands in the locals. -/
  | request (q : Nat) (l : Locals)
  /-- Channels and memory have been written to. -/
  | clients (channels : Word → Comm) (phys : Phys)

/-- The entry that a step's request is from, and the request; other steps say nothing. -/
def ListenOp.tells : ListenOp → Nat × Request
  | .request q l => (q, l.request)
  | _ => (0, .unknown)

/-- One step of the scheduler. -/
def listenStep (s : Sched) : ListenOp → Option Sched
  | .attach ts => do
    let (s, info) := s.alloc (.info none)
    let (s, id) ← schedTaskAttach s ts info
    s.pushQueue ⟨id, info⟩
  | .request q l => (handle s q l.start).map Prod.fst
  | .clients channels phys =>
    some { s with
      channels := channels
      mman := { s.mman with kmem := { s.mman.kmem with phys := phys } } }

/-- The id in a request, where `0` is the sender. -/
def taskArg (s : Sched) (q : Nat) (task : Word) : Nat :=
  if task = 0 then (s.queue q).taskId else task.toNat

/-- The request makes no wait record, no name, and ends no task. -/
def Request.Sparing : Request → Prop
  | .wait _ _ => False
  | .setName _ _ => False
  | .reap _ => False
  | _ => True

/-- The root is not the scheduler's own, and the range keeps off the windows that all roots share:
    the pages of `queue`, of the trees and of the task table are in there. -/
def RangeOffScheduler (s : Sched) (q : Nat) (root address size : Word) : Prop :=
  (∀ id, rootArg s q root = some id → s.mman.rootAddress id ≠ s.mman.cr3) ∧
    ∀ va ∈ pagesOf address size, ¬ InWindow va

/-- The request maps and unmaps none of the pages that the scheduler's own variables are in. -/
def Request.OffScheduler (s : Sched) (q : Nat) : Request → Prop
  | .mapAnonymous root address size => RangeOffScheduler s q root address size
  | .mapPhysical root address _ size => RangeOffScheduler s q root address size
  | .mapMirror root address _ _ size => RangeOffScheduler s q root address size
  | .unmap root address size => RangeOffScheduler s q root address size
  | _ => True

section
variable {s s' : Sched} {q : Nat} {l l' : Locals} {r : Request} {ws : List (Nat × Word)}

/-- A handler's state is its request's. -/
theorem effect_of_handle (h : handle s q l.start = some (s', l')) :
    ∃ ws, effect s q l.request = some (s', ws) := by
  have heq := handle_eq s q l.start (start_status_zero l)
  rw [h] at heq
  obtain ⟨⟨s₁, ws⟩, heffect, hp⟩ := Option.map_eq_some_iff.mp heq.symm
  obtain ⟨rfl, -⟩ := Prod.mk.inj hp
  exact ⟨ws, heffect⟩

theorem pushQueue_spared {e : QueueEntry} (h : s.pushQueue e = some s') : Spared s s' := by
  unfold Sched.pushQueue at h
  split_ifs at h
  obtain rfl := Option.some.inj h
  exact .of_same rfl rfl rfl

theorem removeFromQueue_spared (s : Sched) (id : Nat) : Spared s (removeFromQueue s id) := by
  unfold removeFromQueue
  split
  · exact .refl s
  · exact .of_same rfl rfl rfl

theorem mapEffect_spared {root : Word} {op : Nat → Mman × Int}
    (h : mapEffect s q root op = some (s', ws)) : Spared s s' := by
  simp only [mapEffect, Option.bind_eq_bind, Option.bind_eq_some_iff, Option.pure_def,
    Option.some.injEq, Prod.mk.injEq] at h
  obtain ⟨id, -, s₁, hset, rfl, -⟩ := h
  exact .of_setMman hset

/-- **What requests spare.** -/
theorem effect_spared (hr : r.Sparing) (h : effect s q r = some (s', ws)) : Spared s s' := by
  cases r with
  | forward task data =>
    simp only [effect] at h
    split at h
    · cases h
      exact .refl s
    · simp only [Option.bind_eq_bind, Option.bind_eq_some_iff] at h
      obtain ⟨i, -, h⟩ := h
      cases h
      exact .of_same rfl rfl rfl
  | wait address value => exact hr.elim
  | wake address value count =>
    simp only [effect, Option.bind_eq_bind, Option.bind_eq_some_iff] at h
    obtain ⟨i, -, h⟩ := h
    split at h
    · cases h
      exact .refl s
    · simp only [Option.bind_eq_some_iff] at h
      obtain ⟨s₁, hwake, h⟩ := h
      cases h
      simp only [synchWake, Option.bind_eq_bind, Option.bind_eq_some_iff] at hwake
      obtain ⟨o, -, hwake⟩ := hwake
      split_ifs at hwake
      · exact (wakeLoop_released hwake).spared
      · obtain rfl := Option.some.inj hwake
        exact .refl s
  | mapAnonymous => exact mapEffect_spared h
  | mapPhysical => exact mapEffect_spared h
  | mapMirror => exact mapEffect_spared h
  | unmap => exact mapEffect_spared h
  | setName task name => exact hr.elim
  | getNamed name =>
    cases h
    exact .refl s
  | spawn root =>
    simp only [effect, Option.bind_eq_bind, Option.bind_eq_some_iff] at h
    obtain ⟨rootId, -, created, hcreate, s₁, hpush, h⟩ := h
    cases h
    have hinfo := schedTaskCreate_spared (Heap.fresh_ne_zero s.heap) hcreate
    exact ((Spared.of_allocInfo s none).trans hinfo).trans (pushQueue_spared hpush)
  | setState task index value =>
    simp only [effect, Option.bind_eq_bind, Option.bind_eq_some_iff] at h
    obtain ⟨s₁, hset, h⟩ := h
    cases h
    exact schedSetState_spared hset
  | reap task => exact hr.elim
  | unknown =>
    cases h
    exact .refl s

/-- An attached task. -/
theorem attach_spared {ts : Nat} (h : listenStep s (.attach ts) = some s') : Spared s s' := by
  simp only [listenStep, Option.bind_eq_bind, Option.bind_eq_some_iff] at h
  obtain ⟨⟨s₁, id⟩, hattach, hpush⟩ := h
  have hinfo := schedTaskAttach_spared (Heap.fresh_ne_zero s.heap) hattach
  exact ((Spared.of_allocInfo s none).trans hinfo).trans (pushQueue_spared hpush)

/-- An object found or made is new in the heap and the two indexes only. -/
theorem synchObject_frame (s : Sched) (phy : Word) : ∃ heap objects pages,
    (synchObject s phy).1 =
      { s with heap := heap, synchObjects := objects, synchPages := pages } := by
  simp only [synchObject]
  split
  · obtain ⟨_, _, _, -, -, -, -, -, heq⟩ := synchMake_spec s phy
    rw [heq]
    exact ⟨_, _, _, rfl⟩
  · exact ⟨s.heap, s.synchObjects, s.synchPages, rfl⟩

/-- **A wait**: the object of the address, found or made, and the wait on it. -/
theorem effect_wait {address value : Word} (h : effect s q (.wait address value) = some (s', ws)) :
    ∃ phy, (synchObject s phy).2 = 0 ∧ s' = (synchObject s phy).1 ∨
      ∃ r, synchWait (synchObject s phy).1 (s.queue q).taskId (synchObject s phy).2 value =
        some (s', r) := by
  simp only [effect, Option.bind_eq_bind, Option.bind_eq_some_iff] at h
  obtain ⟨i, -, h⟩ := h
  refine ⟨mmanGetPhy s.mman i.rootId address, ?_⟩
  split at h
  · rename_i hzero
    cases h
    exact .inl ⟨hzero, rfl⟩
  · simp only [Option.bind_eq_some_iff] at h
    obtain ⟨⟨s₁, r⟩, hwait, h⟩ := h
    cases h
    have hqueue : (synchObject s (mmanGetPhy s.mman i.rootId address)).1.queue = s.queue := by
      obtain ⟨_, _, _, heq⟩ := synchObject_frame s (mmanGetPhy s.mman i.rootId address)
      rw [heq]
    rw [hqueue] at hwait
    exact .inr ⟨r, hwait⟩

/-- A wait leaves the tasks and their names alone. -/
theorem effect_wait_frame {address value : Word}
    (h : effect s q (.wait address value) = some (s', ws)) :
    s'.taskMap = s.taskMap ∧ s'.namedTasks = s.namedTasks := by
  obtain ⟨phy, hor⟩ := effect_wait h
  obtain ⟨_, _, _, hobject⟩ := synchObject_frame s phy
  have hmade : (synchObject s phy).1.taskMap = s.taskMap ∧
      (synchObject s phy).1.namedTasks = s.namedTasks := by
    rw [hobject]
    exact ⟨rfl, rfl⟩
  rcases hor with ⟨-, heq⟩ | ⟨r, hwait⟩
  · rw [heq]
    exact hmade
  · obtain ⟨o, -, ⟨-, heq, -⟩ | ⟨-, -, heap, info, -, -, heq⟩⟩ := synchWait_cases hwait
    · rw [heq]
      exact hmade
    · rw [heq]
      exact hmade

/-- **A reap**: nothing but the queue, for a task that is not known; otherwise the task leaves the
    map in between. -/
theorem effect_reap {task : Word} (h : effect s q (.reap task) = some (s', ws)) :
    (s.getInfo (taskArg s q task) = 0 ∧ Spared s s') ∨
      (s.getInfo (taskArg s q task) ≠ 0 ∧ ∃ s₁, reapMemory s (taskArg s q task) = some s₁ ∧
        Spared { s₁ with taskMap := (s₁.taskMap.remove (taskArg s q task)).1 } s') := by
  simp only [effect, Option.bind_eq_bind, Option.bind_eq_some_iff] at h
  obtain ⟨⟨s₁, info⟩, hreap, s₂, hfree, h⟩ := h
  cases h
  have hrest := (removeFromQueue_spared s₁ (taskArg s q task)).trans (.of_free hfree)
  change schedTaskReap s (taskArg s q task) = some (s₁, info) at hreap
  rw [schedTaskReap_eq] at hreap
  by_cases hknown : s.getInfo (taskArg s q task) = 0
  · rw [if_pos hknown] at hreap
    obtain ⟨rfl, -⟩ := Prod.mk.inj (Option.some.inj hreap)
    exact .inl ⟨hknown, hrest⟩
  · rw [if_neg hknown] at hreap
    obtain ⟨s₀, hmemory, heq⟩ := Option.map_eq_some_iff.mp hreap
    obtain ⟨rfl, -⟩ := Prod.mk.inj heq
    exact .inr ⟨hknown, s₀, hmemory, hrest⟩

end

end Refk
