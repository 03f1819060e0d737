import Refk.Scheduler.Records

/-!
# The queue of the tasks that are listened to

`listen` goes through the entries of `queue` and calls `process` for each; `process_for` calls it
for one. A call holds on to the place of its entry for as long as there are packets, and a request
may change what is there: a spawn adds an entry behind the others, and a reap puts the last one
into the place of the one it removes.

A `Listening` is the scheduler with the place that the running call holds. An entry that is written
behind the end of the array is the end of what can be said.
-/

namespace Refk

open Lib

structure Listening where
  sched : Sched
  /-- The entry that the running call of `process` is for. -/
  current : Option Nat
  /-- An entry was written behind the end of `queue`. -/
  overflowed : Bool

inductive QueueOp
  /-- The hardware task is attached, before any call. -/
  | attach (ts : Nat)
  /-- A call of `process` for an entry. -/
  | call (q : Nat)
  /-- The call has read a packet, which is in the locals, and handles it. -/
  | request (l : Locals)
  /-- The call has found no packet. -/
  | finish
  /-- Channels and memory have been written to. -/
  | clients (channels : Word → Comm) (phys : Phys)

/-- The request comes to write an entry, and the array is full. -/
def writesBehind (s : Sched) (q : Nat) : Request → Bool
  | .spawn root =>
    ((rootArg s q root).bind fun rootId =>
      schedTaskCreate (s.alloc (.info none)).1 rootId s.heap.fresh).any
        fun p => queueLength ≤ p.1.queueSize
  | _ => false

def Listening.withSched (L : Listening) (s : Sched) : Listening := { L with sched := s }

/-- One step; nothing follows a write behind the end. -/
def queueStep (L : Listening) (op : QueueOp) : Option (Listening × Unit) :=
  if L.overflowed then none
  else match op with
    | .attach ts =>
      if L.current = none then
        (listenStep L.sched (.attach ts)).map fun s => (L.withSched s, ())
      else none
    | .call q =>
      if L.current = none ∧ q < L.sched.queueSize then some ({ L with current := some q }, ())
      else none
    | .request l =>
      L.current.bind fun q =>
        if writesBehind L.sched q l.request then some ({ L with overflowed := true }, ())
        else (listenStep L.sched (.request q l)).map fun s => (L.withSched s, ())
    | .finish => some ({ L with current := none }, ())
    | .clients channels phys =>
      (listenStep L.sched (.clients channels phys)).map fun s => (L.withSched s, ())

/-- **Queue integrity.** -/
structure QueueIntegrity (s : Sched) : Prop where
  size : s.queueSize ≤ queueLength
  distinct : ∀ i < s.queueSize, ∀ j < s.queueSize,
    (s.queue i).taskId = (s.queue j).taskId → i = j
  live : ∀ i < s.queueSize, s.taskMap.search (s.queue i).taskId = some (s.queue i).info ∧
    ∃ r, s.info? (s.queue i).info = some r
  mapped : ∀ id p, s.taskMap.search id = some p →
    ∃! i, i < s.queueSize ∧ (s.queue i).taskId = id

/-- The queue is right, and what the running call follows next, `q->info`, is not freed. -/
structure QueueSafe (L : Listening) : Prop where
  integrity : QueueIntegrity L.sched
  inside : L.overflowed = false
  current : ∀ q, L.current = some q → ∃ r, L.sched.entryInfo q = some r

/-- A step frees no record but that of a task that reaps itself. -/
def FreesOwn (L : Listening) (op : QueueOp) (L' : Listening) : Prop :=
  ∀ p r, L.sched.info? p = some r → (∃ r', L'.sched.info? p = some r' ∧ r'.id = r.id) ∨
    ∃ q l task, op = .request l ∧ L.current = some q ∧ l.request = .reap task ∧
      taskArg L.sched q task = (L.sched.queue q).taskId ∧ p = (L.sched.queue q).info

/-- A task is made in a root that is known, while the queue has room, and its record is no block
    that a wait list still points to; a task is reaped by nobody but itself, and while its entry is
    not the last one. (What is mapped stays off the queue itself, which is an array here and not
    pages of the scheduler's root.) -/
def QueuesWell (s : Sched) (q : Nat) : Request → Prop
  | .spawn root => (∀ id, rootArg s q root = some id → mmanIsRoot s.mman id) ∧
      s.queueSize < queueLength ∧ ¬ PointedTo s s.heap.fresh
  | .reap task => taskArg s q task = (s.queue q).taskId ∧ q + 1 < s.queueSize
  | r => r.OffScheduler s q

/-- The condition on a step. -/
def StepsWell (L : Listening) : QueueOp → Prop
  | .attach _ => ¬ PointedTo L.sched L.sched.heap.fresh
  | .request l => ∀ q, L.current = some q → QueuesWell L.sched q l.request
  | _ => True

/-- What is kept: integrity, ids that were handed out and are in their records, and wait lists that
    keep to themselves. -/
structure QueueInv (s : Sched) : Prop where
  integrity : QueueIntegrity s
  records : ∀ id p, s.taskMap.search id = some p → ∃ r, s.info? p = some r ∧ r.id = id
  bound : ∀ id p, s.taskMap.search id = some p → id < s.mman.nextId
  unlisted : RecordsUnlisted s

/-- Before the first task. -/
theorem QueueInv.init (mman : Mman) (tasks : TaskTable) (allocator : Allocator)
    (channels : Word → Comm) : QueueInv (.init mman tasks allocator channels) where
  integrity :=
    ⟨Nat.zero_le _, fun _ hi => absurd hi (Nat.not_lt_zero _),
      fun _ hi => absurd hi (Nat.not_lt_zero _), fun _ _ h => nomatch h⟩
  records _ _ h := nomatch h
  bound _ _ h := nomatch h
  unlisted _ _ := rfl

section
variable {s s₁ s' : Sched} {id info q : Nat} {ws : List (Nat × Word)}

/-- Where ids are distinct, an entry is the only one of its task. -/
theorem existsUnique_entry (hdistinct : ∀ i < s.queueSize, ∀ j < s.queueSize,
      (s.queue i).taskId = (s.queue j).taskId → i = j)
    (h : ∃ i, i < s.queueSize ∧ (s.queue i).taskId = id) :
    ∃! i, i < s.queueSize ∧ (s.queue i).taskId = id := by
  obtain ⟨i, hi, hid⟩ := h
  refine ⟨i, ⟨hi, hid⟩, fun j hj => ?_⟩
  exact hdistinct j hj.1 i hi (hj.2.trans hid.symm)

theorem QueueInv.kept (h : QueueInv s) (hk : RecordsKept s s') : QueueInv s' := by
  refine ⟨⟨?_, ?_, ?_, ?_⟩, ?_, ?_, hk.unlisted⟩
  · rw [hk.queueSize]
    exact h.integrity.size
  · rw [hk.queueSize, hk.queue]
    exact h.integrity.distinct
  · rw [hk.queueSize, hk.queue, hk.taskMap]
    intro i hi
    obtain ⟨hmap, r, hr⟩ := h.integrity.live i hi
    obtain ⟨r', hr', -⟩ := hk.record _ r hr
    exact ⟨hmap, r', hr'⟩
  · rw [hk.queueSize, hk.queue, hk.taskMap]
    exact h.integrity.mapped
  · rw [hk.taskMap]
    intro id p hp
    obtain ⟨r, hr, hid⟩ := h.records id p hp
    obtain ⟨r', hr', hid'⟩ := hk.record p r hr
    exact ⟨r', hr', hid'.trans hid⟩
  · rw [hk.taskMap]
    intro id p hp
    exact (h.bound id p hp).trans_le hk.nextId

/-- **A task is added**, and its entry behind the others. -/
theorem QueueInv.added (h : QueueInv s) (ha : RecordAdded s s₁ id info)
    (hpush : s₁.pushQueue ⟨id, info⟩ = some s') : QueueInv s' ∧ s.queueSize < s'.queueSize ∧
      ∀ p r, s.info? p = some r → ∃ r', s'.info? p = some r' ∧ r'.id = r.id := by
  unfold Sched.pushQueue at hpush
  split_ifs at hpush with hroom
  obtain rfl := Option.some.inj hpush
  have hsize : s₁.queueSize = s.queueSize := ha.queueSize
  have hlast : ∀ e, Function.update s₁.queue s₁.queueSize e s.queueSize = e := by
    intro e
    rw [hsize, Function.update_self]
  have hold : ∀ i < s.queueSize, ∀ e, Function.update s₁.queue s₁.queueSize e i = s.queue i := by
    intro i hi e
    rw [hsize, Function.update_of_ne (Nat.ne_of_lt hi), ha.queue]
  -- the id is new
  have hfresh : ∀ p, s.taskMap.search id ≠ some p := by
    intro p hp
    have := h.bound id p hp
    rw [ha.id_eq] at this
    omega
  have hentry : ∀ i < s.queueSize, (s.queue i).taskId ≠ id := by
    intro i hi heq
    exact hfresh _ (heq ▸ (h.integrity.live i hi).1)
  have hsearch : ∀ id', s₁.taskMap.search id' =
      if id = id' then some info else s.taskMap.search id' := by
    intro id'
    rw [ha.taskMap, AvlMap.search_insert_ptr]
  have hdistinct : ∀ i < s₁.queueSize + 1, ∀ j < s₁.queueSize + 1,
      (Function.update s₁.queue s₁.queueSize ⟨id, info⟩ i).taskId =
        (Function.update s₁.queue s₁.queueSize ⟨id, info⟩ j).taskId → i = j := by
    intro i hi j hj heq
    rcases Nat.lt_or_ge i s.queueSize with hi' | hi'
    · rw [hold i hi'] at heq
      rcases Nat.lt_or_ge j s.queueSize with hj' | hj'
      · rw [hold j hj'] at heq
        exact h.integrity.distinct i hi' j hj' heq
      · obtain rfl : j = s.queueSize := by omega
        rw [hlast] at heq
        exact absurd heq (hentry i hi')
    · obtain rfl : i = s.queueSize := by omega
      rw [hlast] at heq
      rcases Nat.lt_or_ge j s.queueSize with hj' | hj'
      · rw [hold j hj'] at heq
        exact absurd heq.symm (hentry j hj')
      · omega
  refine ⟨⟨⟨Nat.succ_le_of_lt hroom, hdistinct, ?_, ?_⟩, ?_, ?_, ha.unlisted.of_heap rfl⟩,
    hsize ▸ Nat.lt_succ_self _, ha.record⟩
  · intro i hi
    rcases Nat.lt_or_ge i s.queueSize with hi' | hi'
    · obtain ⟨hmap, r, hr⟩ := h.integrity.live i hi'
      obtain ⟨r', hr', -⟩ := ha.record _ r hr
      simp only [hold i hi']
      exact ⟨by rw [hsearch, if_neg (hentry i hi').symm, hmap], r', hr'⟩
    · obtain rfl : i = s.queueSize := by
        change i < s₁.queueSize + 1 at hi
        omega
      obtain ⟨r, hr, -⟩ := ha.added
      simp only [hlast]
      exact ⟨by rw [hsearch, if_pos rfl], r, hr⟩
  · intro id' p hp
    refine existsUnique_entry hdistinct ?_
    change s₁.taskMap.search id' = some p at hp
    rw [hsearch] at hp
    by_cases hid : id = id'
    · exact ⟨s.queueSize, by change _ < s₁.queueSize + 1; omega, by simp only [hlast]; exact hid⟩
    · rw [if_neg hid] at hp
      obtain ⟨i, ⟨hi, heq⟩, -⟩ := h.integrity.mapped id' p hp
      refine ⟨i, ?_, ?_⟩
      · change i < s₁.queueSize + 1
        omega
      · simp only [hold i hi]
        exact heq
  · intro id' p hp
    change s₁.taskMap.search id' = some p at hp
    rw [hsearch] at hp
    split_ifs at hp with hid
    · obtain rfl := Option.some.inj hp
      obtain ⟨r, hr, hrid⟩ := ha.added
      exact ⟨r, hr, hrid.trans hid⟩
    · obtain ⟨r, hr, hrid⟩ := h.records id' p hp
      obtain ⟨r', hr', hrid'⟩ := ha.record p r hr
      exact ⟨r', hr', hrid'.trans hrid⟩
  · intro id' p hp
    change s₁.taskMap.search id' = some p at hp
    change id' < s₁.mman.nextId
    have hnext := ha.nextId
    rw [hsearch] at hp
    split_ifs at hp with hid
    · rw [← hid, ha.id_eq]
      exact hnext
    · exact (h.bound id' p hp).trans hnext

/-- The entry of a task is found, and the last one comes into its place. -/
theorem removeFromQueue_eq (h : QueueIntegrity s) (hq : q < s.queueSize)
    (hmap : s₁.queue = s.queue) (hsize : s₁.queueSize = s.queueSize) :
    removeFromQueue s₁ (s.queue q).taskId = { s₁ with
      queue := Function.update s.queue q (s.queue (s.queueSize - 1))
      queueSize := s.queueSize - 1 } := by
  have hfind : (List.range s₁.queueSize).find? (fun i =>
      decide ((s₁.queue i).taskId = (s.queue q).taskId)) = some q := by
    rw [hmap, hsize]
    refine List.find?_range_eq_some.mpr ⟨decide_eq_true rfl, List.mem_range.mpr hq, ?_⟩
    intro j hj
    simp only [Bool.not_eq_eq_eq_not, Bool.not_true, decide_eq_false_iff_not]
    intro heq
    have := h.distinct j (by omega) q hq heq
    omega
  rw [removeFromQueue, hfind]
  simp only [hmap, hsize]

/-- **A task ends**: its entry, its id and its record go, and nothing else does. -/
theorem QueueInv.removed (h : QueueInv s) (hq : q < s.queueSize)
    (hfree : (removeFromQueue { s with taskMap := (s.taskMap.remove (s.queue q).taskId).1 }
      (s.queue q).taskId).free (s.queue q).info = some s') :
    QueueInv s' ∧ s'.queueSize = s.queueSize - 1 ∧
      ∀ p r, s.info? p = some r → p ≠ (s.queue q).info → s'.info? p = some r := by
  have hremove : removeFromQueue { s with taskMap := (s.taskMap.remove (s.queue q).taskId).1 }
      (s.queue q).taskId = _ := removeFromQueue_eq h.integrity hq rfl rfl
  rw [hremove] at hfree
  obtain ⟨heap, rfl, hheap⟩ := Sched.free_cases hfree
  change s.heap.free (s.queue q).info = some heap at hheap
  obtain ⟨hlive, rq, hrq⟩ := h.integrity.live q hq
  have hcells : heap.cells = Function.update s.heap.cells (s.queue q).info none := by
    rcases Heap.free_cases hheap with ⟨hzero, -⟩ | ⟨-, hcells, -⟩
    · exact absurd hzero (Heap.ne_zero_of_cells (Sched.info?_eq_some.mp hrq))
    · exact hcells
  generalize hs' : ({ s with
      heap := heap
      taskMap := (s.taskMap.remove (s.queue q).taskId).1
      queue := Function.update s.queue q (s.queue (s.queueSize - 1))
      queueSize := s.queueSize - 1 } : Sched) = s'
  have hinfo : ∀ p r, s.info? p = some r → p ≠ (s.queue q).info → s'.info? p = some r := by
    intro p r hr hne
    rw [← hr]
    apply Sched.info?_congr
    rw [← hs']
    change heap.cells p = _
    rw [hcells, Function.update_of_ne hne]
  have hsearch : ∀ id p, s'.taskMap.search id = some p ↔
      id ≠ (s.queue q).taskId ∧ s.taskMap.search id = some p := by
    intro id p
    rw [← hs']
    change (s.taskMap.remove _).1.search id = some p ↔ _
    rw [AvlMap.search_remove_ptr]
    split_ifs with hid
    · exact iff_of_false (fun h => nomatch h) fun h => h.1 hid.symm
    · exact (and_iff_right fun heq => hid heq.symm).symm
  have hsize : s'.queueSize = s.queueSize - 1 := by rw [← hs']
  -- the entry at a place is that of `s` at some other place
  have hplace : ∀ i < s.queueSize - 1, ∃ j < s.queueSize, j ≠ q ∧ s'.queue i = s.queue j ∧
      j = if i = q then s.queueSize - 1 else i := by
    intro i hi
    rw [← hs']
    by_cases hiq : i = q
    · subst hiq
      exact ⟨s.queueSize - 1, by omega, by omega, Function.update_self .., by rw [if_pos rfl]⟩
    · exact ⟨i, by omega, hiq, Function.update_of_ne hiq .., by rw [if_neg hiq]⟩
  have hrecord : ∀ id p, id ≠ (s.queue q).taskId → s.taskMap.search id = some p →
      ∃ r, s'.info? p = some r ∧ r.id = id := by
    intro id p hne hp
    obtain ⟨r, hr, hid⟩ := h.records id p hp
    refine ⟨r, hinfo p r hr ?_, hid⟩
    rintro rfl
    obtain ⟨r', hr', hid'⟩ := h.records _ _ hlive
    rw [hr] at hr'
    obtain rfl := Option.some.inj hr'
    exact hne (hid.symm.trans hid')
  have hdistinct : ∀ i < s'.queueSize, ∀ j < s'.queueSize,
      (s'.queue i).taskId = (s'.queue j).taskId → i = j := by
    rw [hsize]
    intro i hi j hj heq
    obtain ⟨i', hi', -, hqi, hi''⟩ := hplace i hi
    obtain ⟨j', hj', -, hqj, hj''⟩ := hplace j hj
    rw [hqi, hqj] at heq
    have := h.integrity.distinct i' hi' j' hj' heq
    split_ifs at hi'' hj'' <;> omega
  refine ⟨⟨⟨?_, hdistinct, ?_, ?_⟩, ?_, ?_, ?_⟩, hsize, hinfo⟩
  · rw [hsize]
    exact (Nat.sub_le _ _).trans h.integrity.size
  · rw [hsize]
    intro i hi
    obtain ⟨j, hj, hne, hqj, -⟩ := hplace i hi
    rw [hqj]
    have hid : (s.queue j).taskId ≠ (s.queue q).taskId :=
      fun heq => hne (h.integrity.distinct j hj q hq heq)
    obtain ⟨hmap, -⟩ := h.integrity.live j hj
    obtain ⟨r, hr, -⟩ := hrecord _ _ hid hmap
    exact ⟨(hsearch _ _).mpr ⟨hid, hmap⟩, r, hr⟩
  · intro id p hp
    obtain ⟨hne, hp⟩ := (hsearch id p).mp hp
    refine existsUnique_entry hdistinct ?_
    obtain ⟨i, ⟨hi, hid⟩, -⟩ := h.integrity.mapped id p hp
    have hiq : i ≠ q := by
      rintro rfl
      exact hne hid.symm
    rw [hsize]
    -- the last entry has gone to `q`
    by_cases hlast : i = s.queueSize - 1
    · refine ⟨q, by omega, ?_⟩
      rw [← hs', ← hid, hlast]
      exact congrArg QueueEntry.taskId (Function.update_self ..)
    · refine ⟨i, by omega, ?_⟩
      rw [← hs', ← hid]
      exact congrArg QueueEntry.taskId (Function.update_of_ne hiq ..)
  · intro id p hp
    obtain ⟨hne, hp⟩ := (hsearch id p).mp hp
    exact hrecord id p hne hp
  · intro id p hp
    obtain ⟨-, hp⟩ := (hsearch id p).mp hp
    rw [← hs']
    exact h.bound id p hp
  · have hback : ∀ p b, s'.heap.cells p = some b → s.heap.cells p = some b := by
      rw [← hs']
      exact fun p b hb => Heap.cells_of_free hheap hb
    intro p hp
    have hnone := h.unlisted p (hp.mono
      (fun _ _ ho => Sched.object?_eq_some.mpr (hback _ _ (Sched.object?_eq_some.mp ho)))
      fun _ _ hw => Sched.wait?_eq_some.mpr (hback _ _ (Sched.wait?_eq_some.mp hw)))
    cases hi : s'.info? p with
    | none => rfl
    | some i =>
      rw [Sched.info?_eq_some.mpr (hback _ _ (Sched.info?_eq_some.mp hi))] at hnone
      cases hnone

/-- A task that reaps itself, while its entry is not the last one. -/
theorem QueueInv.reap {task : Word} (h : QueueInv s) (hq : q + 1 < s.queueSize)
    (hself : taskArg s q task = (s.queue q).taskId)
    (heffect : effect s q (.reap task) = some (s', ws)) :
    QueueInv s' ∧ q < s'.queueSize ∧ ∀ p r, s.info? p = some r → p ≠ (s.queue q).info →
      ∃ r', s'.info? p = some r' ∧ r'.id = r.id := by
  simp only [effect, Option.bind_eq_bind, Option.bind_eq_some_iff] at heffect
  obtain ⟨⟨s₁, info⟩, hreap, s₂, hfree, heq⟩ := heffect
  cases heq
  change schedTaskReap s (taskArg s q task) = some (s₁, info) at hreap
  change (removeFromQueue s₁ (taskArg s q task)).free _ = _ at hfree
  rw [hself] at hreap hfree
  have hlive := h.integrity.live q (by omega)
  have hknown : s.getInfo (s.queue q).taskId ≠ 0 := by
    obtain ⟨hmap, r, hr⟩ := hlive
    rw [Sched.getInfo, hmap]
    exact Heap.ne_zero_of_cells (Sched.info?_eq_some.mp hr)
  rw [schedTaskReap_eq, if_neg hknown] at hreap
  obtain ⟨s₀, hmemory, heq⟩ := Option.map_eq_some_iff.mp hreap
  obtain ⟨rfl, -⟩ := Prod.mk.inj heq
  have hkept := reapMemory_kept h.unlisted hmemory
  have h₀ := h.kept hkept
  rw [← hkept.queue] at hfree
  obtain ⟨hinv, hsize, hrest⟩ := h₀.removed (q := q) (by rw [hkept.queueSize]; omega) hfree
  refine ⟨hinv, ?_, fun p r hr hne => ?_⟩
  · rw [hsize, hkept.queueSize]
    omega
  · obtain ⟨r', hr', hid⟩ := hkept.record p r hr
    rw [← hkept.queue] at hne
    exact ⟨r', hrest p r' hr' hne, hid⟩

/-- Under the condition a spawn writes into the array. -/
theorem QueueInv.spawn_inside {root : Word} (h : QueueInv s)
    (hwell : QueuesWell s q (.spawn root)) : writesBehind s q (.spawn root) = false := by
  obtain ⟨hknown, hroom, hfresh⟩ := hwell
  simp only [writesBehind]
  cases hroot : rootArg s q root with
  | none => rfl
  | some rootId =>
    rw [Option.bind_some]
    cases hcreate : schedTaskCreate (s.alloc (.info none)).1 rootId s.heap.fresh with
    | none => rfl
    | some p =>
      have hsize := (schedTaskCreate_added h.unlisted hfresh (hknown rootId hroot) hcreate).queueSize
      rw [Option.any_some, decide_eq_false_iff_not]
      omega

theorem QueueInv.spawn {root : Word} (h : QueueInv s) (hwell : QueuesWell s q (.spawn root))
    (heffect : effect s q (.spawn root) = some (s', ws)) :
    QueueInv s' ∧ s.queueSize < s'.queueSize ∧
      ∀ p r, s.info? p = some r → ∃ r', s'.info? p = some r' ∧ r'.id = r.id := by
  obtain ⟨hknown, -, hfresh⟩ := hwell
  simp only [effect, Option.bind_eq_bind, Option.bind_eq_some_iff] at heffect
  obtain ⟨rootId, hroot, ⟨s₁, id⟩, hcreate, s₂, hpush, heq⟩ := heffect
  cases heq
  exact h.added (schedTaskCreate_added h.unlisted hfresh (hknown rootId hroot) hcreate) hpush

end

/-! ## Runs -/

/-- The invariant of the loop. -/
structure ListeningInv (L : Listening) : Prop where
  queue : QueueInv L.sched
  inside : L.overflowed = false
  current : ∀ q, L.current = some q → q < L.sched.queueSize

section
variable {L L' : Listening} {op : QueueOp}

theorem ListeningInv.safe (h : ListeningInv L) : QueueSafe L where
  integrity := h.queue.integrity
  inside := h.inside
  current q hq := (h.queue.integrity.live q (h.current q hq)).2

/-- Where the queue has not become shorter than the place that is held. -/
theorem ListeningInv.withSched {s : Sched} (h : ListeningInv L) (hs : QueueInv s)
    (hsize : ∀ q, L.current = some q → q < s.queueSize) : ListeningInv (L.withSched s) :=
  ⟨hs, h.inside, hsize⟩

/-- What keeps the records goes on well. -/
theorem ListeningInv.kept {s : Sched} (h : ListeningInv L) (hk : RecordsKept L.sched s) :
    ListeningInv (L.withSched s) ∧ FreesOwn L op (L.withSched s) := by
  refine ⟨h.withSched (h.queue.kept hk) fun q hq => ?_, fun p r hr => .inl (hk.record p r hr)⟩
  rw [hk.queueSize]
  exact h.current q hq

/-- **A request** under the condition. -/
theorem ListeningInv.request {q : Nat} {l : Locals} {s : Sched} {ws : List (Nat × Word)}
    (h : ListeningInv L) (hq : L.current = some q) (hwell : QueuesWell L.sched q l.request)
    (heffect : effect L.sched q l.request = some (s, ws)) :
    ListeningInv (L.withSched s) ∧ FreesOwn L (.request l) (L.withSched s) := by
  have hlt := h.current q hq
  have hheld : ∀ q', L.current = some q' → q' = q := fun q' hq' =>
    Option.some.inj (hq'.symm.trans hq)
  have hkeeps : l.request.KeepsTasks →
      ListeningInv (L.withSched s) ∧ FreesOwn L (.request l) (L.withSched s) :=
    fun hr => h.kept (effect_kept h.queue.unlisted hr heffect)
  cases hr : l.request with
  | spawn root =>
    rw [hr] at hwell heffect
    obtain ⟨hinv, hsize, hrecord⟩ := h.queue.spawn hwell heffect
    refine ⟨h.withSched hinv fun q' hq' => ?_, fun p r hp => .inl (hrecord p r hp)⟩
    rw [hheld q' hq']
    omega
  | reap task =>
    rw [hr] at hwell heffect
    obtain ⟨hself, hlast⟩ := hwell
    obtain ⟨hinv, hsize, hrecord⟩ := h.queue.reap hlast hself heffect
    refine ⟨h.withSched hinv fun q' hq' => ?_, fun p r hp => ?_⟩
    · rw [hheld q' hq']
      exact hsize
    · by_cases hown : p = (L.sched.queue q).info
      · exact .inr ⟨q, l, task, rfl, hq, hr, hself, hown⟩
      · exact .inl (hrecord p r hp hown)
  | _ => exact hkeeps (by rw [hr]; trivial)

/-- **One step** under the condition. -/
theorem ListeningInv.step {u : Unit} (h : ListeningInv L) (hwell : StepsWell L op)
    (hstep : queueStep L op = some (L', u)) : ListeningInv L' ∧ FreesOwn L op L' := by
  unfold queueStep at hstep
  rw [h.inside] at hstep
  simp only [Bool.false_eq_true, if_false] at hstep
  cases op with
  | attach ts =>
    simp only [] at hstep
    split_ifs at hstep with hcall
    obtain ⟨s, hlisten, heq⟩ := Option.map_eq_some_iff.mp hstep
    obtain ⟨rfl, -⟩ := Prod.mk.inj heq
    simp only [listenStep, Option.bind_eq_bind, Option.bind_eq_some_iff] at hlisten
    obtain ⟨⟨s₁, id⟩, hattach, hpush⟩ := hlisten
    obtain ⟨hinv, -, hrecord⟩ := h.queue.added
      (schedTaskAttach_added h.queue.unlisted hwell hattach) hpush
    refine ⟨h.withSched hinv fun q hq => ?_, fun p r hp => .inl (hrecord p r hp)⟩
    rw [hcall] at hq
    cases hq
  | call q =>
    simp only [] at hstep
    split_ifs at hstep with hcall
    obtain ⟨rfl, -⟩ := Prod.mk.inj (Option.some.inj hstep)
    refine ⟨⟨h.queue, rfl, fun q' hq' => ?_⟩, fun p r hp => .inl ⟨r, hp, rfl⟩⟩
    obtain rfl := Option.some.inj hq'
    exact hcall.2
  | request l =>
    obtain ⟨q, hq, hstep⟩ := Option.bind_eq_some_iff.mp hstep
    have hgood := hwell q hq
    have hinside : writesBehind L.sched q l.request = false := by
      cases hr : l.request with
      | spawn root =>
        rw [hr] at hgood
        exact h.queue.spawn_inside hgood
      | _ => rfl
    rw [hinside] at hstep
    simp only [Bool.false_eq_true, if_false] at hstep
    obtain ⟨s, hlisten, heq⟩ := Option.map_eq_some_iff.mp hstep
    obtain ⟨rfl, -⟩ := Prod.mk.inj heq
    obtain ⟨⟨s₁, l'⟩, hhandle, rfl⟩ := Option.map_eq_some_iff.mp hlisten
    obtain ⟨ws, heffect⟩ := effect_of_handle hhandle
    exact h.request hq hgood heffect
  | finish =>
    obtain ⟨rfl, -⟩ := Prod.mk.inj (Option.some.inj hstep)
    refine ⟨⟨h.queue, rfl, fun q' hq' => ?_⟩, fun p r hp => .inl ⟨r, hp, rfl⟩⟩
    cases hq'
  | clients channels phys =>
    obtain ⟨s, hlisten, heq⟩ := Option.map_eq_some_iff.mp hstep
    obtain ⟨rfl, -⟩ := Prod.mk.inj heq
    obtain rfl := Option.some.inj hlisten
    exact h.kept (.of_same h.queue.unlisted rfl rfl rfl rfl le_rfl)

/-- **Queue integrity**, in every state of a run whose requests all meet the condition. -/
theorem queue_integrity {s₀ : Sched} {tr : List (QueueOp × Unit)} (h₀ : QueueInv s₀)
    (hrun : RunIf queueStep StepsWell ⟨s₀, none, false⟩ tr L) :
    QueueSafe L ∧
      Along queueStep ⟨s₀, none, false⟩ (fun L op _ L' => QueueSafe L' ∧ FreesOwn L op L') tr := by
  have hstart : ListeningInv ⟨s₀, none, false⟩ := ⟨h₀, rfl, fun _ h => nomatch h⟩
  obtain ⟨hiff, hinv⟩ := Along.iff_and_invariant ListeningInv hstart
    (P := fun L op _ L' => QueueSafe L' ∧ FreesOwn L op L') (Q := fun _ _ _ _ => True)
    (fun L op L' u h hwell hstep => by
      obtain ⟨hinv, hfrees⟩ := h.step hwell hstep
      exact ⟨iff_of_true ⟨hinv.safe, hfrees⟩ trivial, fun _ => hinv⟩) hrun
  have htrue : Along queueStep ⟨s₀, none, false⟩ (fun _ _ _ _ => True) tr :=
    fun _ _ _ _ _ _ _ _ _ => trivial
  exact ⟨(hinv htrue).safe, hiff.mpr htrue⟩

end

/-- A scheduler with two tasks. -/
def twoClients : Sched :=
  let (s, info) := oneClient.alloc (.info (some ⟨8, 3, 0x1000, 0, 0, 0⟩))
  { s with
    taskMap := (s.taskMap.insert 8 info).1
    queue := Function.update s.queue 1 ⟨8, info⟩
    queueSize := 2 }

theorem twoClients_search (id : Nat) : twoClients.taskMap.search id =
    if 8 = id then some 2 else if 7 = id then some 1 else none := by
  have hmap : twoClients.taskMap =
      (((AvlMap.empty.insert 7 1).1).insert 8 2 : AvlMap Nat Nat avlPtrcmp × Option Nat).1 := rfl
  rw [hmap, AvlMap.search_insert_ptr, AvlMap.search_insert_ptr, AvlMap.search_empty]

theorem twoClients_cells : twoClients.heap.cells = Function.update (Function.update (fun _ => none) 1
    (some (.info (some ⟨7, 2, 0x1000, 0, 0, 0⟩)))) 2
      (some (.info (some ⟨8, 3, 0x1000, 0, 0, 0⟩))) := rfl

theorem queueInv_twoClients : QueueInv twoClients := by
  have hsize : twoClients.queueSize = 2 := rfl
  have hcases : ∀ i < twoClients.queueSize, i = 0 ∨ i = 1 := by
    intro i hi
    rw [hsize] at hi
    omega
  have hqueue : (twoClients.queue 0).taskId = 7 ∧ (twoClients.queue 1).taskId = 8 := ⟨rfl, rfl⟩
  have hrecord : ∀ id p, twoClients.taskMap.search id = some p →
      (id = 8 ∧ p = 2) ∨ id = 7 ∧ p = 1 := by
    intro id p hp
    rw [twoClients_search] at hp
    split_ifs at hp with h₈ h₇
    · exact .inl ⟨h₈.symm, (Option.some.inj hp).symm⟩
    · exact .inr ⟨h₇.symm, (Option.some.inj hp).symm⟩
  have hdistinct : ∀ i < twoClients.queueSize, ∀ j < twoClients.queueSize,
      (twoClients.queue i).taskId = (twoClients.queue j).taskId → i = j := by
    intro i hi j hj heq
    rcases hcases i hi with rfl | rfl <;> rcases hcases j hj with rfl | rfl
    · rfl
    · rw [hqueue.1, hqueue.2] at heq
      cases heq
    · rw [hqueue.1, hqueue.2] at heq
      cases heq
    · rfl
  refine ⟨⟨by decide, hdistinct, ?_, ?_⟩, ?_, ?_, ?_⟩
  · intro i hi
    rcases hcases i hi with rfl | rfl
    · exact ⟨twoClients_search 7, _, rfl⟩
    · exact ⟨twoClients_search 8, _, rfl⟩
  · intro id p hp
    refine existsUnique_entry hdistinct ?_
    rcases hrecord id p hp with ⟨rfl, -⟩ | ⟨rfl, -⟩
    · exact ⟨1, by decide, rfl⟩
    · exact ⟨0, by decide, rfl⟩
  · intro id p hp
    rcases hrecord id p hp with ⟨rfl, rfl⟩ | ⟨rfl, rfl⟩
    · exact ⟨_, rfl, rfl⟩
    · exact ⟨_, rfl, rfl⟩
  · intro id p hp
    rcases hrecord id p hp with ⟨rfl, -⟩ | ⟨rfl, -⟩
    · decide
    · decide
  · have hblock : ∀ q b, twoClients.heap.cells q = some b → ∃ r, b = .info r := by
      intro q b hb
      rw [twoClients_cells] at hb
      by_cases h₂ : q = 2
      · rw [h₂, Function.update_self] at hb
        exact ⟨_, (Option.some.inj hb).symm⟩
      · rw [Function.update_of_ne h₂] at hb
        by_cases h₁ : q = 1
        · rw [h₁, Function.update_self] at hb
          exact ⟨_, (Option.some.inj hb).symm⟩
        · rw [Function.update_of_ne h₁] at hb
          cases hb
    intro p hp
    cases hp with
    | next wait =>
      obtain ⟨r, hr⟩ := hblock _ _ (Sched.wait?_eq_some.mp wait)
      cases hr
    | head object =>
      obtain ⟨r, hr⟩ := hblock _ _ (Sched.object?_eq_some.mp object)
      cases hr

/-- The first task reaps itself, and the call goes on with the second one's entry. -/
theorem queue_integrity_of_two : ∃ tr L, Run queueStep ⟨twoClients, none, false⟩ tr L ∧
    QueueSafe L ∧ L.current = some 0 ∧ (L.sched.queue 0).taskId = 8 ∧ L.sched.queueSize = 1 := by
  have hexec : (queueStep ⟨twoClients, some 0, false⟩
      (.request ((leftover 0 0).receive [11]))).map
      (fun p => (p.1.current, (p.1.sched.queue 0).taskId, p.1.sched.queueSize)) =
        some (some 0, 8, 1) := by decide
  obtain ⟨⟨L, u⟩, hstep, heq⟩ := Option.map_eq_some_iff.mp hexec
  have hcall : queueStep ⟨twoClients, none, false⟩ (.call 0) =
      some (⟨twoClients, some 0, false⟩, ()) := rfl
  have hstart : RunIf queueStep StepsWell ⟨twoClients, none, false⟩ [] ⟨twoClients, none, false⟩ :=
    .start
  have hcallWell : StepsWell ⟨twoClients, none, false⟩ (.call 0) := trivial
  have hreapWell : StepsWell ⟨twoClients, some 0, false⟩
      (.request ((leftover 0 0).receive [11])) := by
    intro q hq
    obtain rfl : 0 = q := Option.some.inj hq
    have hreap : ((leftover 0 0).receive [11]).request = .reap 0 := by decide
    rw [hreap]
    exact ⟨rfl, by decide⟩
  have hrun := (hstart.snoc hcallWell hcall).snoc hreapWell hstep
  obtain ⟨hcurrent, hqueue, hsize⟩ : L.current = some 0 ∧ (L.sched.queue 0).taskId = 8 ∧
      L.sched.queueSize = 1 := by
    simpa only [Prod.mk.injEq] using heq
  exact ⟨_, L, hrun.toRun, (queue_integrity queueInv_twoClients hrun).1, hcurrent, hqueue, hsize⟩

/-- `SCHED_REAP` of task 8. -/
def reapEight : List Byte := 11 :: List.replicate 15 0 ++ 8 :: List.replicate 7 0

/-- The first task reaps the second one: what is freed is its own record, which is still in the map
    and in the queue, and which the reply goes through. -/
theorem reap_frees_own_record : ∃ tr L, Run queueStep ⟨twoClients, none, false⟩ tr L ∧
    L.current = some 0 ∧ L.sched.queueSize = 1 ∧ L.sched.queue 0 = ⟨7, 1⟩ ∧
    L.sched.taskMap.search 7 = some 1 ∧ L.sched.entryInfo 0 = none ∧ ¬ QueueSafe L := by
  have hexec : (exec queueStep (fun _ _ => True) ⟨twoClients, none, false⟩
      [.call 0, .request ((leftover 0 0).receive reapEight)]).map
      (fun p => (p.2.current, p.2.sched.queueSize, p.2.sched.queue 0, p.2.sched.taskMap.search 7,
        p.2.sched.entryInfo 0)) = some (some 0, 1, ⟨7, 1⟩, some 1, none) := by decide
  obtain ⟨⟨tr, L⟩, hexec, heq⟩ := Option.map_eq_some_iff.mp hexec
  obtain ⟨hcurrent, hsize, hqueue, hmap, hinfo⟩ : L.current = some 0 ∧ L.sched.queueSize = 1 ∧
      L.sched.queue 0 = ⟨7, 1⟩ ∧ L.sched.taskMap.search 7 = some 1 ∧
      L.sched.entryInfo 0 = none := by
    simpa only [Prod.mk.injEq] using heq
  refine ⟨tr, L, RunIf.of_exec _ _ _ _ hexec, hcurrent, hsize, hqueue, hmap, hinfo, fun hsafe => ?_⟩
  obtain ⟨r, hr⟩ := hsafe.current 0 hcurrent
  rw [hinfo] at hr
  cases hr

end Refk
