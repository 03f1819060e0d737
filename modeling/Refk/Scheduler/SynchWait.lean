import Refk.Lib.Chain
import Refk.Lib.Run
import Refk.Scheduler.Synch

/-!
# Wait and wake on one object

`synch_wait` pushes a record and blocks its task. `synch_wake` walks the list and unblocks, but
it never takes a record off: the object's head stays what it was, and what is freed is the
record *behind* the one whose task was unblocked. So a wake with something to do is never
exact, and the theorem below says that one with nothing to do always is.
-/

namespace Refk

open Lib

/-- `w->next` -/
def Sched.waitNext (s : Sched) (p : Nat) : Nat := ((s.wait? p).map SynchWait.next).getD 0

/-- `ws` are the object's records, in list order. -/
structure Waiting (s : Sched) (object : Nat) (ws : List Nat) : Prop where
  chain : ∃ o, s.object? object = some o ∧ Chain s.waitNext 0 o.head ws
  live : ∀ p ∈ ws, ∃ w, s.wait? p = some w

/-- The task of a record, as its slot. -/
def Sched.waiter (s : Sched) (p : Nat) : Option Nat := do
  let w ← s.wait? p
  let info ← s.taskInfo w.taskId
  return info.state

/-- The task of a record is blocked. -/
def Sleeping (s : Sched) (p : Nat) : Prop := ∃ slot, s.waiter p = some slot ∧ (s.tasks slot).Blocked

/-- The task of a record is not blocked any more. -/
def Awake (s s' : Sched) (p : Nat) : Prop :=
  ∃ slot, s.waiter p = some slot ∧ ¬ (s'.tasks slot).Blocked

/-- A wake takes the records `woken` from the list, which leaves `rest`. -/
structure Woken (s s' : Sched) (object : Nat) (ws woken rest : List Nat) : Prop where
  split : ws.Perm (woken ++ rest)
  listed : Waiting s' object rest
  awake : ∀ p ∈ woken, Awake s s' p
  asleep : ∀ p ∈ rest, Sleeping s' p
  freed : ∀ p, (∃ b, s.heap.cells p = some b) ∧ s'.heap.cells p = none ↔ p ∈ woken

/-- What a wake of `count` has to do with the waiters `ws`: with a word that differs nothing,
    else to wake as many as there are, up to `count`. -/
def WakesExactly (s : Sched) (object : Nat) (value count : Word) (ws : List Nat) : Prop :=
  ∃ s', synchWake s object value count = some s' ∧
    ∀ o, s.object? object = some o →
      if s.mman.phys o.phyAddr = value then
        ∃ woken rest, Woken s s' object ws woken rest ∧ woken.length = min count.toNat ws.length
      else s' = s

/-- The word differs, or nothing is to be woken, or nobody waits. -/
def NothingToWake (s : Sched) (object : Nat) (value count : Word) : Prop :=
  ∀ o, s.object? object = some o → s.mman.phys o.phyAddr = value → count = 0 ∨ o.head = 0

section
variable {s s' : Sched} {object w p q n : Nat} {ws : List Nat} {o : SynchObj} {value count : Word}
  {b : Block}

theorem wakeTurn_frees {w' : Nat} (h : wakeTurn s w = some (s', w')) :
    s'.heap.cells p = some b → s.heap.cells p = some b := by
  simp only [wakeTurn, Option.bind_eq_bind, Option.bind_eq_some_iff, Option.pure_def,
    Option.some.injEq, Prod.mk.injEq] at h
  obtain ⟨wait, -, info, -, s₁, hfree, rfl, -⟩ := h
  obtain ⟨heap, rfl, hheap⟩ := Sched.free_cases hfree
  exact Heap.cells_of_free hheap

/-- The loop changes the heap by freeing only. -/
theorem wakeLoop_frees (h : wakeLoop n s w = some s') :
    s'.heap.cells p = some b → s.heap.cells p = some b := by
  induction n generalizing s w with
  | zero =>
    obtain rfl : s = s' := Option.some.inj h
    exact id
  | succ n ih =>
    rw [wakeLoop] at h
    split_ifs at h with hw
    · obtain rfl : s = s' := Option.some.inj h
      exact id
    · simp only [Option.bind_eq_bind, Option.bind_eq_some_iff, Prod.exists] at h
      obtain ⟨s₁, w₁, hturn, hloop⟩ := h
      exact fun hp => wakeTurn_frees hturn (ih hloop hp)

/-- A record that is still live is as it was. -/
theorem waitNext_of_frees (hfrees : ∀ p b, s'.heap.cells p = some b → s.heap.cells p = some b)
    {wait : SynchWait} (hp : s'.wait? p = some wait) : s.waitNext p = s'.waitNext p := by
  have hp' := Sched.wait?_eq_some.mpr (hfrees p _ (Sched.wait?_eq_some.mp hp))
  rw [Sched.waitNext, Sched.waitNext, hp, hp']

/-- **A wake that only frees leaves the list as long as it was**: the head of the object is
    never moved. -/
theorem woken_eq_nil {woken rest : List Nat}
    (hfrees : ∀ p b, s'.heap.cells p = some b → s.heap.cells p = some b)
    (hws : Waiting s object ws) (h : Woken s s' object ws woken rest) : woken = [] := by
  obtain ⟨o, ho, hchain⟩ := hws.chain
  obtain ⟨o', ho', hchain'⟩ := h.listed.chain
  have hsame := Sched.object?_eq_some.mpr (hfrees object _ (Sched.object?_eq_some.mp ho'))
  obtain rfl : o = o' := Option.some.inj (ho.symm.trans hsame)
  have hrest : Chain s.waitNext 0 o.head rest := hchain'.congr fun p hp => by
    obtain ⟨wait, hwait⟩ := h.listed.live p hp
    exact waitNext_of_frees hfrees hwait
  have hlen := h.split.length_eq
  rw [hchain.unique hrest, List.length_append] at hlen
  exact List.length_eq_zero_iff.mp (by omega)

theorem synchWake_frees (h : synchWake s object value count = some s') :
    s'.heap.cells p = some b → s.heap.cells p = some b := by
  simp only [synchWake, Option.bind_eq_bind, Option.bind_eq_some_iff] at h
  obtain ⟨o, -, h⟩ := h
  split_ifs at h
  · exact wakeLoop_frees h
  · obtain rfl : s = s' := Option.some.inj h
    exact id

/-- A wake with nothing to do does nothing. -/
theorem synchWake_idle (ho : s.object? object = some o)
    (h : NothingToWake s object value count) : synchWake s object value count = some s := by
  simp only [synchWake, ho, Option.bind_eq_bind, Option.bind_some]
  split_ifs with hword
  · rcases h o ho hword with rfl | hhead
    · rfl
    · rw [hhead]
      cases count.toNat with
      | zero => rfl
      | succ n => rw [wakeLoop, if_pos rfl]
  · rfl

/-- **One wake** is exact if and only if it has nothing to do. -/
theorem wakesExactly_iff (hws : Waiting s object ws) (hasleep : ∀ p ∈ ws, Sleeping s p) :
    WakesExactly s object value count ws ↔ NothingToWake s object value count := by
  obtain ⟨o, ho, hchain⟩ := hws.chain
  constructor
  · rintro ⟨s', hwake, hexact⟩ o' ho' hword
    obtain rfl : o = o' := Option.some.inj (ho.symm.trans ho')
    have hexact := hexact o ho
    rw [if_pos hword] at hexact
    obtain ⟨woken, rest, hwoken, hlen⟩ := hexact
    rw [woken_eq_nil (fun _ _ => synchWake_frees hwake) hws hwoken, List.length_nil] at hlen
    rcases Nat.min_eq_zero_iff.mp hlen.symm with hcount | hnone
    · exact .inl (BitVec.eq_of_toNat_eq hcount)
    · exact .inr (hchain.eq_nil_iff.mp (List.length_eq_zero_iff.mp hnone))
  · intro hidle
    refine ⟨s, synchWake_idle ho hidle, fun o' ho' => ?_⟩
    obtain rfl : o = o' := Option.some.inj (ho.symm.trans ho')
    split_ifs with hword
    · refine ⟨[], ws, ⟨List.Perm.refl ws, hws, by simp, hasleep, fun p => ?_⟩, ?_⟩
      · constructor
        · rintro ⟨⟨b, hb⟩, hnone⟩
          rw [hb] at hnone
          cases hnone
        · simp
      · rcases hidle o ho hword with rfl | hhead
        · simp
        · rw [hchain.eq_nil_iff.mpr hhead, List.length_nil, Nat.min_zero]
    · rfl

/-! ## Waiting -/

/-- **What `synch_wait` can do**: answer `1`, or push a record for the task and block it. -/
theorem synchWait_cases {taskId : Nat} {r : Int}
    (h : synchWait s taskId object value = some (s', r)) :
    ∃ o, s.object? object = some o ∧
      ((s.mman.phys o.phyAddr ≠ value ∧ s' = s ∧ r = 1) ∨
        s.mman.phys o.phyAddr = value ∧ r = 0 ∧ ∃ (heap : Heap Block) (info : TaskInfo),
          heap.cells = Function.update
            (Function.update s.heap.cells s.heap.fresh (some (.wait ⟨o.head, taskId⟩)))
            object (some (.object { o with head := s.heap.fresh })) ∧
          s.taskInfo taskId = some info ∧
          s' = { s with heap := heap }.modifyState info.state (· ||| taskStateBlocked)) := by
  simp only [synchWait, Option.bind_eq_bind, Option.bind_eq_some_iff] at h
  obtain ⟨o, ho, h⟩ := h
  refine ⟨o, ho, ?_⟩
  split_ifs at h with hword
  · simp only [Option.bind_eq_some_iff, Option.pure_def, Option.some.injEq, Prod.mk.injEq] at h
    obtain ⟨s₁, hput, info, hinfo, rfl, rfl⟩ := h
    obtain ⟨heap, rfl, hheap⟩ := Sched.put_cases hput
    obtain ⟨-, hcells, -⟩ := Heap.put_cases hheap
    refine .inr ⟨hword, rfl, heap, info, hcells, ?_, rfl⟩
    -- the task's record is neither the new one nor the object
    have hcell := Sched.info?_eq_some.mp hinfo
    change heap.cells (s.getInfo taskId) = _ at hcell
    rw [hcells] at hcell
    refine Sched.info?_eq_some.mpr ?_
    by_cases hobj : s.getInfo taskId = object
    · rw [hobj, Function.update_self] at hcell
      cases hcell
    · rw [Function.update_of_ne hobj] at hcell
      by_cases hfresh : s.getInfo taskId = s.heap.fresh
      · rw [hfresh] at hcell
        simp [Sched.alloc] at hcell
      · simpa [Sched.alloc, Heap.cells_alloc_of_ne hfresh] using hcell
  · simp only [Option.pure_def, Option.some.injEq, Prod.mk.injEq] at h
    exact .inl ⟨hword, h.1.symm, h.2.symm⟩

theorem or_and_self (v m : Word) : (v ||| m) &&& m = m := by
  ext i hi
  simp only [BitVec.getElem_and, BitVec.getElem_or]
  cases v[i] <;> cases m[i] <;> rfl

/-- A task's state word after its slot has been blocked. -/
theorem blocked_modifyState {slot slot' : Nat} (h : slot' = slot ∨ (s.tasks slot').Blocked) :
    ((s.modifyState slot (· ||| taskStateBlocked)).tasks slot').Blocked := by
  by_cases heq : slot' = slot
  · rw [heq, TaskState.Blocked, Sched.modifyState_self, or_and_self]
    decide
  · rw [Sched.modifyState_of_slot_ne heq]
    exact h.resolve_left heq

/-- Records and tasks are found as before if the heap keeps everything but one object. -/
theorem waiter_of_kept {slot : Nat} (hobj : s.heap.cells object = some (.object o))
    (hmap : s'.taskMap = s.taskMap)
    (hkeep : ∀ q b, s.heap.cells q = some b → q ≠ object → s'.heap.cells q = some b)
    (h : s.waiter p = some slot) : s'.waiter p = some slot := by
  simp only [Sched.waiter, Option.bind_eq_bind, Option.bind_eq_some_iff, Option.pure_def] at h ⊢
  obtain ⟨w, hw, info, hinfo, hslot⟩ := h
  have hcell := Sched.wait?_eq_some.mp hw
  have hcell' := Sched.info?_eq_some.mp hinfo
  refine ⟨w, ?_, info, ?_, hslot⟩
  · refine Sched.wait?_eq_some.mpr (hkeep p _ hcell ?_)
    rintro rfl
    rw [hobj] at hcell
    cases hcell
  · have hne : s.getInfo w.taskId ≠ object := fun heq => by
      rw [heq, hobj] at hcell'
      cases hcell'
    rw [Sched.taskInfo_congr hmap ((hkeep _ _ hcell' hne).trans hcell'.symm)]
    exact hinfo

/-! ## Histories of one object -/

/-- What happens to an object: tasks wait and wake, and its word is stored to. -/
inductive SynchOp
  | wait (taskId : Nat) (value : Word)
  | wake (value count : Word)
  | store (value : Word)

def synchStep (object : Nat) (s : Sched) : SynchOp → Option (Sched × Int)
  | .wait taskId value => synchWait s taskId object value
  | .wake value count => (synchWake s object value count).map fun s => (s, 0)
  | .store value => do
    let o ← s.object? object
    return ({ s with mman := s.mman.write o.phyAddr value }, 0)

/-- The wakes that find nothing to wake; anything goes for the rest. -/
def WakesNobody (object : Nat) (s : Sched) : SynchOp → Prop
  | .wake value count => NothingToWake s object value count
  | _ => True

/-- The tasks whose wait was answered `0`, latest first. -/
def waitsOf (tr : List (SynchOp × Int)) : List Nat :=
  tr.reverse.filterMap fun
    | (.wait taskId _, 0) => some taskId
    | _ => none

/-- The object's waiters are the tasks `taskIds`, all of them blocked. -/
structure Waiters (s : Sched) (object : Nat) (taskIds ws : List Nat) : Prop where
  waiting : Waiting s object ws
  tasks : ws.map (fun p => (s.wait? p).map SynchWait.taskId) = taskIds.map some
  asleep : ∀ p ∈ ws, Sleeping s p

variable {taskIds : List Nat} {taskId : Nat} {r : Int}

/-- A successful wait puts the task in front. -/
theorem Waiters.wait (h : Waiters s object taskIds ws)
    (hwait : synchWait s taskId object value = some (s', 0)) :
    Waiters s' object (taskId :: taskIds) (s.heap.fresh :: ws) := by
  obtain ⟨o, ho, hcase⟩ := synchWait_cases hwait
  obtain ⟨-, -, hr⟩ | ⟨-, -, heap, info, hcells, hinfo, rfl⟩ := hcase
  · cases hr
  have hobj := Sched.object?_eq_some.mp ho
  obtain ⟨o', ho', hchain⟩ := h.waiting.chain
  obtain rfl : o = o' := Option.some.inj (ho.symm.trans ho')
  have hfresh : s.heap.fresh ≠ object := Heap.fresh_ne hobj
  have hkeep : ∀ q b, s.heap.cells q = some b → q ≠ object → heap.cells q = some b := by
    intro q b hq hne
    rw [hcells, Function.update_of_ne hne, Function.update_of_ne (Heap.fresh_ne hq).symm, hq]
  have hrecord : heap.cells s.heap.fresh = some (.wait ⟨o.head, taskId⟩) := by
    rw [hcells, Function.update_of_ne hfresh, Function.update_self]
  have hnew : ({ s with heap := heap }.modifyState info.state (· ||| taskStateBlocked)).wait?
      s.heap.fresh = some ⟨o.head, taskId⟩ := Sched.wait?_eq_some.mpr hrecord
  have hold : ∀ p ∈ ws, ({ s with heap := heap }.modifyState info.state
      (· ||| taskStateBlocked)).wait? p = s.wait? p := by
    intro p hp
    obtain ⟨w, hw⟩ := h.waiting.live p hp
    have hcell := Sched.wait?_eq_some.mp hw
    have hne : p ≠ object := fun heq => by
      rw [heq, hobj] at hcell
      cases hcell
    rw [hw]
    exact Sched.wait?_eq_some.mpr (hkeep p _ hcell hne)
  refine ⟨⟨⟨{ o with head := s.heap.fresh }, ?_, rfl, s.heap.fresh_ne_zero, ?_⟩, ?_⟩, ?_, ?_⟩
  · refine Sched.object?_eq_some.mpr ?_
    change heap.cells object = _
    rw [hcells, Function.update_self]
  · have hnext : Sched.waitNext _ s.heap.fresh = o.head :=
      congrArg (fun w => (w.map SynchWait.next).getD 0) hnew
    rw [hnext]
    exact hchain.congr fun p hp => congrArg (fun w => (w.map SynchWait.next).getD 0) (hold p hp)
  · intro p hp
    rcases List.mem_cons.mp hp with rfl | hp
    · exact ⟨_, hnew⟩
    · rw [hold p hp]
      exact h.waiting.live p hp
  · rw [List.map_cons, hnew, List.map_cons, ← h.tasks]
    exact congrArg _ (List.map_congr_left fun p hp => by rw [hold p hp])
  · intro p hp
    rcases List.mem_cons.mp hp with rfl | hp
    · refine ⟨info.state, ?_, blocked_modifyState (.inl rfl)⟩
      have hne : s.getInfo taskId ≠ object := fun heq => by
        have hcell := Sched.info?_eq_some.mp hinfo
        rw [heq, hobj] at hcell
        cases hcell
      have hinfo' : ({ s with heap := heap }.modifyState info.state
          (· ||| taskStateBlocked)).taskInfo taskId = some info := by
        rw [← hinfo]
        have hcell := Sched.info?_eq_some.mp hinfo
        exact Sched.taskInfo_congr (s := s) rfl ((hkeep _ _ hcell hne).trans hcell.symm)
      simp only [Sched.waiter, hnew, hinfo', Option.bind_eq_bind, Option.bind_some, Option.pure_def]
    · obtain ⟨slot, hslot, hblocked⟩ := h.asleep p hp
      exact ⟨slot, waiter_of_kept hobj rfl hkeep hslot, blocked_modifyState (.inr hblocked)⟩

/-- The waiters of an object that has just been made are the tasks whose wait succeeded. -/
theorem waiters_of_run {s₀ : Sched} {phy : Word} {tr : List (SynchOp × Int)}
    (h₀ : s₀.object? object = some ⟨phy, 0⟩)
    (h : RunIf (synchStep object) (WakesNobody object) s₀ tr s) :
    ∃ ws, Waiters s object (waitsOf tr) ws := by
  refine h.invariant (fun tr s => ∃ ws, Waiters s object (waitsOf tr) ws)
    ⟨[], ⟨⟨_, h₀, rfl⟩, by simp⟩, rfl, by simp⟩ ?_
  rintro tr s a s' b ⟨ws, hws⟩ hok hstep
  have htr : waitsOf (tr ++ [(a, b)]) = waitsOf [(a, b)] ++ waitsOf tr := by
    simp only [waitsOf, List.reverse_append, List.filterMap_append]
  rw [htr]
  cases a with
  | wait taskId value =>
    obtain ⟨o, -, ⟨-, rfl, rfl⟩ | ⟨-, rfl, -⟩⟩ := synchWait_cases hstep
    · exact ⟨ws, hws⟩
    · exact ⟨_, hws.wait hstep⟩
  | wake value count =>
    obtain ⟨o, ho, -⟩ := hws.waiting.chain
    rw [synchStep, synchWake_idle ho hok] at hstep
    obtain ⟨rfl, rfl⟩ : s = s' ∧ 0 = b := by simpa using hstep
    exact ⟨ws, hws⟩
  | store value =>
    simp only [synchStep, Option.bind_eq_bind, Option.bind_eq_some_iff, Option.pure_def,
      Option.some.injEq, Prod.mk.injEq] at hstep
    obtain ⟨o, -, rfl, rfl⟩ := hstep
    exact ⟨ws, ⟨hws.waiting.chain, hws.waiting.live⟩, hws.tasks, hws.asleep⟩

end

/-- **Wait and wake.** In every history of an object in which no wake finds somebody to wake,
    its list are the tasks whose wait succeeded, all of them blocked; and the next wake is exact
    if and only if it, too, has nothing to do. -/
theorem wait_wake_exact {s₀ s : Sched} {object : Nat} {phy : Word} {tr : List (SynchOp × Int)}
    (h₀ : s₀.object? object = some ⟨phy, 0⟩)
    (h : RunIf (synchStep object) (WakesNobody object) s₀ tr s) :
    ∃ ws, Waiters s object (waitsOf tr) ws ∧ ∀ value count,
      WakesExactly s object value count ws ↔ NothingToWake s object value count := by
  obtain ⟨ws, hws⟩ := waiters_of_run h₀ h
  exact ⟨ws, hws, fun value count => wakesExactly_iff hws.waiting hws.asleep⟩

/-- Task 7, in slot 2, and an object at `0x5000`. -/
def oneTask : Sched :=
  let s := Sched.init ⟨⟨fun _ => 0, 0, []⟩, 0, .empty, .empty, .empty, 0x1008, 0x1000, []⟩
    (fun _ _ => 0) .bump fun _ => ⟨0, 0, 0, 0, 0, 0, 0, fun _ => 0⟩
  let (s, info) := s.alloc (.info (some ⟨7, 2, 0x1000, 0, 0, 0⟩))
  let s := { s with taskMap := (s.taskMap.insert 7 info).1 }
  (synchMake s 0x5000).1

/-- One waiter, a word that changes, and a wake that finds it changed: the next such wake is exact,
    and one for the word that is there is not. -/
theorem wait_wake_exact_of_one : ∃ s ws,
    RunIf (synchStep 2) (WakesNobody 2) oneTask
      [(.wait 7 0, 0), (.store 1, 0), (.wake 0 1, 0)] s ∧
    Waiters s 2 [7] ws ∧ WakesExactly s 2 0 1 ws ∧ ¬ WakesExactly s 2 1 1 ws := by
  have hexec : (synchStep 2 oneTask (.wait 7 0)).map
      (fun p => (p.1.object? 2, p.2)) = some (some ⟨0x5000, 8⟩, 0) := by decide
  obtain ⟨⟨s₁, r⟩, hwait, heq⟩ := Option.map_eq_some_iff.mp hexec
  obtain ⟨ho, rfl⟩ : s₁.object? 2 = some ⟨0x5000, 8⟩ ∧ r = 0 := by
    simpa only [Prod.mk.injEq] using heq
  have hstore : synchStep 2 s₁ (.store 1) =
      some ({ s₁ with mman := s₁.mman.write 0x5000 1 }, 0) := by
    simp [synchStep, ho]
  generalize hs₂ : ({ s₁ with mman := s₁.mman.write 0x5000 1 } : Sched) = s₂ at hstore
  have ho₂ : s₂.object? 2 = some ⟨0x5000, 8⟩ := by
    rw [← hs₂]
    exact ho
  have hword : s₂.mman.phys 0x5000 = 1 := by
    rw [← hs₂]
    exact Function.update_self (β := fun _ => Word) 0x5000 1 s₁.mman.phys
  have hidle : NothingToWake s₂ 2 0 1 := by
    intro o ho' hzero
    obtain rfl := Option.some.inj (ho₂.symm.trans ho')
    rw [hword] at hzero
    exact absurd hzero (by decide)
  have hwake : synchStep 2 s₂ (.wake 0 1) = some (s₂, 0) := by
    rw [synchStep, synchWake_idle ho₂ hidle]
    rfl
  have hstart : RunIf (synchStep 2) (WakesNobody 2) oneTask [] oneTask := .start
  have hok : WakesNobody 2 oneTask (.wait 7 0) := trivial
  have hok₁ : WakesNobody 2 s₁ (.store 1) := trivial
  have hok₂ : WakesNobody 2 s₂ (.wake 0 1) := hidle
  have hrun := ((hstart.snoc hok hwait).snoc hok₁ hstore).snoc hok₂ hwake
  obtain ⟨ws, hws, hexact⟩ := wait_wake_exact rfl hrun
  refine ⟨s₂, ws, hrun, hws, (hexact 0 1).mpr hidle, fun hone => ?_⟩
  rcases (hexact 1 1).mp hone _ ho₂ hword with hcount | hhead
  · exact absurd hcount (by decide)
  · exact absurd hhead (by decide)

/-- One waiter, and a wake for one: the record stays on the list. -/
theorem wake_keeps_the_waiter : ¬ ∀ (s₀ s : Sched) (object : Nat) (phy : Word)
    (tr : List (SynchOp × Int)), s₀.object? object = some ⟨phy, 0⟩ →
      Run (synchStep object) s₀ tr s →
      ∃ ws, Waiters s object (waitsOf tr) ws ∧ ∀ value count,
        WakesExactly s object value count ws := by
  intro hall
  have hrun : Run (synchStep 2) oneTask _ _ :=
    RunIf.start.snoc (a := .wait 7 0) trivial rfl
  obtain ⟨ws, hws, hwake⟩ := hall oneTask _ 2 0x5000 _ rfl hrun
  have hidle := (wakesExactly_iff hws.waiting hws.asleep).mp (hwake 0 1)
  rcases hidle _ rfl rfl with hcount | hhead
  · exact absurd hcount (by decide)
  · exact absurd hhead (by decide)

end Refk
