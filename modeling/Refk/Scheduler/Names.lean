import Refk.Scheduler.ListenRun

/-!
# Names

`named_tasks` is apart from the map of tasks. A `Ledger` keeps, next to the scheduler, what the
requests so far have said: which id each name was last bound to, and which tasks were reaped.

`sched_named_task` always answers the last binding, since nothing but `SCHED_SET_NAME` touches
`named_tasks`. That is right until a task is reaped whose name is still its own.
-/

namespace Refk

open Lib

structure Ledger where
  sched : Sched
  /-- The id that a name was last bound to. -/
  bound : List Int → Option Nat
  /-- The tasks that were reaped. -/
  reaped : List Nat

/-- What a request says about names and tasks. -/
def Ledger.note (L : Ledger) (q : Nat) (s : Sched) : Request → Ledger
  | .setName task name =>
    ⟨s, Function.update L.bound (cString name) (some (taskArg L.sched q task)), L.reaped⟩
  | .reap task =>
    let id := taskArg L.sched q task
    ⟨s, L.bound, if L.sched.getInfo id = 0 then L.reaped else id :: L.reaped⟩
  | _ => ⟨s, L.bound, L.reaped⟩

/-- A step of the scheduler, and its entry. -/
def namesStep (L : Ledger) (op : ListenOp) : Option (Ledger × Unit) :=
  (listenStep L.sched op).map fun s => (L.note op.tells.1 s op.tells.2, ())

/-- **Names resolve to live tasks.** -/
structure NamesResolve (L : Ledger) : Prop where
  live : ∀ n id, L.bound (cString n) = some id → L.sched.getInfo id ≠ 0 →
    schedNamedTask L.sched n = id
  unbound : ∀ n, L.bound (cString n) = none → schedNamedTask L.sched n = 0
  reaped : ∀ n id, L.bound (cString n) = some id → id ∈ L.reaped → schedNamedTask L.sched n = 0

/-- The names that a request is about: the one that it binds, or those of the task that it
    reaps. -/
def Concerns (L : Ledger) (q : Nat) : Request → List Byte → Prop
  | .setName _ name, n => cString n = cString name
  | .reap task, n => L.bound (cString n) = some (taskArg L.sched q task)
  | _, _ => False

/-- What other names resolve to does not change. -/
def OthersKept (L : Ledger) (op : ListenOp) (L' : Ledger) : Prop :=
  ∀ n, ¬ Concerns L op.tells.1 op.tells.2 n → schedNamedTask L'.sched n = schedNamedTask L.sched n

/-- A task that is reaped has no name, and a name is not given to one that was reaped. -/
def NoStaleName (L : Ledger) (q : Nat) : Request → Prop
  | .setName task _ => taskArg L.sched q task ∈ L.reaped → taskArg L.sched q task = 0
  | .reap task => L.sched.getInfo (taskArg L.sched q task) ≠ 0 →
    (∃ n, L.bound (cString n) = some (taskArg L.sched q task)) → taskArg L.sched q task = 0
  | _ => True

/-- No name is a reaped task's. -/
def Clean (L : Ledger) : Prop := ∀ n id, L.bound (cString n) = some id → id ∈ L.reaped → id = 0

/-- The code answers the last binding. -/
def AnswersLast (L : Ledger) : Prop :=
  ∀ n, schedNamedTask L.sched n = (L.bound (cString n)).getD 0

section
variable {L L' : Ledger} {s s' : Sched} {op : ListenOp} {q : Nat} {r : Request}
  {ws : List (Nat × Word)}

/-- A name is bound as far as its terminator, and no other one changes. -/
theorem schedNamedTask_setName (s : Sched) (id : Nat) (name n : List Byte) :
    schedNamedTask (schedSetName s id name) n =
      if cString n = cString name then id else schedNamedTask s n := by
  have hcopy : cString (name.take (strLen name)) = cString name := by
    rw [take_strLen, cString_takeWhile]
  simp only [schedNamedTask, schedSetName, AvlMap.search_insert, strCmp_eq_zero, hcopy]
  split_ifs <;> rfl

theorem schedNamedTask_congr (h : s'.namedTasks = s.namedTasks) (n : List Byte) :
    schedNamedTask s' n = schedNamedTask s n := by
  rw [schedNamedTask, h, schedNamedTask]

/-- **Only a new name** touches the names. -/
theorem effect_names (h : effect s q r = some (s', ws)) :
    (∃ task name, r = .setName task name ∧ s' = schedSetName s (taskArg s q task) name) ∨
      (∀ task name, r ≠ .setName task name) ∧ s'.namedTasks = s.namedTasks := by
  have hsparing : r.Sparing → s'.namedTasks = s.namedTasks := fun hr => (effect_spared hr h).names
  cases r with
  | setName task name =>
    cases h
    exact .inl ⟨task, name, rfl, rfl⟩
  | wait address value => exact .inr ⟨fun _ _ => nofun, (effect_wait_frame h).2⟩
  | reap task =>
    refine .inr ⟨fun _ _ => nofun, ?_⟩
    rcases effect_reap h with ⟨-, hspared⟩ | ⟨-, s₁, hmemory, hspared⟩
    · exact hspared.names
    · exact hspared.names.trans (reapMemory_spared hmemory).names
  | _ => exact .inr ⟨fun _ _ => nofun, hsparing trivial⟩

theorem listenStep_names (h : listenStep s op = some s') :
    (∃ task name, op.tells.2 = .setName task name ∧
        s' = schedSetName s (taskArg s op.tells.1 task) name) ∨
      (∀ task name, op.tells.2 ≠ .setName task name) ∧ s'.namedTasks = s.namedTasks := by
  cases op with
  | attach ts => exact .inr ⟨fun _ _ => nofun, (attach_spared h).names⟩
  | clients channels phys =>
    obtain rfl := Option.some.inj h
    exact .inr ⟨fun _ _ => nofun, rfl⟩
  | request q l =>
    obtain ⟨⟨s₁, l'⟩, hhandle, rfl⟩ := Option.map_eq_some_iff.mp h
    obtain ⟨ws, heffect⟩ := effect_of_handle hhandle
    exact effect_names heffect

theorem note_sched (L : Ledger) (q : Nat) (s : Sched) (r : Request) : (L.note q s r).sched = s := by
  cases r <;> rfl

theorem note_bound (h : ∀ task name, r ≠ .setName task name) (L : Ledger) (q : Nat) (s : Sched) :
    (L.note q s r).bound = L.bound := by
  cases r with
  | setName task name => exact absurd rfl (h task name)
  | _ => rfl

/-- The code goes on answering the last binding, and other names are left alone. -/
theorem AnswersLast.step (h : AnswersLast L) (hstep : listenStep L.sched op = some s') :
    AnswersLast (L.note op.tells.1 s' op.tells.2) ∧
      OthersKept L op (L.note op.tells.1 s' op.tells.2) := by
  unfold AnswersLast OthersKept
  rw [note_sched]
  rcases listenStep_names hstep with ⟨task, name, htells, rfl⟩ | ⟨htells, hnames⟩
  · rw [htells]
    refine ⟨fun n => ?_, fun n hn => ?_⟩
    · rw [schedNamedTask_setName]
      by_cases hsame : cString n = cString name
      · rw [if_pos hsame]
        simp only [hsame, Ledger.note, Function.update_self, Option.getD_some]
      · simp only [if_neg hsame, Ledger.note, Function.update_of_ne hsame, h n]
    · have hne : ¬ cString n = cString name := hn
      rw [schedNamedTask_setName, if_neg hne]
  · rw [note_bound htells]
    refine ⟨fun n => ?_, fun n _ => schedNamedTask_congr hnames n⟩
    rw [schedNamedTask_congr hnames, h n]

/-- Names stay clean if and only if the request does not bind or leave a stale one. -/
theorem Clean.step (h : Clean L) (q : Nat) (s' : Sched) (r : Request) :
    Clean (L.note q s' r) ↔ NoStaleName L q r := by
  cases r with
  | setName task name =>
    simp only [Clean, Ledger.note, NoStaleName]
    constructor
    · intro hclean hreaped
      exact hclean name _ (Function.update_self _ _ _) hreaped
    · intro hstale n id hbound hreaped
      by_cases hsame : cString n = cString name
      · rw [hsame, Function.update_self] at hbound
        obtain rfl := Option.some.inj hbound
        exact hstale hreaped
      · rw [Function.update_of_ne hsame] at hbound
        exact h n id hbound hreaped
  | reap task =>
    simp only [Clean, Ledger.note, NoStaleName]
    constructor
    · intro hclean hknown ⟨n, hbound⟩
      apply hclean n _ hbound
      rw [if_neg hknown]
      exact List.mem_cons_self
    · intro hstale n id hbound hreaped
      split_ifs at hreaped with hknown
      · exact h n id hbound hreaped
      · rcases List.mem_cons.mp hreaped with rfl | hreaped
        · exact hstale hknown ⟨n, hbound⟩
        · exact h n id hbound hreaped
  | _ => exact iff_of_true h trivial

/-- With the code's answers known, it is the stale bindings that matter. -/
theorem AnswersLast.resolve_iff (h : AnswersLast L) : NamesResolve L ↔ Clean L := by
  constructor
  · intro hres n id hbound hreaped
    have hzero := hres.reaped n id hbound hreaped
    rw [h, hbound] at hzero
    exact hzero
  · intro hclean
    refine ⟨fun n id hbound _ => ?_, fun n hbound => ?_, fun n id hbound hreaped => ?_⟩
    · rw [h, hbound]
      rfl
    · rw [h, hbound]
      rfl
    · rw [h, hbound]
      exact hclean n id hbound hreaped

/-- Before any name. -/
def Ledger.start (s : Sched) : Ledger := ⟨s, fun _ => none, []⟩

/-- **Names resolve to live tasks, and each on its own**, along exactly the runs in which no task
    is reaped that a name was last bound to, and no name bound to a task that was reaped. -/
theorem names_resolve {tr : List (ListenOp × Unit)} (hs : s.namedTasks = .empty)
    (hrun : Run namesStep (Ledger.start s) tr L) :
    Along namesStep (Ledger.start s) (fun L op _ L' => NamesResolve L' ∧ OthersKept L op L') tr ↔
      Along namesStep (Ledger.start s) (fun L op _ _ => NoStaleName L op.tells.1 op.tells.2) tr := by
  refine Along.iff_of_invariant (fun L => AnswersLast L ∧ Clean L) ⟨fun n => ?_, ?_⟩ ?_ hrun
  · simp only [Ledger.start, schedNamedTask, hs]
    rfl
  · intro n id hbound
    cases hbound
  · intro L op L' u hinv _ hstep
    obtain ⟨hanswers, hclean⟩ := hinv
    obtain ⟨s', hlisten, heq⟩ := Option.map_eq_some_iff.mp hstep
    obtain ⟨rfl, -⟩ := Prod.mk.inj heq
    obtain ⟨hanswers', hothers⟩ := hanswers.step hlisten
    have hiff := hclean.step op.tells.1 s' op.tells.2
    refine ⟨?_, fun hstale => ⟨hanswers', hiff.mpr hstale⟩⟩
    rw [hanswers'.resolve_iff, ← hiff]
    exact ⟨And.left, fun hclean' => ⟨hclean', hothers⟩⟩

end

/-- The client names itself, and then reaps itself. -/
def nameItself : ListenOp := .request 0 ((leftover 0 0).receive setNamePacket)

def reapItself : ListenOp := .request 0 ((leftover 0 0).receive [11])

theorem names_resolve_of_one : ∃ tr L, Run namesStep (Ledger.start oneClient) tr L ∧
    schedNamedTask L.sched [65] = 7 ∧
    Along namesStep (Ledger.start oneClient)
      (fun L op _ L' => NamesResolve L' ∧ OthersKept L op L') tr := by
  have hexec : (namesStep (Ledger.start oneClient) nameItself).map
      (fun p => schedNamedTask p.1.sched [65]) = some 7 := by decide
  obtain ⟨⟨L, u⟩, hstep, hname⟩ := Option.map_eq_some_iff.mp hexec
  have hstart : Run namesStep (Ledger.start oneClient) [] (Ledger.start oneClient) := .start
  have hrun := hstart.snoc trivial hstep
  refine ⟨_, L, hrun, hname, (names_resolve rfl hrun).mpr ?_⟩
  have hfresh : NoStaleName (Ledger.start oneClient) nameItself.tells.1 nameItself.tells.2 := by
    intro hreaped
    cases hreaped
  exact (Along.snoc_iff (P := fun L op _ _ => NoStaleName L op.tells.1 op.tells.2) hstart
    hstep).mpr ⟨Along.nil, hfresh⟩

/-- The name of a task that was reaped goes on resolving to it. -/
theorem named_task_was_reaped : ∃ tr L, Run namesStep (Ledger.start oneClient) tr L ∧
    L.bound (cString [65]) = some 7 ∧ L.reaped = [7] ∧ schedNamedTask L.sched [65] = 7 ∧
    ¬ Along namesStep (Ledger.start oneClient)
      (fun L op _ L' => NamesResolve L' ∧ OthersKept L op L') tr := by
  have hexec : (exec namesStep (fun _ _ => True) (Ledger.start oneClient)
      [nameItself, reapItself]).map (fun p => (p.2.bound (cString [65]), p.2.reaped,
        schedNamedTask p.2.sched [65])) = some (some 7, [7], 7) := by decide
  obtain ⟨⟨tr, L⟩, hexec, heq⟩ := Option.map_eq_some_iff.mp hexec
  obtain ⟨hbound, hreaped, hname⟩ : L.bound (cString [65]) = some 7 ∧ L.reaped = [7] ∧
      schedNamedTask L.sched [65] = 7 := by
    simpa only [Prod.mk.injEq] using heq
  have hrun : Run namesStep (Ledger.start oneClient) tr L := RunIf.of_exec _ _ _ _ hexec
  refine ⟨tr, L, hrun, hbound, hreaped, hname, fun halong => ?_⟩
  cases hrun with
  | start => cases hreaped
  | snoc run _ hstep =>
    have hlast := ((Along.snoc_iff run hstep).mp halong).2.1
    have hzero := hlast.reaped [65] 7 hbound (by simp [hreaped])
    omega

end Refk
