import Refk.Scheduler.TaskSupply

/-!
# The scheduler's windows

Every task has two windows in the scheduler's own root, one for the pair of channels and one for
incoming messages. A birth maps both of them, at addresses that were free.
-/

namespace Refk

open Lib

/-- The root the scheduler runs under. -/
def Sched.ownRoot (s : Sched) : Word := s.mman.rootAddress (mmanOwnRoot s.mman)

/-- **The windows match**: what is mapped in the channel area are the windows of the live tasks,
    each at an address of its own. -/
structure WindowsMatch (s : Sched) : Prop where
  mapped : ∀ va ∈ channelArea, Mapped s.mman.phys s.ownRoot va ↔
    ∃ id i, s.taskInfo id = some i ∧ (va = i.sin ∨ va = i.gin)
  inside : ∀ id i, s.taskInfo id = some i → i.sin ∈ channelArea ∧ i.gin ∈ channelArea
  pair : ∀ id i, s.taskInfo id = some i → i.sout = i.sin + channelSize / 2 ∧ i.sin ≠ i.gin
  apart : ∀ id id' i i', s.taskInfo id = some i → s.taskInfo id' = some i' → id ≠ id' →
    i.sin ≠ i'.sin ∧ i.sin ≠ i'.gin ∧ i.gin ≠ i'.gin

/-- A task that is born has its memory, and a root that is imported is in order. -/
def TaskOp.Provided (s : Sched) : TaskOp → Prop
  | .attach ts => NewRoot s.mman (s.tasks ts TaskState.cr3) ∧
      Supplied s.mman (s.tasks ts TaskState.cr3)
  | .create rootId => mmanIsRoot s.mman rootId = true → Supplied s.mman (s.mman.rootAddress rootId)
  | _ => True

/-- No live task is reaped. -/
def TaskOp.Spares (s : Sched) : TaskOp → Prop
  | .reap taskId => s.taskInfo taskId = none
  | _ => True

/-- What every history of births keeps. -/
structure WindowInv (s : Sched) : Prop where
  tasks : TaskInv s
  started : Started s.mman
  windows : WindowsMatch s

section
variable {s s' : Sched} {m : Mman} {L : List Word} {ts rootId : Nat} {w : Windows} {root : Word}

/-- **A birth** adds two windows, both of them new. -/
theorem WindowInv.born (h : WindowInv s) (hborn : Born s s' s.mman.nextId ts s.heap.fresh rootId m w)
    (hm : Started m) (hnext : s.mman.nextId < m.nextId) (hphys : m.phys = s.mman.phys)
    (haddr : m.rootAddress (mmanOwnRoot m) = s.ownRoot) (hid : m.rootAddress rootId ≠ 0)
    (hsupplied : Supplied m (m.rootAddress rootId)) : WindowInv s' := by
  obtain ⟨L, hL⟩ := hm.tidy
  obtain ⟨hm', hup⟩ := hm.setUp hL hid hsupplied hborn.mman hborn.sin hborn.gin
  have hown := (hm.site hL hid).own
  have hroots := mmanTaskSetup_roots hborn.mman
  have hownRoot : s'.ownRoot = s.ownRoot := by
    rw [← haddr, Sched.ownRoot, hroots.rootAddress, mmanOwnRoot, hroots.thisRootId, mmanOwnRoot]
  have hsin : w.sin ∈ channelArea := by
    obtain ⟨i, hi, heq⟩ := hup.sin
    exact heq ▸ localWindow_mem hi
  have hgin : w.gin ∈ channelArea := by
    obtain ⟨i, hi, heq⟩ := hup.gin
    exact heq ▸ localWindow_mem hi
  -- the windows of the tasks there were are mapped, so they are none of the new ones
  have hfree : ∀ va ∈ channelArea, ¬ Mapped m.phys (m.rootAddress (mmanOwnRoot m)) va →
      ∀ id i, s.taskInfo id = some i → va ≠ i.sin ∧ va ≠ i.gin := by
    intro va hva hnot id i hi
    rw [hphys, haddr, h.windows.mapped va hva] at hnot
    exact ⟨fun heq => hnot ⟨id, i, hi, .inl heq⟩, fun heq => hnot ⟨id, i, hi, .inr heq⟩⟩
  have hinfo := hborn.taskInfo h.tasks
  have hnew : ∀ id i, s'.taskInfo id = some i → id = s.mman.nextId ∧ i.sin = w.sin ∧ i.gin = w.gin ∧
      i.sout = w.sin + channelSize / 2 ∨ id ≠ s.mman.nextId ∧ s.taskInfo id = some i := by
    intro id i hi
    rw [hinfo] at hi
    split_ifs at hi with heq
    · obtain rfl := Option.some.inj hi
      exact .inl ⟨heq.symm, rfl, rfl, rfl⟩
    · exact .inr ⟨fun h => heq h.symm, hi⟩
  refine ⟨h.tasks.born hborn rfl hnext, hm', fun va hva => ?_, fun id i hi => ?_, fun id i hi => ?_,
    fun id id' i i' hi hi' hne => ?_⟩
  · rw [hownRoot, ← haddr, hup.window hown hva, hphys, haddr, h.windows.mapped va hva]
    constructor
    · rintro (⟨id, i, hi, hva⟩ | hva)
      · refine ⟨id, i, ?_, hva⟩
        rw [hinfo, if_neg (h.tasks.lt_nextId hi).ne', hi]
      · exact ⟨_, _, (hinfo _).trans (if_pos rfl), hva⟩
    · rintro ⟨id, i, hi, hva⟩
      rcases hnew id i hi with ⟨-, hs, hg, -⟩ | ⟨-, hold⟩
      · exact .inr (by rwa [hs, hg] at hva)
      · exact .inl ⟨id, i, hold, hva⟩
  · rcases hnew id i hi with ⟨-, hs, hg, -⟩ | ⟨-, hold⟩
    · rw [hs, hg]
      exact ⟨hsin, hgin⟩
    · exact h.windows.inside id i hold
  · rcases hnew id i hi with ⟨-, hs, hg, ho⟩ | ⟨-, hold⟩
    · rw [hs, hg, ho]
      exact ⟨rfl, hup.apart⟩
    · exact h.windows.pair id i hold
  · rcases hnew id i hi with ⟨heq, hs, hg, -⟩ | ⟨-, hold⟩ <;>
      rcases hnew id' i' hi' with ⟨heq', hs', hg', -⟩ | ⟨-, hold'⟩
    · exact absurd (heq.trans heq'.symm) hne
    · have hsfree := hfree _ hsin hup.sin_free _ _ hold'
      have hgfree := hfree _ hgin hup.gin_free _ _ hold'
      rw [hs, hg]
      exact ⟨hsfree.1, hsfree.2, hgfree.2⟩
    · have hsfree := hfree _ hsin hup.sin_free _ _ hold
      have hgfree := hfree _ hgin hup.gin_free _ _ hold
      rw [hs', hg']
      exact ⟨hsfree.1.symm, hgfree.1.symm, hgfree.2.symm⟩
    · exact h.windows.apart id id' i i' hold hold' hne

/-- A state with the same tasks and the same memory manager. -/
theorem WindowInv.congr (h : WindowInv s) (htasks : TaskInv s') (hmman : s'.mman = s.mman)
    (hinfo : ∀ q, s'.taskInfo q = s.taskInfo q) : WindowInv s' := by
  refine ⟨htasks, hmman ▸ h.started, ?_⟩
  obtain ⟨hmapped, hinside, hpair, hapart⟩ := h.windows
  refine ⟨?_, ?_, ?_, ?_⟩ <;> simp only [Sched.ownRoot, hmman, hinfo] <;> assumption

/-- **A step** that reaps no live task keeps the windows matched. -/
theorem WindowInv.step {op : TaskOp} (h : WindowInv s) (hstep : TaskStepped s s' op)
    (hprovided : op.Provided s) (hspares : op.Spares s) : WindowInv s' := by
  have htasks := h.tasks.step hstep
  -- the id goes to the task, the next one to its root
  have hgen : Started (genId s.mman).1 := h.started.of_same rfl rfl rfl rfl rfl (Nat.le_succ _)
  cases hstep with
  | @attached ts rootId m w himport hborn =>
    obtain ⟨hnew, hsupplied⟩ := hprovided
    obtain ⟨hm, haddr, hkmem, hown, hnext⟩ :=
      hgen.imported ⟨hnew.layout, hnew.own⟩ himport
    have hphys : m.phys = s.mman.phys := congrArg Kmem.phys hkmem
    refine h.born hborn (hm.incrementRoot _) ?_ hphys hown ?_ ?_
    · change s.mman.nextId < m.nextId
      rw [hnext]
      exact (Nat.lt_succ_self _).trans (Nat.lt_succ_self _)
    · change m.rootAddress rootId ≠ 0
      rw [haddr]
      obtain ⟨L, hlay⟩ := hnew.layout
      exact (hlay.roots _ List.mem_cons_self).2
    · change Supplied _ (m.rootAddress rootId)
      rw [haddr]
      obtain ⟨⟨L, hpages, hlen⟩, hstorage, hchannels⟩ := hsupplied
      exact ⟨⟨L, hkmem ▸ hpages, hlen⟩, hphys ▸ hstorage, hphys ▸ hchannels⟩
  | refused _ hsame =>
    refine h.congr htasks (by rw [hsame]; rfl) fun q => ?_
    rw [hsame, h.tasks.taskInfo_withRecord]
  | @created rootId ts w hknown _ hborn _ =>
    have hknown' : s.mman.rootAddress rootId ≠ 0 := by simpa [mmanIsRoot] using hknown
    have hsupplied := hprovided hknown
    exact h.born hborn (hgen.incrementRoot rootId) (Nat.lt_succ_self _) rfl rfl hknown'
      ⟨hsupplied.pages, hsupplied.storage, hsupplied.channels⟩
  | unset hsame => exact hsame ▸ h
  | set _ heq =>
    refine h.congr htasks (by rw [heq]) fun q => ?_
    rw [heq]
    rfl
  | unknown _ hsame => exact hsame ▸ h
  | reaped hinfo _ =>
    have hnone : s.taskInfo _ = none := hspares
    rw [hinfo] at hnone
    cases hnone

/-- **A reap leaves a window**: only that of incoming messages is unmapped, so the other one has
    no task any more. -/
theorem WindowInv.not_match_of_reaped {taskId : Nat} {i : TaskInfo} (h : WindowInv s)
    (hinfo : s.taskInfo taskId = some i)
    (hcount : s.mman.rootCount (s.tasks i.state TaskState.cr3).toNat = 0)
    (hs' : s' = { s with
      mman := mmanTaskReap s.mman (s.tasks i.state TaskState.cr3) i.gin
      tasks := (s.tasks.set i.state TaskState.state 0).set i.state TaskState.cr3 0
      taskMap := (s.taskMap.remove taskId).1 }) : ¬ WindowsMatch s' := by
  intro hmatch
  obtain ⟨hsin, hgin⟩ := h.windows.inside taskId i hinfo
  have hne : i.gin ≠ 0 := fun h => by
    rw [h, channelArea_iff] at hgin
    exact absurd hgin.2.1 (by decide)
  have hreap : mmanTaskReap s.mman (s.tasks i.state TaskState.cr3) i.gin =
      (mmanUnmap s.mman (mmanOwnRoot s.mman) i.gin channelSize).1 := by
    simp only [mmanTaskReap, mmanDecrementRoot, if_pos hcount, if_neg hne]
  obtain ⟨L, hL⟩ := h.started.tidy
  have hown : s.ownRoot ∈ s.mman.roots := mem_roots (search_of_rootAddress h.started.own)
  have hid : s.mman.rootAddress (mmanOwnRoot s.mman) = s.ownRoot := rfl
  have hunmap := hL.unmap hid hown (own_area hgin) hgin.1
  have hmapped : Mapped s'.mman.phys s'.ownRoot i.sin := by
    have hroot : s'.ownRoot = s.ownRoot := by
      rw [Sched.ownRoot, hs', hreap]
      change Mman.rootAddress (mmanUnmap _ _ _ 0x1000).1 (mmanOwnRoot (mmanUnmap _ _ _ 0x1000).1) = _
      rw [hunmap.roots.rootAddress, mmanOwnRoot, hunmap.roots.thisRootId]
      rfl
    rw [hroot, hs', hreap]
    refine (hunmap.maps.other hown (low_of_own (own_area hsin)) fun hsame => ?_).mpr
      ((h.windows.mapped i.sin hsin).mpr ⟨taskId, i, hinfo, .inl rfl⟩)
    exact (h.windows.pair taskId i hinfo).2 ((samePrefix_iff_of_mem hsin hgin).mp hsame.2)
  -- whose is it?
  obtain ⟨id, i', hi', hwin⟩ := (hmatch.mapped i.sin hsin).mp hmapped
  rw [hs', taskInfo_remove] at hi'
  split_ifs at hi' with hid
  obtain ⟨hss, hsg, -⟩ := h.windows.apart taskId id i i' hinfo hi' hid
  exact hwin.elim hss hsg

end

/-- **Windows.** In every history in which no live task is reaped, and the tasks that are born
    have their memory, the pages mapped in the channel area are the windows of the live tasks,
    all at different addresses. -/
theorem windows_match {mman : Mman} {tasks : TaskTable} {allocator : Allocator}
    {channels : Word → Comm} {s : Sched} {tr : List (TaskOp × Nat)} (hstarted : Started mman)
    (hempty : ∀ va ∈ channelArea, ¬ Mapped mman.phys (mman.rootAddress (mmanOwnRoot mman)) va)
    (h : RunIf taskStep (fun s op => op.Provided s ∧ op.Spares s)
      (.init mman tasks allocator channels) tr s) : WindowsMatch s := by
  have hnone : ∀ id, (Sched.init mman tasks allocator channels).taskInfo id = none := fun _ => rfl
  have h₀ : WindowInv (.init mman tasks allocator channels) := by
    refine ⟨.init .., hstarted, fun va hva => iff_of_false (hempty va hva) ?_, ?_, ?_, ?_⟩
    · rintro ⟨id, i, hi, -⟩
      rw [hnone] at hi
      cases hi
    all_goals
      intro id
      simp only [hnone, reduceCtorEq, false_implies, implies_true]
  refine (h.invariant_state WindowInv h₀ fun s op s' r hs hok hstep => ?_).windows
  exact hs.step (taskStep_cases hs.tasks hstep) hok.1 hok.2

/-- One task, created on the small machine. -/
theorem windows_match_of_one : ∃ s, s.taskInfo 0x1002 ≠ none ∧ WindowsMatch s := by
  have hstart := smallStart_mmanInit
  generalize mmanInit smallMemory 0x20000 0x21000 = m at hstart
  obtain ⟨s, id, hs⟩ := hstart.create
  have hok : TaskOp.Provided (smallSched m) (.create 0x1001) ∧
      TaskOp.Spares (smallSched m) (.create 0x1001) := ⟨fun _ => hstart.supplied.1, trivial⟩
  obtain ⟨⟨w, hborn⟩, -⟩ := hstart.born hs
  refine ⟨s, ?_, windows_match hstart.started
    (fun va _ => hstart.own ▸ hstart.blank _ (by simp) va) (RunIf.start.snoc hok hs)⟩
  rw [hborn.taskInfo (TaskInv.init ..), hstart.next, if_pos rfl]
  exact Option.some_ne_none _

/-- **A task that is created and reaped** leaves the window of its channels behind. -/
theorem reaped_task_leaves_a_window : ¬ ∀ (mman : Mman) (tasks : TaskTable) (allocator : Allocator)
    (channels : Word → Comm) (s : Sched) (tr : List (TaskOp × Nat)), Started mman →
    (∀ va ∈ channelArea, ¬ Mapped mman.phys (mman.rootAddress (mmanOwnRoot mman)) va) →
    RunIf taskStep (fun s op => op.Provided s) (.init mman tasks allocator channels) tr s →
    WindowsMatch s := by
  intro hall
  have hstart := smallStart_mmanInit
  generalize mmanInit smallMemory 0x20000 0x21000 = m at hstart
  obtain ⟨s₁, id₁, h₁⟩ := hstart.create
  obtain ⟨⟨w, hborn⟩, -⟩ := hstart.born h₁
  have h₀ : TaskInv (smallSched m) := TaskInv.init ..
  have hinv₁ := h₀.step (taskStep_cases h₀ h₁)
  have hinfo := (hborn.taskInfo h₀ m.nextId).trans (if_pos rfl)
  obtain ⟨s₂, r, h₂⟩ := taskStep_reap_isSome hinv₁ hinfo
  have hempty : ∀ va ∈ channelArea, ¬ Mapped m.phys (m.rootAddress (mmanOwnRoot m)) va :=
    fun va _ => hstart.own ▸ hstart.blank _ (by simp) va
  have hprovided : TaskOp.Provided (smallSched m) (.create 0x1001) := fun _ => hstart.supplied.1
  have hrun : RunIf taskStep (fun s op => op.Provided s) (smallSched m) [(.create 0x1001, id₁)] s₁ :=
    RunIf.start.snoc hprovided h₁
  have hprovided' : TaskOp.Provided s₁ (.reap m.nextId) := trivial
  have hwin₁ := hall m smallTasks .bump _ s₁ _ hstart.started hempty hrun
  have hwin₂ := hall m smallTasks .bump _ s₂ _ hstart.started hempty (hrun.snoc hprovided' h₂)
  have hstarted₁ := (hstart.started.created h₀ hstart.known hstart.supplied.1 h₁).1
  cases taskStep_cases hinv₁ h₂ with
  | unknown hnone _ =>
    rw [hinfo] at hnone
    cases hnone
  | reaped hinfo' heq =>
    obtain rfl := Option.some.inj (hinfo.symm.trans hinfo')
    exact WindowInv.not_match_of_reaped ⟨hinv₁, hstarted₁, hwin₁⟩ hinfo
      (hstart.count_cr3 h₁) heq hwin₂

end Refk
