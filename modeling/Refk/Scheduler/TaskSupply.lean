import Refk.Scheduler.TaskRun
import Refk.Scheduler.TaskStart

/-!
# A task that has what it needs is born

Nothing in a task's setup can fail but the searches: for a slot, for free addresses in the
task's root, and for two windows in the scheduler's own.
-/

namespace Refk

open Lib

/-- Two windows are free. -/
def FreeWindows (m : Phys) (own : Word) : Prop :=
  ∃ i < 0x1000, ∃ j < 0x1000, i ≠ j ∧ ¬ Mapped m own (localWindow i) ∧ ¬ Mapped m own (localWindow j)

section
variable {m m' : Mman} {R L : List Word} {id i : Nat} {root own : Word}

/-- The search for a window answers one if there is one. -/
theorem Site.findAvailableLocal_ne (h : Site m R L id root own) (hi : i < 0x1000)
    (hfree : ¬ Mapped m.phys own (localWindow i)) : findAvailableLocal m ≠ -1 := by
  have hcheck : mmanCheckAnyMapped m (mmanOwnRoot m) (localWindow i) 0x1000 = 0 :=
    (mmanCheckAnyMapped_one h.ownId (h.tidy.counted.layout.roots own h.own).2
      (localWindow_mem hi).1).mpr ((h.not_mapped h.own (own_area (localWindow_mem hi))).mpr hfree)
  unfold findAvailableLocal
  split
  next j hj =>
    have hlt : j < 0x1000 := List.mem_range.mp (List.mem_of_find?_eq_some hj)
    intro heq
    have := congrArg BitVec.toNat heq
    rw [toNat_localWindow hlt, show (-1 : Word).toNat = 2 ^ 64 - 1 from rfl] at this
    omega
  next hnone =>
    rw [List.find?_eq_none] at hnone
    exact absurd (decide_eq_true hcheck) (hnone i (List.mem_range.mpr hi))

/-- A channel is added if there is an address for it, and a window. -/
theorem mmanAddChannel_isSome (h : Site m R L id root own) {j : Nat} (hj : j < 2 ^ 22)
    (hroom : isMapped m.phys root (nthPage taskChannelStart j) = false) (hi : i < 0x1000)
    (hfree : ¬ Mapped m.phys own (localWindow i)) :
    ∃ m' la ca, mmanAddChannel m id = some (m', la, ca) ∧ la ≠ -1 := by
  obtain ⟨ca, hca⟩ := firstUnmapped_isSome h.id (h.tidy.counted.layout.roots root h.mem).2
    (by decide) hj hroom
  obtain ⟨m', hadd⟩ : ∃ m', mmanAddChannel m id = some (m', findAvailableLocal m, ca) := by
    rw [mmanAddChannel, hca]
    exact ⟨_, rfl⟩
  exact ⟨m', _, ca, hadd, h.findAvailableLocal_ne hi hfree⟩

/-- **A task is set up** if there is memory for it, and two windows are free. -/
theorem mmanTaskSetup_isSome (h : Site m R L id root own) (hstorage : Room m.phys root localStorageBase)
    (hchannel : Room m.phys root taskChannelStart)
    (htemp : ¬ Mapped m.phys own temporaryMapAddress) (hL : 30 ≤ L.length)
    (hwin : FreeWindows m.phys own) :
    ∃ m' w, mmanTaskSetup m id = some (m', w) ∧ w.sin ≠ -1 ∧ w.gin ≠ -1 := by
  obtain ⟨a, b, hab, hb, ha', -⟩ := hstorage
  obtain ⟨c, d, hcd, hd, hc', hd'⟩ := hchannel
  obtain ⟨x, hx, y, hy, hxy, hxfree, hyfree⟩ := hwin
  obtain ⟨gs, hgs⟩ : ∃ gs, firstUnmapped m id localStorageBase = some gs :=
    firstUnmapped_isSome h.id (h.tidy.counted.layout.roots root h.mem).2 (by decide) (j := a)
      (by omega) ha'
  obtain ⟨m₁, hstore⟩ : ∃ m₁, mmanAddStorage m id = some (m₁, gs) := by
    rw [mmanAddStorage, hgs]
    exact ⟨_, rfl⟩
  obtain ⟨⟨i, hi, rfl⟩, ⟨L₂, h₂, hlen₂⟩, hmaps₂⟩ :=
    mmanAddStorage_spec h (by omega) ha' htemp (by omega) hstore
  obtain ⟨m₂, hm₂⟩ : ∃ m₂, m₂ = (mmanMirror m₁ (mmanOwnRoot m₁) temporaryMapAddress id
      (nthPage localStorageBase i) 0x1000).1 := ⟨_, rfl⟩
  rw [← hm₂] at h₂ hmaps₂
  -- neither the addresses for the channels nor the windows are touched
  have hroom : ∀ e, e < 2 ^ 22 → isMapped m.phys root (nthPage taskChannelStart e) = false →
      isMapped m₂.phys root (nthPage taskChannelStart e) = false := by
    intro e he hfree
    have hown := own_channel he
    rw [h₂.not_mapped h.mem hown, hmaps₂ root h.mem _ (h.tidy.low h.mem hown)]
    rw [h.not_mapped h.mem hown] at hfree
    rintro ((hmap | ⟨-, hpre⟩) | ⟨-, hpre⟩)
    · exact hfree hmap
    · rw [samePrefix_four_iff, pageNumber_storage (by omega), pageNumber_channel he] at hpre
      omega
    · rw [samePrefix_four_iff, pageNumber_temporary, pageNumber_channel he] at hpre
      omega
  have hwindow : ∀ z < 0x1000, ¬ Mapped m.phys own (localWindow z) →
      ¬ Mapped m₂.phys own (localWindow z) := by
    intro z hz hfree
    rw [hmaps₂ own h.own _ (h.tidy.low h.own (own_area (localWindow_mem hz)))]
    rintro ((hmap | ⟨-, hpre⟩) | ⟨-, hpre⟩)
    · exact hfree hmap
    · rw [samePrefix_four_iff, pageNumber_storage (by omega), pageNumber_localWindow hz] at hpre
      omega
    · rw [samePrefix_four_iff, pageNumber_temporary, pageNumber_localWindow hz] at hpre
      omega
  obtain ⟨m₃, sin, ca, hadd, hsin⟩ := mmanAddChannel_isSome h₂ (j := c) (by omega)
    (hroom c (by omega) hc') hx (hwindow x hx hxfree)
  obtain ⟨⟨k, hk, rfl, -⟩, ⟨x', hx', rfl⟩, -, ⟨L₃, h₃, hlen₃⟩, hmaps₃⟩ :=
    mmanAddChannel_spec h₂ (j := c) (by omega) (hroom c (by omega) hc') (by omega) hadd hsin
  have hroom₃ : isMapped m₃.phys root (nthPage taskChannelStart d) = false := by
    have hown := own_channel hd
    have hfree := (h₂.not_mapped h.mem hown).mp (hroom d hd hd')
    rw [h₃.not_mapped h.mem hown, hmaps₃ root h.mem _ (h.tidy.low h.mem hown)]
    rintro (hmap | ⟨-, hpre⟩ | ⟨-, hpre⟩)
    · exact hfree hmap
    · rw [samePrefix_four_iff, pageNumber_channel hd, pageNumber_channel (by omega)] at hpre
      omega
    · rw [samePrefix_four_iff, pageNumber_channel hd, pageNumber_localWindow hx'] at hpre
      omega
  -- one of the two windows is still free
  have hwindow₃ : ∃ z < 0x1000, ¬ Mapped m₃.phys own (localWindow z) := by
    have hother : ∀ z < 0x1000, z ≠ x' → ¬ Mapped m₂.phys own (localWindow z) →
        ¬ Mapped m₃.phys own (localWindow z) := by
      intro z hz hne hfree
      rw [hmaps₃ own h.own _ (h.tidy.low h.own (own_area (localWindow_mem hz)))]
      rintro (hmap | ⟨-, hpre⟩ | ⟨-, hpre⟩)
      · exact hfree hmap
      · rw [samePrefix_four_iff, pageNumber_localWindow hz, pageNumber_channel (by omega)] at hpre
        omega
      · rw [samePrefix_iff_of_mem (localWindow_mem hz) (localWindow_mem hx')] at hpre
        exact hne (localWindow_inj hz hx' hpre)
    by_cases hxx : x = x'
    · exact ⟨y, hy, hother y hy (hxx ▸ hxy.symm) (hwindow y hy hyfree)⟩
    · exact ⟨x, hx, hother x hx hxx (hwindow x hx hxfree)⟩
  obtain ⟨z, hz, hzfree⟩ := hwindow₃
  obtain ⟨m₄, gin, cb, hadd', hgin⟩ := mmanAddChannel_isSome h₃ hd hroom₃ hz hzfree
  obtain ⟨m', w, hset, hw⟩ : ∃ m' w, mmanTaskSetup m id = some (m', w) ∧
      w = ⟨nthPage localStorageBase i, localWindow x', gin⟩ := by
    rw [hm₂] at hadd
    simp only [mmanTaskSetup, hstore, Option.bind_eq_bind, Option.bind_some, hadd, hadd']
    exact ⟨_, _, rfl, rfl⟩
  refine ⟨m', w, hset, ?_, ?_⟩ <;> rw [hw]
  · exact hsin
  · exact hgin

end

/-! ## What is left for the next task -/

/-- Among three numbers two are not `i`. -/
theorem exists_two_ne (i : Nat) : ∃ a b, a < b ∧ b < 3 ∧ a ≠ i ∧ b ≠ i := by
  rcases Nat.lt_trichotomy i 1 with h | rfl | h
  · exact ⟨1, 2, by omega⟩
  · exact ⟨0, 2, by omega⟩
  · exact ⟨0, 1, by omega⟩

/-- Among four, two are neither `i` nor `j`. -/
theorem exists_two_ne_ne (i j : Nat) : ∃ a b, a < b ∧ b < 4 ∧ a ≠ i ∧ a ≠ j ∧ b ≠ i ∧ b ≠ j := by
  by_cases h₀ : 0 = i ∨ 0 = j
  · by_cases h₁ : 1 = i ∨ 1 = j
    · exact ⟨2, 3, by omega⟩
    · by_cases h₂ : 2 = i ∨ 2 = j
      · exact ⟨1, 3, by omega⟩
      · exact ⟨1, 2, by omega⟩
  · by_cases h₁ : 1 = i ∨ 1 = j
    · by_cases h₂ : 2 = i ∨ 2 = j
      · exact ⟨0, 3, by omega⟩
      · exact ⟨0, 2, by omega⟩
    · exact ⟨0, 1, by omega⟩

section
variable {m m' : Mman} {R L : List Word} {id : Nat} {root own : Word} {w : Windows}

/-- A root with nothing in the two areas but what one task has there has room for another, and the
    scheduler has two more windows. -/
theorem TablesSetUp.room (h : TablesSetUp R L id root own w m m') (hr : root ∈ R) (hown : own ∈ R)
    (hlow : OwnTables m.phys R ownAddresses) (hL : 60 ≤ L.length)
    (hroot : ∀ va, ¬ Mapped m.phys root va) (hfree : ∀ va, ¬ Mapped m.phys own va) :
    Supplied m' root ∧ FreeWindows m'.phys own := by
  obtain ⟨i, hi, k, hk, k', hk', hgs, hpages⟩ := h.pages
  obtain ⟨x, hx, hsin⟩ := h.sin
  obtain ⟨y, hy, hgin⟩ := h.gin
  obtain ⟨L', hsite, hlen⟩ := h.site
  refine ⟨⟨⟨L', hsite.tidy.counted.layout.pages, by omega⟩, ?_, ?_⟩, ?_⟩
  · obtain ⟨a, b, hab, hb, ha', hb'⟩ := exists_two_ne i
    have hstorage : ∀ e < 3, e ≠ i → isMapped m'.phys root (nthPage localStorageBase e) = false := by
      intro e he hne
      rw [hsite.not_mapped hr (own_storage (by omega)),
        hpages root hr _ ((hlow root hr).low _ (own_storage (by omega))), hgs, hsin, hgin]
      simp only [samePrefix_four_iff, pageNumber_storage (show e < 2 ^ 22 by omega),
        pageNumber_storage hi, pageNumber_channel hk, pageNumber_channel hk',
        pageNumber_localWindow hx, pageNumber_localWindow hy]
      rintro ⟨(hmap | ⟨-, hp⟩) | (⟨-, hp⟩ | ⟨-, hp⟩) | ⟨-, hp⟩ | ⟨-, hp⟩, -⟩
      · exact hroot _ hmap
      all_goals omega
    exact ⟨a, b, hab, by omega, hstorage a (by omega) ha', hstorage b hb hb'⟩
  · obtain ⟨a, b, hab, hb, ha, ha', hb', hb''⟩ := exists_two_ne_ne k k'
    have hchannel : ∀ e < 4, e ≠ k → e ≠ k' → isMapped m'.phys root (nthPage taskChannelStart e) = false := by
      intro e he hne hne'
      rw [hsite.not_mapped hr (own_channel (by omega)),
        hpages root hr _ ((hlow root hr).low _ (own_channel (by omega))), hgs, hsin, hgin]
      simp only [samePrefix_four_iff, pageNumber_channel (show e < 2 ^ 22 by omega),
        pageNumber_storage hi, pageNumber_channel hk, pageNumber_channel hk',
        pageNumber_localWindow hx, pageNumber_localWindow hy]
      rintro ⟨(hmap | ⟨-, hp⟩) | (⟨-, hp⟩ | ⟨-, hp⟩) | ⟨-, hp⟩ | ⟨-, hp⟩, -⟩
      · exact hroot _ hmap
      all_goals omega
    exact ⟨a, b, hab, by omega, hchannel a (by omega) ha ha', hchannel b hb hb' hb''⟩
  · obtain ⟨a, b, hab, hb, ha, ha', hb', hb''⟩ := exists_two_ne_ne x y
    have hwindow : ∀ e < 4, e ≠ x → e ≠ y → ¬ Mapped m'.phys own (localWindow e) := by
      intro e he hne hne'
      rw [h.window hown (localWindow_mem (by omega)), hsin, hgin]
      rintro (hmap | heq | heq)
      · exact hfree _ hmap
      · exact hne (localWindow_inj (by omega) hx heq)
      · exact hne' (localWindow_inj (by omega) hy heq)
    exact ⟨a, by omega, b, by omega, by omega, hwindow a (by omega) ha ha', hwindow b hb hb' hb''⟩

end

/-! ## The bookkeeping never fails -/

section
variable {s : Sched} {ts info rootId : Nat} {i : TaskInfo} {m : Mman} {w : Windows}

theorem initChannel_isSome {addr : Word} (length : Word) (h : addr ≠ -1) :
    ∃ cc, s.initChannel addr length =
      some { s with channels := Function.update s.channels addr cc } := by
  rw [Sched.initChannel, if_neg h]
  exact ⟨_, rfl⟩

theorem taskSetup_isSome (ts : Nat) (hno : NoObjects s) (hi : s.info? info = some i)
    (hset : mmanTaskSetup s.mman i.rootId = some (m, w)) (hsin : w.sin ≠ -1)
    (hsout : w.sin + channelSize / 2 ≠ -1) (hgin : w.gin ≠ -1) :
    ∃ s', taskSetup s ts info = some s' := by
  have hno' : ∀ m tasks heap channels, NoObjects
      { s with mman := m, tasks := tasks, heap := heap, channels := channels } :=
    fun _ _ _ _ => hno
  simp only [mmanTaskSetup, Option.bind_eq_bind, Option.bind_eq_some_iff, Option.pure_def,
    Option.some.injEq, Prod.mk.injEq, Prod.exists] at hset
  obtain ⟨m₁, gs, hstore, m₂, sin, ca, hadd, m₃, gin, cb, hadd', rfl, rfl⟩ := hset
  dsimp only at hsin hsout hgin
  simp only [taskSetup, hi, Option.bind_eq_bind, Option.bind_some, addStorage_eq hno, hstore,
    Option.map_some]
  rw [setMman_of_noObjects (hno' _ _ _ _)]
  simp only [Option.bind_some]
  rw [addChannel_eq (hno' _ _ _ _)]
  have hcell := Sched.info?_eq_some.mp hi
  obtain ⟨heap, hput, hcells, -⟩ := Heap.put_of_some
    (.info (some { i with sin := sin, sout := sin + channelSize / 2 })) hcell
  simp only [hadd, Option.map_some, Option.bind_some, Sched.put, hput]
  obtain ⟨cc, hinit⟩ := initChannel_isSome (channelSize / 2) (s := { s with
    mman := m₂, tasks := s.tasks.set ts TaskState.gsBase gs, heap := heap }) hsin
  rw [hinit]
  simp only [Option.bind_some]
  obtain ⟨cc', hinit'⟩ := initChannel_isSome (channelSize / 2) (s := { s with
    mman := m₂, tasks := s.tasks.set ts TaskState.gsBase gs, heap := heap,
    channels := Function.update s.channels sin cc }) hsout
  rw [hinit']
  simp only [Option.bind_some]
  rw [addChannel_eq (hno' _ _ _ _)]
  obtain ⟨heap', hput', -⟩ := Heap.put_of_some (h := heap) (p := info)
    (.info (some { i with sin := sin, sout := sin + channelSize / 2, gin := gin }))
    (by rw [hcells, Function.update_self])
  simp only [hadd', Option.map_some, Option.bind_some, hput']
  obtain ⟨cc'', hinit''⟩ := initChannel_isSome channelSize (s := { s with
    mman := m₃, tasks := s.tasks.set ts TaskState.gsBase gs, heap := heap',
    channels := Function.update (Function.update s.channels sin cc) (sin + channelSize / 2) cc' }) hgin
  rw [hinit'']
  simp only [Option.bind_some]
  rw [setMman_of_noObjects (hno' _ _ _ _)]
  exact ⟨_, rfl⟩

theorem schedTaskCreate_isSome (info : Nat) {b : Block} {tasks : TaskTable} (hno : NoObjects s)
    (hknown : mmanIsRoot s.mman rootId = true) (hcreate : taskCreate s.tasks = some (tasks, ts))
    (hcell : s.heap.cells info = some b)
    (hset : mmanTaskSetup (mmanIncrementRoot (genId s.mman).1 rootId) rootId = some (m, w))
    (hsin : w.sin ≠ -1) (hsout : w.sin + channelSize / 2 ≠ -1) (hgin : w.gin ≠ -1) :
    ∃ s', schedTaskCreate s rootId info = some (s', s.mman.nextId) := by
  obtain ⟨heap, hput, hcells, -⟩ :=
    Heap.put_of_some (.info (some ⟨s.mman.nextId, ts, rootId, 0, 0, 0⟩)) hcell
  obtain ⟨s', hs'⟩ := taskSetup_isSome ts (s := { s with
    mman := mmanIncrementRoot (genId s.mman).1 rootId
    tasks := tasks.set ts TaskState.cr3 (mmanGetRootCr3 (mmanIncrementRoot (genId s.mman).1 rootId) rootId)
    heap := heap
    taskMap := (s.taskMap.insert s.mman.nextId info).1 })
    (i := ⟨s.mman.nextId, ts, rootId, 0, 0, 0⟩) hno
    (Sched.info?_eq_some.mpr (by rw [hcells, Function.update_self])) hset hsin hsout hgin
  refine ⟨s', ?_⟩
  rw [schedTaskCreate, if_neg (not_not_intro hknown), hcreate]
  simp only [Option.bind_eq_bind, Option.bind_some, Sched.genId, Sched.put]
  rw [show (genId s.mman).2 = s.mman.nextId from rfl, hput]
  simp only [Option.map_some, Option.bind_some]
  rw [hs']
  rfl

/-- **A task is created** in a known root, if there is a slot, memory and two windows. -/
theorem taskStep_create_isSome (hs : TaskInv s) (hstarted : Started s.mman)
    (hknown : mmanIsRoot s.mman rootId = true)
    (hsupplied : Supplied s.mman (s.mman.rootAddress rootId))
    (hwin : FreeWindows s.mman.phys (s.mman.rootAddress (mmanOwnRoot s.mman)))
    (hslot : findAvailable s.tasks = some ts) :
    ∃ s' id, taskStep s (.create rootId) = some (s', id) := by
  have hm : Started (mmanIncrementRoot (genId s.mman).1 rootId) :=
    Started.incrementRoot (m := (genId s.mman).1)
      (hstarted.of_same rfl rfl rfl rfl rfl (Nat.le_succ _)) rootId
  have hid : s.mman.rootAddress rootId ≠ 0 := by simpa [mmanIsRoot] using hknown
  obtain ⟨L, hL⟩ := hm.tidy
  obtain ⟨L', hpages, hlen⟩ := hsupplied.pages
  obtain rfl : L' = L := hpages.unique hL.counted.layout.pages
  obtain ⟨m, w, hset, hsin, hgin⟩ := mmanTaskSetup_isSome (hm.site hL hid) hsupplied.storage
    hsupplied.channels hm.temporary hlen hwin
  have hup := mmanTaskSetup_spec (hm.site hL hid) hsupplied.storage hsupplied.channels hm.temporary
    hlen hset hsin hgin
  have hsout : w.sin + channelSize / 2 ≠ -1 := by
    obtain ⟨i, hi, heq⟩ := hup.sin
    rw [heq]
    intro hbad
    have := congrArg BitVec.toNat hbad
    rw [BitVec.toNat_add, toNat_localWindow hi, show (channelSize / 2).toNat = 0x800 from rfl,
      show (-1 : Word).toNat = 2 ^ 64 - 1 from rfl] at this
    omega
  obtain ⟨tasks, hcreate⟩ : ∃ tasks, taskCreate s.tasks = some (tasks, ts) := by
    rw [taskCreate, hslot]
    exact ⟨_, rfl⟩
  obtain ⟨s', hs'⟩ := schedTaskCreate_isSome s.heap.fresh (s := s.withRecord)
    hs.noObjects hknown hcreate Heap.cells_alloc_fresh hset hsin hsout hgin
  exact ⟨s', _, hs'⟩

end

/-- The first free slot stays the first when it is given out. -/
theorem Born.firstFree {s s' : Sched} {id ts info rootId : Nat} {m : Mman} {w : Windows}
    (h : Born s s' id ts info rootId m w) (hfirst : FirstFree s.tasks ts) :
    FirstFree s'.tasks ts := by
  refine ⟨hfirst.1, ?_, fun j hj hlt => ?_⟩
  · rw [TaskState.Valid, h.state]
    exact hfirst.2.1
  · rw [h.tasks j (by omega)]
    exact hfirst.2.2 j hj hlt

/-- A live task can always be reaped. -/
theorem taskStep_reap_isSome {s : Sched} {taskId : Nat} {i : TaskInfo} (hs : TaskInv s)
    (hi : s.taskInfo taskId = some i) : ∃ s' r, taskStep s (.reap taskId) = some (s', r) := by
  have hno := hs.noObjects
  have hno' : ∀ m tasks, NoObjects { s with mman := m, tasks := tasks } := fun _ _ => hno
  have hne : s.getInfo taskId ≠ 0 := fun h => by
    rw [taskInfo_of_getInfo_eq_zero h] at hi
    cases hi
  have hi : s.info? (s.getInfo taskId) = some i := hi
  have hi' : ∀ m, ({ s with mman := m } : Sched).info? (s.getInfo taskId) = some i := fun _ => hi
  simp only [taskStep, schedTaskReap, if_neg hne, hi, setMman_of_noObjects hno, Option.bind_eq_bind,
    Option.bind_some, hi', Sched.unmapWindow]
  split_ifs
  · exact ⟨_, _, rfl⟩
  · rw [setMman_of_noObjects (hno' _ _)]
    exact ⟨_, _, rfl⟩

/-- A word of a live task's state can be set. -/
theorem taskStep_setState_eq {s : Sched} {taskId : Nat} {i : TaskInfo} {index : Word}
    (hi : s.taskInfo taskId = some i) (hindex : index < 32) (value : Word) :
    taskStep s (.setState taskId index value) =
      some ({ s with tasks := s.tasks.set i.state index.toNat value }, 0) := by
  have hne : s.getInfo taskId ≠ 0 := fun h => by
    rw [taskInfo_of_getInfo_eq_zero h] at hi
    cases hi
  have hinfo : s.info? (s.getInfo taskId) = some i := hi
  simp only [taskStep, schedSetState, hinfo]
  rw [if_pos ⟨hne, hindex⟩]
  rfl

/-- What a creation leaves. -/
theorem Started.created {s s' : Sched} {rootId r : Nat} (hs : TaskInv s) (hstarted : Started s.mman)
    (hknown : mmanIsRoot s.mman rootId = true)
    (hsupplied : Supplied s.mman (s.mman.rootAddress rootId))
    (h : taskStep s (.create rootId) = some (s', r)) :
    Started s'.mman ∧ (∀ q, s'.mman.rootAddress q = s.mman.rootAddress q) ∧
      mmanOwnRoot s'.mman = mmanOwnRoot s.mman ∧
      ∃ L w, FreePages s.mman.kmem L ∧ TablesSetUp s.mman.roots L rootId (s.mman.rootAddress rootId)
        (s.mman.rootAddress (mmanOwnRoot s.mman)) w
        (mmanIncrementRoot (genId s.mman).1 rootId) s'.mman := by
  have hm : Started (mmanIncrementRoot (genId s.mman).1 rootId) :=
    Started.incrementRoot (m := (genId s.mman).1)
      (hstarted.of_same rfl rfl rfl rfl rfl (Nat.le_succ _)) rootId
  have hid : s.mman.rootAddress rootId ≠ 0 := by simpa [mmanIsRoot] using hknown
  cases taskStep_cases hs h with
  | refused hunknown _ =>
    rw [hknown] at hunknown
    cases hunknown
  | @created rootId ts w _ _ hborn _ =>
    obtain ⟨L, hL⟩ := hm.tidy
    obtain ⟨hm', hup⟩ := hm.setUp hL hid ⟨hsupplied.pages, hsupplied.storage, hsupplied.channels⟩
      hborn.mman hborn.sin hborn.gin
    have hroots := mmanTaskSetup_roots hborn.mman
    exact ⟨hm', hroots.rootAddress, hroots.thisRootId, L, w, hL.counted.layout.pages, hup⟩

/-! ## A small machine -/

/-- Two empty roots, at `0x20000` and `0x21000`, and 256 free pages from `0x100000` on. -/
def smallMemory : Kmem where
  phys a := if a.toNat % 0x1000 = 0 ∧ 0x100000 ≤ a.toNat ∧ a.toNat < 0x1ff000 then a + 0x1000 else 0
  lastUnused := 0x100000
  handedOut := []

/-- Its free page of a number. -/
def smallPage (i : Nat) : Word := BitVec.ofNat 64 (i * 0x1000)

/-- A memory manager that was started on it. -/
structure SmallStart (m : Mman) : Prop where
  started : Started m
  kmem : m.kmem = smallMemory
  own : m.rootAddress (mmanOwnRoot m) = 0x20000
  root : m.rootAddress 0x1001 = 0x21000
  ownId : mmanOwnRoot m = 0x1000
  next : m.nextId = 0x1002
  count : ∀ q, m.rootCount q = if 0x1000 = q then 1 else 0

/-- A task table with three slots in use. -/
def smallTasks : TaskTable := fun slot index =>
  if slot ∈ [1, 2, 3] ∧ index = TaskState.state then taskStateValid else 0

/-- The scheduler on it. -/
def smallSched (m : Mman) : Sched :=
  .init m smallTasks .bump fun _ => ⟨0, 0, 0, 0, 0, 0, 0, fun _ => 0⟩

theorem toNat_smallPage {i : Nat} (hi : i < 512) : (smallPage i).toNat = i * 0x1000 := by
  rw [smallPage, BitVec.toNat_ofNat]
  omega

theorem smallMemory_pages : FreePages smallMemory ((List.range' 256 256).map smallPage) := by
  have hchain : ∀ n i, 256 ≤ i → i + n = 511 →
      Chain smallMemory.phys 0 (smallPage i) ((List.range' i (n + 1)).map smallPage) := by
    intro n
    induction n with
    | zero =>
      intro i hi hn
      obtain rfl : i = 511 := hn
      exact ⟨rfl, by decide, rfl⟩
    | succ n ih =>
      intro i hi hn
      have hpage := toNat_smallPage (show i < 512 by omega)
      rw [List.range'_succ, List.map_cons]
      refine ⟨rfl, fun h => ?_, ?_⟩
      · rw [h] at hpage
        have : (0 : Word).toNat = 0 := rfl
        omega
      · have hnext : smallMemory.phys (smallPage i) = smallPage (i + 1) := by
          change (if _ then _ else _) = _
          rw [if_pos (by omega), ← BitVec.toNat_inj, BitVec.toNat_add, hpage,
            toNat_smallPage (by omega), show (0x1000 : Word).toNat = 0x1000 from rfl]
          omega
        rw [hnext]
        exact ih (i + 1) (by omega) (by omega)
  exact hchain 255 256 le_rfl rfl

theorem smallMemory_blank : ∀ r ∈ [(0x21000 : Word), 0x20000], Blank smallMemory.phys r := by
  intro r hr i hi
  have hlow : r.toNat ≤ 0x21000 := by
    simp only [List.mem_cons, List.not_mem_nil, or_false] at hr
    rcases hr with rfl | rfl <;> decide
  have hslot : (slotAddr r i).toNat < 0x100000 := by
    rw [slotAddr, BitVec.toNat_add, BitVec.toNat_mul, BitVec.toNat_ofNat,
      show (8 : Word).toNat = 8 from rfl]
    omega
  have hzero : smallMemory.phys (slotAddr r i) = 0 := if_neg (by omega)
  rw [hzero]
  decide

theorem smallMemory_layout :
    Layout smallMemory allHeld [0x21000, 0x20000] ((List.range' 256 256).map smallPage) := by
  have hmem : ∀ p ∈ (List.range' 256 256).map smallPage, ∃ i, 256 ≤ i ∧ i < 512 ∧ smallPage i = p := by
    intro p hp
    obtain ⟨i, hi, rfl⟩ := List.mem_map.mp hp
    rw [List.mem_range'_1] at hi
    exact ⟨i, hi.1, hi.2, rfl⟩
  refine .of_blank smallMemory_pages (fun p hp => ?_) ?_ ?_ (fun p hp hroot => ?_) smallMemory_blank
  · obtain ⟨i, -, hi, rfl⟩ := hmem p hp
    have hpage := toNat_smallPage hi
    exact isFrame_of_lt (by rw [PageAligned]; omega) (by omega)
  · refine List.Nodup.map_on (fun i hi j hj heq => ?_) List.nodup_range'
    rw [List.mem_range'_1] at hi hj
    have := congrArg BitVec.toNat heq
    rw [toNat_smallPage hi.2, toNat_smallPage hj.2] at this
    omega
  · intro r hr
    simp only [List.mem_cons, List.not_mem_nil, or_false] at hr
    rcases hr with rfl | rfl <;> exact ⟨by rw [IsFrame]; decide, by decide⟩
  · obtain ⟨i, hge, hi, rfl⟩ := hmem p hp
    have hpage := toNat_smallPage hi
    simp only [List.mem_cons, List.not_mem_nil, or_false] at hroot
    rcases hroot with heq | heq <;> rw [heq] at hpage
    · rw [show (0x21000 : Word).toNat = 0x21000 from rfl] at hpage
      omega
    · rw [show (0x20000 : Word).toNat = 0x20000 from rfl] at hpage
      omega

theorem smallStart_mmanInit : SmallStart (mmanInit smallMemory 0x20000 0x21000) := by
  obtain ⟨hstarted, hkmem, hown, hroot, hownId, hnext, hcount⟩ := started_mmanInit smallMemory_layout
    (.of_blank (by decide) smallMemory_blank) (not_mapped_of_blank (smallMemory_blank _ (by simp)))
  exact ⟨hstarted, hkmem, hown, hroot, hownId, hnext, hcount⟩

section
variable {m : Mman} {s : Sched} {r : Nat}

theorem SmallStart.blank (h : SmallStart m) :
    ∀ r ∈ [(0x21000 : Word), 0x20000], ∀ va, ¬ Mapped m.phys r va := fun r hr va => by
  rw [Mman.phys, h.kmem]
  exact not_mapped_of_blank (smallMemory_blank r hr)

theorem SmallStart.known (h : SmallStart m) : mmanIsRoot m 0x1001 = true := by
  simp [mmanIsRoot, h.root]

/-- There is memory for a task, and two windows. -/
theorem SmallStart.supplied (h : SmallStart m) :
    Supplied m (m.rootAddress 0x1001) ∧ FreeWindows m.phys (m.rootAddress (mmanOwnRoot m)) := by
  have hmem : m.rootAddress 0x1001 ∈ m.roots :=
    mem_roots (search_of_rootAddress (by rw [h.root]; decide))
  obtain ⟨L, hL⟩ := h.started.tidy
  have hfree : ∀ va ∈ ownAddresses, isMapped m.phys (m.rootAddress 0x1001) va = false := by
    intro va hva
    rw [← Bool.not_eq_true]
    refine (not_congr (hL.counted.layout.isMapped_iff hmem (low_of_own hva))).mpr ?_
    rw [h.root]
    exact h.blank _ (by simp) va
  refine ⟨⟨⟨_, h.kmem ▸ smallMemory_pages, by simp⟩, ?_, ?_⟩, ?_⟩
  · exact ⟨0, 1, by omega, by omega, hfree _ (own_storage (by omega)), hfree _ (own_storage (by omega))⟩
  · exact ⟨0, 1, by omega, by omega, hfree _ (own_channel (by omega)), hfree _ (own_channel (by omega))⟩
  · rw [h.own]
    exact ⟨0, by omega, 1, by omega, by omega, h.blank _ (by simp) _, h.blank _ (by simp) _⟩

theorem smallTasks_firstFree : FirstFree smallTasks 4 := by
  refine ⟨by omega, by decide, fun j hj hlt => ?_⟩
  have hmem : j = 1 ∨ j = 2 ∨ j = 3 := by omega
  rcases hmem with rfl | rfl | rfl <;> decide

/-- A task can be created on it. -/
theorem SmallStart.create (h : SmallStart m) :
    ∃ s id, taskStep (smallSched m) (.create 0x1001) = some (s, id) :=
  taskStep_create_isSome (TaskInv.init ..) h.started h.known h.supplied.1 h.supplied.2
    (smallTasks_firstFree.found (by decide))

/-- It gets slot 4, with its root's address there. -/
theorem SmallStart.born (h : SmallStart m)
    (hs : taskStep (smallSched m) (.create 0x1001) = some (s, r)) :
    (∃ w, Born (smallSched m) s m.nextId 4 (smallSched m).heap.fresh 0x1001
      (mmanIncrementRoot (genId m).1 0x1001) w) ∧ s.tasks 4 TaskState.cr3 = 0x21000 := by
  cases taskStep_cases (TaskInv.init ..) hs with
  | refused hunknown _ =>
    have hunknown : mmanIsRoot m 0x1001 = false := hunknown
    rw [h.known] at hunknown
    cases hunknown
  | created _ hfound hborn hcr3 =>
    obtain rfl := (firstFree_of_found hfound).unique smallTasks_firstFree
    exact ⟨⟨_, hborn⟩, hcr3.trans h.root⟩

/-- The next id is the one behind it. -/
theorem SmallStart.nextId_created (h : SmallStart m)
    (hs : taskStep (smallSched m) (.create 0x1001) = some (s, r)) : s.mman.nextId = 0x1003 := by
  obtain ⟨⟨w, hborn⟩, -⟩ := h.born hs
  have hnext := (mmanTaskSetup_roots hborn.mman).nextId
  have hinc : ∀ root, (mmanIncrementRoot (genId m).1 root).nextId = m.nextId + 1 := fun _ => rfl
  rw [hinc, h.next] at hnext
  exact hnext

/-- Its root's address is nobody's id. -/
theorem SmallStart.count_cr3 (h : SmallStart m)
    (hs : taskStep (smallSched m) (.create 0x1001) = some (s, r)) :
    s.mman.rootCount (s.tasks 4 TaskState.cr3).toNat = 0 := by
  obtain ⟨⟨w, hborn⟩, hcr3⟩ := h.born hs
  have hinc : (mmanIncrementRoot (genId m).1 0x1001).rootCount 0x21000 = 0 := by
    rw [rootCount_mmanIncrementRoot, show (genId m).1.rootCount 0x21000 = m.rootCount 0x21000 from rfl,
      h.count, if_neg (by omega), if_neg (by omega)]
  have hcount : s.mman.rootCount 0x21000 = 0 := by
    rw [(mmanTaskSetup_roots hborn.mman).rootCount]
    exact hinc
  rw [hcr3]
  exact hcount

/-- There is still memory then for another one. -/
theorem SmallStart.created (h : SmallStart m)
    (hs : taskStep (smallSched m) (.create 0x1001) = some (s, r)) :
    TaskInv s ∧ Started s.mman ∧ mmanIsRoot s.mman 0x1001 = true ∧
      Supplied s.mman (s.mman.rootAddress 0x1001) ∧
      FreeWindows s.mman.phys (s.mman.rootAddress (mmanOwnRoot s.mman)) := by
  have htasks : TaskInv (smallSched m) := TaskInv.init ..
  obtain ⟨hstarted, haddr, hown, L, w, hpages, hup⟩ :=
    Started.created htasks h.started h.known h.supplied.1 hs
  have hmem : (0x21000 : Word) ∈ m.roots :=
    h.root ▸ mem_roots (search_of_rootAddress (by rw [h.root]; decide))
  have hmemOwn : (0x20000 : Word) ∈ m.roots :=
    h.own ▸ mem_roots (search_of_rootAddress (by rw [h.own]; decide))
  obtain ⟨L', hL⟩ := h.started.tidy
  have hlen : 60 ≤ L.length := by
    rw [hpages.unique (show FreePages m.kmem _ from h.kmem ▸ smallMemory_pages)]
    simp
  change TablesSetUp m.roots L 0x1001 (m.rootAddress 0x1001) (m.rootAddress (mmanOwnRoot m)) w _ _ at hup
  rw [h.root, h.own] at hup
  obtain ⟨hsupplied, hwin⟩ := hup.room hmem hmemOwn hL.own hlen (h.blank _ (by simp)) (h.blank _ (by simp))
  refine ⟨htasks.step (taskStep_cases htasks hs), hstarted, ?_, ?_, ?_⟩
  · simp only [mmanIsRoot, haddr]
    exact h.known
  · rw [haddr]
    exact h.root ▸ hsupplied
  · rw [hown, haddr]
    exact h.own ▸ hwin

/-- And nobody has said that the slot is taken. -/
theorem SmallStart.create_again (h : SmallStart m)
    (hs : taskStep (smallSched m) (.create 0x1001) = some (s, r)) :
    mmanIsRoot s.mman 0x1001 = true ∧ ∃ s' id, taskStep s (.create 0x1001) = some (s', id) := by
  obtain ⟨htasks, hstarted, hknown, hsupplied, hwin⟩ := h.created hs
  have hslot : FirstFree s.tasks 4 := by
    obtain ⟨⟨w, hborn⟩, -⟩ := h.born hs
    exact hborn.firstFree smallTasks_firstFree
  exact ⟨hknown, taskStep_create_isSome htasks hstarted hknown hsupplied hwin
    (hslot.found (by decide))⟩

/-- Once it is said, the other one gets slot 5. -/
theorem SmallStart.create_other (h : SmallStart m)
    (hs : taskStep (smallSched m) (.create 0x1001) = some (s, r)) {s₁ : Sched}
    (hs₁ : s₁ = { s with tasks := s.tasks.set 4 TaskState.state taskStateValid }) :
    FirstFree s₁.tasks 5 ∧ ∃ s' id, taskStep s₁ (.create 0x1001) = some (s', id) := by
  obtain ⟨htasks, hstarted, hknown, hsupplied, hwin⟩ := h.created hs
  obtain ⟨⟨w, hborn⟩, -⟩ := h.born hs
  have hother : ∀ slot, slot ≠ 4 → s₁.tasks slot = smallTasks slot := by
    intro slot hne
    rw [hs₁]
    exact (TaskTable.set_of_slot_ne hne).trans (hborn.tasks slot hne)
  have hslot : FirstFree s₁.tasks 5 := by
    refine ⟨by omega, ?_, fun j hj hlt => ?_⟩
    · rw [hother 5 (by omega)]
      decide
    · by_cases heq : j = 4
      · have hstate : s₁.tasks 4 TaskState.state = taskStateValid := by
          rw [hs₁]
          change s.tasks.set 4 TaskState.state taskStateValid 4 TaskState.state = taskStateValid
          exact TaskTable.set_self
        rw [heq, TaskState.Valid, hstate]
        decide
      · rw [hother j heq]
        exact smallTasks_firstFree.2.2 j hj (by omega)
  have htasks₁ : TaskInv s₁ := by
    rw [hs₁]
    exact ⟨htasks.noObjects, htasks.live, htasks.bound⟩
  refine ⟨hslot, taskStep_create_isSome htasks₁ ?_ ?_ ?_ ?_ (hslot.found (by decide))⟩
  · rw [hs₁]
    exact hstarted
  · rw [hs₁]
    exact hknown
  · rw [hs₁]
    exact hsupplied
  · rw [hs₁]
    exact hwin

end

end Refk
