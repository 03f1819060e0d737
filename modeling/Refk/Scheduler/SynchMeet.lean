import Refk.Klib.Work
import Refk.Scheduler.Listen
import Refk.Scheduler.SynchIndex
import Refk.Scheduler.SynchWait

/-!
# Where waiters and wakers meet

`SCHED_WAIT` and `SCHED_WAKE` turn a virtual address of the requester into a key with
`mman_get_phy`, and the key into an object. For a mapped address the key is its physical address.
For the others it is something else that looks like one: all ones for a root nobody knows, zero
where a table is missing, and what is left of the entry where the entry is not present. Two
requests with one key have one object, whatever the key stands for.
-/

namespace Refk

open Lib

inductive SynchKind
  | wait
  | wake
  deriving DecidableEq

/-- A `SCHED_WAIT` or `SCHED_WAKE` of a task. -/
structure SynchRequest where
  kind : SynchKind
  taskId : Nat
  rootId : Nat
  address : Word
  value : Word
  count : Word

namespace SynchRequest

variable (r : SynchRequest) (s : Sched) (m : Mman)

/-- The key of the object. -/
def name : Word := mmanGetPhy m r.rootId r.address

/-- The object the request acts on, `0` for none, and the state if it is made for it. -/
def lookup : Sched × Nat :=
  match r.kind with
  | .wait => synchObject s (r.name s.mman)
  | .wake => (s, synchFromPhy s (r.name s.mman))

/-- The request, with the result that is reported. -/
def act : Option (Sched × Int) :=
  match r.kind with
  | .wait =>
    let (s, obj) := r.lookup s
    if obj = 0 then some (s, -1) else synchWait s r.taskId obj r.value
  | .wake =>
    let (s, obj) := r.lookup s
    if obj = 0 then some (s, 1) else (synchWake s obj r.value r.count).map fun s => (s, 0)

/-- The address is mapped in a root that is known. -/
def IsMapped : Prop :=
  m.rootAddress r.rootId ≠ 0 ∧ Mapped m.phys (m.rootAddress r.rootId) r.address

/-- The word that the address translates to, through a page of 4 KB. -/
def word : Option Word :=
  if m.rootAddress r.rootId = 0 then none
  else (mapping m.phys (m.rootAddress r.rootId) r.address).map fun entry =>
    (entry &&& kmemFrameMask) ||| (r.address &&& 0xfff)

/-- The walk for the address meets no larger page. -/
def Plain : Prop :=
  ∀ k < 3, ∀ t, tableAt m.phys (m.rootAddress r.rootId) r.address k = some t →
    Present (m.phys (cell t r.address k)) → ¬ IsPage k (m.phys (cell t r.address k))

end SynchRequest

theorem queue_synchObject (s : Sched) (phy : Word) : (synchObject s phy).1.queue = s.queue := by
  simp only [synchObject]
  split_ifs
  · obtain ⟨_, _, _, -, -, -, -, -, heq⟩ := synchMake_spec s phy
    rw [heq]
  · rfl

/-- `SCHED_WAIT` is that. -/
theorem handleWait_act (s : Sched) (q : Nat) (l : Locals) {i : TaskInfo}
    (h : s.entryInfo q = some i) :
    handleWait s q l =
      (SynchRequest.act ⟨.wait, (s.queue q).taskId, i.rootId, l.arg 0, l.arg 1, 0⟩ s).map
        fun p => (p.1, l.result (resultWord p.2)) := by
  have hact : SynchRequest.act ⟨.wait, (s.queue q).taskId, i.rootId, l.arg 0, l.arg 1, 0⟩ s =
      if (synchObject s (mmanGetPhy s.mman i.rootId (l.arg 0))).2 = 0
      then some ((synchObject s (mmanGetPhy s.mman i.rootId (l.arg 0))).1, -1)
      else synchWait (synchObject s (mmanGetPhy s.mman i.rootId (l.arg 0))).1 (s.queue q).taskId
        (synchObject s (mmanGetPhy s.mman i.rootId (l.arg 0))).2 (l.arg 1) := rfl
  have hqueue := queue_synchObject s (mmanGetPhy s.mman i.rootId (l.arg 0))
  simp only [handleWait, h, Option.bind_eq_bind, Option.bind_some, hact, hqueue]
  split_ifs
  · rfl
  · cases synchWait (synchObject s (mmanGetPhy s.mman i.rootId (l.arg 0))).1 (s.queue q).taskId
      (synchObject s (mmanGetPhy s.mman i.rootId (l.arg 0))).2 (l.arg 1) <;> rfl

/-- And `SCHED_WAKE`. -/
theorem handleWake_act (s : Sched) (q : Nat) (l : Locals) {i : TaskInfo}
    (h : s.entryInfo q = some i) :
    handleWake s q l =
      (SynchRequest.act ⟨.wake, (s.queue q).taskId, i.rootId, l.arg 0, l.arg 1, l.arg 2⟩ s).map
        fun p => (p.1, l.result (resultWord p.2)) := by
  have hact : SynchRequest.act
      ⟨.wake, (s.queue q).taskId, i.rootId, l.arg 0, l.arg 1, l.arg 2⟩ s =
      if synchFromPhy s (mmanGetPhy s.mman i.rootId (l.arg 0)) = 0 then some (s, 1)
      else (synchWake s (synchFromPhy s (mmanGetPhy s.mman i.rootId (l.arg 0))) (l.arg 1)
        (l.arg 2)).map fun s => (s, 0) := rfl
  simp only [handleWake, h, Option.bind_eq_bind, Option.bind_some, hact]
  split_ifs
  · rfl
  · cases synchWake s (synchFromPhy s (mmanGetPhy s.mman i.rootId (l.arg 0))) (l.arg 1)
      (l.arg 2) <;> rfl

/-- Both requests act on an object, and it is the same one exactly if they name the same
    word. -/
def MeetExactly (s s₂ : Sched) (r₁ r₂ : SynchRequest) : Prop :=
  (r₁.lookup s).2 ≠ 0 → (r₂.lookup s₂).2 ≠ 0 →
    ((r₂.lookup s₂).2 = (r₁.lookup s).2 ↔ ∃ w, r₁.word s.mman = some w ∧ r₂.word s.mman = some w)

/-- A wait at an address that is not mapped fails, and changes nothing. -/
def RefusesUnmapped (s : Sched) (r : SynchRequest) : Prop :=
  r.kind = .wait → ¬ r.IsMapped s.mman → ∃ result, r.act s = some (s, result) ∧ result ≠ 0

/-- Every object in the tree is live and has its key's address. -/
def Named (s : Sched) : Prop :=
  ∀ phy p, s.synchObjects.search phy = some p → ∃ o, s.object? p = some o ∧ o.phyAddr = phy

theorem Indexed.named {s : Sched} (h : Indexed s) : Named s := fun phy p hp =>
  (h.objects phy p).mp hp

/-- From `s` to `s'` the address spaces stay as they are, and the objects that were there are
    there. -/
structure Later (s s' : Sched) : Prop where
  mman : s'.mman = s.mman
  named : Named s'
  kept : ∀ phy, synchFromPhy s phy ≠ 0 → synchFromPhy s' phy = synchFromPhy s phy

theorem mman_synchMake (s : Sched) (phy : Word) : (synchMake s phy).1.mman = s.mman := by
  obtain ⟨_, _, _, -, -, -, -, -, heq⟩ := synchMake_spec s phy
  rw [heq]

section
variable {s s₂ : Sched} {r r₁ r₂ : SynchRequest} {m : Mman} {phy phy' : Word}

/-! ## Objects and their keys -/

theorem search_of_synchFromPhy (h : synchFromPhy s phy ≠ 0) :
    s.synchObjects.search phy = some (synchFromPhy s phy) := by
  unfold synchFromPhy at h ⊢
  cases hs : s.synchObjects.search phy with
  | none => simp [hs] at h
  | some p => rfl

/-- An object has one key. -/
theorem Named.injective (h : Named s) (hp : synchFromPhy s phy ≠ 0)
    (heq : synchFromPhy s phy = synchFromPhy s phy') : phy = phy' := by
  obtain ⟨o, ho, rfl⟩ := h phy _ (search_of_synchFromPhy hp)
  obtain ⟨o', ho', rfl⟩ := h phy' _ (search_of_synchFromPhy (heq ▸ hp))
  rw [← heq, ho] at ho'
  rw [Option.some.inj ho']

/-- Making an object keeps the others, and their keys. -/
theorem Named.make (h : Named s) (hnew : synchFromPhy s phy = 0) :
    Named (synchMake s phy).1 ∧ synchFromPhy (synchMake s phy).1 phy = (synchMake s phy).2 ∧
      (synchMake s phy).2 ≠ 0 ∧ ∀ phy', synchFromPhy s phy' ≠ 0 →
        synchFromPhy (synchMake s phy).1 phy' = synchFromPhy s phy' := by
  obtain ⟨pobj, hmade⟩ := synchMake_made s phy
  have hret : (synchMake s phy).1.object? (synchMake s phy).2 = some ⟨phy, 0⟩ :=
    (hmade.object _ _).mpr (.inl ⟨rfl, rfl⟩)
  refine ⟨fun phy' p hp => ?_, ?_, Heap.ne_zero_of_cells (Sched.object?_eq_some.mp hret),
    fun phy' hp => ?_⟩
  · rw [hmade.synchObjects] at hp
    split_ifs at hp with heq
    · obtain rfl := Option.some.inj hp
      exact ⟨_, hret, heq⟩
    · obtain ⟨o, ho, hphy⟩ := h phy' p hp
      exact ⟨o, (hmade.object _ _).mpr (.inr ho), hphy⟩
  · rw [synchFromPhy, hmade.synchObjects, if_pos rfl, Option.getD_some]
  · have hne : phy ≠ phy' := fun heq => hp (heq ▸ hnew)
    rw [synchFromPhy, hmade.synchObjects, if_neg hne]
    rfl

/-- **What a lookup leaves**: the objects there were, and what it answers under its key. -/
theorem Named.lookup (h : Named s) (r : SynchRequest) :
    Later s (r.lookup s).1 ∧ synchFromPhy (r.lookup s).1 (r.name s.mman) = (r.lookup s).2 := by
  unfold SynchRequest.lookup
  cases r.kind with
  | wake => exact ⟨⟨rfl, h, fun _ _ => rfl⟩, rfl⟩
  | wait =>
    simp only [synchObject]
    by_cases hnew : synchFromPhy s (r.name s.mman) = 0
    · obtain ⟨hnamed, heq, -, hkept⟩ := h.make hnew
      rw [if_pos hnew]
      exact ⟨⟨mman_synchMake s _, hnamed, hkept⟩, heq⟩
    · rw [if_neg hnew]
      exact ⟨⟨rfl, h, fun _ _ => rfl⟩, rfl⟩

theorem Named.lookup_wait (h : Named s) (hkind : r.kind = .wait) : (r.lookup s).2 ≠ 0 := by
  simp only [SynchRequest.lookup, hkind, synchObject]
  by_cases hnew : synchFromPhy s (r.name s.mman) = 0
  · rw [if_pos hnew]
    exact (h.make hnew).2.2.1
  · rwa [if_neg hnew]

/-- **One object, one key.** -/
theorem same_object_iff (hs : Named s) (hlater : Later (r₁.lookup s).1 s₂)
    (h₁ : (r₁.lookup s).2 ≠ 0) :
    (r₂.lookup s₂).2 = (r₁.lookup s).2 ↔ r₁.name s.mman = r₂.name s.mman := by
  obtain ⟨hfirst, hname₁⟩ := hs.lookup r₁
  obtain ⟨hsecond, hname₂⟩ := hlater.named.lookup r₂
  rw [hlater.mman, hfirst.mman] at hname₂
  -- the first object is still under its key after the second request
  have hstill : synchFromPhy s₂ (r₁.name s.mman) = (r₁.lookup s).2 := by
    rw [hlater.kept _ (hname₁ ▸ h₁), hname₁]
  have hlast : synchFromPhy (r₂.lookup s₂).1 (r₁.name s.mman) = (r₁.lookup s).2 := by
    rw [hsecond.kept _ (hstill ▸ h₁), hstill]
  rw [← hname₂, ← hlast]
  constructor
  · intro heq
    exact hsecond.named.injective (hlast ▸ h₁) heq.symm
  · intro heq
    rw [heq]

/-! ## Keys and words -/

/-- **The key of a mapped address is its word.** -/
theorem word_eq_name (hmap : r.IsMapped m) :
    r.word m = some (r.name m) := by
  obtain ⟨hroot, t, ht, hp⟩ := hmap
  have hsame : SamePrefix 4 (r.address &&& pageMask) r.address := by
    rw [samePrefix_four_iff, pageNumber, pageNumber, toNat_and_pageMask]
    omega
  obtain ⟨habove, hidx⟩ := samePrefix_succ.mp hsame
  have hwalk : kmemPagingAddr m.phys (m.rootAddress r.rootId) (r.address &&& pageMask) 3 =
      some (cell t r.address 3) := by
    rw [kmemPagingAddr_of_table ((tableAt_samePrefix habove).trans ht), cell, hidx, ← cell]
  rw [SynchRequest.word, if_neg hroot, mapping_of_table ht hp, SynchRequest.name, mmanGetPhy,
    if_neg hroot, hwalk]
  rfl

/-- Off the larger pages, what translates is mapped. -/
theorem isMapped_of_word {w : Word} (hplain : r.Plain m) (hw : r.word m = some w) :
    r.IsMapped m := by
  unfold SynchRequest.word at hw
  split_ifs at hw with hroot
  refine ⟨hroot, ?_⟩
  obtain ⟨entry, hentry, -⟩ := Option.map_eq_some_iff.mp hw
  by_contra hnone
  have htrans : translate m.phys (m.rootAddress r.rootId) r.address = none := by
    refine translate_eq_none_iff.mpr fun d hd => pageAt_eq_none_iff.mpr fun e he hh => ?_
    rw [entryAt, Option.map_eq_some_iff] at he
    obtain ⟨t, ht, rfl⟩ := he
    by_cases hlast : d = 3
    · subst hlast
      exact hnone ⟨t, ht, hh.1⟩
    · exact hplain d (by omega) t ht hh.1 hh.2
  rw [mapping, htrans] at hentry
  cases hentry

/-- Two plain addresses name one word exactly if both are mapped and have one key. -/
theorem same_word_iff (h₁ : r₁.Plain m) (h₂ : r₂.Plain m) :
    (∃ w, r₁.word m = some w ∧ r₂.word m = some w) ↔
      (r₁.IsMapped m ∧ r₂.IsMapped m) ∧ r₁.name m = r₂.name m := by
  constructor
  · rintro ⟨w, hw₁, hw₂⟩
    have hm₁ := isMapped_of_word h₁ hw₁
    have hm₂ := isMapped_of_word h₂ hw₂
    refine ⟨⟨hm₁, hm₂⟩, ?_⟩
    rw [word_eq_name hm₁] at hw₁
    rw [word_eq_name hm₂] at hw₂
    exact Option.some.inj (hw₁.trans hw₂.symm)
  · rintro ⟨⟨hm₁, hm₂⟩, heq⟩
    exact ⟨r₁.name m, word_eq_name hm₁, heq ▸ word_eq_name hm₂⟩

end

/-! ## Meeting -/

/-- The two addresses do not share a key that is no address. -/
def KeptApart (s : Sched) (r₁ r₂ : SynchRequest) : Prop :=
  (r₁.IsMapped s.mman ∧ r₂.IsMapped s.mman) ∨ r₁.name s.mman ≠ r₂.name s.mman ∨
    (r₁.kind = .wake ∧ synchFromPhy s (r₁.name s.mman) = 0)

/-- A wait is at a mapped address, or its key has an object with another value already. -/
def Careful (s : Sched) (r : SynchRequest) : Prop :=
  r.IsMapped s.mman ∨ r.kind = .wake ∨
    (synchFromPhy s (r.name s.mman) ≠ 0 ∧ s.mman.phys (r.name s.mman) ≠ r.value)

section
variable {s s₂ : Sched} {r r₁ r₂ : SynchRequest}

theorem meetExactly_iff (hs : Named s) (hlater : Later (r₁.lookup s).1 s₂)
    (h₁ : r₁.Plain s.mman) (h₂ : r₂.Plain s.mman) :
    MeetExactly s s₂ r₁ r₂ ↔ KeptApart s r₁ r₂ := by
  constructor
  · intro hmeet
    by_cases hidle : r₁.kind = .wake ∧ synchFromPhy s (r₁.name s.mman) = 0
    · exact .inr (.inr hidle)
    by_cases hname : r₁.name s.mman = r₂.name s.mman
    · have hfound₁ : (r₁.lookup s).2 ≠ 0 := by
        cases hkind : r₁.kind with
        | wait => exact hs.lookup_wait hkind
        | wake =>
          rw [← (hs.lookup r₁).2, SynchRequest.lookup, hkind]
          exact fun h₀ => hidle ⟨hkind, h₀⟩
      have hsame := (same_object_iff hs hlater hfound₁).mpr hname
      have hwords := (hmeet hfound₁ (hsame ▸ hfound₁)).mp hsame
      exact .inl ((same_word_iff h₁ h₂).mp hwords).1
    · exact .inr (.inl hname)
  · intro hapart hfound₁ _
    rw [same_object_iff hs hlater hfound₁, same_word_iff h₁ h₂]
    rcases hapart with hmapped | hname | ⟨hkind, hnone⟩
    · exact ⟨fun heq => ⟨hmapped, heq⟩, fun h => h.2⟩
    · exact ⟨fun heq => absurd heq hname, fun h => h.2⟩
    · refine absurd ?_ hfound₁
      rw [SynchRequest.lookup, hkind]
      exact hnone

/-- **A wait at an unmapped address**: it fails only where it finds an object already. -/
theorem refusesUnmapped_iff (hs : Named s) : RefusesUnmapped s r ↔ Careful s r := by
  by_cases hmap : r.IsMapped s.mman
  · exact ⟨fun _ => .inl hmap, fun _ _ hun => absurd hmap hun⟩
  cases hkind : r.kind with
  | wake => exact ⟨fun _ => .inr (.inl hkind), fun _ hwait => nomatch hkind.symm.trans hwait⟩
  | wait =>
    have hfound := hs.lookup_wait hkind
    constructor
    · intro hrefuse
      obtain ⟨result, hact, hresult⟩ := hrefuse hkind hmap
      simp only [SynchRequest.act, hkind, if_neg hfound] at hact
      obtain ⟨o, ho, ⟨hword, hsame, -⟩ | ⟨-, hzero, -⟩⟩ := synchWait_cases hact
      · obtain ⟨-, hname⟩ := hs.lookup r
        rw [← hsame] at ho hword hname
        obtain ⟨o', ho', hphy⟩ := hs _ _ (search_of_synchFromPhy (hname ▸ hfound))
        rw [hname, ho] at ho'
        obtain rfl := Option.some.inj ho'
        exact .inr (.inr ⟨hname ▸ hfound, hphy ▸ hword⟩)
      · exact absurd hzero hresult
    · rintro (hmapped | hwake | ⟨hold, hword⟩) _ _
      · exact absurd hmapped hmap
      · exact nomatch hkind.symm.trans hwake
      · have hlookup : r.lookup s = (s, synchFromPhy s (r.name s.mman)) := by
          simp only [SynchRequest.lookup, hkind, synchObject, if_neg hold]
        obtain ⟨o, ho, hphy⟩ := hs _ _ (search_of_synchFromPhy hold)
        refine ⟨1, ?_, by decide⟩
        simp only [SynchRequest.act, hkind, hlookup, if_neg hold]
        simp only [synchWait, ho, Option.bind_eq_bind, Option.bind_some, hphy, if_neg hword]
        rfl

end

/-- **Two tasks meet exactly on the words they share**, and no wait is accepted at an address
    that is not mapped, as long as no such address has the key of another one, or of none. -/
theorem tasks_meet_exactly {s s₂ : Sched} {r₁ r₂ : SynchRequest} (hs : Named s)
    (hlater : Later (r₁.lookup s).1 s₂) (h₁ : r₁.Plain s.mman) (h₂ : r₂.Plain s.mman) :
    (MeetExactly s s₂ r₁ r₂ ∧ RefusesUnmapped s r₁ ∧ RefusesUnmapped s₂ r₂) ↔
      KeptApart s r₁ r₂ ∧ Careful s r₁ ∧ Careful s₂ r₂ := by
  rw [meetExactly_iff hs hlater h₁ h₂, refusesUnmapped_iff hs, refusesUnmapped_iff hlater.named]

/-- The tables of root 1, which maps `0x2000`, and of root 2, which maps `0`: one frame. -/
def sharedWords : List (Word × Word) :=
  [(0x10000, 0x11007), (0x11000, 0x12007), (0x12000, 0x13007), (0x13010, 0x44007),
    (0x20000, 0x21007), (0x21000, 0x22007), (0x22000, 0x23007), (0x23000, 0x44007)]

def sharedPage : Sched :=
  { noTasks with mman := { noTasks.mman with
      kmem := ⟨fun a => (sharedWords.lookup a).getD 0, 0, []⟩
      rootMap := ((noTasks.mman.rootMap.insert 1 0x10000).1.insert 2 0x20000).1 } }

theorem sharedPage_named : Named sharedPage := fun _ _ h => nomatch h

/-- A wait of one task and a wake of another, at the addresses of one word. -/
def sharedWait : SynchRequest := ⟨.wait, 7, 1, 0x2010, 0, 0⟩

def sharedWake : SynchRequest := ⟨.wake, 8, 2, 0x10, 1, 1⟩

theorem sharedWait_isMapped : sharedWait.IsMapped sharedPage.mman :=
  ⟨by decide, 0x13000, by decide, by decide⟩

theorem sharedWake_isMapped : sharedWake.IsMapped sharedPage.mman :=
  ⟨by decide, 0x23000, by decide, by decide⟩

theorem sharedPage_plain {r : SynchRequest} (hr : r = sharedWait ∨ r = sharedWake) :
    r.Plain sharedPage.mman := by
  intro k hk t ht hp
  rcases hr with rfl | rfl
  all_goals
    interval_cases k
    all_goals
      cases ht
      decide

/-- Two tasks share a page under different addresses, and the wake finds what the wait made. -/
theorem tasks_meet_exactly_of_shared :
    (sharedWake.lookup (sharedWait.lookup sharedPage).1).2 = (sharedWait.lookup sharedPage).2 ∧
      RefusesUnmapped sharedPage sharedWait := by
  obtain ⟨hmeet, hrefuses, -⟩ := (tasks_meet_exactly sharedPage_named
    ⟨rfl, (sharedPage_named.lookup sharedWait).1.named, fun _ _ => rfl⟩
    (sharedPage_plain (.inl rfl)) (sharedPage_plain (.inr rfl))).mpr
    ⟨.inl ⟨sharedWait_isMapped, sharedWake_isMapped⟩, .inl sharedWait_isMapped, .inr (.inl rfl)⟩
  exact ⟨(hmeet (by decide) (by decide)).mpr ⟨0x44010, by decide, by decide⟩, hrefuses⟩

/-- Root 1 at `0x3000`, with nothing mapped. -/
def oneRoot : Sched :=
  { noTasks with mman := { noTasks.mman with
      rootMap := (noTasks.mman.rootMap.insert 1 0x3000).1 } }

theorem oneRoot_absent {a : Word} : oneRoot.mman.phys a &&& 1 = 0 := by
  change (0 : Word) &&& 1 = 0
  decide

theorem oneRoot_named : Named oneRoot := fun _ _ h => nomatch h

/-- A wait at a place of root 1. -/
def waitAt (address : Word) : SynchRequest := ⟨.wait, 7, 1, address, 0, 0⟩

theorem waitAt_plain (address : Word) : (waitAt address).Plain oneRoot.mman :=
  fun _ _ _ _ hp => absurd oneRoot_absent hp

theorem not_isMapped_waitAt (address : Word) : ¬ (waitAt address).IsMapped oneRoot.mman :=
  fun ⟨_, _, _, hp⟩ => hp oneRoot_absent

/-- Nothing is mapped, and the two waits have one object. -/
theorem unmapped_waits_meet : ¬ ∀ (s s₂ : Sched) (r₁ r₂ : SynchRequest), Named s →
    Later (r₁.lookup s).1 s₂ → r₁.Plain s.mman → r₂.Plain s.mman →
      MeetExactly s s₂ r₁ r₂ ∧ RefusesUnmapped s r₁ ∧ RefusesUnmapped s₂ r₂ := by
  intro hall
  obtain ⟨hmeet, -⟩ := hall oneRoot ((waitAt 0).lookup oneRoot).1 (waitAt 0) (waitAt 0x1000)
    oneRoot_named ⟨rfl, (oneRoot_named.lookup _).1.named, fun _ _ => rfl⟩
    (waitAt_plain 0) (waitAt_plain 0x1000)
  obtain ⟨_, hw, -⟩ := (hmeet (by decide) (by decide)).mp (by decide)
  exact not_isMapped_waitAt 0 (isMapped_of_word (waitAt_plain 0) hw)

end Refk
