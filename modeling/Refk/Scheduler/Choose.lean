import Refk.Klib.Task
import Refk.Lib.Cyclic

/-!
# `kernel/scheduler/scheduler.c` — which task is next

`choose_next` looks at the slots behind the current one, goes on from the front, and leaves out slot
0 and the current slot. It falls back on the current task if that is not blocked.
-/

namespace Refk

open Lib

/-- `wanted_value` -/
def wantedValue : Word := taskStateValid ||| taskStateRunnable

/-- `wanted_mask` -/
def wantedMask : Word := taskStateValid ||| taskStateRunnable ||| taskStateBlocked

/-- A slot that the loop stops at: one that is not task 0, with the wanted value. -/
def Wanted (tasks : TaskTable) (i : Nat) : Prop :=
  i ≠ 0 ∧ tasks i TaskState.state &&& wantedMask = wantedValue

instance (tasks : TaskTable) (i : Nat) : Decidable (Wanted tasks i) :=
  inferInstanceAs (Decidable (_ ∧ _))

/-- `choose_next`, as a slot; `none` is null. -/
def chooseNext (tasks : TaskTable) (current : Nat) : Option Nat :=
  let nts := if (tasks current).Blocked then none else some current
  match (List.range' 1 (numTasks - 1)).find? fun off =>
    Wanted tasks ((current + off) % numTasks) with
  | some off => some ((current + off) % numTasks)
  | none => nts

/-! ## Fairness -/

/-- A slot that may run. -/
structure Eligible (tasks : TaskTable) (i : Nat) : Prop where
  ne_zero : i ≠ 0
  lt : i < numTasks
  valid : (tasks i).Valid
  runnable : (tasks i).Runnable
  not_blocked : ¬ (tasks i).Blocked

/-- The first slot behind `current`, going round, that may run. -/
def FirstBehind (tasks : TaskTable) (current next : Nat) : Prop :=
  ∃ off, 1 ≤ off ∧ off < numTasks ∧ next = (current + off) % numTasks ∧ Eligible tasks next ∧
    ∀ off', 1 ≤ off' → off' < off → ¬ Eligible tasks ((current + off') % numTasks)

/-- The slots that may run, in the order of the table. -/
def eligibleSlots (tasks : TaskTable) : List Nat :=
  (List.range numTasks).filter fun i => Wanted tasks i

/-- **What `choose_next` is for**: the next one that may run, else the current one unless it is
    blocked; and from one that may run it goes round all of them. -/
structure ChoosesFairly (tasks : TaskTable) (current : Nat) : Prop where
  first : ∀ next, FirstBehind tasks current next → chooseNext tasks current = some next
  alone : (∀ i, Eligible tasks i → i = current) →
    chooseNext tasks current = if (tasks current).Blocked then none else some current
  null : chooseNext tasks current = none ↔
    (tasks current).Blocked ∧ ∀ i, Eligible tasks i → i = current
  round : Eligible tasks current → ∀ i, Eligible tasks i →
    ∃! n, n < (eligibleSlots tasks).length ∧ walk (chooseNext tasks) n current = some i
  back : Eligible tasks current →
    walk (chooseNext tasks) (eligibleSlots tasks).length current = some current

section
variable {tasks : TaskTable} {current next i off : Nat} {w : Word}

theorem and_one_bit (w : Word) (k : Nat) (hk : k < 64) :
    w &&& BitVec.twoPow 64 k ≠ 0 ↔ w &&& BitVec.twoPow 64 k = BitVec.twoPow 64 k := by
  rw [BitVec.and_twoPow]
  have hne : BitVec.twoPow 64 k ≠ 0 := by
    intro hzero
    have hbit := congrArg (BitVec.getLsbD · k) hzero
    simp [hk] at hbit
  cases hbit : w.getLsbD k with
  | true => exact iff_of_true hne rfl
  | false => exact iff_of_false (fun h => h rfl) (fun h => hne h.symm)

/-- The three flags, as one comparison. -/
theorem wanted_iff : w &&& wantedMask = wantedValue ↔
    w &&& taskStateValid ≠ 0 ∧ w &&& taskStateRunnable ≠ 0 ∧ w &&& taskStateBlocked = 0 := by
  have hvalid : w &&& taskStateValid ≠ 0 ↔ w &&& taskStateValid = taskStateValid :=
    and_one_bit w 0 (by decide)
  have hrunnable : w &&& taskStateRunnable ≠ 0 ↔ w &&& taskStateRunnable = taskStateRunnable :=
    and_one_bit w 1 (by decide)
  rw [hvalid, hrunnable]
  constructor
  · intro h
    have hpart : ∀ m : Word, wantedMask &&& m = m → w &&& m = wantedValue &&& m := by
      intro m hm
      rw [← h, BitVec.and_assoc, hm]
    exact ⟨hpart _ (by decide), hpart _ (by decide), hpart _ (by decide)⟩
  · rintro ⟨h₁, h₂, h₃⟩
    rw [wantedMask, BitVec.and_or_distrib_left, BitVec.and_or_distrib_left, h₁, h₂, h₃]
    rfl

theorem eligible_iff : Eligible tasks i ↔ Wanted tasks i ∧ i < numTasks := by
  constructor
  · intro h
    exact ⟨⟨h.ne_zero, wanted_iff.mpr ⟨h.valid, h.runnable, not_not.mp h.not_blocked⟩⟩, h.lt⟩
  · rintro ⟨⟨hne, hw⟩, hlt⟩
    obtain ⟨hvalid, hrunnable, hblocked⟩ := wanted_iff.mp hw
    exact ⟨hne, hlt, hvalid, hrunnable, not_not.mpr hblocked⟩

theorem mem_eligibleSlots : i ∈ eligibleSlots tasks ↔ Eligible tasks i := by
  rw [eligibleSlots, List.mem_filter, List.mem_range, decide_eq_true_eq, eligible_iff, and_comm]

theorem numTasks_pos : 0 < numTasks := by decide

theorem eligible_mod : Eligible tasks (i % numTasks) ↔ Wanted tasks (i % numTasks) :=
  eligible_iff.trans (and_iff_left (Nat.mod_lt _ numTasks_pos))

/-- The other slots, in the order in which the loop comes by them. -/
theorem map_others (h : current < numTasks) :
    ((List.range' 1 (numTasks - 1)).map fun off => (current + off) % numTasks) =
      List.range' (current + 1) (numTasks - 1 - current) ++ List.range' 0 current := by
  have hsplit : List.range' 1 (numTasks - 1) =
      List.range' 1 (numTasks - 1 - current) ++ List.range' (numTasks - current) current := by
    rw [show numTasks - current = 1 + 1 * (numTasks - 1 - current) by omega, List.range'_append,
      show numTasks - 1 - current + current = numTasks - 1 by omega]
  have hbehind : (List.range' 1 (numTasks - 1 - current)).map (fun off => (current + off) % numTasks) =
      List.range' (current + 1) (numTasks - 1 - current) := by
    rw [← List.map_add_range']
    refine List.map_congr_left fun off hoff => ?_
    have hlt := (List.mem_range'_1.mp hoff).2
    exact Nat.mod_eq_of_lt (by omega)
  have hfront : (List.range' (numTasks - current) current).map (fun off => (current + off) % numTasks) =
      List.range' 0 current := by
    rw [show numTasks - current = numTasks - current + 0 from rfl, ← List.map_add_range',
      List.map_map]
    conv_rhs => rw [← List.map_id (List.range' 0 current)]
    refine List.map_congr_left fun off hoff => ?_
    have hlt := (List.mem_range'_1.mp hoff).2
    rw [Function.comp_apply, show current + (numTasks - current + off) = off + numTasks by omega,
      Nat.add_mod_right, Nat.mod_eq_of_lt (by omega), id]
  rw [hsplit, List.map_append, hbehind, hfront]

/-- `choose_next`, as a search through the other slots. -/
theorem chooseNext_eq (h : current < numTasks) : chooseNext tasks current =
    ((List.range' (current + 1) (numTasks - 1 - current) ++ List.range' 0 current).find?
      fun i => Wanted tasks i).or (if (tasks current).Blocked then none else some current) := by
  rw [← map_others h, List.find?_map, chooseNext]
  simp only [Function.comp_def]
  cases (List.range' 1 (numTasks - 1)).find? fun off =>
    decide (Wanted tasks ((current + off) % numTasks)) with
  | none => rfl
  | some off => rfl

theorem chooseNext_goesRound : GoesRound (chooseNext tasks) (eligibleSlots tasks) := by
  apply goesRound_of_first List.nodup_range
  intro as bs a hsplit ha
  have hlen : as.length < numTasks := by
    have hall := congrArg List.length hsplit
    rw [List.length_range, List.length_append, List.length_cons] at hall
    omega
  have hrange : List.range numTasks = List.range' 0 as.length ++
      as.length :: List.range' (as.length + 1) (numTasks - 1 - as.length) := by
    rw [← List.range'_succ, List.range_eq_range']
    have happend := @List.range'_append 0 as.length (numTasks - 1 - as.length + 1) 1
    rw [Nat.zero_add, Nat.one_mul] at happend
    rw [happend, show as.length + (numTasks - 1 - as.length + 1) = numTasks by omega]
  rw [hrange] at hsplit
  obtain ⟨hfront, hrest⟩ := List.append_inj hsplit (by rw [List.length_range'])
  obtain ⟨rfl, rfl⟩ := List.cons_eq_cons.mp hrest
  have heligible := eligible_iff.mpr ⟨of_decide_eq_true ha, hlen⟩
  rw [chooseNext_eq hlen, if_neg heligible.not_blocked, hfront]

/-- The search finds the first one behind. -/
theorem chooseNext_first (h : FirstBehind tasks current next) :
    chooseNext tasks current = some next := by
  obtain ⟨off, hpos, hlt, rfl, heligible, hbefore⟩ := h
  have hfind : ((List.range' 1 (numTasks - 1)).find? fun off =>
      decide (Wanted tasks ((current + off) % numTasks))) = some off := by
    refine List.find?_range'_eq_some.mpr ⟨decide_eq_true (eligible_mod.mp heligible), ?_, ?_⟩
    · exact List.mem_range'_1.mpr ⟨hpos, by omega⟩
    · intro off' hpos' hlt'
      have hno := hbefore off' hpos' hlt'
      rw [eligible_mod] at hno
      simpa using hno
  simp only [chooseNext, hfind]

/-- The other slots are those at some distance. -/
theorem exists_off (h : current < numTasks) (hi : i < numTasks) (hne : i ≠ current) :
    ∃ off, 1 ≤ off ∧ off < numTasks ∧ (current + off) % numTasks = i := by
  rcases Nat.lt_or_gt_of_ne hne with hlt | hgt
  · refine ⟨i + numTasks - current, by omega, by omega, ?_⟩
    rw [show current + (i + numTasks - current) = i + numTasks by omega, Nat.add_mod_right,
      Nat.mod_eq_of_lt hi]
  · refine ⟨i - current, by omega, by omega, ?_⟩
    rw [show current + (i - current) = i by omega, Nat.mod_eq_of_lt hi]

theorem off_ne (h : current < numTasks) (hpos : 1 ≤ off) (hlt : off < numTasks) :
    (current + off) % numTasks ≠ current := by
  rcases Nat.lt_or_ge (current + off) numTasks with hin | hwrap
  · rw [Nat.mod_eq_of_lt hin]
    omega
  · rw [Nat.mod_eq_sub_mod hwrap, Nat.mod_eq_of_lt (by omega)]
    omega

/-- With no other slot it falls back. -/
theorem chooseNext_alone (h : current < numTasks) (hno : ∀ i, Eligible tasks i → i = current) :
    chooseNext tasks current = if (tasks current).Blocked then none else some current := by
  have hfind : ((List.range' 1 (numTasks - 1)).find? fun off =>
      decide (Wanted tasks ((current + off) % numTasks))) = none := by
    apply List.find?_eq_none.mpr
    intro off hoff hwanted
    obtain ⟨hpos, hlt⟩ := List.mem_range'_1.mp hoff
    have heligible := eligible_mod.mpr (of_decide_eq_true hwanted)
    exact off_ne h hpos (by omega) (hno _ heligible)
  simp only [chooseNext, hfind]

/-- If another slot may run, one of them is the first behind. -/
theorem exists_firstBehind (h : current < numTasks) (hi : Eligible tasks i) (hne : i ≠ current) :
    ∃ next, FirstBehind tasks current next := by
  obtain ⟨off, hpos, hlt, hoff⟩ := exists_off h hi.lt hne
  have hex : ∃ off, 1 ≤ off ∧ Wanted tasks ((current + off) % numTasks) := by
    refine ⟨off, hpos, ?_⟩
    rw [hoff]
    exact (eligible_iff.mp hi).1
  have hfirst := Nat.find_spec hex
  have hle : Nat.find hex ≤ off := by
    apply Nat.find_min'
    rw [hoff]
    exact ⟨hpos, (eligible_iff.mp hi).1⟩
  refine ⟨_, Nat.find hex, hfirst.1, by omega, rfl, eligible_mod.mpr hfirst.2, ?_⟩
  intro off' hpos' hlt' heligible
  exact Nat.find_min hex hlt' ⟨hpos', eligible_mod.mp heligible⟩

theorem chooseNext_null (h : current < numTasks) : chooseNext tasks current = none ↔
    (tasks current).Blocked ∧ ∀ i, Eligible tasks i → i = current := by
  by_cases hno : ∀ i, Eligible tasks i → i = current
  · rw [chooseNext_alone h hno, and_iff_left hno]
    split_ifs with hblocked
    · exact iff_of_true rfl hblocked
    · exact iff_of_false (fun hnone => nomatch hnone) hblocked
  · refine iff_of_false ?_ fun hnull => hno hnull.2
    simp only [not_forall] at hno
    obtain ⟨i, hi, hne⟩ := hno
    obtain ⟨next, hfirst⟩ := exists_firstBehind h hi hne
    rw [chooseNext_first hfirst]
    exact fun hnone => nomatch hnone

/-- **Task selection** is fair. -/
theorem choose_next_fair (tasks : TaskTable) {current : Nat} (h : current < numTasks) :
    ChoosesFairly tasks current where
  first _ hnext := chooseNext_first hnext
  alone hno := chooseNext_alone h hno
  null := chooseNext_null h
  round hcurrent _ hi := chooseNext_goesRound.existsUnique (List.nodup_range.filter _)
    (mem_eligibleSlots.mpr hcurrent) (mem_eligibleSlots.mpr hi)
  back hcurrent := chooseNext_goesRound.walk_length (mem_eligibleSlots.mpr hcurrent)

/-- The scheduler's task and another one may run. -/
def twoTasks : TaskTable := fun i _ => if i = 1 ∨ i = 5 then wantedValue else 0

theorem choose_next_fair_of_two : ChoosesFairly twoTasks 5 ∧ chooseNext twoTasks 5 = some 1 := by
  have hfair : ChoosesFairly twoTasks 5 := choose_next_fair twoTasks (by decide)
  have hwanted : ∀ i, Eligible twoTasks i ↔ i = 1 ∨ i = 5 := by
    intro i
    rw [eligible_iff, Wanted]
    by_cases hi : i = 1 ∨ i = 5
    · refine iff_of_true ?_ hi
      simp only [twoTasks, if_pos hi]
      rcases hi with rfl | rfl <;> decide
    · refine iff_of_false ?_ hi
      simp only [twoTasks, if_neg hi]
      rintro ⟨⟨-, hzero⟩, -⟩
      exact absurd hzero (by decide)
  refine ⟨hfair, hfair.first 1 ⟨4092, by decide, by decide, rfl, (hwanted 1).mpr (.inl rfl), ?_⟩⟩
  intro off hpos hlt heligible
  rw [hwanted, numTasks] at heligible
  omega

end

end Refk
