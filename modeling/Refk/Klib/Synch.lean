import Refk.Lib.Run
import Refk.Klib.Kmem

/-!
# `klib/synch.c` — the kernel semaphore

Everything between `synch_spinlock` and `synch_spinunlock` is one step, so the lock itself is
not part of the state. Any number of tasks share the semaphore. A `synch_semaphoredec` is a
loop around `synch_semaphoretrydec` that other callers may run in the middle of, so its turns
are steps of their own.

The count of successful turns that a running `synch_semaphoredec` carries is bookkeeping: it
says what the call has subtracted.
-/

namespace Refk

open Lib

/-- `synch_initsemaphore` -/
def synchInitsemaphore (value : Word) : Word := value

/-- `synch_semaphoreinc` -/
def synchSemaphoreinc (value amount : Word) : Word := value + amount

/-- `synch_semaphoretrydec`, with its answer: `0` for a success. -/
def synchSemaphoretrydec (value amount : Word) : Word × Int :=
  if value ≥ amount then (value - amount, 0) else (value, 1)

/-- One turn of `synch_semaphoredec`, and whether the loop is left: on an answer other than
    `0`. -/
def semaphoredecTurn (value amount : Word) : Word × Bool :=
  let (value, tried) := synchSemaphoretrydec value amount
  (value, tried ≠ 0)

/-- A running `synch_semaphoredec`: its argument, and how often it has subtracted it. -/
structure Decrementing where
  amount : Word
  subtracted : Nat

/-- A semaphore and the calls of `synch_semaphoredec` that have not returned, by task. -/
structure Semaphore where
  value : Word
  running : Nat → Option Decrementing

/-- What a task does next: a call, or the next turn of the call it is in. -/
inductive SemaphoreOp
  | inc (task : Nat) (amount : Word)
  | trydec (task : Nat) (amount : Word)
  | dec (task : Nat) (amount : Word)
  | turn (task : Nat)

/-- What a step shows. `returned` is the end of a `synch_semaphoredec`. -/
inductive SemaphoreOut
  | done
  | tried (answer : Int)
  | turned (amount : Word)
  | returned (amount : Word) (subtracted : Nat)

namespace Semaphore

def init (value : Word) : Semaphore := ⟨synchInitsemaphore value, fun _ => none⟩

/-- A task calls the semaphore's functions one at a time. -/
def step (s : Semaphore) : SemaphoreOp → Option (Semaphore × SemaphoreOut)
  | .inc task amount =>
    match s.running task with
    | some _ => none
    | none => some ({ s with value := synchSemaphoreinc s.value amount }, .done)
  | .trydec task amount =>
    match s.running task with
    | some _ => none
    | none =>
      let (value, answer) := synchSemaphoretrydec s.value amount
      some ({ s with value := value }, .tried answer)
  | .dec task amount =>
    match s.running task with
    | some _ => none
    | none => some ({ s with running := Function.update s.running task (some ⟨amount, 0⟩) }, .done)
  | .turn task =>
    match s.running task with
    | none => none
    | some d =>
      match semaphoredecTurn s.value d.amount with
      | (value, true) =>
        some (⟨value, Function.update s.running task none⟩, .returned d.amount d.subtracted)
      | (value, false) =>
        some (⟨value, Function.update s.running task (some ⟨d.amount, d.subtracted + 1⟩)⟩,
          .turned d.amount)

/-! ## What is put in and what is taken out -/

/-- What a step adds. -/
def added : SemaphoreOp × SemaphoreOut → Nat
  | (.inc _ amount, _) => amount.toNat
  | _ => 0

/-- What a step subtracts: a `trydec` that answers `0`, or a turn that goes on to another. -/
def subtracted : SemaphoreOp × SemaphoreOut → Nat
  | (.trydec _ amount, .tried answer) => if answer = 0 then amount.toNat else 0
  | (_, .turned amount) => amount.toNat
  | _ => 0

/-- The sum of the completed increments. -/
def incremented (tr : List (SemaphoreOp × SemaphoreOut)) : Nat := (tr.map added).sum

/-- The sum of the successful decrements. -/
def decremented (tr : List (SemaphoreOp × SemaphoreOut)) : Nat := (tr.map subtracted).sum

variable {s s' : Semaphore} {a : SemaphoreOp} {b : SemaphoreOut} {value amount : Word}

theorem trydec_success (h : amount ≤ value) :
    synchSemaphoretrydec value amount = (value - amount, 0) := if_pos h

theorem trydec_failure (h : value < amount) :
    synchSemaphoretrydec value amount = (value, 1) := if_neg (by bv_omega)

/-- A turn that subtracts stays in the loop. -/
theorem turn_success (h : amount ≤ value) :
    semaphoredecTurn value amount = (value - amount, false) := by
  simp [semaphoredecTurn, trydec_success h]

/-- A turn that cannot subtract leaves it. -/
theorem turn_failure (h : value < amount) : semaphoredecTurn value amount = (value, true) := by
  simp [semaphoredecTurn, trydec_failure h]

theorem lt_or_le (value amount : Word) : value < amount ∨ amount ≤ value :=
  (Decidable.em (value < amount)).imp_right BitVec.not_lt.mp

theorem toNat_sub_add (h : amount ≤ value) : (value - amount).toNat + amount.toNat = value.toNat := by
  bv_omega

/-- **What a step can do**, with the change of the value that comes with it. -/
theorem step_cases (h : s.step a = some (s', b)) :
    (∃ task amount, a = .inc task amount ∧ b = .done ∧ s.running task = none ∧
      s' = { s with value := s.value + amount }) ∨
    (∃ task amount, a = .trydec task amount ∧ b = .tried 0 ∧ amount ≤ s.value ∧
      s' = { s with value := s.value - amount }) ∨
    (∃ task amount, a = .trydec task amount ∧ b = .tried 1 ∧ s.value < amount ∧ s' = s) ∨
    (∃ task amount, a = .dec task amount ∧ b = .done ∧
      s' = { s with running := Function.update s.running task (some ⟨amount, 0⟩) }) ∨
    (∃ task d, a = .turn task ∧ s.running task = some d ∧ b = .turned d.amount ∧
      d.amount ≤ s.value ∧ s' = ⟨s.value - d.amount,
        Function.update s.running task (some ⟨d.amount, d.subtracted + 1⟩)⟩) ∨
    (∃ task d, a = .turn task ∧ s.running task = some d ∧ b = .returned d.amount d.subtracted ∧
      s.value < d.amount ∧ s' = ⟨s.value, Function.update s.running task none⟩) := by
  cases a with
  | inc task amount =>
    cases hrun : s.running task with
    | some d => simp [step, hrun] at h
    | none =>
      simp only [step, hrun, Option.some.injEq, Prod.mk.injEq] at h
      exact .inl ⟨task, amount, rfl, h.2.symm, hrun, h.1.symm⟩
  | trydec task amount =>
    cases hrun : s.running task with
    | some d => simp [step, hrun] at h
    | none =>
      rcases lt_or_le s.value amount with hlt | hge
      · simp only [step, hrun, trydec_failure hlt, Option.some.injEq, Prod.mk.injEq] at h
        exact .inr (.inr (.inl ⟨task, amount, rfl, h.2.symm, hlt, h.1.symm⟩))
      · simp only [step, hrun, trydec_success hge, Option.some.injEq, Prod.mk.injEq] at h
        exact .inr (.inl ⟨task, amount, rfl, h.2.symm, hge, h.1.symm⟩)
  | dec task amount =>
    cases hrun : s.running task with
    | some d => simp [step, hrun] at h
    | none =>
      simp only [step, hrun, Option.some.injEq, Prod.mk.injEq] at h
      exact .inr (.inr (.inr (.inl ⟨task, amount, rfl, h.2.symm, h.1.symm⟩)))
  | turn task =>
    cases hrun : s.running task with
    | none => simp [step, hrun] at h
    | some d =>
      rcases lt_or_le s.value d.amount with hlt | hge
      · simp only [step, hrun, turn_failure hlt, Option.some.injEq, Prod.mk.injEq] at h
        exact .inr (.inr (.inr (.inr (.inr ⟨task, d, rfl, hrun, h.2.symm, hlt, h.1.symm⟩))))
      · simp only [step, hrun, turn_success hge, Option.some.injEq, Prod.mk.injEq] at h
        exact .inr (.inr (.inr (.inr (.inl ⟨task, d, rfl, hrun, h.2.symm, hge, h.1.symm⟩))))

/-- One step keeps the balance, as long as the sum fits the word. -/
theorem step_balance (h : s.step a = some (s', b))
    (hfits : s.value.toNat + added (a, b) < 2 ^ 64) :
    s'.value.toNat + subtracted (a, b) = s.value.toNat + added (a, b) := by
  rcases step_cases h with ⟨task, amount, rfl, rfl, -, rfl⟩ | ⟨task, amount, rfl, rfl, hle, rfl⟩ |
    ⟨task, amount, rfl, rfl, -, rfl⟩ | ⟨task, amount, rfl, rfl, rfl⟩ |
    ⟨task, d, rfl, -, rfl, hle, rfl⟩ | ⟨task, d, rfl, -, rfl, -, rfl⟩
  · simp only [added] at hfits
    simp only [subtracted, added, BitVec.toNat_add, Nat.add_zero]
    exact Nat.mod_eq_of_lt hfits
  · simpa [subtracted, added] using toNat_sub_add hle
  · simp [subtracted, added]
  · simp [subtracted, added]
  · simpa [subtracted, added] using toNat_sub_add hle
  · simp [subtracted, added]

/-- A step adds and subtracts no more than what has been put in. -/
theorem run_balance {value : Word} {tr : List (SemaphoreOp × SemaphoreOut)}
    (h : Run step (init value) tr s) (hsum : value.toNat + incremented tr < 2 ^ 64) :
    s.value.toNat + decremented tr = value.toNat + incremented tr := by
  induction h with
  | start => rfl
  | @snoc tr s s' a b run _ hs ih =>
    simp only [incremented, decremented, List.map_append, List.map_cons, List.map_nil,
      List.sum_append, List.sum_cons, List.sum_nil, Nat.add_zero] at hsum ih ⊢
    have hbal := ih (by omega)
    have hstep := step_balance hs (by omega)
    omega

/-! ## The blocking decrement -/

/-- A call has subtracted at most once, and exactly once when it returns. -/
def ExactDecrement (_ : Semaphore) (_ : SemaphoreOp) (b : SemaphoreOut) (s' : Semaphore) : Prop :=
  (∀ amount subtracted, b = .returned amount subtracted → subtracted = 1) ∧
    ∀ task d, s'.running task = some d → d.subtracted ≤ 1

/-- The first turn of a call finds at least its argument, a later one finds less. -/
def TurnFits (s : Semaphore) (a : SemaphoreOp) (_ : SemaphoreOut) (_ : Semaphore) : Prop :=
  ∀ task d, a = .turn task → s.running task = some d → (d.amount ≤ s.value ↔ d.subtracted = 0)

/-- A failed `trydec` subtracts nothing. -/
def FailureKeeps (s : Semaphore) (_ : SemaphoreOp) (b : SemaphoreOut) (s' : Semaphore) : Prop :=
  b = .tried 1 → s'.value = s.value

theorem step_failureKeeps (h : s.step a = some (s', b)) : FailureKeeps s a b s' := by
  rintro rfl
  rcases step_cases h with ⟨_, _, _, hb, _⟩ | ⟨_, _, _, hb, _⟩ | ⟨_, _, _, _, _, rfl⟩ |
    ⟨_, _, _, hb, _⟩ | ⟨_, _, _, _, hb, _⟩ | ⟨_, _, _, _, hb, _⟩
  case inr.inr.inl => rfl
  all_goals cases hb

/-- The calls that have not returned have subtracted at most once. -/
def Moderate (s : Semaphore) : Prop := ∀ task d, s.running task = some d → d.subtracted ≤ 1

theorem moderate_update {value : Word} {task : Nat} {d : Option Decrementing} (hs : Moderate s)
    (hd : ∀ d', d = some d' → d'.subtracted ≤ 1) :
    Moderate ⟨value, Function.update s.running task d⟩ := by
  intro task' d' hrun
  change Function.update s.running task d task' = some d' at hrun
  by_cases heq : task' = task
  · rw [heq, Function.update_self] at hrun
    exact hd d' hrun
  · rw [Function.update_of_ne heq] at hrun
    exact hs task' d' hrun

/-- Only turns can go wrong. -/
theorem exact_of_other (ha : ∀ task, a ≠ .turn task)
    (hb : ∀ amount subtracted, b ≠ .returned amount subtracted) (hs' : Moderate s') :
    ExactDecrement s a b s' ↔ TurnFits s a b s' :=
  iff_of_true ⟨fun _ _ heq => absurd heq (hb _ _), hs'⟩ fun _ _ heq => absurd heq (ha _)

/-- A turn meets the condition exactly when the call stays exact. -/
theorem step_exact (hs : Moderate s) (h : s.step a = some (s', b)) :
    (ExactDecrement s a b s' ↔ TurnFits s a b s') ∧ (TurnFits s a b s' → Moderate s') := by
  suffices hiff : ExactDecrement s a b s' ↔ TurnFits s a b s' from
    ⟨hiff, fun hfits => (hiff.mpr hfits).2⟩
  rcases step_cases h with ⟨task, amount, rfl, rfl, -, rfl⟩ | ⟨task, amount, rfl, rfl, hle, rfl⟩ |
    ⟨task, amount, rfl, rfl, -, rfl⟩ | ⟨task, amount, rfl, rfl, rfl⟩ |
    ⟨task, d, rfl, hrun, rfl, hle, rfl⟩ | ⟨task, d, rfl, hrun, rfl, hlt, rfl⟩
  · exact exact_of_other (by simp) (by simp) hs
  · exact exact_of_other (by simp) (by simp) hs
  · exact exact_of_other (by simp) (by simp) hs
  · refine exact_of_other (by simp) (by simp) (moderate_update hs ?_)
    rintro _ ⟨⟩
    exact Nat.zero_le 1
  · constructor
    · rintro ⟨-, hmod⟩ task' d' ⟨⟩ hrun'
      obtain rfl : d = d' := Option.some.inj (hrun.symm.trans hrun')
      have hone := hmod task _ (Function.update_self ..)
      exact ⟨fun _ => Nat.le_zero.mp (Nat.succ_le_succ_iff.mp hone), fun _ => hle⟩
    · intro hfits
      have hzero : d.subtracted = 0 := (hfits task d rfl hrun).mp hle
      refine ⟨by simp, moderate_update hs ?_⟩
      rintro _ ⟨⟩
      exact Nat.succ_le_succ (Nat.le_of_eq hzero)
  · have hle : d.subtracted ≤ 1 := hs task d hrun
    constructor
    · rintro ⟨hret, -⟩ task' d' ⟨⟩ hrun'
      obtain rfl : d = d' := Option.some.inj (hrun.symm.trans hrun')
      have hone : d.subtracted = 1 := hret _ _ rfl
      exact ⟨fun hge => absurd hge (BitVec.not_le.mpr hlt), fun hzero => by omega⟩
    · intro hfits
      have hne : d.subtracted ≠ 0 := fun hzero =>
        BitVec.not_le.mpr hlt ((hfits task d rfl hrun).mpr hzero)
      refine ⟨?_, moderate_update hs (fun _ hd => by cases hd)⟩
      rintro _ _ ⟨⟩
      omega

end Semaphore

open Semaphore

/-- **Conservation.** In every run whose sums fit a word, the value is what was there, plus the
    increments, minus the successful decrements, and a failed `trydec` subtracts nothing. The
    calls of `synch_semaphoredec` subtract exactly once each if and only if the first turn of
    each finds enough and the second too little. -/
theorem semaphore_conservation {value : Word} {tr : List (SemaphoreOp × SemaphoreOut)}
    {s : Semaphore} (h : Run Semaphore.step (.init value) tr s)
    (hsum : value.toNat + incremented tr < 2 ^ 64) :
    s.value.toNat + decremented tr = value.toNat + incremented tr ∧
      Along Semaphore.step (.init value) FailureKeeps tr ∧
      (Along Semaphore.step (.init value) ExactDecrement tr ↔
        Along Semaphore.step (.init value) TurnFits tr) :=
  ⟨run_balance h hsum, fun _ _ _ _ _ _ _ _ hs => step_failureKeeps hs,
    Along.iff_of_invariant Moderate (fun _ _ hrun => by cases hrun)
      (fun _ _ _ _ hs _ hstep => step_exact hs hstep) h⟩

/-- A call that finds its argument once and then too little. -/
theorem semaphore_conservation_of_one :
    ∃ (s : Semaphore) (tr : List (SemaphoreOp × SemaphoreOut)), tr.length = 3 ∧
      s.value.toNat + decremented tr = 1 + incremented tr := by
  have hrun : Run Semaphore.step (.init 1) _ _ :=
    RunIf.of_exec _ _ _ [.dec 0 1, .turn 0, .turn 0] rfl
  exact ⟨_, _, rfl, (semaphore_conservation hrun (by decide)).1⟩

/-- On a semaphore at `0` a `synch_semaphoredec` of `1` returns at once, and has subtracted
    nothing. -/
theorem semaphoredec_returns_early :
    ¬ ∀ (value : Word) (tr : List (SemaphoreOp × SemaphoreOut)) (s : Semaphore),
      Run Semaphore.step (.init value) tr s → value.toNat + incremented tr < 2 ^ 64 →
      ∀ a amount subtracted, (a, SemaphoreOut.returned amount subtracted) ∈ tr →
        subtracted = 1 := by
  intro hall
  have hrun : Run Semaphore.step (.init 0) _ _ :=
    RunIf.of_exec _ _ _ [.dec 0 1, .turn 0] rfl
  have hone := hall 0 _ _ hrun (by decide) (.turn 0) 1 0 (by simp)
  cases hone

end Refk
