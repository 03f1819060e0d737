import Refk.Clib.Atomic

/-!
# `rlib/sem.c` — semaphores between user tasks

A semaphore is one shared word. `sem_inc` and `sem_dec` read it and try to swap in the value one
above or below, again and again until the compare-and-swap says that it succeeded. Any number
of tasks run them at once, and the steps that matter are the single reads and swaps: a task is
at one of the points of `Pc` between two of them.

The compare-and-swap says so every time (see `clib/atomic.c`), so no call ever goes round again.
A call that lost a race returns without having done anything, and the word is behind the count
of completed calls from then on.
-/

namespace Refk

open Lib Lib.X86

/-- Where a task is in its call. -/
inductive Pc
  | idle
  | incRead
  | incSwap (current : Word)
  | decRead
  | decSwap (current : Word)
  deriving DecidableEq, Repr

/-- The memory, the tasks, and how many calls of each kind have completed. -/
structure SemState where
  mem : Memory
  pc : Nat → Pc
  incs : Nat
  decs : Nat

/-- The steps of the task `task`. -/
inductive SemOp
  | callInc (task : Nat)
  | callDec (task : Nat)
  | read (task : Nat)
  | swap (task : Nat) (scratch : Scratch)

namespace SemState

/-- The value of the semaphore. -/
def value (s : SemState) (sem : Word) : Word := read64 s.mem sem

/-- The task `task` goes on to `pc`. -/
def goto (s : SemState) (task : Nat) (pc : Pc) : SemState :=
  { s with pc := Function.update s.pc task pc }

end SemState

/-- `sem_init` -/
def semInit (mem : Memory) (sem : Word) : Memory := write64 mem sem 0

/-- The next step of `task` in `sem_inc` or `sem_dec`, and whether the call completes with it.
    `synch_wait` and `synch_wake` do not touch the word. -/
def semStep (sem : Word) (s : SemState) : SemOp → Option (SemState × Bool)
  | .callInc task =>
    match s.pc task with
    | .idle => some (s.goto task .incRead, false)
    | _ => none
  | .callDec task =>
    match s.pc task with
    | .idle => some (s.goto task .decRead, false)
    | _ => none
  | .read task =>
    let current := read64 s.mem sem
    match s.pc task with
    | .incRead => some (s.goto task (.incSwap current), false)
    | .decRead =>
      -- `sem_dec` waits for another value than zero and reads again
      if current = 0 then some (s, false)
      else some (s.goto task (.decSwap current), false)
    | _ => none
  | .swap task scratch =>
    match s.pc task with
    | .incSwap current =>
      let (mem, ret) := atomicSwapcompare scratch s.mem sem current (current + 1)
      let s := { s with mem := mem }
      if ret ≠ 0 then some (s.goto task .incRead, false)
      else some ({ s with incs := s.incs + 1 }.goto task .idle, true)
    | .decSwap current =>
      let (mem, ret) := atomicSwapcompare scratch s.mem sem current (current - 1)
      let s := { s with mem := mem }
      if ret = 0 then some ({ s with decs := s.decs + 1 }.goto task .idle, true)
      else some (s.goto task .decRead, false)
    | _ => none

/-- Nobody has called yet. -/
def semStart (mem : Memory) : SemState := ⟨mem, fun _ => .idle, 0, 0⟩

section
variable {sem : Word} {s s' : SemState} {a : SemOp} {b : Bool}

/-- The word after a swap, whether or not it found `current`. -/
def swapped (mem : Memory) (sem current value : Word) : Memory :=
  if current = read64 mem sem then write64 mem sem value else mem

@[simp] theorem read64_swapped (mem : Memory) (sem current value : Word) :
    read64 (swapped mem sem current value) sem =
      if current = read64 mem sem then value else read64 mem sem := by
  unfold swapped
  split <;> simp

/-- **What a step can do.** -/
theorem semStep_cases (h : semStep sem s a = some (s', b)) :
    (∃ task, b = false ∧ (s' = s ∨ s' = s.goto task .incRead ∨ s' = s.goto task .decRead ∨
      s' = s.goto task (.incSwap (s.value sem)) ∨
      s.value sem ≠ 0 ∧ s' = s.goto task (.decSwap (s.value sem))) ∧
      ∀ task' scratch, a ≠ .swap task' scratch) ∨
    (∃ task scratch current, a = .swap task scratch ∧ s.pc task = .incSwap current ∧ b = true ∧
      s' = (⟨swapped s.mem sem current (current + 1), s.pc, s.incs + 1, s.decs⟩ :
        SemState).goto task .idle) ∨
    (∃ task scratch current, a = .swap task scratch ∧ s.pc task = .decSwap current ∧ b = true ∧
      s' = (⟨swapped s.mem sem current (current - 1), s.pc, s.incs, s.decs + 1⟩ :
        SemState).goto task .idle) := by
  cases a with
  | callInc task =>
    cases hpc : s.pc task with
    | idle =>
      simp only [semStep, hpc, Option.some.injEq, Prod.mk.injEq] at h
      exact .inl ⟨task, h.2.symm, .inr (.inl h.1.symm), by simp⟩
    | _ => simp [semStep, hpc] at h
  | callDec task =>
    cases hpc : s.pc task with
    | idle =>
      simp only [semStep, hpc, Option.some.injEq, Prod.mk.injEq] at h
      exact .inl ⟨task, h.2.symm, .inr (.inr (.inl h.1.symm)), by simp⟩
    | _ => simp [semStep, hpc] at h
  | read task =>
    cases hpc : s.pc task with
    | incRead =>
      simp only [semStep, hpc, Option.some.injEq, Prod.mk.injEq] at h
      exact .inl ⟨task, h.2.symm, .inr (.inr (.inr (.inl h.1.symm))), by simp⟩
    | decRead =>
      by_cases h₀ : read64 s.mem sem = 0
      · simp only [semStep, hpc, if_pos h₀, Option.some.injEq, Prod.mk.injEq] at h
        exact .inl ⟨task, h.2.symm, .inl h.1.symm, by simp⟩
      · simp only [semStep, hpc, if_neg h₀, Option.some.injEq, Prod.mk.injEq] at h
        exact .inl ⟨task, h.2.symm, .inr (.inr (.inr (.inr ⟨h₀, h.1.symm⟩))), by simp⟩
    | _ => simp [semStep, hpc] at h
  | swap task scratch =>
    cases hpc : s.pc task with
    | incSwap current =>
      simp only [semStep, hpc, atomicSwapcompare_eq, ne_eq, not_true_eq_false, if_false,
        Option.some.injEq, Prod.mk.injEq] at h
      exact .inr (.inl ⟨task, scratch, current, rfl, hpc, h.2.symm, h.1.symm⟩)
    | decSwap current =>
      simp only [semStep, hpc, atomicSwapcompare_eq, if_true, Option.some.injEq,
        Prod.mk.injEq] at h
      exact .inr (.inr ⟨task, scratch, current, rfl, hpc, h.2.symm, h.1.symm⟩)
    | _ => simp [semStep, hpc] at h

end

/-! ## Conservation -/

/-- The value is the initial one and the completed calls. -/
def SemState.Conserved (s : SemState) (sem initial : Word) : Prop :=
  (s.value sem).toNat + s.decs = initial.toNat + s.incs

instance (s : SemState) (sem initial : Word) : Decidable (s.Conserved sem initial) :=
  inferInstanceAs (Decidable (_ = _))

/-- A task in `sem_dec` has not read a zero. -/
def SemState.Read (s : SemState) : Prop := ∀ task current, s.pc task = .decSwap current → current ≠ 0

/-- The step takes the value below zero. -/
def TakesFromZero (sem : Word) (s : SemState) (a : SemOp) (s' : SemState) : Prop :=
  ∃ task scratch current, a = .swap task scratch ∧ s.pc task = .decSwap current ∧
    s.value sem = 0 ∧ s'.value sem ≠ 0

/-- The step takes the value round the end of the word. -/
def Wraps (sem : Word) (s : SemState) (a : SemOp) (s' : SemState) : Prop :=
  ∃ task scratch current, a = .swap task scratch ∧ s.pc task = .incSwap current ∧
    s'.value sem < s.value sem

/-- After the step the value is still conserved, and it did not leave its range. -/
def SemExact (sem initial : Word) (s : SemState) (a : SemOp) (_ : Bool) (s' : SemState) : Prop :=
  s'.Conserved sem initial ∧ ¬ TakesFromZero sem s a s' ∧ ¬ Wraps sem s a s'

/-- The swap finds the value that its task read, and there is one above it. -/
def FindsRead (sem : Word) (s : SemState) (a : SemOp) (_ : Bool) (_ : SemState) : Prop :=
  ∀ task scratch, a = .swap task scratch →
    (∀ current, s.pc task = .incSwap current →
      s.value sem = current ∧ current ≠ BitVec.allOnes 64) ∧
    ∀ current, s.pc task = .decSwap current → s.value sem = current

/-- Counting up is exact below the end of the word. -/
theorem toNat_succ_iff (v : Word) : (v + 1).toNat = v.toNat + 1 ↔ v ≠ BitVec.allOnes 64 := by
  rw [ne_eq, ← BitVec.toNat_inj, BitVec.toNat_allOnes, BitVec.toNat_add]
  have := v.isLt
  change (v.toNat + 1) % 2 ^ 64 = _ ↔ _
  omega

theorem toNat_pred {v : Word} (h : v ≠ 0) : (v - 1).toNat + 1 = v.toNat := by
  bv_omega

section
variable {sem initial : Word} {s s' : SemState} {a : SemOp} {b : Bool}

@[simp] theorem value_goto (task : Nat) (pc : Pc) : (s.goto task pc).value sem = s.value sem := rfl

theorem SemState.Read.goto (h : s.Read) {task : Nat} {pc : Pc}
    (hpc : ∀ current, pc = .decSwap current → current ≠ 0) : (s.goto task pc).Read := by
  intro task' current heq
  change Function.update s.pc task pc task' = .decSwap current at heq
  by_cases htask : task' = task
  · rw [htask, Function.update_self] at heq
    exact hpc current heq
  · rw [Function.update_of_ne htask] at heq
    exact h task' current heq

/-- What holds before every step: the balance, and that nobody has read a zero to count down
    from. -/
structure SemInv (sem initial : Word) (s : SemState) : Prop where
  conserved : s.Conserved sem initial
  read : s.Read

/-- A step that swaps nothing keeps the balance. -/
theorem semExact_other (h : SemInv sem initial s) {task : Nat}
    (hcases : s' = s ∨ s' = s.goto task .incRead ∨ s' = s.goto task .decRead ∨
      s' = s.goto task (.incSwap (s.value sem)) ∨
      s.value sem ≠ 0 ∧ s' = s.goto task (.decSwap (s.value sem)))
    (ha : ∀ task' scratch, a ≠ .swap task' scratch) :
    SemExact sem initial s a b s' ∧ SemInv sem initial s' := by
  have hinv : SemInv sem initial s' := by
    rcases hcases with rfl | rfl | rfl | rfl | ⟨h₀, rfl⟩
    · exact h
    · exact ⟨h.conserved, h.read.goto (by simp)⟩
    · exact ⟨h.conserved, h.read.goto (by simp)⟩
    · exact ⟨h.conserved, h.read.goto (by simp)⟩
    · refine ⟨h.conserved, h.read.goto fun current heq => ?_⟩
      rw [← Pc.decSwap.inj heq]
      exact h₀
  refine ⟨⟨hinv.conserved, ?_, ?_⟩, hinv⟩
  · intro ⟨task', scratch, _, heq, _⟩
    exact ha task' scratch heq
  · intro ⟨task', scratch, _, heq, _⟩
    exact ha task' scratch heq

/-- **The last swap of a `sem_inc`** is exact if it finds what its task read and does not wrap. -/
theorem semExact_inc (h : SemInv sem initial s) {task : Nat} (scratch : Scratch) {current : Word}
    (hpc : s.pc task = .incSwap current)
    (hs' : s' = (⟨swapped s.mem sem current (current + 1), s.pc, s.incs + 1, s.decs⟩ :
      SemState).goto task .idle) :
    SemExact sem initial s (.swap task scratch) b s' ↔
      s.value sem = current ∧ current ≠ BitVec.allOnes 64 := by
  have hvalue : s'.value sem = if current = s.value sem then current + 1 else s.value sem := by
    rw [hs', value_goto]
    exact read64_swapped ..
  have hbal := h.conserved
  have hcons : s'.Conserved sem initial ↔ (s'.value sem).toNat = (s.value sem).toNat + 1 := by
    subst hs'
    unfold SemState.Conserved at hbal ⊢
    simp only [SemState.goto]
    omega
  have hnot : ¬ TakesFromZero sem s (.swap task scratch) s' := by
    intro ⟨task', _, _, heq, hpc', _⟩
    cases heq
    rw [hpc] at hpc'
    cases hpc'
  by_cases heq : current = s.value sem
  · rw [if_pos heq] at hvalue
    rw [hvalue, ← heq, toNat_succ_iff] at hcons
    refine ⟨fun hexact => ⟨heq.symm, hcons.mp hexact.1⟩, fun hmax => ?_⟩
    refine ⟨hcons.mpr hmax.2, hnot, fun ⟨_, _, _, _, _, hlt⟩ => ?_⟩
    rw [hvalue, ← heq, BitVec.lt_def, (toNat_succ_iff current).mpr hmax.2] at hlt
    omega
  · rw [if_neg heq] at hvalue
    rw [hvalue] at hcons
    refine iff_of_false (fun hexact => ?_) fun hfinds => heq hfinds.1.symm
    have := hcons.mp hexact.1
    omega

/-- **The last swap of a `sem_dec`** is exact if it finds what its task read. -/
theorem semExact_dec (h : SemInv sem initial s) {task : Nat} (scratch : Scratch) {current : Word}
    (hpc : s.pc task = .decSwap current)
    (hs' : s' = (⟨swapped s.mem sem current (current - 1), s.pc, s.incs, s.decs + 1⟩ :
      SemState).goto task .idle) :
    SemExact sem initial s (.swap task scratch) b s' ↔ s.value sem = current := by
  have hvalue : s'.value sem = if current = s.value sem then current - 1 else s.value sem := by
    rw [hs', value_goto]
    exact read64_swapped ..
  have hbal := h.conserved
  have h₀ := h.read task current hpc
  have hcons : s'.Conserved sem initial ↔ (s'.value sem).toNat + 1 = (s.value sem).toNat := by
    subst hs'
    unfold SemState.Conserved at hbal ⊢
    simp only [SemState.goto]
    omega
  by_cases heq : current = s.value sem
  · rw [if_pos heq] at hvalue
    rw [hvalue, ← heq] at hcons
    refine iff_of_true ⟨hcons.mpr (toNat_pred h₀), ?_, ?_⟩ heq.symm
    · intro ⟨_, _, _, _, _, hzero, _⟩
      exact h₀ (heq.trans hzero)
    · intro ⟨task', _, _, hswap, hpc', _⟩
      cases hswap
      rw [hpc] at hpc'
      cases hpc'
  · rw [if_neg heq] at hvalue
    rw [hvalue] at hcons
    refine iff_of_false (fun hexact => ?_) fun hfinds => heq hfinds.symm
    have := hcons.mp hexact.1
    omega

/-- A step meets the condition exactly when the count stays exact. -/
theorem semStep_exact (h : SemInv sem initial s) (hstep : semStep sem s a = some (s', b)) :
    (SemExact sem initial s a b s' ↔ FindsRead sem s a b s') ∧
      (FindsRead sem s a b s' → SemInv sem initial s') := by
  rcases semStep_cases hstep with ⟨task, -, hcases, ha⟩ |
    ⟨task, scratch, current, rfl, hpc, -, hs'⟩ | ⟨task, scratch, current, rfl, hpc, -, hs'⟩
  · obtain ⟨hexact, hinv⟩ := semExact_other (b := b) h hcases ha
    exact ⟨iff_of_true hexact fun _ _ heq => absurd heq (ha _ _), fun _ => hinv⟩
  · have hexact := semExact_inc (b := b) h scratch hpc hs'
    have hfinds : FindsRead sem s (.swap task scratch) b s' ↔
        s.value sem = current ∧ current ≠ BitVec.allOnes 64 := by
      simp [FindsRead, hpc]
    refine ⟨hexact.trans hfinds.symm, fun hf => ⟨(hexact.mpr (hfinds.mp hf)).1, ?_⟩⟩
    rw [hs']
    exact SemState.Read.goto (s := ⟨_, s.pc, _, _⟩) h.read (by simp)
  · have hexact := semExact_dec (b := b) h scratch hpc hs'
    have hfinds : FindsRead sem s (.swap task scratch) b s' ↔ s.value sem = current := by
      simp [FindsRead, hpc]
    refine ⟨hexact.trans hfinds.symm, fun hf => ⟨(hexact.mpr (hfinds.mp hf)).1, ?_⟩⟩
    rw [hs']
    exact SemState.Read.goto (s := ⟨_, s.pc, _, _⟩) h.read (by simp)

end

/-- **A semaphore conserves**: along every interleaving of any number of tasks the value is the
    initial one and the completed calls, nothing is taken from zero and nothing wraps, if and
    only if every swap finds the value that its task read and no `sem_inc` has read the last
    one. -/
theorem sem_conservation {sem : Word} {mem : Memory} {tr : List (SemOp × Bool)} {s : SemState}
    (h : Run (semStep sem) (semStart mem) tr s) :
    Along (semStep sem) (semStart mem) (SemExact sem (read64 mem sem)) tr ↔
      Along (semStep sem) (semStart mem) (FindsRead sem) tr := by
  refine Along.iff_of_invariant (SemInv sem (read64 mem sem)) ⟨rfl, ?_⟩ ?_ h
  · intro task current heq
    simp [semStart] at heq
  · exact fun _ _ _ _ hinv _ hstep => semStep_exact hinv hstep

/-- The value of a semaphore that `sem_init` has made is the balance of the completed calls, for as
    long as every swap finds what its task read. -/
theorem value_of_semInit {sem : Word} {mem : Memory} {tr : List (SemOp × Bool)} {s : SemState}
    (h : Run (semStep sem) (semStart (semInit mem sem)) tr s)
    (hfinds : Along (semStep sem) (semStart (semInit mem sem)) (FindsRead sem) tr) :
    (s.value sem).toNat + s.decs = s.incs := by
  have hzero : read64 (semInit mem sem) sem = 0 := by
    rw [semInit, read64_write64]
  have hstart : SemInv sem 0 (semStart (semInit mem sem)) := by
    refine ⟨?_, fun task current heq => ?_⟩
    · unfold SemState.Conserved SemState.value
      rw [semStart, hzero]
    · simp [semStart] at heq
  obtain ⟨-, hinv⟩ := Along.iff_and_invariant (P := SemExact sem 0) (Q := FindsRead sem)
    (SemInv sem 0) hstart (fun _ _ _ _ hinv _ hstep => semStep_exact hinv hstep) h
  have hbalance := (hinv hfinds).conserved
  unfold SemState.Conserved at hbalance
  simpa using hbalance

/-- One call after the other. -/
theorem sem_conservation_of_one : ∃ s, Run (semStep 0x1000) (semStart zeroMemory)
      [(.callInc 0, false), (.read 0, false), (.swap 0 zeroScratch, true)] s ∧
    (Along (semStep 0x1000) (semStart zeroMemory) (SemExact 0x1000 (read64 zeroMemory 0x1000))
        [(.callInc 0, false), (.read 0, false), (.swap 0 zeroScratch, true)] ↔
      Along (semStep 0x1000) (semStart zeroMemory) (FindsRead 0x1000)
        [(.callInc 0, false), (.read 0, false), (.swap 0 zeroScratch, true)]) := by
  have h := RunIf.of_exec (semStep 0x1000) (fun _ _ => True) (semStart zeroMemory)
    [.callInc 0, .read 0, .swap 0 zeroScratch] rfl
  exact ⟨_, h, sem_conservation h⟩

/-- **A lost update**: two tasks read zero, both swap in a one, and both calls complete. -/
theorem sem_loses_increment : ∃ s, Run (semStep 0x1000) (semStart zeroMemory)
      [(.callInc 0, false), (.callInc 1, false), (.read 0, false), (.read 1, false),
        (.swap 0 zeroScratch, true), (.swap 1 zeroScratch, true)] s ∧
    s.incs = 2 ∧ s.value 0x1000 = 1 ∧ ¬ s.Conserved 0x1000 (read64 zeroMemory 0x1000) := by
  have h := RunIf.of_exec (semStep 0x1000) (fun _ _ => True) (semStart zeroMemory)
    [.callInc 0, .callInc 1, .read 0, .read 1, .swap 0 zeroScratch, .swap 1 zeroScratch] rfl
  exact ⟨_, h, rfl, rfl, by decide⟩

end Refk
