import Mathlib.Data.BitVec
import Refk.Lib.X86Lock
import Refk.Klib.Kmem

/-!
# `klib/synch.c` — the spinlock

The two functions are inline assembly. `synch_spinlock` stores the interrupt flag in the lock,
disables interrupts and spins; `synch_spinunlock` is to give the flag back. Its `or` has the
stored flag as its destination, so what goes into `RFLAGS` in the end is what came out of it, and
interrupts stay disabled.

The assembly is described as it is written; what a compiler puts around it is not part of it.
-/

namespace Refk

open Lib Lib.X86

/-! ## The code -/

/-- `lock->value` -/
def spinValue (m : Memory) (lock : Word) : BitVec 32 := read32 m lock

/-- `synch_initspin` -/
def synchInitspin (m : Memory) (lock : Word) : Memory := write32 (write32 m lock 0) (lock + 4) 0

/-- The processor when an inline assembly starts. -/
def spinEnter (s : Cpu) (lock : Word) : Cpu :=
  ((s.setReg .rdx lock).setReg .rax 0).setReg .rbx 0

/-- `synch_spinlock`, up to its loop. -/
def spinEntry : List LockInstr :=
  [.sys .pushfq, .sys (.pop .rax), .andImm .rax 0x200, .sys (.store32 .rdx 4 .rax), .cli]

/-- A round of the loop, up to its `jnz`. -/
def spinRound : List LockInstr :=
  [.sys (.xor .rax .rax), .sys (.movImm .rbx 1), .cmpxchg32 .rdx 0 .rbx]

/-- The loop; `none` if it is still going after `fuel` rounds. -/
def spinLoop : Nat → Cpu → Option Cpu
  | 0, _ => none
  | fuel + 1, s =>
    let s := runLock spinRound s
    if s.zf then some s else spinLoop fuel s

/-- `synch_spinlock` -/
def synchSpinlock (fuel : Nat) (s : Cpu) (lock : Word) : Option Cpu :=
  spinLoop fuel (runLock spinEntry (spinEnter s lock))

/-- The instructions of `synch_spinunlock`. -/
def spinExit : List LockInstr :=
  [.sys (.xor .rax .rax), .sys .pushfq, .sys (.pop .rax), .or32 .rdx 4 .rax, .sys (.push .rax),
    .popfq, .storeImm32 .rdx 0 0]

/-- `synch_spinunlock` -/
def synchSpinunlock (s : Cpu) (lock : Word) : Cpu := runLock spinExit (spinEnter s lock)

/-! ## Sequences of calls -/

inductive SpinOp
  | lock (l : Word)
  | unlock (l : Word)
  deriving DecidableEq, Repr

def spinStep (fuel : Nat) (s : Cpu) : SpinOp → Option Cpu
  | .lock l => synchSpinlock fuel s l
  | .unlock l => some (synchSpinunlock s l)

/-- One processor makes the calls. -/
def spinRun (fuel : Nat) : Cpu → List SpinOp → Option Cpu
  | s, [] => some s
  | s, op :: ops => (spinStep fuel s op).bind fun s' => spinRun fuel s' ops

/-- The locks of a sequence. -/
def locksOf (ops : List SpinOp) : List Word :=
  ops.map fun op => match op with
    | .lock l => l
    | .unlock l => l

/-- A properly nested sequence while the locks `held` are held: each lock that is taken is given
    back after what is taken inside, and is none of those that are held. -/
inductive Nested : List Word → List SpinOp → Prop
  | nil (held : List Word) : Nested held []
  | hold {held : List Word} {l : Word} {inner after : List SpinOp} (hl : l ∉ held)
      (hinner : Nested (l :: held) inner) (hafter : Nested held after) :
      Nested held (.lock l :: inner ++ .unlock l :: after)

/-- The locks are free, and they and the top of the stack share no byte. -/
structure SpinMemory (s : Cpu) (ops : List SpinOp) : Prop where
  free : ∀ l ∈ locksOf ops, spinValue s.mem l = 0
  apart : ∀ l ∈ locksOf ops, ∀ l' ∈ locksOf ops, l ≠ l' → Apart l l'
  stack : ∀ l ∈ locksOf ops, Apart (s.reg .rsp - 8) l

/-- **Balanced use restores the interrupt flag.** Each call returns; from an outermost acquisition
    to its release interrupts are disabled; the release leaves the flag as it was before the
    acquisition and all locks free; and nothing depends on flags that are in the locks before. -/
structure RestoresInterrupts (fuel : Nat) (s : Cpu) (ops : List SpinOp) : Prop where
  returns : ∀ calls, calls <+: ops → ∃ s', spinRun fuel s calls = some s'
  disabled : ∀ before l inner after, ops = before ++ (.lock l :: inner ++ .unlock l :: after) →
    Nested [] before → Nested [l] inner → ∀ during, during <+: inner →
      ∀ s', spinRun fuel s (before ++ .lock l :: during) = some s' → s'.interrupts = false
  restored : ∀ before l inner after, ops = before ++ (.lock l :: inner ++ .unlock l :: after) →
    Nested [] before → Nested [l] inner →
      ∀ s₁ s₂, spinRun fuel s before = some s₁ →
        spinRun fuel s (before ++ (.lock l :: inner ++ [.unlock l])) = some s₂ →
          s₂.interrupts = s₁.interrupts ∧ ∀ l' ∈ locksOf ops, spinValue s₂.mem l' = 0
  fresh : ∀ m : Memory, (∀ x, (∀ l ∈ locksOf ops, 4 ≤ (x - (l + 4)).toNat) → m x = s.mem x) →
    ∀ calls, calls <+: ops → ∀ s₁ s₂, spinRun fuel s calls = some s₁ →
      spinRun fuel { s with mem := m } calls = some s₂ →
        s₂.interrupts = s₁.interrupts ∧
          ∀ l ∈ locksOf ops, spinValue s₂.mem l = spinValue s₁.mem l

/-! ## The two functions -/

section
variable {s : Cpu} {lock l : Word} {fuel : Nat}

/-- A new lock is free. -/
theorem spinValue_init (m : Memory) (lock : Word) : spinValue (synchInitspin m lock) lock = 0 := by
  rw [synchInitspin, spinValue, read32_write32_of_ne (by bv_omega) (by bv_omega), read32_write32]

/-- It leaves the locks that are apart from it as they are. -/
theorem spinValue_init_of_apart (m : Memory) (h : Apart lock l) :
    spinValue (synchInitspin m lock) l = spinValue m l := by
  obtain ⟨h₁, h₂⟩ := h
  unfold synchInitspin spinValue
  rw [read32_write32_of_ne (by bv_omega) (by bv_omega),
    read32_write32_of_ne (by bv_omega) (by bv_omega)]

/-- New locks are free, in whatever order they are initialised. -/
theorem spinValue_initAll (m : Memory) (ls : List Word)
    (hapart : ∀ l ∈ ls, ∀ l' ∈ ls, l ≠ l' → Apart l l') :
    ∀ l ∈ ls, spinValue (ls.foldl synchInitspin m) l = 0 := by
  induction ls using List.reverseRecOn with
  | nil =>
    intro l hl
    cases hl
  | append_singleton ls lock ih =>
    intro l hl
    rw [List.foldl_append, List.foldl_cons, List.foldl_nil]
    by_cases heq : l = lock
    · rw [heq]
      exact spinValue_init _ lock
    · have hmem : l ∈ ls := by simpa [heq] using hl
      rw [spinValue_init_of_apart _ (hapart lock (by simp) l hl (Ne.symm heq))]
      apply ih _ l hmem
      intro a ha b hb
      exact hapart a (List.mem_append_left _ ha) b (List.mem_append_left _ hb)

/-- Locks that have been initialised may be used, if they and the top of the stack are apart. -/
theorem SpinMemory.of_initspin {ops : List SpinOp}
    (hapart : ∀ l ∈ locksOf ops, ∀ l' ∈ locksOf ops, l ≠ l' → Apart l l')
    (hstack : ∀ l ∈ locksOf ops, Apart (s.reg .rsp - 8) l) :
    SpinMemory { s with mem := (locksOf ops).foldl synchInitspin s.mem } ops :=
  ⟨spinValue_initAll s.mem (locksOf ops) hapart, hapart, hstack⟩

theorem spinEntry_spec (s : Cpu) (lock : Word) :
    (runLock spinEntry (spinEnter s lock)).interrupts = false ∧
      (runLock spinEntry (spinEnter s lock)).reg .rsp = s.reg .rsp ∧
      (runLock spinEntry (spinEnter s lock)).reg .rdx = lock ∧
      ∃ v w, (runLock spinEntry (spinEnter s lock)).mem =
        write32 (write64 s.mem (s.reg .rsp - 8) v) (lock + 4) w := by
  refine ⟨Cpu.cli_interrupts _, ?_, ?_, _, _, rfl⟩
  · simp [spinEntry, spinEnter, LockInstr.exec, SysInstr.exec]
  · simp [spinEntry, spinEnter, LockInstr.exec, SysInstr.exec]

/-- A round at a free lock is the last one. -/
theorem spinRound_spec (hdx : s.reg .rdx = lock) (hfree : spinValue s.mem lock = 0) :
    (runLock spinRound s).zf = true ∧ (runLock spinRound s).interrupts = s.interrupts ∧
      (runLock spinRound s).reg .rsp = s.reg .rsp ∧
      (runLock spinRound s).mem = write32 s.mem lock 1 := by
  have haddr : s.reg .rdx + 0 = lock := by
    rw [hdx]
    exact BitVec.add_zero lock
  have hold : read32 s.mem (s.reg .rdx + 0) = 0 := by
    rw [haddr]
    exact hfree
  set s₁ := (SysInstr.movImm .rbx 1).exec ((SysInstr.xor .rax .rax).exec s) with hs₁
  have hmem : s₁.mem = s.mem := rfl
  have hdx₁ : s₁.reg .rdx = s.reg .rdx := by
    simp [hs₁, SysInstr.exec]
  have hax : (s₁.reg .rax).setWidth 32 = (0 : BitVec 32) := by
    simp [hs₁, SysInstr.exec]
  have hbx : (s₁.reg .rbx).setWidth 32 = (1 : BitVec 32) := by
    simp [hs₁, SysInstr.exec]
  have hsp : s₁.reg .rsp = s.reg .rsp := by
    simp [hs₁, SysInstr.exec]
  have hif : s₁.interrupts = s.interrupts := by
    simp [hs₁, SysInstr.exec]
  have hround : runLock spinRound s = (s₁.setFlags (.ofSub32 0 0)).write32 (s.reg .rdx + 0) 1 := by
    have hexec : runLock spinRound s = (LockInstr.cmpxchg32 .rdx 0 .rbx).exec s₁ := rfl
    rw [hexec, LockInstr.exec, hmem, hdx₁, hold, hax, if_pos rfl, hbx]
  rw [hround]
  refine ⟨?_, ?_, ?_, ?_⟩
  · exact (zf_setFlags s₁).trans (ofSub32_zf_self 0)
  · rw [Cpu.write32_interrupts, Cpu.setFlags_interrupts, hif]
  · rw [Cpu.write32_reg, Cpu.setFlags_reg, hsp]
  · rw [Cpu.write32_mem, Cpu.setFlags_mem, hmem, haddr]

/-- **Taking a free lock** succeeds at once, and disables interrupts. -/
theorem synchSpinlock_spec (fuel : Nat) (hfree : spinValue s.mem lock = 0)
    (hstack : Apart (s.reg .rsp - 8) lock) :
    ∃ s', synchSpinlock (fuel + 1) s lock = some s' ∧ s'.interrupts = false ∧
      s'.reg .rsp = s.reg .rsp ∧ spinValue s'.mem lock = 1 ∧
      ∀ l, Apart lock l → Apart (s.reg .rsp - 8) l → spinValue s'.mem l = spinValue s.mem l := by
  obtain ⟨hif, hsp, hdx, v, w, hmem⟩ := spinEntry_spec s lock
  have hother (l : Word) (hl : l = lock ∨ Apart lock l) (hst : Apart (s.reg .rsp - 8) l) :
      spinValue (runLock spinEntry (spinEnter s lock)).mem l = spinValue s.mem l := by
    unfold Apart at hl hst
    rw [hmem, spinValue, read32_write32_of_ne (by bv_omega) (by bv_omega),
      read32_write64 (by bv_omega) (by bv_omega), spinValue]
  have hvalue := (hother lock (Or.inl rfl) hstack).trans hfree
  obtain ⟨hzf, hif', hsp', hmem'⟩ := spinRound_spec hdx hvalue
  refine ⟨runLock spinRound (runLock spinEntry (spinEnter s lock)), ?_, ?_, ?_, ?_, ?_⟩
  · rw [synchSpinlock, spinLoop, if_pos hzf]
  · rw [hif', hif]
  · rw [hsp', hsp]
  · rw [hmem', spinValue, read32_write32]
  · intro l hl hst
    unfold Apart at hl
    rw [hmem', spinValue, read32_write32_of_ne (by omega) (by omega)]
    exact hother l (Or.inr hl) hst

/-- `synch_spinunlock` up to its `popfq`: the flags that were pushed are on the stack again. -/
theorem spinExit_spec (s : Cpu) (lock : Word) :
    ∃ flags w, flags.getLsbD 9 = s.interrupts ∧
      (runLock (spinExit.take 5) (spinEnter s lock)).reg .rsp = s.reg .rsp - 8 ∧
      (runLock (spinExit.take 5) (spinEnter s lock)).reg .rdx = lock ∧
      (runLock (spinExit.take 5) (spinEnter s lock)).mem =
        write64 (write32 (write64 s.mem (s.reg .rsp - 8) flags) (lock + 4) w) (s.reg .rsp - 8)
          flags := by
  set s₁ := (SysInstr.xor .rax .rax).exec (spinEnter s lock) with hs₁
  have hif : s₁.interrupts = s.interrupts := by
    simp [hs₁, spinEnter, SysInstr.exec]
  set flags := s₁.rflags &&& ~~~resumeFlag with hflags
  refine ⟨flags, read32 (write64 s.mem (s.reg .rsp - 8) flags) (lock + 4) ||| flags.setWidth 32,
    ?_, ?_, ?_, ?_⟩
  · rw [Cpu.pushed_interrupts, hif]
  · simp [spinExit, spinEnter, LockInstr.exec, SysInstr.exec]
  · simp [spinExit, spinEnter, LockInstr.exec, SysInstr.exec]
  · simp [spinExit, spinEnter, LockInstr.exec, SysInstr.exec, hflags, hs₁]

/-- **Giving it back** leaves interrupts as they are. -/
theorem synchSpinunlock_spec (s : Cpu) (lock : Word) :
    (synchSpinunlock s lock).interrupts = s.interrupts ∧
      (synchSpinunlock s lock).reg .rsp = s.reg .rsp ∧
      spinValue (synchSpinunlock s lock).mem lock = 0 ∧
      ∀ l, Apart lock l → Apart (s.reg .rsp - 8) l →
        spinValue (synchSpinunlock s lock).mem l = spinValue s.mem l := by
  obtain ⟨flags, w, hflags, hsp, hdx, hmem⟩ := spinExit_spec s lock
  set s₁ := runLock (spinExit.take 5) (spinEnter s lock) with hs₁
  have hexit : synchSpinunlock s lock =
      (LockInstr.storeImm32 .rdx 0 0).exec (LockInstr.popfq.exec s₁) := rfl
  have hdx' : (LockInstr.popfq.exec s₁).reg .rdx + 0 = lock := by
    have hreg : (LockInstr.popfq.exec s₁).reg .rdx = s₁.reg .rdx := by
      simp [LockInstr.exec]
    rw [hreg, hdx]
    exact BitVec.add_zero lock
  have hfinal : (synchSpinunlock s lock).mem = write32 s₁.mem lock 0 := by
    rw [hexit, LockInstr.exec, hdx']
    rfl
  refine ⟨?_, ?_, ?_, ?_⟩
  · rw [hexit, LockInstr.exec, Cpu.write32_interrupts, Cpu.popfq_interrupts, hsp, hmem,
      read64_write64, hflags]
  · rw [hexit, LockInstr.exec, Cpu.write32_reg]
    simp [LockInstr.exec, hsp]
  · rw [hfinal, spinValue, read32_write32]
  · intro l hl hst
    unfold Apart at hl hst
    rw [hfinal, spinValue, read32_write32_of_ne (by omega) (by omega), hmem,
      read32_write64 (by bv_omega) (by bv_omega), read32_write32_of_ne (by bv_omega) (by bv_omega),
      read32_write64 (by bv_omega) (by bv_omega), spinValue]

end

/-! ## Runs -/

/-- The locks that are held after a sequence. -/
def heldAfter : List Word → List SpinOp → List Word
  | held, [] => held
  | held, .lock l :: ops => heldAfter (l :: held) ops
  | held, .unlock l :: ops => heldAfter (held.filter (· ≠ l)) ops

/-- No lock is taken that is held. -/
def Legal : List Word → List SpinOp → Prop
  | _, [] => True
  | held, .lock l :: ops => l ∉ held ∧ Legal (l :: held) ops
  | held, .unlock l :: ops => Legal (held.filter (· ≠ l)) ops

/-- The locks' words, with `held` held and the stack as it was. -/
structure SpinInv (locks : List Word) (sp : Word) (held : List Word) (s : Cpu) : Prop where
  rsp : s.reg .rsp = sp
  value : ∀ l ∈ locks, spinValue s.mem l = if l ∈ held then 1 else 0

/-- The locks share no byte with each other and the top of the stack. -/
structure SpinLayout (locks : List Word) (sp : Word) : Prop where
  apart : ∀ l ∈ locks, ∀ l' ∈ locks, l ≠ l' → Apart l l'
  stack : ∀ l ∈ locks, Apart (sp - 8) l

section
variable {s s' : Cpu} {locks held : List Word} {sp l : Word} {fuel : Nat}
  {ops calls inner before : List SpinOp}

theorem legal_append : Legal held (ops ++ calls) ↔
    Legal held ops ∧ Legal (heldAfter held ops) calls := by
  induction ops generalizing held with
  | nil => simp [Legal, heldAfter]
  | cons op ops ih =>
    cases op with
    | lock l => simp only [List.cons_append, Legal, heldAfter, ih, and_assoc]
    | unlock l => simp only [List.cons_append, Legal, heldAfter, ih]

theorem heldAfter_append : heldAfter held (ops ++ calls) = heldAfter (heldAfter held ops) calls := by
  induction ops generalizing held with
  | nil => rfl
  | cons op ops ih =>
    cases op with
    | lock l => exact ih
    | unlock l => exact ih

/-- **A nested sequence** takes no lock twice and gives all of them back. -/
theorem Nested.legal (h : Nested held ops) : Legal held ops ∧ heldAfter held ops = held := by
  induction h with
  | nil held => exact ⟨trivial, rfl⟩
  | @hold held l inner after hl _ _ ihinner ihafter =>
    have hback : (l :: held).filter (· ≠ l) = held := by
      rw [List.filter_cons_of_neg (by simp), List.filter_eq_self]
      intro l' hl'
      simpa using fun heq : l' = l => hl (heq ▸ hl')
    rw [legal_append, heldAfter_append]
    simp only [Legal, heldAfter, ihinner.2, hback]
    exact ⟨⟨⟨hl, ihinner.1⟩, ihafter.1⟩, ihafter.2⟩

/-- **One call.** -/
theorem SpinInv.lock (h : SpinInv locks sp held s) (hlayout : SpinLayout locks sp)
    (hl : l ∈ locks) (hfree : l ∉ held) (fuel : Nat) :
    ∃ s', spinStep (fuel + 1) s (.lock l) = some s' ∧ SpinInv locks sp (l :: held) s' ∧
      s'.interrupts = false := by
  have hstack := hlayout.stack l hl
  rw [← h.rsp] at hstack
  obtain ⟨s', hstep, hif, hsp, hself, hothers⟩ :=
    synchSpinlock_spec fuel ((h.value l hl).trans (if_neg hfree)) hstack
  refine ⟨s', hstep, ⟨hsp.trans h.rsp, ?_⟩, hif⟩
  intro l' hl'
  by_cases heq : l' = l
  · rw [heq, hself, if_pos List.mem_cons_self]
  · have hst := hlayout.stack l' hl'
    rw [← h.rsp] at hst
    rw [hothers l' (hlayout.apart l hl l' hl' (Ne.symm heq)) hst, h.value l' hl']
    simp [heq]

theorem SpinInv.unlock (h : SpinInv locks sp held s) (hlayout : SpinLayout locks sp)
    (hl : l ∈ locks) : SpinInv locks sp (held.filter (· ≠ l)) (synchSpinunlock s l) ∧
      (synchSpinunlock s l).interrupts = s.interrupts := by
  obtain ⟨hif, hsp, hself, hothers⟩ := synchSpinunlock_spec s l
  refine ⟨⟨hsp.trans h.rsp, ?_⟩, hif⟩
  intro l' hl'
  by_cases heq : l' = l
  · rw [heq, hself]
    simp
  · have hst := hlayout.stack l' hl'
    rw [← h.rsp] at hst
    rw [hothers l' (hlayout.apart l hl l' hl' (Ne.symm heq)) hst, h.value l' hl']
    simp [heq]

/-- **Many calls**: they all return, the locks' words follow what is held, and interrupts that are
    disabled stay so. -/
theorem SpinInv.run (h : SpinInv locks sp held s) (hlayout : SpinLayout locks sp)
    (hlegal : Legal held ops) (hlocks : ∀ l ∈ locksOf ops, l ∈ locks) (fuel : Nat) :
    ∃ s', spinRun (fuel + 1) s ops = some s' ∧ SpinInv locks sp (heldAfter held ops) s' ∧
      (s.interrupts = false → s'.interrupts = false) := by
  induction ops generalizing held s with
  | nil => exact ⟨s, rfl, h, id⟩
  | cons op ops ih =>
    have hrest : ∀ l ∈ locksOf ops, l ∈ locks := fun l hl => hlocks l (List.mem_cons_of_mem _ hl)
    cases op with
    | lock l =>
      obtain ⟨s₁, hstep, hinv, hif⟩ :=
        h.lock hlayout (hlocks l List.mem_cons_self) hlegal.1 fuel
      obtain ⟨s', hrun, hinv', hkeeps⟩ := ih hinv hlegal.2 hrest
      refine ⟨s', ?_, hinv', fun _ => hkeeps hif⟩
      rw [spinRun, hstep, Option.bind_some, hrun]
    | unlock l =>
      obtain ⟨hinv, hif⟩ := h.unlock hlayout (hlocks l List.mem_cons_self)
      obtain ⟨s', hrun, hinv', hkeeps⟩ := ih hinv hlegal hrest
      refine ⟨s', ?_, hinv', fun hs => hkeeps (hif.trans hs)⟩
      rw [spinRun, spinStep, Option.bind_some, hrun]

/-- A sequence that begins with an acquisition leaves interrupts disabled. -/
theorem SpinInv.run_lock (h : SpinInv locks sp held s) (hlayout : SpinLayout locks sp)
    (hlegal : Legal held (.lock l :: ops)) (hlocks : ∀ l' ∈ locksOf (.lock l :: ops), l' ∈ locks)
    (hrun : spinRun (fuel + 1) s (.lock l :: ops) = some s') : s'.interrupts = false := by
  obtain ⟨s₁, hstep, hinv, hif⟩ := h.lock hlayout (hlocks l List.mem_cons_self) hlegal.1 fuel
  obtain ⟨s₂, hrest, -, hkeeps⟩ := hinv.run hlayout hlegal.2
    (fun l' hl' => hlocks l' (List.mem_cons_of_mem _ hl')) fuel
  rw [spinRun, hstep, Option.bind_some, hrest] at hrun
  cases hrun
  exact hkeeps hif

end

/-! ## The main theorem -/

section
variable {s s' : Cpu} {l : Word} {fuel : Nat} {ops calls inner : List SpinOp}

theorem SpinMemory.layout (h : SpinMemory s ops) : SpinLayout (locksOf ops) (s.reg .rsp) :=
  ⟨h.apart, h.stack⟩

theorem SpinMemory.inv (h : SpinMemory s ops) : SpinInv (locksOf ops) (s.reg .rsp) [] s := by
  refine ⟨rfl, ?_⟩
  intro l hl
  rw [h.free l hl, if_neg (List.not_mem_nil)]

/-- The state after some of the calls. -/
theorem SpinMemory.upTo (h : SpinMemory s ops) (hn : Nested [] ops) (hpre : calls <+: ops)
    (fuel : Nat) :
    ∃ s', spinRun (fuel + 1) s calls = some s' ∧
      SpinInv (locksOf ops) (s.reg .rsp) (heldAfter [] calls) s' ∧
      (calls ≠ [] → s'.interrupts = false) ∧ (s.interrupts = false → s'.interrupts = false) := by
  obtain ⟨rest, rfl⟩ := hpre
  have hlegal : Legal [] calls := (legal_append.mp hn.legal.1).1
  have hlocks : ∀ l ∈ locksOf calls, l ∈ locksOf (calls ++ rest) := by
    intro l hl
    rw [locksOf, List.map_append]
    exact List.mem_append_left _ hl
  obtain ⟨s', hrun, hinv, hkeeps⟩ := h.inv.run h.layout hlegal hlocks fuel
  refine ⟨s', hrun, hinv, ?_, hkeeps⟩
  intro hne
  cases calls with
  | nil => exact absurd rfl hne
  | cons op calls =>
    cases op with
    | lock l => exact h.inv.run_lock h.layout hlegal hlocks hrun
    | unlock l =>
      -- a nested sequence begins with an acquisition
      cases hn

/-- Flags that are in the locks are not looked at. -/
theorem SpinMemory.of_flags (h : SpinMemory s ops) {m : Memory}
    (hm : ∀ x, (∀ l ∈ locksOf ops, 4 ≤ (x - (l + 4)).toNat) → m x = s.mem x) :
    SpinMemory { s with mem := m } ops := by
  refine ⟨?_, h.apart, h.stack⟩
  intro l hl
  have hsame : spinValue m l = spinValue s.mem l := by
    apply read32_congr
    intro i hi
    apply hm
    intro l' hl'
    by_cases heq : l = l'
    · subst heq
      bv_omega
    · obtain ⟨h₁, h₂⟩ := h.apart l hl l' hl' heq
      bv_omega
  exact hsame.trans (h.free l hl)

theorem nested_one (hinner : Nested [l] inner) : Nested [] (.lock l :: inner ++ [.unlock l]) :=
  .hold List.not_mem_nil hinner (.nil [])

end

/-- **Balanced spinlock use restores the interrupt flag** exactly if no lock is taken, or interrupts
    were disabled to begin with: an unlock leaves them as they are, which is disabled. -/
theorem spinlocks_restore (fuel : Nat) (s : Cpu) (ops : List SpinOp) (hn : Nested [] ops)
    (hmem : SpinMemory s ops) :
    RestoresInterrupts (fuel + 1) s ops ↔ ops = [] ∨ s.interrupts = false := by
  constructor
  · intro h
    cases hn with
    | nil _ => exact Or.inl rfl
    | @hold _ l inner after hl hinner hafter =>
      right
      have hpre : .lock l :: inner ++ [.unlock l] <+: .lock l :: inner ++ .unlock l :: after :=
        ⟨after, by simp⟩
      obtain ⟨s', hrun, -, hoff, -⟩ := hmem.upTo (.hold hl hinner hafter) hpre fuel
      have hback := h.restored [] l inner after rfl (.nil []) hinner s s' rfl hrun
      exact hback.1.symm.trans (hoff (by simp))
  · intro hcond
    constructor
    · intro calls hpre
      obtain ⟨s', hrun, -⟩ := hmem.upTo hn hpre fuel
      exact ⟨s', hrun⟩
    · intro before l inner after heq hbefore hinner during hduring s' hrun
      obtain ⟨rest, rfl⟩ := hduring
      have hpre : before ++ .lock l :: during <+: ops :=
        ⟨rest ++ .unlock l :: after, by simp [heq]⟩
      obtain ⟨s₁, hrun₁, -, hoff, -⟩ := hmem.upTo hn hpre fuel
      cases hrun.symm.trans hrun₁
      exact hoff (by simp)
    · intro before l inner after heq hbefore hinner s₁ s₂ hrun₁ hrun₂
      have hstart : s.interrupts = false := by
        cases hcond with
        | inl hnil => simp [hnil] at heq
        | inr hoff => exact hoff
      have hpre₁ : before <+: ops := ⟨_, heq.symm⟩
      have hpre₂ : before ++ (.lock l :: inner ++ [.unlock l]) <+: ops := ⟨after, by simp [heq]⟩
      obtain ⟨t₁, hrun₁', -, -, hoff₁⟩ := hmem.upTo hn hpre₁ fuel
      obtain ⟨t₂, hrun₂', hinv, -, hoff₂⟩ := hmem.upTo hn hpre₂ fuel
      cases hrun₁.symm.trans hrun₁'
      cases hrun₂.symm.trans hrun₂'
      refine ⟨(hoff₂ hstart).trans (hoff₁ hstart).symm, ?_⟩
      intro l' hl'
      have hheld : heldAfter [] (before ++ (.lock l :: inner ++ [.unlock l])) = [] := by
        rw [heldAfter_append, hbefore.legal.2, (nested_one hinner).legal.2]
      rw [hinv.value l' hl', hheld, if_neg List.not_mem_nil]
    · intro m hm calls hpre s₁ s₂ hrun₁ hrun₂
      obtain ⟨t₁, hrun₁', hinv₁, hoff₁, -⟩ := hmem.upTo hn hpre fuel
      obtain ⟨t₂, hrun₂', hinv₂, hoff₂, -⟩ := (hmem.of_flags hm).upTo hn hpre fuel
      cases hrun₁.symm.trans hrun₁'
      cases hrun₂.symm.trans hrun₂'
      refine ⟨?_, fun l hl => (hinv₂.value l hl).trans (hinv₁.value l hl).symm⟩
      cases calls with
      | nil =>
        cases hrun₁
        cases hrun₂
        rfl
      | cons op calls => exact (hoff₂ (by simp)).trans (hoff₁ (by simp)).symm

/-- A processor with empty memory. -/
def bareCpu (rflags : Quad) : Cpu where
  reg r := if r = .rsp then 0x9000 else 0
  rflags := rflags
  rip := 0
  seg _ := 0
  msr _ := 0
  cr3 := 0
  mem _ := 0
  base _ := 0

theorem bareCpu_memory (rflags : Quad) {ops : List SpinOp}
    (h : ∀ l ∈ locksOf ops, l = 0x1000 ∨ l = 0x2000) : SpinMemory (bareCpu rflags) ops := by
  refine ⟨fun _ _ => rfl, ?_, ?_⟩
  · intro l hl l' hl' hne
    rcases h l hl with rfl | rfl <;> rcases h l' hl' with rfl | rfl
    · exact absurd rfl hne
    · decide
    · decide
    · exact absurd rfl hne
  · intro l hl
    have hsp : (bareCpu rflags).reg .rsp = 0x9000 := rfl
    rw [hsp]
    rcases h l hl with rfl | rfl
    · decide
    · decide

/-- Two locks, one inside the other and taken twice, with interrupts disabled. -/
theorem spinlocks_restore_of_two : RestoresInterrupts 1 (bareCpu 0x2)
    [.lock 0x1000, .lock 0x2000, .unlock 0x2000, .lock 0x2000, .unlock 0x2000, .unlock 0x1000] := by
  have hinner : Nested [0x1000] [.lock 0x2000, .unlock 0x2000] :=
    .hold (by decide) (.nil _) (.nil _)
  have hnested : Nested [] [.lock 0x1000, .lock 0x2000, .unlock 0x2000, .lock 0x2000,
      .unlock 0x2000, .unlock 0x1000] :=
    .hold List.not_mem_nil (.hold (by decide) (.nil _) hinner) (.nil _)
  apply (spinlocks_restore 0 (bareCpu 0x2) _ hnested (bareCpu_memory 0x2 ?_)).mpr
  · exact Or.inr (by decide)
  · intro l hl
    simp only [locksOf, List.map_cons, List.map_nil, List.mem_cons, List.mem_nil_iff] at hl
    tauto

/-- One lock, taken and given back with interrupts enabled: they are disabled afterwards. -/
theorem spinunlock_leaves_disabled :
    (bareCpu 0x202).interrupts = true ∧
      (∃ s', spinRun 1 (bareCpu 0x202) [.lock 0x1000, .unlock 0x1000] = some s' ∧
        s'.interrupts = false) ∧
      ¬ RestoresInterrupts 1 (bareCpu 0x202) [.lock 0x1000, .unlock 0x1000] := by
  have hnested : Nested [] [.lock 0x1000, .unlock 0x1000] := nested_one (.nil _)
  have hmem : SpinMemory (bareCpu 0x202) [.lock 0x1000, .unlock 0x1000] := by
    apply bareCpu_memory
    intro l hl
    simp only [locksOf, List.map_cons, List.map_nil, List.mem_cons, List.mem_nil_iff] at hl
    tauto
  obtain ⟨s', hrun, -, hoff, -⟩ := hmem.upTo hnested (List.prefix_refl _) 0
  have hdisabled : s'.interrupts = false := hoff (by simp)
  have henabled : (bareCpu 0x202).interrupts = true := by decide
  refine ⟨henabled, ⟨s', hrun, hdisabled⟩, ?_⟩
  intro h
  have hback := (h.restored [] 0x1000 [] [] rfl (.nil []) (.nil _) _ s' rfl hrun).1
  rw [hdisabled, henabled] at hback
  cases hback

end Refk
