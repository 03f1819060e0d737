import Refk.Klib.Kmem
import Refk.Lib.Run
import Refk.Lib.X86

/-!
# `clib/atomic.c` — operations on a shared word

Each function is an inline assembly of a few instructions with register constraints: the
operands are moved into the registers that the constraints name, the instructions run, and the
result is what the output register holds then. Every other register and the flags are whatever
the compiler left in them, so a call gets them as an argument.

`atomic_read` and `atomic_write` have a second path, chosen by where in its cache line the
address is, which is an ordinary access.

Two of the results are wrong. `atomic_read` adds zero to the word and answers the register it
added, not the word. `atomic_swapcompare` clears `rax` with an `xor` before it looks at the zero
flag that `cmpxchg` left, and the `xor` sets it: the answer is success in every case.
-/

namespace Refk

open Lib Lib.X86

/-- The registers and flags that a call finds. -/
structure Scratch where
  reg : Reg → Word
  flags : Flags

/-- The processor when an inline assembly starts: its inputs are in their registers. -/
def Scratch.enter (c : Scratch) (mem : Memory) (inputs : List (Reg × Word)) : Machine :=
  inputs.foldl (fun s i => s.setReg i.1 i.2) ⟨c.reg, c.flags, mem⟩

/-- `CACHE_LINE_SIZE` -/
def cacheLineSize : Word := 64

/-- `CACHE_LINE_MASK` -/
def cacheLineMask : Word := cacheLineSize - 1

/-- `CACHE_LINE_MAX` -/
def cacheLineMax : Word := cacheLineSize - 7

/-- `CACHE_LINE_WITHIN` -/
def cacheLineWithin (a : Word) : Prop := a &&& cacheLineMask ≥ cacheLineMax

instance (a : Word) : Decidable (cacheLineWithin a) := inferInstanceAs (Decidable (_ ≥ _))

/-- `atomic_write` -/
def atomicWrite (c : Scratch) (mem : Memory) (address value : Word) : Memory :=
  if cacheLineWithin address then write64 mem address value
  else (execAll [.xchg .rax .rbx] (c.enter mem [(.rax, address), (.rbx, value)])).mem

/-- `atomic_read`, with its result. -/
def atomicRead (c : Scratch) (mem : Memory) (address : Word) : Memory × Word :=
  if cacheLineWithin address then (mem, read64 mem address)
  else
    let s := execAll [.add .rax .rbx] (c.enter mem [(.rax, address), (.rbx, 0)])
    (s.mem, s.reg .rbx)

/-- `atomic_inc` -/
def atomicInc (c : Scratch) (mem : Memory) (address : Word) : Memory :=
  (execAll [.inc .rax] (c.enter mem [(.rax, address)])).mem

/-- `atomic_dec` -/
def atomicDec (c : Scratch) (mem : Memory) (address : Word) : Memory :=
  (execAll [.dec .rax] (c.enter mem [(.rax, address)])).mem

/-- `atomic_swap`, with its result. -/
def atomicSwap (c : Scratch) (mem : Memory) (address value : Word) : Memory × Word :=
  let s := execAll [.xchg .rax .rbx] (c.enter mem [(.rax, address), (.rbx, value)])
  (s.mem, s.reg .rbx)

/-- `atomic_swapcompare`, with its result: an `int`, so the low half of `successful`. -/
def atomicSwapcompare (c : Scratch) (mem : Memory) (address expected value : Word) :
    Memory × BitVec 32 :=
  let s := execAll [.cmpxchg .rbx .rcx, .xor .rax .rax, .cmovz .rdx .rax]
    (c.enter mem [(.rax, expected), (.rbx, address), (.rcx, value), (.rdx, 1)])
  let successful := s.reg .rdx
  (s.mem, successful.setWidth 32)

/-! ## What each of them does -/

section
variable (c : Scratch) (mem : Memory) (address expected value : Word)

theorem atomicWrite_eq : atomicWrite c mem address value = write64 mem address value := by
  unfold atomicWrite
  split
  · rfl
  · simp [Scratch.enter, Instr.exec]

/-- The answer is the word on one path and zero on the other. -/
theorem atomicRead_eq : atomicRead c mem address =
    (mem, if cacheLineWithin address then read64 mem address else 0) := by
  unfold atomicRead
  split
  · rfl
  · simp [Scratch.enter, Instr.exec, write64_read64]

theorem atomicInc_eq : atomicInc c mem address =
    write64 mem address (read64 mem address + 1) := by
  simp [atomicInc, Scratch.enter, Instr.exec]

theorem atomicDec_eq : atomicDec c mem address =
    write64 mem address (read64 mem address - 1) := by
  simp [atomicDec, Scratch.enter, Instr.exec]

theorem atomicSwap_eq : atomicSwap c mem address value =
    (write64 mem address value, read64 mem address) := by
  simp [atomicSwap, Scratch.enter, Instr.exec]

/-- **The answer is always success**: the flag it reads is the one of the `xor`. -/
theorem atomicSwapcompare_eq : atomicSwapcompare c mem address expected value =
    (if expected = read64 mem address then write64 mem address value else mem, 0) := by
  by_cases heq : expected = read64 mem address
  · simp [atomicSwapcompare, Scratch.enter, Instr.exec, heq]
  · simp [atomicSwapcompare, Scratch.enter, Instr.exec, heq, write64_read64]

end

/-! ## A register -/

/-- A call on the word at `address`. -/
inductive AtomicOp
  | write (value : Word)
  | read
  | inc
  | dec
  | swap (value : Word)
  | swapcompare (expected value : Word)
  deriving DecidableEq, Repr

/-- One call, with its result if it has one. -/
def atomicStep (mem : Memory) : Scratch × Word × AtomicOp → Option (Memory × Option Word)
  | (c, address, .write value) => some (atomicWrite c mem address value, none)
  | (c, address, .read) =>
    let (mem, value) := atomicRead c mem address
    some (mem, some value)
  | (c, address, .inc) => some (atomicInc c mem address, none)
  | (c, address, .dec) => some (atomicDec c mem address, none)
  | (c, address, .swap value) =>
    let (mem, old) := atomicSwap c mem address value
    some (mem, some old)
  | (c, address, .swapcompare expected value) =>
    let (mem, ret) := atomicSwapcompare c mem address expected value
    some (mem, some (ret.setWidth 64))

/-- What a register does: the value it has afterwards and its answer. -/
def registerStep (current : Word) : AtomicOp → Word × Option Word
  | .write value => (value, none)
  | .read => (current, some current)
  | .inc => (current + 1, none)
  | .dec => (current - 1, none)
  | .swap value => (value, some current)
  | .swapcompare expected value =>
    if current = expected then (value, some 0) else (current, some 1)

/-- The call is a step of the register at its address, and no other byte of memory changes. -/
def Implements (mem : Memory) (a : Scratch × Word × AtomicOp) (b : Option Word)
    (mem' : Memory) : Prop :=
  let (current, answer) := registerStep (read64 mem a.2.1) a.2.2
  mem' = write64 mem a.2.1 current ∧ b = answer

/-- An `atomic_read` is near the end of a cache line or finds zero, an `atomic_swapcompare` finds
    the value it expects. -/
def FindsExpected (mem : Memory) : Scratch × Word × AtomicOp → Option Word → Memory → Prop
  | (_, address, .read), _, _ => cacheLineWithin address ∨ read64 mem address = 0
  | (_, address, .swapcompare expected _), _, _ => read64 mem address = expected
  | _, _, _ => True

theorem step_implements {mem mem' : Memory} {a : Scratch × Word × AtomicOp} {b : Option Word}
    (h : atomicStep mem a = some (mem', b)) :
    Implements mem a b mem' ↔ FindsExpected mem a b mem' := by
  obtain ⟨c, address, op⟩ := a
  cases op with
  | write value =>
    simp only [atomicStep, atomicWrite_eq, Option.some.injEq, Prod.mk.injEq] at h
    obtain ⟨rfl, rfl⟩ := h
    simp [Implements, FindsExpected, registerStep]
  | read =>
    simp only [atomicStep, atomicRead_eq, Option.some.injEq, Prod.mk.injEq] at h
    obtain ⟨rfl, rfl⟩ := h
    by_cases hline : cacheLineWithin address
    · simp [Implements, FindsExpected, registerStep, hline, write64_read64]
    · simp [Implements, FindsExpected, registerStep, hline, write64_read64, eq_comm]
  | inc =>
    simp only [atomicStep, atomicInc_eq, Option.some.injEq, Prod.mk.injEq] at h
    obtain ⟨rfl, rfl⟩ := h
    simp [Implements, FindsExpected, registerStep]
  | dec =>
    simp only [atomicStep, atomicDec_eq, Option.some.injEq, Prod.mk.injEq] at h
    obtain ⟨rfl, rfl⟩ := h
    simp [Implements, FindsExpected, registerStep]
  | swap value =>
    simp only [atomicStep, atomicSwap_eq, Option.some.injEq, Prod.mk.injEq] at h
    obtain ⟨rfl, rfl⟩ := h
    simp [Implements, FindsExpected, registerStep]
  | swapcompare expected value =>
    simp only [atomicStep, atomicSwapcompare_eq, Option.some.injEq, Prod.mk.injEq] at h
    obtain ⟨rfl, rfl⟩ := h
    by_cases heq : read64 mem address = expected
    · simp [Implements, FindsExpected, registerStep, heq]
    · simp [Implements, FindsExpected, registerStep, heq]

/-- **The atomic operations are steps of a register**, in every sequence of them at whatever
    addresses and from whatever memory, if and only if every read is near the end of a cache line
    or finds zero and every compare-and-swap finds what it expects. -/
theorem atomics_implement_register {mem₀ mem : Memory}
    {tr : List ((Scratch × Word × AtomicOp) × Option Word)}
    (h : Run atomicStep mem₀ tr mem) :
    Along atomicStep mem₀ Implements tr ↔ Along atomicStep mem₀ FindsExpected tr :=
  Along.iff_of_invariant (fun _ => True) trivial
    (fun _ _ _ _ _ _ hstep => ⟨step_implements hstep, fun _ => trivial⟩) h

/-- Memory and registers that hold nothing. -/
def zeroMemory : Memory := fun _ => 0

@[simp] theorem read64_zeroMemory (a : Word) : read64 zeroMemory a = 0 := by
  have hbytes : bytesAt zeroMemory a = List.replicate 8 0 := List.map_const ..
  rw [read64, hbytes]
  rfl

def zeroScratch : Scratch := ⟨fun _ => 0, ⟨false, false, false, false, false, false⟩⟩

/-- A word is written and then compared with what was written. -/
theorem atomics_implement_register_of_two : ∃ mem, Run atomicStep zeroMemory
      [((zeroScratch, 0x1000, .write 5), none), ((zeroScratch, 0x1000, .swapcompare 5 7), some 0)]
      mem ∧
    (Along atomicStep zeroMemory Implements
        [((zeroScratch, 0x1000, .write 5), none), ((zeroScratch, 0x1000, .swapcompare 5 7), some 0)]
      ↔ Along atomicStep zeroMemory FindsExpected
        [((zeroScratch, 0x1000, .write 5), none),
          ((zeroScratch, 0x1000, .swapcompare 5 7), some 0)]) := by
  have h : Run atomicStep zeroMemory
      [((zeroScratch, 0x1000, .write 5), none), ((zeroScratch, 0x1000, .swapcompare 5 7), some 0)]
      (write64 (write64 zeroMemory 0x1000 5) 0x1000 7) := by
    have hwrite : atomicStep zeroMemory (zeroScratch, 0x1000, .write 5) =
        some (write64 zeroMemory 0x1000 5, none) := by
      simp [atomicStep, atomicWrite_eq]
    have hswap : atomicStep (write64 zeroMemory 0x1000 5)
        (zeroScratch, 0x1000, .swapcompare 5 7) =
        some (write64 (write64 zeroMemory 0x1000 5) 0x1000 7, some 0) := by
      simp [atomicStep, atomicSwapcompare_eq]
    exact (RunIf.start.snoc trivial hwrite).snoc trivial hswap
  exact ⟨_, h, atomics_implement_register h⟩

/-- **A compare-and-swap that fails says that it succeeded**, and a read of a five answers zero. -/
theorem swapcompare_hides_failure :
    (∃ mem, Run atomicStep zeroMemory [((zeroScratch, 0x1000, .swapcompare 5 7), some 0)] mem ∧
      ¬ Along atomicStep zeroMemory Implements
        [((zeroScratch, 0x1000, .swapcompare 5 7), some 0)]) ∧
    ¬ Implements (write64 zeroMemory 0x1000 5) (zeroScratch, 0x1000, .read) (some 0)
      (write64 zeroMemory 0x1000 5) := by
  have hstep : atomicStep zeroMemory (zeroScratch, 0x1000, .swapcompare 5 7) =
      some (zeroMemory, some 0) := by
    simp [atomicStep, atomicSwapcompare_eq]
  refine ⟨⟨zeroMemory, RunIf.snoc .start trivial hstep, fun hall => ?_⟩, fun himpl => ?_⟩
  · have himpl := hall [] _ _ [] _ _ rfl .start hstep
    simp [Implements, registerStep] at himpl
  · simp [Implements, registerStep] at himpl

end Refk
