import Refk.Kernel.Transfer

/-!
# `kernel/images/intr.s` — the stub of a vector

The stub pushes four registers, looks whether the processor pushed an error code as well, and drops
it from under them. Then it enters the vector's handler task, or pops the registers and returns. A
task that was left for a handler is resumed at the same pops.

The drop moves four words up by one, with an overlap, and `cld` has them moved from the lowest on:
each word moved is the one that was just written.
-/

namespace Refk

open Lib Lib.X86

/-- `isr_task_region`, the handler tasks of the vectors -/
def isrTaskRegion : Quad := 0xffffffffffc02000

/-! ## The code -/

def isrPush : List SysInstr := [.push .rax, .push .rbx, .push .rdi, .push .rsi, .xor .rbx .rbx]

def isrSave : List SysInstr :=
  -- read the second element of the iret region; if it's CS, it'll be < 0x1000
  isrPush ++ [.cmpMem .rsp (32 + 8) 0x1000]

def dropStart : List SysInstr := [.load .rbx .rsp 32, .lea .rdi .rsp 32, .lea .rsi .rsp 24, .cld]

def dropCode : List SysInstr := dropStart ++ List.replicate 4 .movsq ++ [.addImm .rsp 8]

/-- The stub, up to `.skip_code` -/
def isrEnter (s : Cpu) : Cpu :=
  let s := runAll isrSave s
  if s.cf then s else runAll dropCode s

def isrLookup (vector : Nat) : List SysInstr :=
  [.loadAt .rsi (isrTaskRegion + BitVec.ofNat 64 (vector * 8)), .cmpImm .rsi 0]

/-- The call of the handler, which returns to `.skip_task`. -/
def isrHandler (vector : Nat) (skipTask : Quad) : List SysInstr :=
  [.storeImm .rsi (5*8) (BitVec.ofNat 64 vector), .store .rsi (4*8) .rbx,
    .loadAt .rdi taskStateRegion, .store .rsi (3*8) .rdi, .call skipTask]

/-- The stub, from `.skip_task` on -/
def isrReturn : List SysInstr := [.pop .rsi, .pop .rdi, .pop .rbx, .pop .rax, .iretq]

/-- The processor where the handler is called, right before `transfer_control`. -/
def isrCall (vector : Nat) (skipTask : Quad) (s : Cpu) : Cpu :=
  runAll (isrHandler vector skipTask) (runAll (isrLookup vector) (isrEnter s))

/-- `basic_isr` -/
def basicIsr (vector : Nat) (skipTask : Quad) (s : Cpu) : Cpu :=
  if (runAll (isrLookup vector) (isrEnter s)).zf then
    runAll isrReturn (runAll (isrLookup vector) (isrEnter s))
  else transferControl (isrCall vector skipTask s)

/-! ## Interrupts -/

/-- Twelve words of the stack are used: the six from here on, and those of the interrupt. -/
def stackBase (s : Cpu) : Quad := s.reg .rsp - 48

/-- The words that the processor pushed: `RIP`, `CS`, `RFLAGS`, `RSP`, `SS`. -/
def interruptWord (code : Option Quad) (s : Cpu) (k : Nat) : Quad :=
  stateWord s.mem (stackBase s) ((if code.isSome then 7 else 6) + k)

def handlerOf (vector : Nat) (s : Cpu) : Quad :=
  read64 s.mem (isrTaskRegion + BitVec.ofNat 64 (vector * 8))

/-- The state pointer that `transfer_control` left. -/
def currentTask (s : Cpu) : Quad := stateWord s.mem taskStateRegion 0

/-- The processor at a stub's first instruction. -/
structure Interrupted (vector : Nat) (code : Option Quad) (s : Cpu) : Prop where
  vector_lt : vector < 256
  rip : 0x1000 ≤ (interruptWord code s 0).toNat
  cs : (interruptWord code s 1).toNat < 0x1000
  code_top : ∀ c ∈ code, stateWord s.mem (stackBase s) 6 = c
  slots_off : ∀ a, TaskSlot a ∨ a = taskStateRegion → ∀ j < 12,
    OffSlot a (stackBase s + BitVec.ofNat 64 (8 * j))
  table_off : ∀ j < 12, X86.Apart (stackBase s + BitVec.ofNat 64 (8 * j))
    (isrTaskRegion + BitVec.ofNat 64 (vector * 8))
  handler : handlerOf vector s = 0 ∨ TaskSlot (handlerOf vector s)
  current : handlerOf vector s ≠ 0 → TaskSlot (currentTask s)

/-- The interrupted code goes on as if nothing had been. -/
structure Transparent (code : Option Quad) (s s' : Cpu) : Prop where
  gprs : ∀ r, r ≠ .rsp → s'.reg r = s.reg r
  rip : s'.rip = interruptWord code s 0
  cs : s'.seg .cs = (interruptWord code s 1).setWidth 16
  rflags : s'.rflags = toRflags (interruptWord code s 2)
  rsp : s'.reg .rsp = interruptWord code s 3
  ss : s'.seg .ss = (interruptWord code s 4).setWidth 16

/-- The handler is entered with what it is to know. -/
structure Entered (vector : Nat) (code : Option Quad) (s s' : Cpu) : Prop where
  rip : s'.rip = stateWord s.mem (handlerOf vector s) 17
  rdi : s'.reg .rdi = BitVec.ofNat 64 vector
  rsi : s'.reg .rsi = code.getD 0
  rdx : s'.reg .rdx = currentTask s

/-- Where the stack pointer is after the code was dropped. -/
def stackTop (code : Option Quad) : Nat := if code.isSome then 3 else 2

/-- **What a stub is for.** A task that was left for the handler comes back to `.skip_task` with the
    state that was saved, and its stack is still there. -/
structure IsrContract (vector : Nat) (skipTask : Quad) (code : Option Quad) (s : Cpu) : Prop where
  at_once : handlerOf vector s = 0 → Transparent code s (basicIsr vector skipTask s)
  entered : handlerOf vector s ≠ 0 → Entered vector code s (basicIsr vector skipTask s)
  later : handlerOf vector s ≠ 0 → ∀ s', Resumed (isrCall vector skipTask s) s' →
    (∀ j < 12, stackTop code ≤ j → stateWord s'.mem (stackBase s) j =
      stateWord (isrCall vector skipTask s).mem (stackBase s) j) →
    s'.rip = skipTask ∧ Transparent code s (runAll isrReturn s')

/-- The four registers and the first three words of the frame are all the same, as far as they are
    used. -/
structure Coincides (code : Option Quad) (s : Cpu) : Prop where
  rsi : s.reg .rsi = s.reg .rdi
  rdi : s.reg .rdi = s.reg .rbx
  rbx : s.reg .rbx = s.reg .rax
  rip : interruptWord code s 0 = s.reg .rax
  cs : (interruptWord code s 1).setWidth 16 = ((s.reg .rax).setWidth 16 : BitVec 16)
  rflags : toRflags (interruptWord code s 2) = toRflags (s.reg .rax)

section
variable {s t : Cpu} {m m' : Memory} {a b v : Quad} {code : Option Quad} {vector : Nat}

/-! ## Words -/

theorem rsp_eq (s : Cpu) : s.reg .rsp = stackBase s + BitVec.ofNat 64 (8 * 6) := by
  rw [stackBase]
  exact (BitVec.sub_add_cancel ..).symm

/-- What is off the twelve words is kept. -/
def KeepsOff (a : Quad) (m m' : Memory) : Prop :=
  ∀ x, (∀ j < 12, X86.Apart (a + BitVec.ofNat 64 (8 * j)) x) → read64 m' x = read64 m x

theorem KeepsOff.refl (a : Quad) (m : Memory) : KeepsOff a m m := fun _ _ => rfl

theorem KeepsOff.write {j : Nat} (h : KeepsOff a m m') (hj : j < 12) :
    KeepsOff a m (write64 m' (a + BitVec.ofNat 64 (8 * j)) v) := by
  intro x hx
  rw [read64_write64_apart (hx j hj), h x hx]

/-- Words moved up by one, from the lowest on: all become the first. -/
theorem movsq_smears {n i : Nat} (hi : i + n < 12) (hdf : s.df = false)
    (hrsi : s.reg .rsi = a + BitVec.ofNat 64 (8 * i))
    (hrdi : s.reg .rdi = a + BitVec.ofNat 64 (8 * (i + 1))) :
    KeepsOff a s.mem (runAll (List.replicate n .movsq) s).mem ∧
    ∀ j < 32, stateWord (runAll (List.replicate n .movsq) s).mem a j =
      if i < j ∧ j ≤ i + n then stateWord s.mem a i else stateWord s.mem a j := by
  induction n generalizing s i with
  | zero =>
    refine ⟨.refl a _, fun j hj => ?_⟩
    rw [if_neg (by omega)]
    rfl
  | succ n ih =>
    have hmem : (SysInstr.movsq.exec s).mem =
        write64 s.mem (a + BitVec.ofNat 64 (8 * (i + 1))) (stateWord s.mem a i) := by
      rw [← hrdi, stateWord, ← hrsi]
      rfl
    have hstep : (if s.df then -8 else 8 : Quad) = 8 := by rw [hdf]; rfl
    have hrsi' : (SysInstr.movsq.exec s).reg .rsi = a + BitVec.ofNat 64 (8 * (i + 1)) := by
      rw [← word_add, ← hrsi, ← hstep]
      rfl
    have hrdi' : (SysInstr.movsq.exec s).reg .rdi = a + BitVec.ofNat 64 (8 * (i + 1 + 1)) := by
      rw [← word_add, ← hrdi, ← hstep]
      rfl
    obtain ⟨hkeeps, hwords⟩ := ih (s := SysInstr.movsq.exec s) (by omega) hdf hrsi' hrdi'
    rw [List.replicate_succ, runAll_cons]
    rw [hmem] at hkeeps hwords
    refine ⟨fun x hx => (hkeeps x hx).trans (KeepsOff.refl a s.mem |>.write (by omega) x hx), ?_⟩
    intro j hj
    rw [hwords j hj, stateWord_write (by omega) (by omega), if_pos rfl,
      stateWord_write (by omega) hj]
    rcases Nat.lt_trichotomy j (i + 1) with hlt | rfl | hgt
    · rw [if_neg (by omega), if_neg (by omega), if_neg (by omega)]
    · rw [if_neg (by omega), if_pos rfl, if_pos (by omega)]
    · by_cases hin : j ≤ i + 1 + n
      · rw [if_pos (by omega), if_pos (by omega)]
      · rw [if_neg (by omega), if_neg (by omega), if_neg (by omega)]

/-! ## Saving the registers -/

theorem isrSave_mem : (runAll isrSave s).mem =
    write64 (write64 (write64 (write64 s.mem (s.reg .rsp - 8) (s.reg .rax))
      (s.reg .rsp - 8 - 8) (s.reg .rbx)) (s.reg .rsp - 8 - 8 - 8) (s.reg .rdi))
      (s.reg .rsp - 8 - 8 - 8 - 8) (s.reg .rsi) := rfl

theorem isrSave_mem_words : (runAll isrSave s).mem =
    write64 (write64 (write64 (write64 s.mem (stackBase s + BitVec.ofNat 64 (8 * 5)) (s.reg .rax))
      (stackBase s + BitVec.ofNat 64 (8 * 4)) (s.reg .rbx))
      (stackBase s + BitVec.ofNat 64 (8 * 3)) (s.reg .rdi))
      (stackBase s + BitVec.ofNat 64 (8 * 2)) (s.reg .rsi) := by
  rw [isrSave_mem, rsp_eq, word_sub, word_sub, word_sub, word_sub]

theorem isrSave_keeps : KeepsOff (stackBase s) s.mem (runAll isrSave s).mem := by
  rw [isrSave_mem_words]
  exact ((((KeepsOff.refl _ _).write (by decide)).write (by decide)).write (by decide)).write
    (by decide)

/-- The stack, with the four registers on it. -/
def pushedWord (s : Cpu) (j : Nat) : Quad :=
  if j = 2 then s.reg .rsi else if j = 3 then s.reg .rdi else if j = 4 then s.reg .rbx
  else if j = 5 then s.reg .rax else stateWord s.mem (stackBase s) j

theorem isrSave_word {j : Nat} (hj : j < 32) :
    stateWord (runAll isrSave s).mem (stackBase s) j = pushedWord s j := by
  rw [pushedWord, isrSave_mem_words, stateWord_write (by decide) hj, stateWord_write (by decide) hj,
    stateWord_write (by decide) hj, stateWord_write (by decide) hj]

theorem isrSave_rsp : (runAll isrSave s).reg .rsp = stackBase s + BitVec.ofNat 64 (8 * 2) := by
  have hraw : (runAll isrSave s).reg .rsp = s.reg .rsp - 8 - 8 - 8 - 8 := rfl
  rw [hraw, rsp_eq, word_sub, word_sub, word_sub, word_sub]

theorem isrSave_rbx : (runAll isrSave s).reg .rbx = 0 := BitVec.xor_self

/-- The second word of the frame, or of what lies under a code, decides. -/
theorem isrSave_cf :
    (runAll isrSave s).cf = decide ((stateWord s.mem (stackBase s) 7).toNat < 0x1000) := by
  have hsave : runAll isrSave s = (runAll isrPush s).setFlags
      (.ofSub (read64 (runAll isrPush s).mem ((runAll isrPush s).reg .rsp + (32 + 8))) 0x1000) := by
    rw [isrSave, runAll_append]
    rfl
  have hmem : (runAll isrPush s).mem = (runAll isrSave s).mem := by rw [hsave, Cpu.setFlags_mem]
  have hreg : (runAll isrPush s).reg = (runAll isrSave s).reg := by rw [hsave, Cpu.setFlags_reg]
  have haddr : (runAll isrPush s).reg .rsp + (32 + 8) = stackBase s + BitVec.ofNat 64 (8 * 7) := by
    rw [hreg, isrSave_rsp, BitVec.add_assoc]
    rfl
  have hword : read64 (runAll isrPush s).mem (stackBase s + BitVec.ofNat 64 (8 * 7)) =
      stateWord s.mem (stackBase s) 7 := by
    rw [hmem]
    exact isrSave_word (j := 7) (by decide)
  rw [hsave, cf_setFlags, haddr, hword, ofSub_cf, show (0x1000 : Quad).toNat = 0x1000 from rfl]

/-! ## The code is dropped -/

theorem dropStart_df : (runAll dropStart s).df = false := cld_df _

theorem dropCode_spec {i : Nat} (hi : i + 4 < 9) (h : s.reg .rsp = a + BitVec.ofNat 64 (8 * i)) :
    KeepsOff a s.mem (runAll dropCode s).mem ∧
    (∀ j < 32, stateWord (runAll dropCode s).mem a j =
      if i + 3 < j ∧ j ≤ i + 7 then stateWord s.mem a (i + 3) else stateWord s.mem a j) ∧
    (runAll dropCode s).reg .rsp = a + BitVec.ofNat 64 (8 * (i + 1)) ∧
    (runAll dropCode s).reg .rbx = stateWord s.mem a (i + 4) := by
  have hoff : ∀ k : Nat, s.reg .rsp + BitVec.ofNat 64 (8 * k) =
      a + BitVec.ofNat 64 (8 * (i + k)) := by
    intro k
    rw [h, BitVec.add_assoc, ← BitVec.ofNat_add, ← Nat.mul_add]
  have hrsi : (runAll dropStart s).reg .rsi = a + BitVec.ofNat 64 (8 * (i + 3)) := hoff 3
  have hrdi : (runAll dropStart s).reg .rdi = a + BitVec.ofNat 64 (8 * (i + 3 + 1)) := hoff 4
  have hrsp : (runAll (List.replicate 4 .movsq) (runAll dropStart s)).reg .rsp = s.reg .rsp :=
    runAll_reg (by decide)
  have hrbx : (runAll (List.replicate 4 .movsq) (runAll dropStart s)).reg .rbx = (runAll dropStart s).reg .rbx :=
    runAll_reg (by decide)
  obtain ⟨hkeeps, hwords⟩ := movsq_smears (n := 4) (by omega) dropStart_df hrsi hrdi
  have hstart : (runAll dropStart s).mem = s.mem := runAll_mem (by decide)
  have hload : (runAll dropStart s).reg .rbx =
      read64 s.mem (s.reg .rsp + BitVec.ofNat 64 (8 * 4)) := rfl
  rw [hstart] at hkeeps hwords
  rw [dropCode, runAll_append, runAll_append]
  generalize hmoved : runAll (List.replicate 4 .movsq) (runAll dropStart s) = s' at *
  have hmem : (runAll [.addImm .rsp 8] s').mem = s'.mem := rfl
  have hadd : (runAll [.addImm .rsp 8] s').reg .rsp = s'.reg .rsp + 8 := rfl
  rw [hmem, hadd, hrsp, h, word_add]
  refine ⟨hkeeps, hwords, rfl, ?_⟩
  rw [runAll_reg (by decide), hrbx, hload, hoff]
  rfl

/-! ## Up to `.skip_code` -/

/-- What the stub left on the stack, from its stack pointer on. -/
def savedWord (code : Option Quad) (s : Cpu) (j : Nat) : Quad :=
  if code.isSome ∧ 5 < j ∧ j ≤ 9 then s.reg .rax else pushedWord s j

/-- The processor at `.skip_code`. -/
structure Ready (code : Option Quad) (s t : Cpu) : Prop where
  rsp : t.reg .rsp = stackBase s + BitVec.ofNat 64 (8 * stackTop code)
  rbx : t.reg .rbx = code.getD 0
  keeps : KeepsOff (stackBase s) s.mem t.mem
  words : ∀ j < 32, stateWord t.mem (stackBase s) j = savedWord code s j
  gprs : ∀ r, r ≠ .rbx → r ≠ .rdi → r ≠ .rsi → r ≠ .rsp → t.reg r = s.reg r

theorem isrSave_gprs (r : Reg) (hrbx : r ≠ .rbx) (hrsp : r ≠ .rsp) :
    (runAll isrSave s).reg r = s.reg r :=
  runAll_reg (by cases r <;> first | contradiction | decide)

theorem dropCode_gprs (r : Reg) (hrbx : r ≠ .rbx) (hrdi : r ≠ .rdi) (hrsi : r ≠ .rsi)
    (hrsp : r ≠ .rsp) : (runAll dropCode s).reg r = s.reg r :=
  runAll_reg (by cases r <;> first | contradiction | decide)

theorem isrEnter_ready (h : Interrupted vector code s) : Ready code s (isrEnter s) := by
  cases code with
  | none =>
    have hcs : (stateWord s.mem (stackBase s) 7).toNat < 0x1000 := h.cs
    have henter : isrEnter s = runAll isrSave s := by
      simp only [isrEnter]
      rw [isrSave_cf, if_pos (decide_eq_true hcs)]
    rw [henter]
    refine ⟨isrSave_rsp, isrSave_rbx, isrSave_keeps, fun j hj => ?_, fun r hrbx _ _ hrsp => ?_⟩
    · rw [isrSave_word hj, savedWord, if_neg (fun hcode => nomatch hcode.1)]
    · exact isrSave_gprs r hrbx hrsp
  | some c =>
    have hrip : 0x1000 ≤ (stateWord s.mem (stackBase s) 7).toNat := h.rip
    have henter : isrEnter s = runAll dropCode (runAll isrSave s) := by
      simp only [isrEnter]
      rw [isrSave_cf, if_neg (by rw [decide_eq_true_iff]; omega)]
    obtain ⟨hkeeps, hwords, hrsp, hrbx⟩ := dropCode_spec (by decide) (isrSave_rsp (s := s))
    rw [henter]
    refine ⟨hrsp, ?_, fun x hx => (hkeeps x hx).trans (isrSave_keeps x hx), fun j hj => ?_,
      fun r hrbx hrdi hrsi hrsp => ?_⟩
    · rw [hrbx, isrSave_word (by decide)]
      exact h.code_top c rfl
    · rw [hwords j hj, isrSave_word (by decide), isrSave_word hj, savedWord]
      by_cases hin : 5 < j ∧ j ≤ 9
      · rw [if_pos (by omega), if_pos ⟨rfl, hin⟩]
        rfl
      · rw [if_neg (by omega), if_neg (fun hcode => hin hcode.2)]
    · rw [dropCode_gprs r hrbx hrdi hrsi hrsp, isrSave_gprs r hrbx hrsp]

/-! ## From `.skip_task` on -/

theorem isrReturn_words {p : Nat} (h : t.reg .rsp = a + BitVec.ofNat 64 (8 * p)) :
    (runAll isrReturn t).reg .rsi = stateWord t.mem a p ∧
    (runAll isrReturn t).reg .rdi = stateWord t.mem a (p + 1) ∧
    (runAll isrReturn t).reg .rbx = stateWord t.mem a (p + 2) ∧
    (runAll isrReturn t).reg .rax = stateWord t.mem a (p + 3) := by
  have hrsi : (runAll isrReturn t).reg .rsi = read64 t.mem (t.reg .rsp) := rfl
  have hrdi : (runAll isrReturn t).reg .rdi = read64 t.mem (t.reg .rsp + 8) := rfl
  have hrbx : (runAll isrReturn t).reg .rbx = read64 t.mem (t.reg .rsp + 8 + 8) := rfl
  have hrax : (runAll isrReturn t).reg .rax = read64 t.mem (t.reg .rsp + 8 + 8 + 8) := rfl
  rw [hrsi, hrdi, hrbx, hrax, h, word_add, word_add, word_add]
  exact ⟨rfl, rfl, rfl, rfl⟩

theorem isrReturn_frame {p : Nat} (h : t.reg .rsp = a + BitVec.ofNat 64 (8 * p)) :
    (runAll isrReturn t).rip = stateWord t.mem a (p + 4) ∧
    (runAll isrReturn t).seg .cs = (stateWord t.mem a (p + 5)).setWidth 16 ∧
    (runAll isrReturn t).rflags = toRflags (stateWord t.mem a (p + 6)) ∧
    (runAll isrReturn t).reg .rsp = stateWord t.mem a (p + 7) ∧
    (runAll isrReturn t).seg .ss = (stateWord t.mem a (p + 8)).setWidth 16 := by
  have hframe : ∀ k : Nat, t.reg .rsp + 8 + 8 + 8 + 8 + BitVec.ofNat 64 (8 * k) =
      a + BitVec.ofNat 64 (8 * (p + 4 + k)) := by
    intro k
    rw [h, word_add, word_add, word_add, word_add, BitVec.add_assoc, ← BitVec.ofNat_add,
      ← Nat.mul_add]
  have hword : ∀ k : Nat, read64 t.mem (t.reg .rsp + 8 + 8 + 8 + 8 + BitVec.ofNat 64 (8 * k)) =
      stateWord t.mem a (p + 4 + k) := by
    intro k
    rw [hframe]
    rfl
  rw [show p + 5 = p + 4 + 1 from rfl, show p + 6 = p + 4 + 2 from rfl,
    show p + 7 = p + 4 + 3 from rfl, show p + 8 = p + 4 + 4 from rfl, ← hword 1, ← hword 2,
    ← hword 3, ← hword 4]
  exact ⟨hword 0, rfl, rfl, rfl, rfl⟩

theorem isrReturn_gprs (r : Reg) (hrsi : r ≠ .rsi) (hrdi : r ≠ .rdi) (hrbx : r ≠ .rbx)
    (hrax : r ≠ .rax) (hrsp : r ≠ .rsp) : (runAll isrReturn s).reg r = s.reg r :=
  runAll_reg (by cases r <;> first | contradiction | decide)

/-- The processor at `.skip_task`: the four registers and the frame are on its stack. -/
structure Resuming (code : Option Quad) (s t : Cpu) : Prop where
  rsp : t.reg .rsp = stackBase s + BitVec.ofNat 64 (8 * stackTop code)
  words : ∀ j < 12, stackTop code ≤ j → stateWord t.mem (stackBase s) j = savedWord code s j
  gprs : ∀ r, r ≠ .rsi → r ≠ .rdi → r ≠ .rbx → r ≠ .rax → r ≠ .rsp → t.reg r = s.reg r

/-- Without a code, everything is as it was. -/
theorem Resuming.transparent (h : Resuming none s t) : Transparent none s (runAll isrReturn t) := by
  obtain ⟨hrsi, hrdi, hrbx, hrax⟩ := isrReturn_words h.rsp
  obtain ⟨hrip, hcs, hflags, hrsp, hss⟩ := isrReturn_frame h.rsp
  constructor
  case gprs =>
    intro r hr
    cases r with
    | rsi => exact hrsi.trans (h.words 2 (by decide) (by decide))
    | rdi => exact hrdi.trans (h.words 3 (by decide) (by decide))
    | rbx => exact hrbx.trans (h.words 4 (by decide) (by decide))
    | rax => exact hrax.trans (h.words 5 (by decide) (by decide))
    | rsp => exact absurd rfl hr
    | _ =>
      rw [isrReturn_gprs _ (by decide) (by decide) (by decide) (by decide) (by decide)]
      exact h.gprs _ (by decide) (by decide) (by decide) (by decide) (by decide)
  case rip => exact hrip.trans (h.words 6 (by decide) (by decide))
  case cs => exact hcs.trans (congrArg _ (h.words 7 (by decide) (by decide)))
  case rflags => exact hflags.trans (congrArg toRflags (h.words 8 (by decide) (by decide)))
  case rsp => exact hrsp.trans (h.words 9 (by decide) (by decide))
  case ss => exact hss.trans (congrArg _ (h.words 10 (by decide) (by decide)))

/-- With one, only if the words that were smeared are those they replace. -/
theorem Resuming.transparent_iff {c : Quad} (h : Resuming (some c) s t) :
    Transparent (some c) s (runAll isrReturn t) ↔ Coincides (some c) s := by
  have hwords : ∀ j < 12, 3 ≤ j →
      stateWord t.mem (stackBase s) j = savedWord (some c) s j := h.words
  obtain ⟨hrsi, hrdi, hrbx, hrax⟩ := isrReturn_words h.rsp
  obtain ⟨hrip, hcs, hflags, hrsp, hss⟩ := isrReturn_frame h.rsp
  have hrsi' : (runAll isrReturn t).reg .rsi = s.reg .rdi :=
    hrsi.trans (hwords 3 (by decide) (by decide))
  have hrdi' : (runAll isrReturn t).reg .rdi = s.reg .rbx :=
    hrdi.trans (hwords 4 (by decide) (by decide))
  have hrbx' : (runAll isrReturn t).reg .rbx = s.reg .rax :=
    hrbx.trans (hwords 5 (by decide) (by decide))
  have hrax' : (runAll isrReturn t).reg .rax = s.reg .rax :=
    hrax.trans (hwords 6 (by decide) (by decide))
  have hrip' : (runAll isrReturn t).rip = s.reg .rax :=
    hrip.trans (hwords 7 (by decide) (by decide))
  have hcs' : (runAll isrReturn t).seg .cs = (s.reg .rax).setWidth 16 :=
    hcs.trans (congrArg _ (hwords 8 (by decide) (by decide)))
  have hflags' : (runAll isrReturn t).rflags = toRflags (s.reg .rax) :=
    hflags.trans (congrArg toRflags (hwords 9 (by decide) (by decide)))
  constructor
  · intro htrans
    exact ⟨(htrans.gprs .rsi (by decide)).symm.trans hrsi',
      (htrans.gprs .rdi (by decide)).symm.trans hrdi',
      (htrans.gprs .rbx (by decide)).symm.trans hrbx', htrans.rip.symm.trans hrip',
      htrans.cs.symm.trans hcs', htrans.rflags.symm.trans hflags'⟩
  · intro hco
    constructor
    case gprs =>
      intro r hr
      cases r with
      | rsi => exact hrsi'.trans hco.rsi.symm
      | rdi => exact hrdi'.trans hco.rdi.symm
      | rbx => exact hrbx'.trans hco.rbx.symm
      | rax => exact hrax'
      | rsp => exact absurd rfl hr
      | _ =>
        rw [isrReturn_gprs _ (by decide) (by decide) (by decide) (by decide) (by decide)]
        exact h.gprs _ (by decide) (by decide) (by decide) (by decide) (by decide)
    case rip => exact hrip'.trans hco.rip.symm
    case cs => exact hcs'.trans hco.cs.symm
    case rflags => exact hflags'.trans hco.rflags.symm
    case rsp => exact hrsp.trans (hwords 10 (by decide) (by decide))
    case ss => exact hss.trans (congrArg _ (hwords 11 (by decide) (by decide)))

theorem Resuming.iff (h : Resuming code s t) :
    Transparent code s (runAll isrReturn t) ↔ (code = none ∨ Coincides code s) := by
  cases code with
  | none => exact iff_of_true h.transparent (.inl rfl)
  | some c => exact h.transparent_iff.trans (or_iff_right (fun hnone => nomatch hnone)).symm

/-! ## The handler -/

theorem isrLookup_reg (r : Reg) (hrsi : r ≠ .rsi) :
    (runAll (isrLookup vector) s).reg r = s.reg r := by
  have hwrites : ∀ i ∈ isrLookup vector, i.writes r = false := by
    intro i hi
    rcases List.mem_pair.1 hi with rfl | rfl
    · exact decide_eq_false hrsi
    · rfl
  exact runAll_reg hwrites

theorem isrLookup_rsi : (runAll (isrLookup vector) s).reg .rsi = handlerOf vector s := rfl

theorem isrLookup_mem : (runAll (isrLookup vector) s).mem = s.mem := rfl

theorem isrLookup_zf : (runAll (isrLookup vector) s).zf = (handlerOf vector s == 0) :=
  (zf_setFlags _).trans (ofSub_zf _ _)

theorem KeepsOff.slot (h : Interrupted vector code s) (hm : KeepsOff (stackBase s) s.mem m)
    (ha : TaskSlot a ∨ a = taskStateRegion) {i : Nat} (hi : i < 32) :
    stateWord m a i = stateWord s.mem a i :=
  hm _ fun j hj => ((h.slots_off a ha j hj).apart hi).symm

theorem Ready.handlerOf (h : Interrupted vector code s) (ht : Ready code s t) :
    handlerOf vector t = handlerOf vector s := ht.keeps _ h.table_off

/-- Without a handler the stub returns at once. -/
theorem isr_at_once (h : Interrupted vector code s) :
    Resuming code s (runAll (isrLookup vector) (isrEnter s)) := by
  have hready := isrEnter_ready h
  refine ⟨?_, fun j hj _ => ?_, fun r hrsi hrdi hrbx hrax hrsp => ?_⟩
  · rw [isrLookup_reg _ (by decide), hready.rsp]
  · rw [isrLookup_mem, hready.words j (by omega)]
  · rw [isrLookup_reg r hrsi, hready.gprs r hrbx hrdi hrsi hrsp]

/-- What the handler is told is written in its task state, and the return address on the stack. -/
theorem isrHandler_mem {ret : Quad} : (runAll (isrHandler vector ret) t).mem =
    let m := write64 t.mem (t.reg .rsi + BitVec.ofNat 64 (8 * 5)) (BitVec.ofNat 64 vector)
    let m := write64 m (t.reg .rsi + BitVec.ofNat 64 (8 * 4)) (t.reg .rbx)
    let m := write64 m (t.reg .rsi + BitVec.ofNat 64 (8 * 3)) (read64 m taskStateRegion)
    write64 m (t.reg .rsp - 8) ret := rfl

theorem isrHandler_rdi {ret : Quad} : (runAll (isrHandler vector ret) t).reg .rdi =
    let m := write64 t.mem (t.reg .rsi + BitVec.ofNat 64 (8 * 5)) (BitVec.ofNat 64 vector)
    read64 (write64 m (t.reg .rsi + BitVec.ofNat 64 (8 * 4)) (t.reg .rbx)) taskStateRegion := rfl

theorem isrHandler_rsp {ret : Quad} :
    (runAll (isrHandler vector ret) t).reg .rsp = t.reg .rsp - 8 := rfl

theorem isrHandler_reg {ret : Quad} (r : Reg) (hrdi : r ≠ .rdi) (hrsp : r ≠ .rsp) :
    (runAll (isrHandler vector ret) t).reg r = t.reg r := by
  have hwrites : ∀ i ∈ isrHandler vector ret, i.writes r = false := by
    intro i hi
    simp only [isrHandler, List.mem_cons, List.not_mem_nil, or_false] at hi
    rcases hi with rfl | rfl | rfl | rfl | rfl
    · rfl
    · rfl
    · exact decide_eq_false hrdi
    · rfl
    · exact decide_eq_false hrsp
  exact runAll_reg hwrites

/-- The processor where the handler is called. -/
structure Calling (vector : Nat) (ret : Quad) (code : Option Quad) (s t : Cpu) : Prop where
  rsi : t.reg .rsi = handlerOf vector s
  rdi : t.reg .rdi = currentTask s
  rsp : t.reg .rsp = stackBase s + BitVec.ofNat 64 (8 * (stackTop code - 1))
  rbx : t.reg .rbx = code.getD 0
  gprs : ∀ r, r ≠ .rsi → r ≠ .rdi → r ≠ .rbx → r ≠ .rsp → t.reg r = s.reg r
  ret : stateWord t.mem (stackBase s) (stackTop code - 1) = ret
  words : ∀ j < 12, stackTop code ≤ j → stateWord t.mem (stackBase s) j = savedWord code s j
  told : stateWord t.mem (handlerOf vector s) 5 = BitVec.ofNat 64 vector ∧
    stateWord t.mem (handlerOf vector s) 4 = code.getD 0 ∧
    stateWord t.mem (handlerOf vector s) 3 = currentTask s
  rest : stateWord t.mem (handlerOf vector s) 17 = stateWord s.mem (handlerOf vector s) 17

theorem stackTop_pos (code : Option Quad) : 2 ≤ stackTop code ∧ stackTop code ≤ 3 := by
  rw [stackTop]
  split <;> omega

theorem isrCall_calling {ret : Quad} (h : Interrupted vector code s)
    (hhandler : handlerOf vector s ≠ 0) : Calling vector ret code s (isrCall vector ret s) := by
  have hready := isrEnter_ready h
  have hslot : TaskSlot (handlerOf vector s) := h.handler.resolve_left hhandler
  obtain ⟨hpos, hle⟩ := stackTop_pos code
  generalize hentry : isrEnter s = e at hready
  have hrsi : (runAll (isrLookup vector) e).reg .rsi = handlerOf vector s :=
    isrLookup_rsi.trans (hready.handlerOf h)
  have hrsp : (runAll (isrLookup vector) e).reg .rsp - 8 =
      stackBase s + BitVec.ofNat 64 (8 * (stackTop code - 1)) := by
    obtain ⟨p, hp⟩ : ∃ p, stackTop code = p + 1 := ⟨stackTop code - 1, by omega⟩
    rw [isrLookup_reg _ (by decide), hready.rsp, hp, word_sub, Nat.add_sub_cancel]
  have hrbx : (runAll (isrLookup vector) e).reg .rbx = code.getD 0 := by
    rw [isrLookup_reg _ (by decide), hready.rbx]
  -- the words of the handler's task state are off the stack and off the first slot
  have hoffStack : ∀ j < 12, OffSlot (handlerOf vector s)
      (stackBase s + BitVec.ofNat 64 (8 * j)) := h.slots_off _ (.inl hslot)
  have hregion : ∀ {m : Memory} {v : Quad} {i : Nat}, i < 32 →
      read64 (write64 m (handlerOf vector s + BitVec.ofNat 64 (8 * i)) v) taskStateRegion =
        read64 m taskStateRegion := by
    intro m v i hi
    exact read64_write64_apart ((hslot.off_zero (k := 0) (by decide)).apart hi)
  have hstack : ∀ {m : Memory} {v : Quad} {i j : Nat}, i < 32 → j < 12 →
      stateWord (write64 m (handlerOf vector s + BitVec.ofNat 64 (8 * i)) v) (stackBase s) j =
        stateWord m (stackBase s) j := by
    intro m v i j hi hj
    exact read64_write64_apart ((hoffStack j hj).apart hi)
  have hcurrent : read64 e.mem taskStateRegion = currentTask s :=
    KeepsOff.slot (i := 0) h hready.keeps (.inr rfl) (by decide)
  have hmem : (runAll (isrHandler vector ret) (runAll (isrLookup vector) e)).mem = _ :=
    isrHandler_mem
  have hrdi : (runAll (isrHandler vector ret) (runAll (isrLookup vector) e)).reg .rdi = _ :=
    isrHandler_rdi
  dsimp only at hmem hrdi
  rw [hrsi, hrbx, hrsp, hregion (by decide), hregion (by decide), isrLookup_mem, hcurrent] at hmem
  rw [hrsi, hrbx, hregion (by decide), hregion (by decide), isrLookup_mem, hcurrent] at hrdi
  rw [isrCall, hentry]
  constructor
  case rsi => rw [isrHandler_reg _ (by decide) (by decide), hrsi]
  case rdi => exact hrdi
  case rsp => rw [isrHandler_rsp, hrsp]
  case rbx => rw [isrHandler_reg _ (by decide) (by decide), hrbx]
  case gprs =>
    intro r hr₁ hr₂ hr₃ hr₄
    rw [isrHandler_reg r hr₂ hr₄, isrLookup_reg r hr₁, hready.gprs r hr₃ hr₂ hr₁ hr₄]
  case ret =>
    rw [hmem, stateWord_write (by omega) (by omega), if_pos rfl]
  case words =>
    intro j hj htop
    rw [hmem, stateWord_write (by omega) (by omega), if_neg (by omega), hstack (by decide) hj,
      hstack (by decide) hj, hstack (by decide) hj, hready.words j (by omega)]
  case told =>
    rw [hmem]
    refine ⟨?_, ?_, ?_⟩
    · rw [stateWord_write_off (hoffStack _ (by omega)) (by decide),
        stateWord_write (by decide) (by decide), stateWord_write (by decide) (by decide),
        stateWord_write (by decide) (by decide)]
      rfl
    · rw [stateWord_write_off (hoffStack _ (by omega)) (by decide),
        stateWord_write (by decide) (by decide), stateWord_write (by decide) (by decide)]
      rfl
    · rw [stateWord_write_off (hoffStack _ (by omega)) (by decide),
        stateWord_write (by decide) (by decide)]
      rfl
  case rest =>
    rw [hmem, stateWord_write_off (hoffStack _ (by omega)) (by decide),
      stateWord_write (by decide) (by decide), stateWord_write (by decide) (by decide),
      stateWord_write (by decide) (by decide)]
    exact KeepsOff.slot h hready.keeps (.inl hslot) (by decide)

/-- The call of `transfer_control` is one that saves. -/
theorem Calling.call {ret : Quad} (hc : Calling vector ret code s t) (h : Interrupted vector code s)
    (hhandler : handlerOf vector s ≠ 0) : Call t where
  restore := by
    rw [hc.rsi]
    exact h.handler.resolve_left hhandler
  save := by
    rw [hc.rdi]
    exact .inr (h.current hhandler)
  return_off := by
    intro a ha
    obtain ⟨-, hle⟩ := stackTop_pos code
    rw [hc.rsp]
    exact h.slots_off a (.inl ha) _ (by omega)
  flags_off := by
    intro a ha
    obtain ⟨hpos, hle⟩ := stackTop_pos code
    obtain ⟨p, hp⟩ : ∃ p, stackTop code - 1 = p + 1 := ⟨stackTop code - 2, by omega⟩
    rw [hc.rsp, hp, word_sub]
    exact h.slots_off a (.inl ha) p (by omega)

theorem Calling.saves {ret : Quad} (hc : Calling vector ret code s t) (h : Interrupted vector code s)
    (hhandler : handlerOf vector s ≠ 0) : t.reg .rdi ≠ 0 := by
  rw [hc.rdi]
  exact (h.current hhandler).ne_zero

theorem Calling.loaded {ret : Quad} (hc : Calling vector ret code s t)
    (h : Interrupted vector code s) (hhandler : handlerOf vector s ≠ 0) :
    Loaded (transferControl t).mem (handlerOf vector s) (transferControl t) := by
  have hcr3 := (transferControl_cr3_iff t).2 (.inl (hc.saves h hhandler))
  have hloaded := transferControl_loaded (hc.call h hhandler) hcr3
  rwa [hc.rsi] at hloaded

/-- **The handler** is told its vector, the code and the interrupted task, unless it is that task
    itself. -/
theorem Calling.entered_iff {ret : Quad} (hc : Calling vector ret code s t)
    (h : Interrupted vector code s) (hhandler : handlerOf vector s ≠ 0) :
    Entered vector code s (transferControl t) ↔ handlerOf vector s ≠ currentTask s := by
  have hcall := hc.call h hhandler
  have hloaded := hc.loaded h hhandler
  constructor
  · intro hentered hself
    -- what was written for the handler is overwritten by what is saved
    have hsaved := transferControl_saved hcall (hc.saves h hhandler)
    rw [hc.rdi, ← hself] at hsaved
    have hword : (transferControl t).reg .rdi = currentTask s :=
      (hloaded.gprs .rdi).trans ((hsaved.gprs .rdi (by decide)).trans hc.rdi)
    obtain ⟨i, -, hi, hcurrent⟩ := h.current hhandler
    have hlt := h.vector_lt
    have hvector : (BitVec.ofNat 64 vector).toNat = taskStateRegion.toNat + i * 256 := by
      rw [← hentered.rdi, hword, hcurrent, toNat_taskAddr hi]
    rw [BitVec.toNat_ofNat, show taskStateRegion.toNat = 0xffffffffffe01000 from rfl] at hvector
    omega
  · intro hne
    have hkept : ∀ i < 32, stateWord (transferControl t).mem (handlerOf vector s) i =
        stateWord t.mem (handlerOf vector s) i := by
      intro i hi
      have hwords := transferControl_kept hcall (i := i)
      rw [hc.rsi, hc.rdi] at hwords
      exact hwords (Ne.symm hne) hi
    obtain ⟨hfive, hfour, hthree⟩ := hc.told
    constructor
    · rw [hloaded.rip, hkept 17 (by decide), hc.rest]
    · rw [hloaded.gprs, ← hfive]
      exact hkept 5 (by decide)
    · rw [hloaded.gprs, ← hfour]
      exact hkept 4 (by decide)
    · rw [hloaded.gprs, ← hthree]
      exact hkept 3 (by decide)

/-- What comes back from the handler is at `.skip_task` with the stack as it was left. -/
theorem Calling.resuming {ret : Quad} {s' : Cpu} (hc : Calling vector ret code s t)
    (hres : Resumed t s') (hkept : ∀ j < 12, stackTop code ≤ j →
      stateWord s'.mem (stackBase s) j = stateWord t.mem (stackBase s) j) :
    s'.rip = ret ∧ Resuming code s s' := by
  obtain ⟨hpos, -⟩ := stackTop_pos code
  refine ⟨?_, ?_, ?_, ?_⟩
  · rw [hres.rip, hc.rsp]
    exact hc.ret
  · rw [hres.rsp, hc.rsp, word_add, Nat.sub_add_cancel (by omega)]
  · intro j hj htop
    rw [hkept j hj htop, hc.words j hj htop]
  · intro r hrsi hrdi hrbx _ hrsp
    rw [hres.gprs r hrsp, hc.gprs r hrsi hrdi hrbx hrsp]

/-- The processor right after the call, as it was saved. -/
def afterCall (t : Cpu) : Cpu :=
  { t with
    reg := Function.update t.reg .rsp (t.reg .rsp + 8)
    rip := read64 t.mem (t.reg .rsp)
    rflags := toRflags (t.rflags &&& ~~~resumeFlag) }

theorem afterCall_reg (t : Cpu) (r : Reg) :
    (afterCall t).reg r = Function.update t.reg .rsp (t.reg .rsp + 8) r := rfl

theorem afterCall_mem (t : Cpu) : (afterCall t).mem = t.mem := rfl

theorem afterCall_resumed : Resumed t (afterCall t) where
  gprs r hr := by rw [afterCall_reg, Function.update_of_ne hr]
  rsp := by rw [afterCall_reg, Function.update_self]
  rflags := rfl
  rip := rfl
  segs _ := rfl
  fs := rfl
  gs := rfl
  cr3 := rfl

theorem afterCall_word (t : Cpu) (a : Quad) (j : Nat) :
    stateWord (afterCall t).mem a j = stateWord t.mem a j := by rw [afterCall_mem]

/-- **When a stub does what it is for**: there is no error code, or what is lost with it was the same
    anyway; and the interrupted task is not the vector's own handler. -/
def Undisturbed (vector : Nat) (code : Option Quad) (s : Cpu) : Prop :=
  (code = none ∨ Coincides code s) ∧
    (handlerOf vector s ≠ 0 → handlerOf vector s ≠ currentTask s)

theorem lookup_zf (h : Interrupted vector code s) :
    (runAll (isrLookup vector) (isrEnter s)).zf = (handlerOf vector s == 0) := by
  rw [isrLookup_zf, (isrEnter_ready h).handlerOf h]

theorem basicIsr_of_none {ret : Quad} (h : Interrupted vector code s)
    (hhandler : handlerOf vector s = 0) :
    basicIsr vector ret s = runAll isrReturn (runAll (isrLookup vector) (isrEnter s)) := by
  rw [basicIsr, lookup_zf h, if_pos (beq_iff_eq.2 hhandler)]

theorem basicIsr_of_handler {ret : Quad} (h : Interrupted vector code s)
    (hhandler : handlerOf vector s ≠ 0) :
    basicIsr vector ret s = transferControl (isrCall vector ret s) := by
  rw [basicIsr, lookup_zf h, if_neg (fun heq => hhandler (beq_iff_eq.1 heq))]

/-- **`basic_isr`** is transparent exactly without an error code, and what is saved for a handler is
    what a later `transfer_control` takes up again. -/
theorem basicIsr_exact (vector : Nat) (skipTask : Quad) (code : Option Quad) (s : Cpu)
    (h : Interrupted vector code s) :
    (IsrContract vector skipTask code s ↔ Undisturbed vector code s) ∧
      (handlerOf vector s ≠ 0 → ∀ s₂, LaterCall (isrCall vector skipTask s) s₂ → SwapsRight s₂ →
        Resumed (isrCall vector skipTask s) (transferControl s₂)) := by
  have hcalling : handlerOf vector s ≠ 0 →
      Calling vector skipTask code s (isrCall vector skipTask s) := isrCall_calling h
  refine ⟨⟨fun hcontract => ⟨?_, fun hhandler => ?_⟩, fun hsmooth => ⟨fun hhandler => ?_,
    fun hhandler => ?_, fun hhandler s' hres hkept => ?_⟩⟩, fun hhandler s₂ hlater hswap => ?_⟩
  · by_cases hhandler : handlerOf vector s = 0
    · have htrans := hcontract.at_once hhandler
      rw [basicIsr_of_none h hhandler] at htrans
      exact (isr_at_once h).iff.1 htrans
    · have hback := hcontract.later hhandler (afterCall (isrCall vector skipTask s))
        afterCall_resumed (fun j _ _ => afterCall_word _ _ j)
      have hresuming := (hcalling hhandler).resuming afterCall_resumed
        (fun j _ _ => afterCall_word _ _ j)
      exact hresuming.2.iff.1 hback.2
  · have hentered := hcontract.entered hhandler
    rw [basicIsr_of_handler h hhandler] at hentered
    exact ((hcalling hhandler).entered_iff h hhandler).1 hentered
  · rw [basicIsr_of_none h hhandler]
    exact (isr_at_once h).iff.2 hsmooth.1
  · rw [basicIsr_of_handler h hhandler]
    exact ((hcalling hhandler).entered_iff h hhandler).2 (hsmooth.2 hhandler)
  · obtain ⟨hrip, hresuming⟩ := (hcalling hhandler).resuming hres hkept
    exact ⟨hrip, hresuming.iff.2 hsmooth.1⟩
  · have hc := hcalling hhandler
    exact (hlater.resumed_iff (hc.call h hhandler) (hc.saves h hhandler)).2 hswap

/-- A processor with a stack at `0x8000`, with `1` in `rax`, and with no handlers. -/
def stackedCpu (words : List Quad) : Cpu where
  reg := fun r => match r with
    | .rsp => 0x8000
    | .rax => 1
    | _ => 0
  rflags := 0x2
  rip := 0
  seg := fun _ => 0
  msr := fun _ => 0
  cr3 := 0
  mem := writeWords (fun _ => 0) 0x7fd0 6 words
  base := fun _ => 0

theorem stackedCpu_base (words : List Quad) : stackBase (stackedCpu words) = 0x7fd0 := by
  have hraw : stackBase (stackedCpu words) = 0x8000 - 48 := rfl
  rw [hraw]
  decide

theorem stackedCpu_word {words : List Quad} {i : Nat} (hwords : words.length ≤ 6)
    (hi : i < words.length) :
    stateWord (stackedCpu words).mem (stackBase (stackedCpu words)) (6 + i) =
      words[i]?.getD 0 := by
  rw [stackedCpu_base]
  have hmem : (stackedCpu words).mem = writeWords (fun _ => 0) 0x7fd0 6 words := rfl
  rw [hmem, stateWord_writeWords (by omega) (by omega), if_pos (by omega), Nat.add_sub_cancel_left,
    List.getElem?_eq_getElem hi, Option.getD_some, Option.getD_some]

theorem stackedCpu_handler {words : List Quad} (hwords : words.length ≤ 6) :
    handlerOf 14 (stackedCpu words) = 0 := by
  have hmem : (stackedCpu words).mem = writeWords (fun _ => 0) 0x7fd0 6 words := rfl
  rw [handlerOf, hmem, read64_writeWords (by omega) ⟨by decide, by decide⟩]
  rfl

theorem stackedCpu_interrupted {words : List Quad} (hwords : words.length ≤ 6)
    (hrip : 0x1000 ≤ (interruptWord code (stackedCpu words) 0).toNat)
    (hcs : (interruptWord code (stackedCpu words) 1).toNat < 0x1000)
    (hcode : ∀ c ∈ code, stateWord (stackedCpu words).mem (stackBase (stackedCpu words)) 6 = c) :
    Interrupted 14 code (stackedCpu words) := by
  have hlow : ∀ j < 12, (stackBase (stackedCpu words) + BitVec.ofNat 64 (8 * j)).toNat =
      0x7fd0 + 8 * j := by
    intro j hj
    rw [stackedCpu_base, BitVec.toNat_add, BitVec.toNat_ofNat, show (0x7fd0 : Quad).toNat = 0x7fd0
      from rfl]
    omega
  have hregion : taskStateRegion.toNat = 0xffffffffffe01000 := rfl
  have htable : (isrTaskRegion + BitVec.ofNat 64 (14 * 8)).toNat = 0xffffffffffc02070 := by decide
  refine ⟨by decide, hrip, hcs, hcode, ?_, ?_, .inl (stackedCpu_handler hwords), fun hne => ?_⟩
  · rintro a (ha | rfl) j hj
    · exact ha.off_low (by rw [hlow j hj]; omega)
    · constructor
      · rw [BitVec.toNat_sub, hlow j hj]
        omega
      · rw [BitVec.toNat_sub, hlow j hj]
        omega
  · intro j hj
    constructor
    · rw [BitVec.toNat_sub, hlow j hj, htable]
      omega
    · rw [BitVec.toNat_sub, hlow j hj, htable]
      omega
  · exact absurd (stackedCpu_handler hwords) hne

/-- Without a code. -/
theorem stackedCpu_plain : Interrupted 14 none (stackedCpu [0x4000, 8, 0x202, 0x9000, 0x10]) := by
  refine stackedCpu_interrupted (by decide) ?_ ?_ (fun c hc => nomatch hc)
  · have hword : interruptWord none (stackedCpu [0x4000, 8, 0x202, 0x9000, 0x10]) 0 = 0x4000 :=
      stackedCpu_word (i := 0) (by decide) (by decide)
    rw [hword]
    decide
  · have hword : interruptWord none (stackedCpu [0x4000, 8, 0x202, 0x9000, 0x10]) 1 = 8 :=
      stackedCpu_word (i := 1) (by decide) (by decide)
    rw [hword]
    decide

theorem basicIsr_exact_plain :
    (IsrContract 14 0xffffffffffc04000 none (stackedCpu [0x4000, 8, 0x202, 0x9000, 0x10]) ↔
      Undisturbed 14 none (stackedCpu [0x4000, 8, 0x202, 0x9000, 0x10])) ∧
    (handlerOf 14 (stackedCpu [0x4000, 8, 0x202, 0x9000, 0x10]) ≠ 0 → ∀ s₂,
      LaterCall (isrCall 14 0xffffffffffc04000 (stackedCpu [0x4000, 8, 0x202, 0x9000, 0x10])) s₂ →
      SwapsRight s₂ →
      Resumed (isrCall 14 0xffffffffffc04000 (stackedCpu [0x4000, 8, 0x202, 0x9000, 0x10]))
        (transferControl s₂)) :=
  basicIsr_exact 14 0xffffffffffc04000 none (stackedCpu [0x4000, 8, 0x202, 0x9000, 0x10])
    stackedCpu_plain

/-- **A page fault** with no handler: the code that faulted at `0x4000` goes on at what was in
    `rax`. -/
theorem error_code_smears_frame :
    Interrupted 14 (some 0) (stackedCpu [0, 0x4000, 8, 0x202, 0x9000, 0x10]) ∧
    ¬ IsrContract 14 0xffffffffffc04000 (some 0)
      (stackedCpu [0, 0x4000, 8, 0x202, 0x9000, 0x10]) := by
  have hword : ∀ i < 6, stateWord (stackedCpu [0, 0x4000, 8, 0x202, 0x9000, 0x10]).mem
      (stackBase (stackedCpu [0, 0x4000, 8, 0x202, 0x9000, 0x10])) (6 + i) =
      ([0, 0x4000, 8, 0x202, 0x9000, 0x10] : List Quad)[i]?.getD 0 :=
    fun i hi => stackedCpu_word (by decide) hi
  have hrip : interruptWord (some 0) (stackedCpu [0, 0x4000, 8, 0x202, 0x9000, 0x10]) 0 = 0x4000 :=
    hword 1 (by decide)
  have hcs : interruptWord (some 0) (stackedCpu [0, 0x4000, 8, 0x202, 0x9000, 0x10]) 1 = 8 :=
    hword 2 (by decide)
  have hfault : Interrupted 14 (some 0) (stackedCpu [0, 0x4000, 8, 0x202, 0x9000, 0x10]) := by
    refine stackedCpu_interrupted (by decide) (by rw [hrip]; decide) (by rw [hcs]; decide) ?_
    intro c hc
    obtain rfl : 0 = c := by simpa using hc
    exact hword 0 (by decide)
  refine ⟨hfault, fun hcontract => ?_⟩
  have hnone : handlerOf 14 (stackedCpu [0, 0x4000, 8, 0x202, 0x9000, 0x10]) = 0 :=
    stackedCpu_handler (by decide)
  have htrans := hcontract.at_once hnone
  rw [basicIsr_of_none hfault hnone] at htrans
  have hsame := ((isr_at_once hfault).transparent_iff.1 htrans).rip
  have hrax : (stackedCpu [0, 0x4000, 8, 0x202, 0x9000, 0x10]).reg .rax = 1 := rfl
  rw [hrip, hrax] at hsame
  exact absurd hsame (by decide)

end

end Refk
