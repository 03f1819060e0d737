import Refk.Lib.X86System

/-!
# `kernel/images/transfer.s` — from one task to another

`transfer_control` saves the processor's state to one task state and takes it from another. Twenty
seven words are moved by hand, and which register may be overwritten changes from line to line. The
jump over the load of `cr3` compares with `rax`, which has the current `cr3` in it only if something
was saved.

Slot 0 of the task table is no task: the state pointer is kept in its first word, and the return
frame is built in its last ones. The task table is in all address spaces, so nothing that is read
after the load of `cr3` depends on it.
-/

namespace Refk

open Lib Lib.X86

/-- `task_state_region`, the first slot of the task table -/
def taskStateRegion : Quad := 0xffffffffffe01000

/-- `TASK_ADDR(i)` -/
def taskAddr (i : Nat) : Quad := taskStateRegion + BitVec.ofNat 64 (i * 256)

/-! ## The code -/

def saveGprs : List SysInstr :=
  [.store .rdi (0*8) .rax, .store .rdi (1*8) .rbx, .store .rdi (2*8) .rcx, .store .rdi (3*8) .rdx,
    .store .rdi (4*8) .rsi, .store .rdi (5*8) .rdi,
    -- remove return pointer from saved stack
    .mov .rax .rsp, .addImm .rax 8, .store .rdi (6*8) .rax,
    .store .rdi (7*8) .rbp, .store .rdi (8*8) .r8, .store .rdi (9*8) .r9, .store .rdi (10*8) .r10,
    .store .rdi (11*8) .r11, .store .rdi (12*8) .r12, .store .rdi (13*8) .r13,
    .store .rdi (14*8) .r14, .store .rdi (15*8) .r15]

def saveFlags : List SysInstr :=
  [.pushfq, .pop .rax, .store .rdi (16*8) .rax, .load .rax .rsp 0, .store .rdi (17*8) .rax]

def saveSegs : List SysInstr :=
  [.xor .rax .rax, .fromSeg .rax .cs, .store .rdi (18*8) .rax, .fromSeg .rax .ds,
    .store .rdi (19*8) .rax, .fromSeg .rax .es, .store .rdi (20*8) .rax, .fromSeg .rax .fs,
    .store .rdi (21*8) .rax, .fromSeg .rax .gs, .store .rdi (22*8) .rax, .fromSeg .rax .ss,
    .store .rdi (23*8) .rax]

def saveBases : List SysInstr :=
  [.movImm .rcx 0xc0000100, .rdmsr, .store32 .rdi (24*8) .rax, .store32 .rdi (24*8 + 4) .rdx,
    .movImm .rcx 0xc0000101, .rdmsr, .store32 .rdi (25*8) .rax, .store32 .rdi (25*8 + 4) .rdx,
    .fromCr3 .rax, .store .rdi (26*8) .rax]

def saveAll : List SysInstr := saveGprs ++ saveFlags ++ saveSegs ++ saveBases

def restoreSegs : List SysInstr :=
  [.storeAt taskStateRegion .rsi, .load .rax .rsi (20*8), .toSeg .es .rax,
    .load .rax .rsi (21*8), .toSeg .fs .rax, .load .rax .rsi (22*8), .toSeg .gs .rax]

def restoreBases : List SysInstr :=
  [.movImm .rcx 0xc0000100, .load32 .rax .rsi (24*8), .load32 .rdx .rsi (24*8 + 4), .wrmsr,
    .movImm .rcx 0xc0000101, .load32 .rax .rsi (25*8), .load32 .rdx .rsi (25*8 + 4), .wrmsr]

def restoreGprs : List SysInstr :=
  [.load .rbx .rsi (1*8), .load .rcx .rsi (2*8), .load .rdx .rsi (3*8), .load .rdi .rsi (5*8),
    .load .rbp .rsi (7*8), .load .r8 .rsi (8*8), .load .r9 .rsi (9*8), .load .r10 .rsi (10*8),
    .load .r11 .rsi (11*8), .load .r12 .rsi (12*8), .load .r13 .rsi (13*8),
    .load .r14 .rsi (14*8), .load .r15 .rsi (15*8)]

/-- The return frame is on a stack in the first task slot. -/
def frameTop : Quad := 0xffffffffffe01100

def pushFrame : List SysInstr :=
  -- stack push order: SS, RSP, RFLAGS, CS, RIP
  [.load .rax .rsi (23*8), .push .rax, .load .rax .rsi (6*8), .push .rax,
    .load .rax .rsi (16*8), .push .rax, .load .rax .rsi (18*8), .push .rax,
    .load .rax .rsi (17*8), .push .rax,
    -- save rax on the stack
    .load .rax .rsi (0*8), .push .rax]

def returnTo : List SysInstr :=
  [.load .rax .rsi (19*8), .load .rsi .rsi (4*8), .toSeg .ds .rax, .pop .rax, .iretq]

def restoreRegs : List SysInstr := restoreSegs ++ restoreBases ++ restoreGprs

def restoreAll : List SysInstr := restoreRegs ++ (.movImm .rsp frameTop :: pushFrame) ++ returnTo

/-- `transfer_control`, up to `.skip_save` -/
def saveTask (s : Cpu) : Cpu :=
  let s := SysInstr.exec s (.cmpImm .rdi 0)
  if s.zf then s else runAll saveAll s

/-- From there to `.skip_swap` -/
def swapCr3 (s : Cpu) : Cpu :=
  let s := runAll [.load .rbx .rsi (26*8), .cmp .rax .rbx] s
  if s.zf then s else SysInstr.exec s (.toCr3 .rbx)

/-- `transfer_control` -/
def transferControl (s : Cpu) : Cpu :=
  runAll restoreAll (swapCr3 (saveTask s))

/-! ## Task states -/

/-- A word of a `task_state_t`. -/
def stateWord (m : Memory) (a : Quad) (i : Nat) : Quad := read64 m (a + BitVec.ofNat 64 (8 * i))

/-- Where a `task_state_t` has a register. -/
def gprIndex : Reg → Nat
  | .rax => 0 | .rbx => 1 | .rcx => 2 | .rdx => 3 | .rsi => 4 | .rdi => 5 | .rsp => 6 | .rbp => 7
  | .r8 => 8 | .r9 => 9 | .r10 => 10 | .r11 => 11 | .r12 => 12 | .r13 => 13 | .r14 => 14 | .r15 => 15

def segIndex : Seg → Nat
  | .cs => 18 | .ds => 19 | .es => 20 | .fs => 21 | .gs => 22 | .ss => 23

/-- The processor has what the task state at `a` says. -/
structure Loaded (m : Memory) (a : Quad) (s : Cpu) : Prop where
  gprs : ∀ r, s.reg r = stateWord m a (gprIndex r)
  rflags : s.rflags = toRflags (stateWord m a 16)
  rip : s.rip = stateWord m a 17
  segs : ∀ seg, s.seg seg = (stateWord m a (segIndex seg)).setWidth 16
  fs : s.msr fsBase = stateWord m a 24
  gs : s.msr gsBase = stateWord m a 25
  cr3 : s.cr3 = stateWord m a 26

/-- The task state at `a` has the caller's state: as it is when the call returns. -/
structure Saved (s : Cpu) (m : Memory) (a : Quad) : Prop where
  gprs : ∀ r, r ≠ .rsp → stateWord m a (gprIndex r) = s.reg r
  rsp : stateWord m a 6 = s.reg .rsp + 8
  rflags : stateWord m a 16 &&& ~~~arithMask = s.rflags &&& ~~~resumeFlag &&& ~~~arithMask
  rip : stateWord m a 17 = read64 s.mem (s.reg .rsp)
  segs : ∀ seg, stateWord m a (segIndex seg) = (s.seg seg).setWidth 64
  fs : stateWord m a 24 = s.msr fsBase
  gs : stateWord m a 25 = s.msr gsBase
  cr3 : stateWord m a 26 = s.cr3

/-- The processor is as `s` was when it called, right after the call. -/
structure Resumed (s s' : Cpu) : Prop where
  gprs : ∀ r, r ≠ .rsp → s'.reg r = s.reg r
  rsp : s'.reg .rsp = s.reg .rsp + 8
  rflags : s'.rflags &&& ~~~arithMask = toRflags (s.rflags &&& ~~~resumeFlag) &&& ~~~arithMask
  rip : s'.rip = read64 s.mem (s.reg .rsp)
  segs : ∀ seg, s'.seg seg = s.seg seg
  fs : s'.msr fsBase = s.msr fsBase
  gs : s'.msr gsBase = s.msr gsBase
  cr3 : s'.cr3 = s.cr3

/-- A slot of the task table, but for the one that is no task's. -/
def TaskSlot (a : Quad) : Prop := ∃ i, 1 ≤ i ∧ i < 4096 ∧ a = taskAddr i

/-- The word at `b` is in no part of the slot at `a`. -/
def OffSlot (a b : Quad) : Prop := 256 ≤ (b - a).toNat ∧ 8 ≤ (a - b).toNat

/-- A call: the states are slots, or there is none to save to, and the stack is elsewhere. -/
structure Call (s : Cpu) : Prop where
  restore : TaskSlot (s.reg .rsi)
  save : s.reg .rdi = 0 ∨ TaskSlot (s.reg .rdi)
  return_off : ∀ a, TaskSlot a → OffSlot a (s.reg .rsp)
  flags_off : ∀ a, TaskSlot a → OffSlot a (s.reg .rsp - 8)

/-- **When `cr3` is right**: something is saved, or `rax` is not what `cr3` is to be, or `cr3` is that
    already. -/
def SwapsRight (s : Cpu) : Prop :=
  s.reg .rdi ≠ 0 ∨ s.reg .rax ≠ stateWord s.mem (s.reg .rsi) 26 ∨
    s.cr3 = stateWord s.mem (s.reg .rsi) 26

/-- **The round trip**: the processor has the restored state, which is still where it was, and the
    saved state is the caller's. -/
structure RoundTrip (s s' : Cpu) : Prop where
  loaded : Loaded s'.mem (s.reg .rsi) s'
  kept : s.reg .rdi ≠ s.reg .rsi → ∀ i < 32,
    stateWord s'.mem (s.reg .rsi) i = stateWord s.mem (s.reg .rsi) i
  saved : s.reg .rdi ≠ 0 → Saved s s'.mem (s.reg .rdi)

/-- A later call restores what the call `s` saved, and nobody has written there since. -/
structure LaterCall (s s₂ : Cpu) : Prop where
  call : Call s₂
  restore : s₂.reg .rsi = s.reg .rdi
  save : s₂.reg .rdi ≠ s.reg .rdi
  kept : ∀ i < 27, stateWord s₂.mem (s.reg .rdi) i =
    stateWord (transferControl s).mem (s.reg .rdi) i

section
variable {s : Cpu} {m : Memory} {a b v : Quad}

/-! ## Slots -/

theorem toNat_offset_sub (a : Quad) {i j : Nat} (hi : i < 32) (hj : j < 32) :
    (a + BitVec.ofNat 64 (8 * j) - (a + BitVec.ofNat 64 (8 * i))).toNat =
      (2 ^ 64 + 8 * j - 8 * i) % 2 ^ 64 := by
  rw [BitVec.toNat_sub, BitVec.toNat_add, BitVec.toNat_add, BitVec.toNat_ofNat, BitVec.toNat_ofNat]
  omega

theorem word_sub (a : Quad) (k : Nat) :
    a + BitVec.ofNat 64 (8 * (k + 1)) - 8 = a + BitVec.ofNat 64 (8 * k) := by
  have hmul : BitVec.ofNat 64 (8 * (k + 1)) = BitVec.ofNat 64 (8 * k) + 8 := by
    rw [Nat.mul_succ, BitVec.ofNat_add]
    rfl
  rw [hmul, ← BitVec.add_assoc, BitVec.add_sub_cancel]

theorem word_add (a : Quad) (k : Nat) :
    a + BitVec.ofNat 64 (8 * k) + 8 = a + BitVec.ofNat 64 (8 * (k + 1)) := by
  rw [← word_sub, BitVec.sub_add_cancel]

/-- A word is written in a slot. -/
theorem stateWord_write {i j : Nat} (hi : i < 32) (hj : j < 32) :
    stateWord (write64 m (a + BitVec.ofNat 64 (8 * i)) v) a j =
      if j = i then v else stateWord m a j := by
  split_ifs with heq
  · rw [heq, stateWord, read64_write64]
  · refine read64_write64_apart ⟨?_, ?_⟩
    · rw [toNat_offset_sub a hi hj]
      omega
    · rw [toNat_offset_sub a hj hi]
      omega

/-- A word is written off a slot. -/
theorem stateWord_write_off {i : Nat} (h : OffSlot a b) (hi : i < 32) :
    stateWord (write64 m b v) a i = stateWord m a i := by
  obtain ⟨hab, hba⟩ := h
  refine read64_write64_apart ⟨?_, ?_⟩
  · rw [BitVec.toNat_sub] at hab hba ⊢
    rw [BitVec.toNat_add, BitVec.toNat_ofNat]
    omega
  · rw [BitVec.toNat_sub] at hab hba ⊢
    rw [BitVec.toNat_add, BitVec.toNat_ofNat]
    omega

theorem OffSlot.apart {i : Nat} (h : OffSlot a b) (hi : i < 32) :
    X86.Apart (a + BitVec.ofNat 64 (8 * i)) b := by
  obtain ⟨hab, hba⟩ := h
  constructor
  · rw [BitVec.toNat_sub] at hab hba ⊢
    rw [BitVec.toNat_add, BitVec.toNat_ofNat]
    omega
  · rw [BitVec.toNat_sub] at hab hba ⊢
    rw [BitVec.toNat_add, BitVec.toNat_ofNat]
    omega

theorem toNat_taskAddr {i : Nat} (hi : i < 4096) :
    (taskAddr i).toNat = taskStateRegion.toNat + i * 256 := by
  rw [taskAddr, BitVec.toNat_add, BitVec.toNat_ofNat,
    show taskStateRegion.toNat = 0xffffffffffe01000 from rfl]
  omega

/-- Two slots. -/
theorem offSlot_taskAddr {i j k : Nat} (hi : i < 4096) (hj : j < 4096) (hne : i ≠ j) (hk : k < 32) :
    OffSlot (taskAddr i) (taskAddr j + BitVec.ofNat 64 (8 * k)) := by
  have hij := toNat_taskAddr hi
  have hjj := toNat_taskAddr hj
  have hbase : taskStateRegion.toNat = 0xffffffffffe01000 := rfl
  constructor
  · rw [BitVec.toNat_sub, BitVec.toNat_add, BitVec.toNat_ofNat]
    omega
  · rw [BitVec.toNat_sub, BitVec.toNat_add, BitVec.toNat_ofNat]
    omega

theorem TaskSlot.off {a' : Quad} {k : Nat} (h : TaskSlot a) (h' : TaskSlot a') (hne : a ≠ a')
    (hk : k < 32) : OffSlot a (a' + BitVec.ofNat 64 (8 * k)) := by
  obtain ⟨i, -, hi, rfl⟩ := h
  obtain ⟨j, -, hj, rfl⟩ := h'
  exact offSlot_taskAddr hi hj (fun heq => hne (congrArg taskAddr heq)) hk

/-- The first slot is no task's. -/
theorem TaskSlot.off_zero {k : Nat} (h : TaskSlot a) (hk : k < 32) :
    OffSlot a (taskStateRegion + BitVec.ofNat 64 (8 * k)) := by
  obtain ⟨i, hpos, hi, rfl⟩ := h
  exact offSlot_taskAddr (j := 0) hi (by omega) (by omega) hk

/-- A stack below the task table. -/
theorem TaskSlot.off_low (h : TaskSlot a) (hb : b.toNat + 8 ≤ taskStateRegion.toNat) :
    OffSlot a b := by
  obtain ⟨i, -, hi, rfl⟩ := h
  have hnum := toNat_taskAddr hi
  have hbase : taskStateRegion.toNat = 0xffffffffffe01000 := rfl
  constructor
  · rw [BitVec.toNat_sub]
    omega
  · rw [BitVec.toNat_sub]
    omega

theorem TaskSlot.ne_zero (h : TaskSlot a) : a ≠ 0 := by
  obtain ⟨i, -, hi, rfl⟩ := h
  intro heq
  have hnum := toNat_taskAddr hi
  rw [heq, show taskStateRegion.toNat = 0xffffffffffe01000 from rfl,
    show (0 : Quad).toNat = 0 from rfl] at hnum
  omega

/-- The words in order, from word `n` of `a` on. -/
def writeWords (m : Memory) (a : Quad) : Nat → List Quad → Memory
  | _, [] => m
  | n, v :: vs => writeWords (write64 m (a + BitVec.ofNat 64 (8 * n)) v) a (n + 1) vs

theorem stateWord_writeWords {vs : List Quad} {n i : Nat} (hn : n + vs.length ≤ 32) (hi : i < 32) :
    stateWord (writeWords m a n vs) a i =
      (if n ≤ i then vs[i - n]? else none).getD (stateWord m a i) := by
  induction vs generalizing m n with
  | nil => simp [writeWords]
  | cons v vs ih =>
    rw [List.length_cons] at hn
    rw [writeWords, ih (by omega), stateWord_write (by omega) hi]
    rcases Nat.lt_trichotomy i n with hlt | rfl | hgt
    · rw [if_neg (by omega), if_neg (by omega), if_neg (by omega)]
    · rw [if_neg (by omega), if_pos rfl, if_pos le_rfl, Nat.sub_self]
      rfl
    · rw [if_pos (by omega), if_neg (by omega), if_pos (by omega),
        show i - n = (i - (n + 1)) + 1 by omega, List.getElem?_cons_succ]

theorem stateWord_writeWords_off {a' : Quad} {vs : List Quad} {n i : Nat}
    (hn : n + vs.length ≤ 32) (h : ∀ k < 32, OffSlot a' (a + BitVec.ofNat 64 (8 * k)))
    (hi : i < 32) : stateWord (writeWords m a n vs) a' i = stateWord m a' i := by
  induction vs generalizing m n with
  | nil => rfl
  | cons v vs ih =>
    rw [List.length_cons] at hn
    rw [writeWords, ih (by omega), stateWord_write_off (h n (by omega)) hi]

theorem read64_writeWords {vs : List Quad} {n : Nat} (hn : n + vs.length ≤ 32) (h : OffSlot a b) :
    read64 (writeWords m a n vs) b = read64 m b := by
  induction vs generalizing m n with
  | nil => rfl
  | cons v vs ih =>
    rw [List.length_cons] at hn
    rw [writeWords, ih (by omega), read64_write64_apart (h.apart (by omega))]

/-! ## Saving -/

/-- A register after `mov ax, seg`. -/
def withSeg (v : Quad) (w : BitVec 16) : Quad := (v &&& ~~~0xffff) ||| w.setWidth 64

theorem setWidth_high (w : BitVec 16) : (w.setWidth 64 : Quad) &&& ~~~0xffff = 0 := by
  apply BitVec.eq_of_getLsbD_eq
  intro i hi
  rw [BitVec.getLsbD_and]
  by_cases h16 : i < 16
  · have hmask : (~~~0xffff : Quad).getLsbD i = false := by interval_cases i <;> decide
    rw [hmask, Bool.and_false]
    exact BitVec.getLsbD_zero.symm
  · rw [BitVec.getLsbD_setWidth, BitVec.getLsbD_of_ge w i (by omega), Bool.and_false,
      Bool.false_and]
    exact BitVec.getLsbD_zero.symm

theorem withSeg_zero (v : Quad) (w : BitVec 16) : withSeg (v ^^^ v) w = w.setWidth 64 := by
  rw [withSeg, BitVec.xor_self, BitVec.zero_and, BitVec.zero_or]

theorem withSeg_setWidth (w w' : BitVec 16) : withSeg (w.setWidth 64) w' = w'.setWidth 64 := by
  rw [withSeg, setWidth_high]
  simp

/-- `rflags`, as they are pushed. -/
def pushedFlags (s : Cpu) : Quad := s.rflags &&& ~~~resumeFlag

/-- The general registers, as they are saved. -/
def gprWords (s : Cpu) : List Quad :=
  [s.reg .rax, s.reg .rbx, s.reg .rcx, s.reg .rdx, s.reg .rsi, s.reg .rdi, s.reg .rsp + 8,
    s.reg .rbp, s.reg .r8, s.reg .r9, s.reg .r10, s.reg .r11, s.reg .r12, s.reg .r13, s.reg .r14,
    s.reg .r15]

theorem length_gprWords : (gprWords s).length = 16 := rfl

theorem saveGprs_mem :
    (runAll saveGprs s).mem = writeWords s.mem (s.reg .rdi) 0 (gprWords s) := rfl

theorem saveFlags_mem (h : OffSlot (s.reg .rdi) (s.reg .rsp)) : (runAll saveFlags s).mem =
    writeWords (write64 s.mem (s.reg .rsp - 8) (pushedFlags s)) (s.reg .rdi) 16
      [pushedFlags s, read64 s.mem (s.reg .rsp)] := by
  have hraw : (runAll saveFlags s).mem =
      let m := write64 s.mem (s.reg .rsp - 8) (pushedFlags s)
      writeWords m (s.reg .rdi) 16 [read64 m (s.reg .rsp - 8),
        read64 (writeWords m (s.reg .rdi) 16 [read64 m (s.reg .rsp - 8)])
          (s.reg .rsp - 8 + 8 + 0)] := rfl
  have hrsp : s.reg .rsp - 8 + 8 + 0 = s.reg .rsp := by bv_omega
  have hpush : X86.Apart (s.reg .rsp - 8) (s.reg .rsp) := ⟨by bv_omega, by bv_omega⟩
  rw [hraw]
  dsimp only
  rw [hrsp, read64_write64, read64_writeWords (by simp) h, read64_write64_apart hpush]

theorem saveSegs_mem : (runAll saveSegs s).mem = writeWords s.mem (s.reg .rdi) 18
    [(s.seg .cs).setWidth 64, (s.seg .ds).setWidth 64, (s.seg .es).setWidth 64,
      (s.seg .fs).setWidth 64, (s.seg .gs).setWidth 64, (s.seg .ss).setWidth 64] := by
  have hraw : (runAll saveSegs s).mem =
      let cs := withSeg (s.reg .rax ^^^ s.reg .rax) (s.seg .cs)
      let ds := withSeg cs (s.seg .ds)
      let es := withSeg ds (s.seg .es)
      let fs := withSeg es (s.seg .fs)
      let gs := withSeg fs (s.seg .gs)
      writeWords s.mem (s.reg .rdi) 18 [cs, ds, es, fs, gs, withSeg gs (s.seg .ss)] := rfl
  rw [hraw]
  simp only [withSeg_zero, withSeg_setWidth]

/-- The two halves of a model-specific register. -/
theorem write_msr (m : Memory) (a v : Quad) :
    write32 (write32 m a ((v &&& 0xffffffff).setWidth 32)) (a + 4) ((v >>> 32).setWidth 32) =
      write64 m a v := by
  rw [write32_write32]
  congr 1
  apply BitVec.eq_of_toNat_eq
  have hmask : (0xffffffff : Quad).toNat = 2 ^ 32 - 1 := rfl
  have hv := v.isLt
  rw [BitVec.toNat_append, ← Nat.shiftLeft_add_eq_or_of_lt (BitVec.isLt _), Nat.shiftLeft_eq,
    BitVec.toNat_setWidth, BitVec.toNat_setWidth, BitVec.toNat_and, BitVec.toNat_ushiftRight,
    Nat.shiftRight_eq_div_pow, hmask, Nat.and_two_pow_sub_one_eq_mod]
  omega

theorem saveBases_mem : (runAll saveBases s).mem = writeWords s.mem (s.reg .rdi) 24
    [s.msr fsBase, s.msr gsBase, s.cr3] := by
  have hraw : (runAll saveBases s).mem =
      let fs := s.msr fsBase
      let gs := s.msr gsBase
      let m := write32 (write32 s.mem (s.reg .rdi + 192) ((fs &&& 0xffffffff).setWidth 32))
        (s.reg .rdi + 196) ((fs >>> 32).setWidth 32)
      let m := write32 (write32 m (s.reg .rdi + 200) ((gs &&& 0xffffffff).setWidth 32))
        (s.reg .rdi + 204) ((gs >>> 32).setWidth 32)
      write64 m (s.reg .rdi + 208) s.cr3 := rfl
  have h196 : s.reg .rdi + 196 = s.reg .rdi + 192 + 4 := by bv_omega
  have h204 : s.reg .rdi + 204 = s.reg .rdi + 200 + 4 := by bv_omega
  rw [hraw, h196, h204]
  dsimp only
  rw [write_msr, write_msr]
  rfl

/-- `rflags` as they are pushed, after the comparison and the addition that come before. -/
def flagsAtPush (s : Cpu) : Quad := pushedFlags (runAll saveGprs s)

/-- The words from `rflags` on that are saved. -/
def savedWords (s : Cpu) : List Quad :=
  [flagsAtPush s, read64 s.mem (s.reg .rsp), (s.seg .cs).setWidth 64, (s.seg .ds).setWidth 64,
    (s.seg .es).setWidth 64, (s.seg .fs).setWidth 64, (s.seg .gs).setWidth 64,
    (s.seg .ss).setWidth 64, s.msr fsBase, s.msr gsBase, s.cr3]

theorem saveGprs_system : s.SameSystem (runAll saveGprs s) := runAll_system (by decide)

theorem saveFlags_system : s.SameSystem (runAll saveFlags s) := runAll_system (by decide)

theorem saveSegs_system : s.SameSystem (runAll saveSegs s) := runAll_system (by decide)

theorem save_mem (h : OffSlot (s.reg .rdi) (s.reg .rsp)) :
    (runAll saveAll s).mem =
      writeWords (write64 (runAll saveGprs s).mem (s.reg .rsp - 8) (flagsAtPush s)) (s.reg .rdi) 16
        (savedWords s) := by
  have hgprs : s.SameSystem (runAll saveGprs s) := saveGprs_system
  have hflags := hgprs.trans saveFlags_system
  have hsegs := hflags.trans saveSegs_system
  have hrdi : (runAll saveGprs s).reg .rdi = s.reg .rdi := runAll_reg (by decide)
  have hrsp : (runAll saveGprs s).reg .rsp = s.reg .rsp := runAll_reg (by decide)
  have hrdi₁ : (runAll saveFlags (runAll saveGprs s)).reg .rdi = s.reg .rdi :=
    (runAll_reg (by decide)).trans hrdi
  have hrdi₂ : (runAll saveSegs (runAll saveFlags (runAll saveGprs s))).reg .rdi = s.reg .rdi :=
    (runAll_reg (by decide)).trans hrdi₁
  have hrip : read64 (runAll saveGprs s).mem (s.reg .rsp) = read64 s.mem (s.reg .rsp) := by
    rw [saveGprs_mem, read64_writeWords (by simp [length_gprWords]) h]
  have hoff : OffSlot ((runAll saveGprs s).reg .rdi) ((runAll saveGprs s).reg .rsp) := by
    rw [hrdi, hrsp]
    exact h
  rw [saveAll, runAll_append, runAll_append, runAll_append, saveBases_mem, saveSegs_mem,
    saveFlags_mem hoff, hsegs.msr, hsegs.cr3, hrdi₂, hflags.seg, hrdi₁, hrdi, hrsp, hrip,
    flagsAtPush, savedWords]
  simp only [writeWords]
  rfl

theorem arith_flagsAtPush (s : Cpu) :
    flagsAtPush s &&& ~~~arithMask = s.rflags &&& ~~~resumeFlag &&& ~~~arithMask := by
  have hflags : (runAll saveGprs s).rflags &&& ~~~arithMask = s.rflags &&& ~~~arithMask :=
    runAll_rflags (by decide)
  rw [flagsAtPush, pushedFlags, BitVec.and_assoc, BitVec.and_comm (~~~resumeFlag),
    ← BitVec.and_assoc, hflags, BitVec.and_assoc, BitVec.and_comm (~~~arithMask), BitVec.and_assoc]

/-- What `transfer_control` does before `.skip_save`. -/
theorem saveTask_eq (s : Cpu) : saveTask s =
    if s.reg .rdi = 0 then s.setFlags (.ofSub (s.reg .rdi) 0)
    else runAll saveAll (s.setFlags (.ofSub (s.reg .rdi) 0)) := by
  have hzf : (SysInstr.exec s (.cmpImm .rdi 0)).zf = (s.reg .rdi == 0) :=
    (zf_setFlags s).trans (ofSub_zf _ _)
  simp only [saveTask]
  rw [hzf]
  by_cases h : s.reg .rdi = 0
  · rw [if_pos (by simpa using h), if_pos h]
    rfl
  · rw [if_neg (by simpa using h), if_neg h]
    rfl

theorem saveAll_gpr {i : Nat} {v : Quad} (hret : OffSlot (s.reg .rdi) (s.reg .rsp))
    (hpush : OffSlot (s.reg .rdi) (s.reg .rsp - 8)) (h : (gprWords s)[i]? = some v) :
    stateWord (runAll saveAll s).mem (s.reg .rdi) i = v := by
  have hi : i < 16 := (List.getElem?_eq_some_iff.1 h).1
  rw [save_mem hret, stateWord_writeWords (by simp [savedWords]) (by omega),
    if_neg (by omega), Option.getD_none, stateWord_write_off hpush (by omega), saveGprs_mem,
    stateWord_writeWords (by simp [length_gprWords]) (by omega), if_pos (Nat.zero_le i),
    Nat.sub_zero, h, Option.getD_some]

theorem saveAll_rest {i : Nat} {v : Quad} (hret : OffSlot (s.reg .rdi) (s.reg .rsp))
    (h : (savedWords s)[i]? = some v) :
    stateWord (runAll saveAll s).mem (s.reg .rdi) (16 + i) = v := by
  have hi : i < 11 := (List.getElem?_eq_some_iff.1 h).1
  rw [save_mem hret, stateWord_writeWords (by simp [savedWords]) (by omega),
    if_pos (by omega), Nat.add_sub_cancel_left, h, Option.getD_some]

/-- **Saving**: the task state has the caller's. -/
theorem saveAll_saved (hret : OffSlot (s.reg .rdi) (s.reg .rsp))
    (hpush : OffSlot (s.reg .rdi) (s.reg .rsp - 8)) :
    Saved s (runAll saveAll s).mem (s.reg .rdi) where
  gprs := by
    intro r hr
    cases r with
    | rsp => exact absurd rfl hr
    | _ => exact saveAll_gpr hret hpush rfl
  rsp := saveAll_gpr hret hpush rfl
  rflags := by
    have hword : stateWord (runAll saveAll s).mem (s.reg .rdi) 16 = flagsAtPush s :=
      saveAll_rest (i := 0) hret rfl
    rw [hword, arith_flagsAtPush]
  rip := saveAll_rest (i := 1) hret rfl
  segs := by
    intro seg
    cases seg with
    | cs => exact saveAll_rest (i := 2) hret rfl
    | ds => exact saveAll_rest (i := 3) hret rfl
    | es => exact saveAll_rest (i := 4) hret rfl
    | fs => exact saveAll_rest (i := 5) hret rfl
    | gs => exact saveAll_rest (i := 6) hret rfl
    | ss => exact saveAll_rest (i := 7) hret rfl
  fs := saveAll_rest (i := 8) hret rfl
  gs := saveAll_rest (i := 9) hret rfl
  cr3 := saveAll_rest (i := 10) hret rfl

/-- No other task state is written. -/
theorem saveAll_others {a' : Quad} {i : Nat} (hret : OffSlot (s.reg .rdi) (s.reg .rsp))
    (hpush : OffSlot a' (s.reg .rsp - 8))
    (hapart : ∀ k < 32, OffSlot a' (s.reg .rdi + BitVec.ofNat 64 (8 * k))) (hi : i < 32) :
    stateWord (runAll saveAll s).mem a' i = stateWord s.mem a' i := by
  rw [save_mem hret, stateWord_writeWords_off (by simp [savedWords]) hapart hi,
    stateWord_write_off hpush hi, saveGprs_mem,
    stateWord_writeWords_off (by simp [length_gprWords]) hapart hi]

theorem saveBases_rax : (runAll saveBases s).reg .rax = s.cr3 := rfl

theorem saveAll_rax : (runAll saveAll s).reg .rax = s.cr3 := by
  have hcr3 : (runAll (saveGprs ++ saveFlags ++ saveSegs) s).cr3 = s.cr3 :=
    (runAll_system (by decide)).cr3
  rw [saveAll, runAll_append, saveBases_rax, hcr3]

theorem Saved.setFlags {f : Flags} (h : Saved (s.setFlags f) m a) : Saved s m a where
  gprs := h.gprs
  rsp := h.rsp
  rflags := by
    rw [h.rflags, BitVec.and_assoc, BitVec.and_comm (~~~resumeFlag), ← BitVec.and_assoc,
      arith_setFlags, BitVec.and_assoc, BitVec.and_comm (~~~arithMask), BitVec.and_assoc]
  rip := h.rip
  segs := h.segs
  fs := h.fs
  gs := h.gs
  cr3 := h.cr3

/-! ## `cr3` -/

theorem swapCr3_eq (s : Cpu) : swapCr3 s =
    let w := stateWord s.mem (s.reg .rsi) 26
    let s' := (s.setReg .rbx w).setFlags (.ofSub (s.reg .rax) w)
    if s.reg .rax = w then s' else { s' with cr3 := w } := by
  have hzf : (runAll [.load .rbx .rsi (26*8), .cmp .rax .rbx] s).zf =
      (s.reg .rax == stateWord s.mem (s.reg .rsi) 26) :=
    (zf_setFlags _).trans (ofSub_zf _ _)
  simp only [swapCr3]
  rw [hzf]
  by_cases h : s.reg .rax = stateWord s.mem (s.reg .rsi) 26
  · rw [if_pos (by simpa using h), if_pos h]
    rfl
  · rw [if_neg (by simpa using h), if_neg h]
    rfl

theorem swapCr3_mem : (swapCr3 s).mem = s.mem := by
  rw [swapCr3_eq]
  dsimp only
  split_ifs <;> rfl

theorem swapCr3_rsi : (swapCr3 s).reg .rsi = s.reg .rsi := by
  rw [swapCr3_eq]
  dsimp only
  split_ifs <;> rfl

theorem swapCr3_cr3 : (swapCr3 s).cr3 = if s.reg .rax = stateWord s.mem (s.reg .rsi) 26 then s.cr3
    else stateWord s.mem (s.reg .rsi) 26 := by
  rw [swapCr3_eq]
  dsimp only
  split_ifs <;> rfl

/-! ## Restoring -/

/-- The words of the first slot, where the return frame is. -/
def frameWord (k : Nat) : Quad := taskStateRegion + BitVec.ofNat 64 (8 * k)

/-- Words of a task state, down from `p`. -/
def writeDown (m : Memory) (a : Quad) : Quad → List Nat → Memory
  | _, [] => m
  | p, i :: is => writeDown (write64 m (p - 8) (stateWord m a i)) a (p - 8) is

/-- `SS`, `RSP`, `RFLAGS`, `CS`, `RIP`, and `RAX`. -/
def frameIndices : List Nat := [23, 6, 16, 18, 17, 0]

theorem restoreSegs_mem :
    (runAll restoreSegs s).mem = write64 s.mem taskStateRegion (s.reg .rsi) := rfl

theorem pushFrame_mem :
    (runAll pushFrame s).mem = writeDown s.mem (s.reg .rsi) (s.reg .rsp) frameIndices := rfl

theorem pushFrame_rsp :
    (runAll pushFrame s).reg .rsp = s.reg .rsp - 8 - 8 - 8 - 8 - 8 - 8 := rfl

theorem returnTo_mem : (runAll returnTo s).mem = s.mem := runAll_mem (by decide)

theorem returnTo_rax : (runAll returnTo s).reg .rax = read64 s.mem (s.reg .rsp) := rfl

theorem returnTo_rsi : (runAll returnTo s).reg .rsi = stateWord s.mem (s.reg .rsi) 4 := rfl

theorem returnTo_rip : (runAll returnTo s).rip = read64 s.mem (s.reg .rsp + 8 + 0) := rfl

theorem returnTo_rsp : (runAll returnTo s).reg .rsp = read64 s.mem (s.reg .rsp + 8 + 24) := rfl

theorem returnTo_rflags :
    (runAll returnTo s).rflags = toRflags (read64 s.mem (s.reg .rsp + 8 + 16)) := rfl

theorem returnTo_seg : (runAll returnTo s).seg =
    Function.update (Function.update (Function.update s.seg .ds
      ((stateWord s.mem (s.reg .rsi) 19).setWidth 16)) .cs
      ((read64 s.mem (s.reg .rsp + 8 + 8)).setWidth 16)) .ss
      ((read64 s.mem (s.reg .rsp + 8 + 32)).setWidth 16) := rfl

theorem returnTo_msr : (runAll returnTo s).msr = s.msr := rfl

theorem returnTo_cr3 : (runAll returnTo s).cr3 = s.cr3 := rfl

theorem restoreSegs_seg : (runAll restoreSegs s).seg =
    let m := write64 s.mem taskStateRegion (s.reg .rsi)
    Function.update (Function.update (Function.update s.seg .es
      ((stateWord m (s.reg .rsi) 20).setWidth 16)) .fs
      ((stateWord m (s.reg .rsi) 21).setWidth 16)) .gs
      ((stateWord m (s.reg .rsi) 22).setWidth 16) := rfl

theorem read_msr {m : Memory} {a : Quad} :
    (((read32 m (a + 4)).setWidth 64).setWidth 32 : BitVec 32) ++
      (((read32 m a).setWidth 64).setWidth 32 : BitVec 32) = read64 m a := by
  have hwidth : ∀ w : BitVec 32, ((w.setWidth 64).setWidth 32 : BitVec 32) = w := by
    intro w
    exact BitVec.setWidth_setWidth_of_le w (by decide) |>.trans (BitVec.setWidth_eq w)
  rw [hwidth, hwidth, read32_append]

theorem restoreBases_msr : (runAll restoreBases s).msr =
    Function.update (Function.update s.msr fsBase (stateWord s.mem (s.reg .rsi) 24)) gsBase
      (stateWord s.mem (s.reg .rsi) 25) := by
  have hraw : (runAll restoreBases s).msr =
      let word := fun off : Quad =>
        (((read32 s.mem (s.reg .rsi + (off + 4))).setWidth 64).setWidth 32 : BitVec 32) ++
          (((read32 s.mem (s.reg .rsi + off)).setWidth 64).setWidth 32 : BitVec 32)
      Function.update (Function.update s.msr fsBase (word (24*8))) gsBase (word (25*8)) := rfl
  rw [hraw]
  simp only [← BitVec.add_assoc, read_msr]
  rfl

theorem restoreBases_seg : (runAll restoreBases s).seg = s.seg := rfl

theorem restoreGprs_reg (r : Reg) : (runAll restoreGprs s).reg r =
    if r = .rax ∨ r = .rsi ∨ r = .rsp then s.reg r
    else stateWord s.mem (s.reg .rsi) (gprIndex r) := by
  cases r <;> rfl

theorem restoreSegs_slot (hb : TaskSlot b) {i : Nat} (hi : i < 32) :
    stateWord (runAll restoreSegs s).mem b i = stateWord s.mem b i := by
  rw [restoreSegs_mem]
  exact stateWord_write_off (hb.off_zero (k := 0) (by omega)) hi

theorem frameWord_sub (k : Nat) : frameWord (k + 1) - 8 = frameWord k := word_sub _ k

theorem frameTop_eq : frameTop = frameWord 32 := by decide

/-- The frame is in the first slot: no task state is written. -/
theorem writeDown_slot (hb : TaskSlot b) {is : List Nat} {k i : Nat} (hk : k ≤ 32)
    (his : is.length ≤ k) (hi : i < 32) :
    stateWord (writeDown m a (frameWord k) is) b i = stateWord m b i := by
  induction is generalizing m k with
  | nil => rfl
  | cons x is ih =>
    cases k with
    | zero => cases his
    | succ k =>
      rw [List.length_cons] at his
      rw [writeDown, frameWord_sub, ih (by omega) (by omega)]
      exact stateWord_write_off (hb.off_zero (by omega)) hi

theorem writeDown_above {is : List Nat} {k j : Nat} (hk : k ≤ j) (hj : j < 32)
    (his : is.length ≤ k) :
    stateWord (writeDown m a (frameWord k) is) taskStateRegion j = stateWord m taskStateRegion j := by
  induction is generalizing m k with
  | nil => rfl
  | cons x is ih =>
    cases k with
    | zero => cases his
    | succ k =>
      rw [List.length_cons] at his
      rw [writeDown, frameWord_sub, ih (by omega) (by omega)]
      refine (stateWord_write (show k < 32 by omega) hj).trans ?_
      rw [if_neg (by omega)]

/-- The frame has the words in order, from the top down. -/
theorem writeDown_frame (ha : TaskSlot a) {is : List Nat} {k j x : Nat} (hk : k ≤ 32)
    (his : is.length ≤ k) (hbound : ∀ y ∈ is, y < 32) (hx : is[j]? = some x) :
    stateWord (writeDown m a (frameWord k) is) taskStateRegion (k - 1 - j) = stateWord m a x := by
  induction is generalizing m k j with
  | nil => cases hx
  | cons y is ih =>
    cases k with
    | zero => cases his
    | succ k =>
      rw [List.length_cons] at his
      rw [writeDown, frameWord_sub]
      cases j with
      | zero =>
        obtain rfl : y = x := by simpa using hx
        rw [Nat.sub_zero, Nat.add_sub_cancel, writeDown_above le_rfl (by omega) (by omega)]
        refine (stateWord_write (show k < 32 by omega) (by omega)).trans ?_
        rw [if_pos rfl]
      | succ j =>
        rw [List.getElem?_cons_succ] at hx
        have hxs : x < 32 := hbound x (List.mem_cons_of_mem y (List.mem_of_getElem? hx))
        rw [show k + 1 - 1 - (j + 1) = k - 1 - j by omega,
          ih (by omega) (by omega) (fun z hz => hbound z (List.mem_cons_of_mem y hz)) hx]
        exact stateWord_write_off (ha.off_zero (by omega)) hxs

/-- Before the return frame is built, every register but three has its word. -/
structure Restored (m : Memory) (a : Quad) (s : Cpu) : Prop where
  gprs : ∀ r, r ≠ .rax → r ≠ .rsi → r ≠ .rsp → s.reg r = stateWord m a (gprIndex r)
  rsi : s.reg .rsi = a
  es : s.seg .es = (stateWord m a 20).setWidth 16
  fsSeg : s.seg .fs = (stateWord m a 21).setWidth 16
  gsSeg : s.seg .gs = (stateWord m a 22).setWidth 16
  fs : s.msr fsBase = stateWord m a 24
  gs : s.msr gsBase = stateWord m a 25
  slots : ∀ b, TaskSlot b → ∀ i < 32, stateWord s.mem b i = stateWord m b i

theorem restoreRegs_mem : (runAll restoreRegs s).mem = (runAll restoreSegs s).mem := by
  rw [restoreRegs, runAll_append, runAll_append]
  exact (runAll_mem (by decide)).trans (runAll_mem (by decide))

theorem restoreRegs_spec (h : TaskSlot (s.reg .rsi)) :
    Restored s.mem (s.reg .rsi) (runAll restoreRegs s) := by
  have hsegs : (runAll restoreSegs s).reg .rsi = s.reg .rsi := runAll_reg (by decide)
  have hbases : (runAll restoreBases (runAll restoreSegs s)).reg .rsi = s.reg .rsi :=
    (runAll_reg (by decide)).trans hsegs
  have hmem : (runAll restoreBases (runAll restoreSegs s)).mem = (runAll restoreSegs s).mem :=
    runAll_mem (by decide)
  have hgprs : (runAll restoreBases (runAll restoreSegs s)).SameSystem (runAll restoreRegs s) := by
    rw [restoreRegs, runAll_append, runAll_append]
    exact runAll_system (by decide)
  have hword : ∀ i < 32, stateWord (runAll restoreSegs s).mem (s.reg .rsi) i =
      stateWord s.mem (s.reg .rsi) i := fun i hi => restoreSegs_slot h hi
  have hwrite : ∀ i < 32, stateWord (write64 s.mem taskStateRegion (s.reg .rsi)) (s.reg .rsi) i =
      stateWord s.mem (s.reg .rsi) i := fun i hi => restoreSegs_slot h hi
  have hseg : (runAll restoreRegs s).seg = (runAll restoreSegs s).seg :=
    hgprs.seg.trans restoreBases_seg
  have hmsr : (runAll restoreRegs s).msr = Function.update (Function.update (runAll restoreSegs s).msr
      fsBase (stateWord s.mem (s.reg .rsi) 24)) gsBase (stateWord s.mem (s.reg .rsi) 25) := by
    rw [hgprs.msr, restoreBases_msr, hsegs, hword 24 (by decide), hword 25 (by decide)]
  constructor
  case gprs =>
    intro r hrax hrsi hrsp
    have hlt : gprIndex r < 32 := by cases r <;> decide
    rw [restoreRegs, runAll_append, runAll_append, restoreGprs_reg, if_neg (by tauto), hbases, hmem,
      hword _ hlt]
  case rsi =>
    rw [restoreRegs, runAll_append, runAll_append, restoreGprs_reg, if_pos (by tauto), hbases]
  case es =>
    rw [hseg, restoreSegs_seg, ← hwrite 20 (by decide)]
    rfl
  case fsSeg =>
    rw [hseg, restoreSegs_seg, ← hwrite 21 (by decide)]
    rfl
  case gsSeg =>
    rw [hseg, restoreSegs_seg, ← hwrite 22 (by decide)]
    rfl
  case fs =>
    rw [hmsr, Function.update_of_ne (by decide), Function.update_self]
  case gs =>
    rw [hmsr, Function.update_self]
  case slots =>
    intro b hb i hi
    rw [restoreRegs_mem]
    exact restoreSegs_slot hb hi

theorem restoreRegs_cr3 : (runAll restoreRegs s).cr3 = s.cr3 := by
  rw [restoreRegs, runAll_append, runAll_append]
  rfl

/-- The return frame is built. -/
def framed (s : Cpu) : Cpu := runAll (.movImm .rsp frameTop :: pushFrame) s

theorem framed_mem : (framed s).mem = writeDown s.mem (s.reg .rsi) frameTop frameIndices :=
  pushFrame_mem

theorem framed_rsp : (framed s).reg .rsp = frameWord 26 := by
  have hrsp : (framed s).reg .rsp = frameTop - 8 - 8 - 8 - 8 - 8 - 8 := pushFrame_rsp
  rw [hrsp]
  decide

theorem framed_rsi : (framed s).reg .rsi = s.reg .rsi := runAll_reg (by decide)

theorem framed_system : s.SameSystem (framed s) := runAll_system (by decide)

theorem framed_word (hs : Restored m a s) (hb : TaskSlot b) {i : Nat} (hi : i < 32) :
    stateWord (framed s).mem b i = stateWord m b i := by
  rw [framed_mem, frameTop_eq, writeDown_slot hb le_rfl (by decide) hi, hs.slots b hb i hi]

theorem framed_frame (hs : Restored m a s) (ha : TaskSlot a) {j x : Nat}
    (hx : frameIndices[j]? = some x) :
    stateWord (framed s).mem taskStateRegion (31 - j) = stateWord m a x := by
  have hbound : ∀ y ∈ frameIndices, y < 32 := by decide
  have hword := writeDown_frame (m := s.mem) ha le_rfl (by decide) hbound hx
  rw [framed_mem, frameTop_eq, hs.rsi, hword]
  exact hs.slots a ha x (hbound x (List.mem_of_getElem? hx))

/-- **The return**: every register has its word. -/
theorem returnTo_loaded (hs : Restored m a s) (ha : TaskSlot a)
    (hcr3 : s.cr3 = stateWord m a 26) : Loaded m a (runAll returnTo (framed s)) where
  gprs := by
    intro r
    have hrest : ∀ r, r ≠ .rax → r ≠ .rsi → r ≠ .rsp →
        (runAll returnTo (framed s)).reg r = stateWord m a (gprIndex r) := by
      intro r hrax hrsi hrsp
      rw [← hs.gprs r hrax hrsi hrsp, framed, ← runAll_append]
      exact runAll_reg (by cases r <;> first | contradiction | decide)
    cases r with
    | rax =>
      rw [returnTo_rax, framed_rsp]
      exact framed_frame hs ha (j := 5) rfl
    | rsi =>
      rw [returnTo_rsi, framed_rsi, hs.rsi]
      exact framed_word hs ha (by decide)
    | rsp =>
      rw [returnTo_rsp, framed_rsp, show frameWord 26 + 8 + 24 = frameWord 30 by decide]
      exact framed_frame hs ha (j := 1) rfl
    | _ => exact hrest _ (by decide) (by decide) (by decide)
  rflags := by
    rw [returnTo_rflags, framed_rsp, show frameWord 26 + 8 + 16 = frameWord 29 by decide]
    exact congrArg toRflags (framed_frame hs ha (j := 2) rfl)
  rip := by
    rw [returnTo_rip, framed_rsp, show frameWord 26 + 8 + 0 = frameWord 27 by decide]
    exact framed_frame hs ha (j := 4) rfl
  segs := by
    intro seg
    have hcs : read64 (framed s).mem (frameWord 28) = stateWord m a 18 :=
      framed_frame hs ha (j := 3) rfl
    have hss : read64 (framed s).mem (frameWord 31) = stateWord m a 23 :=
      framed_frame hs ha (j := 0) rfl
    rw [returnTo_seg, framed_rsp, framed_rsi, hs.rsi, framed_word hs ha (by decide),
      show frameWord 26 + 8 + 8 = frameWord 28 by decide,
      show frameWord 26 + 8 + 32 = frameWord 31 by decide, hcs, hss, framed_system.seg]
    cases seg with
    | es => exact hs.es
    | fs => exact hs.fsSeg
    | gs => exact hs.gsSeg
    | cs => rfl
    | ds => rfl
    | ss => rfl
  fs := by
    rw [returnTo_msr, framed_system.msr, hs.fs]
  gs := by
    rw [returnTo_msr, framed_system.msr, hs.gs]
  cr3 := by
    rw [returnTo_cr3, framed_system.cr3, hcr3]

theorem restoreAll_eq : runAll restoreAll s = runAll returnTo (framed (runAll restoreRegs s)) := by
  rw [restoreAll, runAll_append, runAll_append]
  rfl

theorem restoreAll_loaded (h : TaskSlot (s.reg .rsi))
    (hcr3 : s.cr3 = stateWord s.mem (s.reg .rsi) 26) :
    Loaded s.mem (s.reg .rsi) (runAll restoreAll s) := by
  rw [restoreAll_eq]
  exact returnTo_loaded (restoreRegs_spec h) h (restoreRegs_cr3.trans hcr3)

theorem restoreAll_cr3 : (runAll restoreAll s).cr3 = s.cr3 := by
  rw [restoreAll_eq, returnTo_cr3, framed_system.cr3, restoreRegs_cr3]

theorem restoreAll_slot (h : TaskSlot (s.reg .rsi)) (hb : TaskSlot b) {i : Nat} (hi : i < 32) :
    stateWord (runAll restoreAll s).mem b i = stateWord s.mem b i := by
  rw [restoreAll_eq, returnTo_mem]
  exact framed_word (restoreRegs_spec h) hb hi

/-! ## The round trip -/

theorem saveTask_rsi : (saveTask s).reg .rsi = s.reg .rsi := by
  rw [saveTask_eq]
  split_ifs
  · rfl
  · exact runAll_reg (by decide)

theorem saveTask_cr3 : (saveTask s).cr3 = s.cr3 := by
  rw [saveTask_eq]
  split_ifs
  · rfl
  · exact (runAll_system (by decide)).cr3

/-- What the load of `cr3` is compared with. -/
theorem saveTask_rax :
    (saveTask s).reg .rax = if s.reg .rdi = 0 then s.reg .rax else s.cr3 := by
  rw [saveTask_eq]
  split_ifs
  · rfl
  · exact saveAll_rax

theorem saveTask_others (h : Call s) (hb : TaskSlot b) (hne : s.reg .rdi ≠ b) {i : Nat}
    (hi : i < 32) : stateWord (saveTask s).mem b i = stateWord s.mem b i := by
  rw [saveTask_eq]
  split_ifs with hnull
  · rfl
  · have hslot : TaskSlot (s.reg .rdi) := h.save.resolve_left hnull
    exact saveAll_others (s := s.setFlags (.ofSub (s.reg .rdi) 0)) (h.return_off _ hslot)
      (h.flags_off b hb) (fun k hk => hb.off hslot (Ne.symm hne) hk) hi

theorem saveTask_saved (h : Call s) (hnull : s.reg .rdi ≠ 0) :
    Saved s (saveTask s).mem (s.reg .rdi) := by
  have hslot : TaskSlot (s.reg .rdi) := h.save.resolve_left hnull
  rw [saveTask_eq, if_neg hnull]
  exact (saveAll_saved (s := s.setFlags (.ofSub (s.reg .rdi) 0)) (h.return_off _ hslot)
    (h.flags_off _ hslot)).setFlags

/-- Nothing after saving writes a task state. -/
theorem transferControl_slot (h : Call s) (hb : TaskSlot b) {i : Nat} (hi : i < 32) :
    stateWord (transferControl s).mem b i = stateWord (saveTask s).mem b i := by
  have hrsi : TaskSlot ((swapCr3 (saveTask s)).reg .rsi) := by
    rw [swapCr3_rsi, saveTask_rsi]
    exact h.restore
  rw [transferControl, restoreAll_slot hrsi hb hi, swapCr3_mem]

theorem transferControl_cr3 : (transferControl s).cr3 =
    if (if s.reg .rdi = 0 then s.reg .rax else s.cr3) = stateWord (saveTask s).mem (s.reg .rsi) 26
    then s.cr3 else stateWord (saveTask s).mem (s.reg .rsi) 26 := by
  rw [transferControl, restoreAll_cr3, swapCr3_cr3, saveTask_rsi, saveTask_rax, saveTask_cr3]

/-- `cr3` is the restored state's exactly when the swap is right. -/
theorem transferControl_cr3_iff (s : Cpu) :
    (transferControl s).cr3 = stateWord (saveTask s).mem (s.reg .rsi) 26 ↔ SwapsRight s := by
  rw [transferControl_cr3, SwapsRight]
  by_cases hnull : s.reg .rdi = 0
  · have hmem : (saveTask s).mem = s.mem := by
      rw [saveTask_eq, if_pos hnull]
      rfl
    rw [if_pos hnull, hmem]
    split_ifs with hrax
    · simp [hnull, hrax]
    · simp [hrax]
  · rw [if_neg hnull]
    refine iff_of_true ?_ (.inl hnull)
    split_ifs with hcr3
    · exact hcr3
    · rfl

theorem gprIndex_lt (r : Reg) : gprIndex r < 27 := by cases r <;> decide

theorem segIndex_lt (seg : Seg) : segIndex seg < 27 := by cases seg <;> decide

theorem Loaded.of_words {m' : Memory} (h : Loaded m a s)
    (hwords : ∀ i < 27, stateWord m' a i = stateWord m a i) : Loaded m' a s where
  gprs r := (h.gprs r).trans (hwords _ (gprIndex_lt r)).symm
  rflags := by rw [hwords 16 (by decide), h.rflags]
  rip := by rw [hwords 17 (by decide), h.rip]
  segs seg := by rw [hwords _ (segIndex_lt seg), h.segs]
  fs := by rw [hwords 24 (by decide), h.fs]
  gs := by rw [hwords 25 (by decide), h.gs]
  cr3 := by rw [hwords 26 (by decide), h.cr3]

theorem Saved.of_words {m' : Memory} (h : Saved s m a)
    (hwords : ∀ i < 27, stateWord m' a i = stateWord m a i) : Saved s m' a where
  gprs r hr := (hwords _ (gprIndex_lt r)).trans (h.gprs r hr)
  rsp := by rw [hwords 6 (by decide), h.rsp]
  rflags := by rw [hwords 16 (by decide), h.rflags]
  rip := by rw [hwords 17 (by decide), h.rip]
  segs seg := by rw [hwords _ (segIndex_lt seg), h.segs]
  fs := by rw [hwords 24 (by decide), h.fs]
  gs := by rw [hwords 25 (by decide), h.gs]
  cr3 := by rw [hwords 26 (by decide), h.cr3]

theorem toRflags_arith (v : Quad) : toRflags v &&& ~~~arithMask =
    ((v &&& ~~~arithMask) &&& iretMask) ||| (0x2 &&& ~~~arithMask) := by
  rw [toRflags, BitVec.and_or_distrib_right, BitVec.and_assoc, BitVec.and_comm iretMask,
    ← BitVec.and_assoc]

/-- Loading what was saved resumes the caller. -/
theorem Saved.resumed {s' : Cpu} (h : Saved s m a) (h' : Loaded m a s') : Resumed s s' where
  gprs r hr := (h'.gprs r).trans (h.gprs r hr)
  rsp := (h'.gprs .rsp).trans h.rsp
  rflags := by rw [h'.rflags, toRflags_arith, h.rflags, toRflags_arith]
  rip := h'.rip.trans h.rip
  segs seg := by
    rw [h'.segs, h.segs, BitVec.setWidth_setWidth_of_le _ (by decide), BitVec.setWidth_eq]
  fs := h'.fs.trans h.fs
  gs := h'.gs.trans h.gs
  cr3 := h'.cr3.trans h.cr3

theorem transferControl_loaded (h : Call s)
    (hcr3 : (transferControl s).cr3 = stateWord (saveTask s).mem (s.reg .rsi) 26) :
    Loaded (transferControl s).mem (s.reg .rsi) (transferControl s) := by
  have hrsi : (swapCr3 (saveTask s)).reg .rsi = s.reg .rsi := swapCr3_rsi.trans saveTask_rsi
  have hswap : (swapCr3 (saveTask s)).cr3 =
      stateWord (swapCr3 (saveTask s)).mem ((swapCr3 (saveTask s)).reg .rsi) 26 := by
    rw [hrsi, swapCr3_mem, ← hcr3, transferControl, restoreAll_cr3]
  have hloaded := restoreAll_loaded (by rw [hrsi]; exact h.restore) hswap
  rw [hrsi, swapCr3_mem] at hloaded
  exact hloaded.of_words fun i hi => transferControl_slot h h.restore (by omega)

theorem transferControl_saved (h : Call s) (hnull : s.reg .rdi ≠ 0) :
    Saved s (transferControl s).mem (s.reg .rdi) :=
  (saveTask_saved h hnull).of_words fun i hi =>
    transferControl_slot h (h.save.resolve_left hnull) (by omega)

theorem transferControl_kept (h : Call s) (hne : s.reg .rdi ≠ s.reg .rsi) {i : Nat} (hi : i < 32) :
    stateWord (transferControl s).mem (s.reg .rsi) i = stateWord s.mem (s.reg .rsi) i := by
  rw [transferControl_slot h h.restore hi, saveTask_others h h.restore hne hi]

/-- A call makes its round trip exactly when the swap is right. -/
theorem roundTrip_iff (h : Call s) : RoundTrip s (transferControl s) ↔ SwapsRight s := by
  rw [← transferControl_cr3_iff]
  constructor
  · intro htrip
    rw [htrip.loaded.cr3, transferControl_slot h h.restore (by decide)]
  · intro hcr3
    exact ⟨transferControl_loaded h hcr3, fun hne i hi => transferControl_kept h hne hi,
      transferControl_saved h⟩

/-- What a later call restores is what was saved. -/
theorem LaterCall.resumed_iff {s₂ : Cpu} (hl : LaterCall s s₂) (h : Call s) (hnull : s.reg .rdi ≠ 0) :
    Resumed s (transferControl s₂) ↔ SwapsRight s₂ := by
  have hsaved : Saved s (saveTask s₂).mem (s₂.reg .rsi) := by
    have hrestore := hl.call.restore
    rw [hl.restore] at hrestore ⊢
    refine (transferControl_saved h hnull).of_words fun i hi => ?_
    rw [saveTask_others hl.call hrestore hl.save (by omega), hl.kept i hi]
  rw [← transferControl_cr3_iff]
  constructor
  · intro hres
    rw [hres.cr3, hsaved.cr3]
  · intro hcr3
    have hloaded := transferControl_loaded hl.call hcr3
    refine (hsaved.of_words fun i hi => ?_).resumed hloaded
    exact transferControl_slot hl.call hl.call.restore (by omega)

/-- **`transfer_control`** loads the restored state and keeps the caller's, and a later call that
    restores it continues the caller, each exactly when the swap of `cr3` is right. -/
theorem transferControl_exact (s : Cpu) (h : Call s) :
    (RoundTrip s (transferControl s) ↔ SwapsRight s) ∧
      (s.reg .rdi ≠ 0 → ∀ s₂, LaterCall s s₂ → (Resumed s (transferControl s₂) ↔ SwapsRight s₂)) :=
  ⟨roundTrip_iff h, fun hnull _ hl => hl.resumed_iff h hnull⟩

/-- A call that restores the first task, whose `cr3` is `0x5000`, with a given state to save to and a
    given `rax`. -/
def firstTaskCall (save rax : Quad) : Cpu where
  reg := fun r => match r with
    | .rdi => save
    | .rsi => taskAddr 1
    | .rsp => 0x8000
    | .rax => rax
    | _ => 0
  rflags := 0x2
  rip := 0
  seg := fun _ => 0
  msr := fun _ => 0
  cr3 := 0x1000
  mem := write64 (fun _ => 0) (taskAddr 1 + BitVec.ofNat 64 (8 * 26)) 0x5000
  base := fun _ => 0

theorem firstTaskCall_call {save rax : Quad} (h : save = 0 ∨ TaskSlot save) :
    Call (firstTaskCall save rax) := by
  have hrsp : (firstTaskCall save rax).reg .rsp = 0x8000 := rfl
  refine ⟨⟨1, by decide, by decide, rfl⟩, h, ?_, ?_⟩
  · intro a ha
    rw [hrsp]
    exact ha.off_low (by decide)
  · intro a ha
    rw [hrsp]
    exact ha.off_low (by decide)

theorem transferControl_exact_second :
    (RoundTrip (firstTaskCall (taskAddr 2) 0x5000)
        (transferControl (firstTaskCall (taskAddr 2) 0x5000)) ↔
      SwapsRight (firstTaskCall (taskAddr 2) 0x5000)) ∧
    (taskAddr 2 ≠ 0 → ∀ s₂, LaterCall (firstTaskCall (taskAddr 2) 0x5000) s₂ →
      (Resumed (firstTaskCall (taskAddr 2) 0x5000) (transferControl s₂) ↔ SwapsRight s₂)) :=
  transferControl_exact (firstTaskCall (taskAddr 2) 0x5000)
    (firstTaskCall_call (.inr ⟨2, by decide, by decide, rfl⟩))

/-- **`rax` as it was left**: nothing is saved, `rax` is the restored `cr3`, and the load is skipped. -/
theorem stale_rax_keeps_cr3 : Call (firstTaskCall 0 0x5000) ∧
    (transferControl (firstTaskCall 0 0x5000)).cr3 = 0x1000 ∧
    ¬ RoundTrip (firstTaskCall 0 0x5000) (transferControl (firstTaskCall 0 0x5000)) := by
  have hcall : Call (firstTaskCall 0 0x5000) := firstTaskCall_call (.inl rfl)
  have hnull : (firstTaskCall 0 0x5000).reg .rdi = 0 := rfl
  have hword : stateWord (firstTaskCall 0 0x5000).mem (taskAddr 1) 26 = 0x5000 := read64_write64
  have hmem : (saveTask (firstTaskCall 0 0x5000)).mem = (firstTaskCall 0 0x5000).mem := by
    rw [saveTask_eq, if_pos hnull]
    rfl
  refine ⟨hcall, ?_, ?_⟩
  · rw [transferControl_cr3, hmem, if_pos hnull]
    exact if_pos hword.symm
  · rw [roundTrip_iff hcall]
    rintro (hsave | hrax | hcr3)
    · exact hsave hnull
    · exact hrax hword.symm
    · exact absurd (hcr3.trans hword) (by decide)

end

end Refk
