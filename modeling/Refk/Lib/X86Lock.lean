import Refk.Lib.X86System

/-!
# Double words and the interrupt flag

Further instructions of the core: a locked compare-and-exchange and an `or` of double words in
memory, and the two that change whether interrupts are taken, `cli` and `popfq`. The latter are
described as they are where they may do so.
-/

namespace Refk.Lib.X86

/-- `IF` -/
def Cpu.interrupts (s : Cpu) : Bool := s.rflags.getLsbD 9

/-- The bits of `RFLAGS` that `popfq` sets; beside that it clears `RF`. -/
def popfqMask : Quad := 0x247fd5

/-- The flags that depend on a 32-bit result alone. -/
def Flags.ofResult32 (r : BitVec 32) (cf af of : Bool) : Flags :=
  .ofResult (r.signExtend 64) cf af of

/-- The flags of `a - b` in 32 bits. -/
def Flags.ofSub32 (a b : BitVec 32) : Flags :=
  .ofResult32 (a - b) (a.toNat < b.toNat) (a.toNat % 16 < b.toNat % 16)
    (a.msb != b.msb && (a - b).msb != a.msb)

/-- Operands are in the order destination, source; an address is a register and an offset. -/
inductive LockInstr
  | sys (i : SysInstr)
  | andImm (r : Reg) (v : Quad)
  | or32 (base : Reg) (off : Quad) (r : Reg)
  | storeImm32 (base : Reg) (off : Quad) (v : BitVec 32)
  /-- `lock cmpxchgl` -/
  | cmpxchg32 (base : Reg) (off : Quad) (r : Reg)
  | cli
  | popfq
  deriving DecidableEq, Repr

def Cpu.write32 (s : Cpu) (a : Quad) (v : BitVec 32) : Cpu :=
  { s with mem := X86.write32 s.mem a v }

def LockInstr.exec (s : Cpu) : LockInstr → Cpu
  | sys i => i.exec s
  | andImm r v =>
    (s.setReg r (s.reg r &&& v)).setFlags (.ofResult (s.reg r &&& v) false (s.rflags.getLsbD 4) false)
  | or32 base off r =>
    let a := s.reg base + off
    let v := read32 s.mem a ||| (s.reg r).setWidth 32
    (s.write32 a v).setFlags (.ofResult32 v false (s.rflags.getLsbD 4) false)
  | storeImm32 base off v => s.write32 (s.reg base + off) v
  | cmpxchg32 base off r =>
    let a := s.reg base + off
    let old := read32 s.mem a
    let expected : BitVec 32 := (s.reg .rax).setWidth 32
    let s' := s.setFlags (.ofSub32 expected old)
    if expected = old then s'.write32 a ((s.reg r).setWidth 32)
    else s'.setReg .rax (old.setWidth 64)
  | cli => { s with rflags := s.rflags &&& ~~~0x200 }
  | popfq =>
    let v := read64 s.mem (s.reg .rsp)
    { s.setReg .rsp (s.reg .rsp + 8) with
      rflags := (s.rflags &&& ~~~popfqMask &&& ~~~resumeFlag) ||| (v &&& popfqMask) }

/-- A straight line of them. -/
def runLock (code : List LockInstr) (s : Cpu) : Cpu := code.foldl LockInstr.exec s

@[simp] theorem runLock_nil (s : Cpu) : runLock [] s = s := rfl

@[simp] theorem runLock_cons (i : LockInstr) (code : List LockInstr) (s : Cpu) :
    runLock (i :: code) s = runLock code (i.exec s) := rfl

/-! ## Fields -/

section
variable (s : Cpu) (r : Reg) (v a : Quad) (w : BitVec 32) (f : Flags)

@[simp] theorem Cpu.write32_reg : (s.write32 a w).reg = s.reg := rfl
@[simp] theorem Cpu.write32_rflags : (s.write32 a w).rflags = s.rflags := rfl
@[simp] theorem Cpu.write32_mem : (s.write32 a w).mem = X86.write32 s.mem a w := rfl
@[simp] theorem Cpu.setReg_interrupts : (s.setReg r v).interrupts = s.interrupts := rfl
@[simp] theorem Cpu.write_interrupts : (s.write a v).interrupts = s.interrupts := rfl
@[simp] theorem Cpu.write32_interrupts : (s.write32 a w).interrupts = s.interrupts := rfl

/-- The arithmetic flags leave `IF` alone. -/
@[simp] theorem Cpu.setFlags_interrupts : (s.setFlags f).interrupts = s.interrupts := by
  have hmask : (~~~arithMask : Quad).getLsbD 9 = true := by decide
  have hbits : f.bits.getLsbD 9 = false := by
    obtain ⟨cf, pf, af, zf, sf, of⟩ := f
    cases cf <;> cases pf <;> cases af <;> cases zf <;> cases sf <;> cases of <;> rfl
  rw [Cpu.interrupts, Cpu.setFlags_rflags, BitVec.getLsbD_or, BitVec.getLsbD_and, hmask, hbits,
    Bool.and_true, Bool.or_false, Cpu.interrupts]

theorem Cpu.cli_interrupts : (LockInstr.cli.exec s).interrupts = false := by
  have hmask : (~~~0x200 : Quad).getLsbD 9 = false := by decide
  rw [Cpu.interrupts, LockInstr.exec, BitVec.getLsbD_and, hmask, Bool.and_false]

theorem Cpu.popfq_interrupts :
    (LockInstr.popfq.exec s).interrupts = (read64 s.mem (s.reg .rsp)).getLsbD 9 := by
  have hmask : popfqMask.getLsbD 9 = true := by decide
  have hcleared : (~~~popfqMask : Quad).getLsbD 9 = false := by decide
  rw [Cpu.interrupts, LockInstr.exec, BitVec.getLsbD_or, BitVec.getLsbD_and, BitVec.getLsbD_and,
    BitVec.getLsbD_and, hmask, hcleared]
  simp

/-- What `pushfq` stores has the interrupt flag in its place. -/
theorem Cpu.pushed_interrupts : (s.rflags &&& ~~~resumeFlag).getLsbD 9 = s.interrupts := by
  have hresume : (~~~resumeFlag : Quad).getLsbD 9 = true := by decide
  rw [BitVec.getLsbD_and, hresume, Bool.and_true, Cpu.interrupts]

theorem ofSub32_zf_self : (Flags.ofSub32 w w).zf = true := by
  rw [Flags.ofSub32, BitVec.sub_self, Flags.ofResult32, ofResult_zf]
  simp

end

/-! ## Double words in memory -/

section
variable {m m' : Memory} {a b v : Quad} {w : BitVec 32}

theorem read32_congr (h : ∀ i < 4, m (a + BitVec.ofNat 64 i) = m' (a + BitVec.ofNat 64 i)) :
    read32 m a = read32 m' a := by
  unfold read32
  congr 2
  apply List.map_congr_left
  intro i hi
  exact h i (List.mem_range.mp hi)

theorem write32_outside {x : Quad} (hx : 4 ≤ (x - a).toNat) : write32 m a w x = m x := by
  have hnone : (toLe 4 w.toNat)[(x - a).toNat]? = none :=
    List.getElem?_eq_none (by simpa only [length_toLe] using hx)
  rw [write32, List.getD_eq_getElem?_getD, hnone, Option.getD_none]

@[simp] theorem read32_write32 : read32 (write32 m a w) a = w := by
  have hbytes : (List.range 4).map (fun i => write32 m a w (a + BitVec.ofNat 64 i)) =
      toLe 4 w.toNat := by
    apply List.ext_getElem
    · simp
    · intro i hi hi'
      have hoff : (a + BitVec.ofNat 64 i - a).toNat = i := by
        rw [length_toLe] at hi'
        exact toNat_offset (by omega)
      rw [List.getElem_map, List.getElem_range, write32, hoff, List.getD_eq_getElem?_getD,
        List.getElem?_eq_getElem hi', Option.getD_some]
  rw [read32, hbytes, ofLe_toLe_of_lt (by simpa using w.isLt)]
  exact BitVec.ofNat_toNat 32 w

/-- Another double word keeps its value. -/
theorem read32_write32_of_ne (h : 4 ≤ (b - a).toNat) (h' : 4 ≤ (a - b).toNat) :
    read32 (write32 m a w) b = read32 m b := by
  apply read32_congr
  intro i hi
  exact write32_outside (by bv_omega)

/-- A double word apart from a word that is written. -/
theorem read32_write64 (h : 8 ≤ (b - a).toNat) (h' : 4 ≤ (a - b).toNat) :
    read32 (write64 m a v) b = read32 m b := by
  apply read32_congr
  intro i hi
  exact write64_outside (by bv_omega)

end

end Refk.Lib.X86
