import Refk.Lib.X86

/-!
# An x86-64 core, as its kernel sees it

Beside the general registers: the whole of `RFLAGS`, the instruction pointer, the segment selectors,
the model-specific registers, and `CR3`. Memory is what the processor sees of it; a write to `CR3`
keeps it, so code that changes `CR3` is described only where it stays in memory that all address
spaces share. No instruction faults.
-/

namespace Refk.Lib.X86

inductive Seg
  | cs | ds | es | fs | gs | ss
  deriving DecidableEq, Repr

/-- The arithmetic flags, at their places in `RFLAGS`. -/
def Flags.bits (f : Flags) : Quad :=
  (if f.cf then 0x1 else 0) ||| (if f.pf then 0x4 else 0) ||| (if f.af then 0x10 else 0) |||
    (if f.zf then 0x40 else 0) ||| (if f.sf then 0x80 else 0) ||| (if f.of then 0x800 else 0)

/-- The bits of the arithmetic flags. -/
def arithMask : Quad := 0x8d5

/-- The bits of `RFLAGS` that `iretq` sets. -/
def iretMask : Quad := 0x3d7fd5

/-- `RF`, which `pushfq` stores as zero. -/
def resumeFlag : Quad := 0x10000

/-- A value as `RFLAGS` takes it from the stack: bit 1 is always set. -/
def toRflags (v : Quad) : Quad := (v &&& iretMask) ||| 0x2

/-- A processor, its memory, and the bases in its descriptor tables. -/
structure Cpu where
  reg : Reg → Quad
  rflags : Quad
  rip : Quad
  seg : Seg → BitVec 16
  msr : BitVec 32 → Quad
  cr3 : Quad
  mem : Memory
  base : BitVec 16 → Quad

/-- `FS_BASE` -/
def fsBase : BitVec 32 := 0xc0000100

/-- `GS_BASE` -/
def gsBase : BitVec 32 := 0xc0000101

/-- A segment register is loaded; for two of them, their base with it. -/
def Cpu.setSeg (s : Cpu) (seg : Seg) (v : BitVec 16) : Cpu :=
  { s with
    seg := Function.update s.seg seg v
    msr := match seg with
      | .fs => Function.update s.msr fsBase (s.base v)
      | .gs => Function.update s.msr gsBase (s.base v)
      | _ => s.msr }

def Cpu.setReg (s : Cpu) (r : Reg) (v : Quad) : Cpu := { s with reg := Function.update s.reg r v }

def Cpu.write (s : Cpu) (a v : Quad) : Cpu := { s with mem := write64 s.mem a v }

def Cpu.setFlags (s : Cpu) (f : Flags) : Cpu :=
  { s with rflags := (s.rflags &&& ~~~arithMask) ||| f.bits }

/-- `CF` -/
def Cpu.cf (s : Cpu) : Bool := s.rflags.getLsbD 0

/-- `ZF` -/
def Cpu.zf (s : Cpu) : Bool := s.rflags.getLsbD 6

/-- `DF` -/
def Cpu.df (s : Cpu) : Bool := s.rflags.getLsbD 10

/-- A double word is written. -/
def write32 (m : Memory) (a : Quad) (v : BitVec 32) : Memory := fun x =>
  (toLe 4 v.toNat).getD (x - a).toNat (m x)

def read32 (m : Memory) (a : Quad) : BitVec 32 :=
  BitVec.ofNat 32 (ofLe ((List.range 4).map fun i => m (a + BitVec.ofNat 64 i)))

/-- Operands are in the order destination, source; an address is a register and an offset. -/
inductive SysInstr
  | load (r base : Reg) (off : Quad)
  | loadAt (r : Reg) (a : Quad)
  | store (base : Reg) (off : Quad) (r : Reg)
  | storeAt (a : Quad) (r : Reg)
  | storeImm (base : Reg) (off v : Quad)
  | load32 (r base : Reg) (off : Quad)
  | store32 (base : Reg) (off : Quad) (r : Reg)
  | mov (r r' : Reg)
  | movImm (r : Reg) (v : Quad)
  | lea (r base : Reg) (off : Quad)
  | addImm (r : Reg) (v : Quad)
  | cmp (r r' : Reg)
  | cmpImm (r : Reg) (v : Quad)
  | cmpMem (base : Reg) (off v : Quad)
  | xor (r r' : Reg)
  | push (r : Reg)
  | pop (r : Reg)
  | pushfq
  /-- A call, with the address it returns to. -/
  | call (ret : Quad)
  | cld
  | movsq
  | fromSeg (r : Reg) (seg : Seg)
  | toSeg (seg : Seg) (r : Reg)
  | rdmsr
  | wrmsr
  | fromCr3 (r : Reg)
  | toCr3 (r : Reg)
  | iretq
  deriving DecidableEq, Repr

def SysInstr.exec (s : Cpu) : SysInstr → Cpu
  | load r base off => s.setReg r (read64 s.mem (s.reg base + off))
  | loadAt r a => s.setReg r (read64 s.mem a)
  | store base off r => s.write (s.reg base + off) (s.reg r)
  | storeAt a r => s.write a (s.reg r)
  | storeImm base off v => s.write (s.reg base + off) v
  | load32 r base off => s.setReg r ((read32 s.mem (s.reg base + off)).setWidth 64)
  | store32 base off r =>
    { s with mem := write32 s.mem (s.reg base + off) ((s.reg r).setWidth 32) }
  | mov r r' => s.setReg r (s.reg r')
  | movImm r v => s.setReg r v
  | lea r base off => s.setReg r (s.reg base + off)
  | addImm r v => (s.setReg r (s.reg r + v)).setFlags (.ofAdd (s.reg r) v)
  | cmp r r' => s.setFlags (.ofSub (s.reg r) (s.reg r'))
  | cmpImm r v => s.setFlags (.ofSub (s.reg r) v)
  | cmpMem base off v => s.setFlags (.ofSub (read64 s.mem (s.reg base + off)) v)
  | xor r r' =>
    (s.setReg r (s.reg r ^^^ s.reg r')).setFlags
      (.ofResult (s.reg r ^^^ s.reg r') false (s.rflags.getLsbD 4) false)
  | push r => (s.write (s.reg .rsp - 8) (s.reg r)).setReg .rsp (s.reg .rsp - 8)
  | pop r => (s.setReg .rsp (s.reg .rsp + 8)).setReg r (read64 s.mem (s.reg .rsp))
  | pushfq => (s.write (s.reg .rsp - 8) (s.rflags &&& ~~~resumeFlag)).setReg .rsp (s.reg .rsp - 8)
  | call ret => (s.write (s.reg .rsp - 8) ret).setReg .rsp (s.reg .rsp - 8)
  | cld => { s with rflags := s.rflags &&& ~~~0x400 }
  | movsq =>
    let step : Quad := if s.df then -8 else 8
    ((s.write (s.reg .rdi) (read64 s.mem (s.reg .rsi))).setReg .rsi (s.reg .rsi + step)).setReg .rdi
      (s.reg .rdi + step)
  -- only the low 16 bits of the register are written
  | fromSeg r seg => s.setReg r ((s.reg r &&& ~~~0xffff) ||| (s.seg seg).setWidth 64)
  | toSeg seg r => s.setSeg seg ((s.reg r).setWidth 16)
  | rdmsr =>
    let v := s.msr ((s.reg .rcx).setWidth 32)
    (s.setReg .rax (v &&& 0xffffffff)).setReg .rdx (v >>> 32)
  | wrmsr =>
    let v := ((s.reg .rdx).setWidth 32 : BitVec 32) ++ ((s.reg .rax).setWidth 32 : BitVec 32)
    { s with msr := Function.update s.msr ((s.reg .rcx).setWidth 32) v }
  | fromCr3 r => s.setReg r s.cr3
  | toCr3 r => { s with cr3 := s.reg r }
  | iretq =>
    let frame := fun i : Quad => read64 s.mem (s.reg .rsp + i)
    let s' := (s.setSeg .cs ((frame 8).setWidth 16)).setSeg .ss ((frame 32).setWidth 16)
    { s' with
      rip := frame 0, rflags := toRflags (frame 16), reg := Function.update s.reg .rsp (frame 24) }

/-- A straight line of them. -/
def runAll (code : List SysInstr) (s : Cpu) : Cpu := code.foldl SysInstr.exec s

@[simp] theorem runAll_nil (s : Cpu) : runAll [] s = s := rfl

@[simp] theorem runAll_cons (i : SysInstr) (code : List SysInstr) (s : Cpu) :
    runAll (i :: code) s = runAll code (i.exec s) := rfl

theorem runAll_append (code code' : List SysInstr) (s : Cpu) :
    runAll (code ++ code') s = runAll code' (runAll code s) := List.foldl_append

/-! ## Fields -/

section
variable (s : Cpu) (r r' : Reg) (seg seg' : Seg) (v a : Quad) (w : BitVec 16) (f : Flags)

@[simp] theorem Cpu.setReg_reg : (s.setReg r v).reg r' = if r' = r then v else s.reg r' :=
  Function.update_apply ..
@[simp] theorem Cpu.setReg_rflags : (s.setReg r v).rflags = s.rflags := rfl
@[simp] theorem Cpu.setReg_rip : (s.setReg r v).rip = s.rip := rfl
@[simp] theorem Cpu.setReg_seg : (s.setReg r v).seg = s.seg := rfl
@[simp] theorem Cpu.setReg_msr : (s.setReg r v).msr = s.msr := rfl
@[simp] theorem Cpu.setReg_cr3 : (s.setReg r v).cr3 = s.cr3 := rfl
@[simp] theorem Cpu.setReg_mem : (s.setReg r v).mem = s.mem := rfl
@[simp] theorem Cpu.write_reg : (s.write a v).reg = s.reg := rfl
@[simp] theorem Cpu.write_rflags : (s.write a v).rflags = s.rflags := rfl
@[simp] theorem Cpu.write_rip : (s.write a v).rip = s.rip := rfl
@[simp] theorem Cpu.write_seg : (s.write a v).seg = s.seg := rfl
@[simp] theorem Cpu.write_msr : (s.write a v).msr = s.msr := rfl
@[simp] theorem Cpu.write_cr3 : (s.write a v).cr3 = s.cr3 := rfl
@[simp] theorem Cpu.write_mem : (s.write a v).mem = write64 s.mem a v := rfl
@[simp] theorem Cpu.setFlags_reg : (s.setFlags f).reg = s.reg := rfl
@[simp] theorem Cpu.setFlags_rflags :
    (s.setFlags f).rflags = (s.rflags &&& ~~~arithMask) ||| f.bits := rfl
@[simp] theorem Cpu.setFlags_rip : (s.setFlags f).rip = s.rip := rfl
@[simp] theorem Cpu.setFlags_seg : (s.setFlags f).seg = s.seg := rfl
@[simp] theorem Cpu.setFlags_msr : (s.setFlags f).msr = s.msr := rfl
@[simp] theorem Cpu.setFlags_cr3 : (s.setFlags f).cr3 = s.cr3 := rfl
@[simp] theorem Cpu.setFlags_mem : (s.setFlags f).mem = s.mem := rfl
@[simp] theorem Cpu.setSeg_reg : (s.setSeg seg w).reg = s.reg := rfl
@[simp] theorem Cpu.setSeg_rflags : (s.setSeg seg w).rflags = s.rflags := rfl
@[simp] theorem Cpu.setSeg_rip : (s.setSeg seg w).rip = s.rip := rfl
@[simp] theorem Cpu.setSeg_seg : (s.setSeg seg w).seg seg' = if seg' = seg then w else s.seg seg' :=
  Function.update_apply ..
@[simp] theorem Cpu.setSeg_cr3 : (s.setSeg seg w).cr3 = s.cr3 := rfl
@[simp] theorem Cpu.setSeg_mem : (s.setSeg seg w).mem = s.mem := rfl

end

/-! ## What an instruction leaves as it is -/

/-- The register may be written. -/
def SysInstr.writes (r : Reg) : SysInstr → Bool
  | load r' _ _ | loadAt r' _ | load32 r' _ _ | mov r' _ | movImm r' _ | lea r' _ _ | addImm r' _
  | xor r' _ | fromSeg r' _ | fromCr3 r' => r = r'
  | pop r' => r = r' || r = .rsp
  | push _ | pushfq | call _ | iretq => r = .rsp
  | movsq => r = .rsi || r = .rdi
  | rdmsr => r = .rax || r = .rdx
  | _ => false

/-- A segment, a model-specific register or `CR3` may be written. -/
def SysInstr.system : SysInstr → Bool
  | toSeg _ _ | wrmsr | toCr3 _ | iretq => true
  | _ => false

/-- Memory may be written. -/
def SysInstr.stores : SysInstr → Bool
  | store _ _ _ | storeAt _ _ | storeImm _ _ _ | store32 _ _ _ | push _ | pushfq | call _
  | movsq => true
  | _ => false

/-- A flag that is not arithmetic may be written. -/
def SysInstr.control : SysInstr → Bool
  | cld | iretq => true
  | _ => false

/-- Segments, model-specific registers, and `CR3` are the same. -/
structure Cpu.SameSystem (s s' : Cpu) : Prop where
  seg : s'.seg = s.seg
  msr : s'.msr = s.msr
  cr3 : s'.cr3 = s.cr3
  base : s'.base = s.base

theorem Cpu.SameSystem.refl (s : Cpu) : s.SameSystem s := ⟨rfl, rfl, rfl, rfl⟩

theorem Cpu.SameSystem.trans {s s' s'' : Cpu} (h : s.SameSystem s') (h' : s'.SameSystem s'') :
    s.SameSystem s'' :=
  ⟨h'.seg.trans h.seg, h'.msr.trans h.msr, h'.cr3.trans h.cr3, h'.base.trans h.base⟩

section
variable {s : Cpu} {i : SysInstr} {code : List SysInstr} {r : Reg}

theorem exec_reg (h : i.writes r = false) : (i.exec s).reg r = s.reg r := by
  have hone : ∀ {f : Reg → Quad} {r' : Reg} {v : Quad}, decide (r = r') = false →
      Function.update f r' v r = f r := fun hne => Function.update_of_ne (of_decide_eq_false hne) ..
  have htwo : ∀ {f : Reg → Quad} {r₁ r₂ : Reg} {v₁ v₂ : Quad},
      (decide (r = r₁) || decide (r = r₂)) = false →
      Function.update (Function.update f r₁ v₁) r₂ v₂ r = f r := by
    intro f r₁ r₂ v₁ v₂ hne
    obtain ⟨h₁, h₂⟩ := Bool.or_eq_false_iff.1 hne
    rw [hone h₂, hone h₁]
  cases i with
  | pop r' => exact htwo ((Bool.or_comm _ _).trans h)
  | rdmsr => exact htwo h
  | movsq => exact htwo h
  | _ => first | rfl | exact hone h

theorem exec_mem (h : i.stores = false) : (i.exec s).mem = s.mem := by
  cases i <;> first | rfl | cases h

theorem arith_setFlags (f : Flags) :
    (s.setFlags f).rflags &&& ~~~arithMask = s.rflags &&& ~~~arithMask := by
  have hbits : f.bits &&& ~~~arithMask = 0 := by
    obtain ⟨cf, pf, af, zf, sf, of⟩ := f
    cases cf <;> cases pf <;> cases af <;> cases zf <;> cases sf <;> cases of <;> decide
  rw [Cpu.setFlags_rflags, BitVec.and_or_distrib_right, hbits, BitVec.and_assoc, BitVec.and_self]
  simp

theorem exec_rflags (h : i.control = false) :
    (i.exec s).rflags &&& ~~~arithMask = s.rflags &&& ~~~arithMask := by
  cases i with
  | addImm r v => exact arith_setFlags (s := s.setReg r (s.reg r + v)) _
  | xor r r' => exact arith_setFlags (s := s.setReg r (s.reg r ^^^ s.reg r')) _
  | cmp r r' => exact arith_setFlags _
  | cmpImm r v => exact arith_setFlags _
  | cmpMem base off v => exact arith_setFlags _
  | cld => cases h
  | iretq => cases h
  | _ => rfl

theorem exec_system (h : i.system = false) : s.SameSystem (i.exec s) := by
  cases i <;> first | exact ⟨rfl, rfl, rfl, rfl⟩ | cases h

theorem runAll_reg (h : ∀ i ∈ code, i.writes r = false) : (runAll code s).reg r = s.reg r := by
  induction code generalizing s with
  | nil => rfl
  | cons i code ih =>
    rw [runAll_cons, ih fun j hj => h j (List.mem_cons_of_mem i hj),
      exec_reg (h i List.mem_cons_self)]

theorem runAll_mem (h : ∀ i ∈ code, i.stores = false) : (runAll code s).mem = s.mem := by
  induction code generalizing s with
  | nil => rfl
  | cons i code ih =>
    rw [runAll_cons, ih fun j hj => h j (List.mem_cons_of_mem i hj),
      exec_mem (h i List.mem_cons_self)]

theorem runAll_rflags (h : ∀ i ∈ code, i.control = false) :
    (runAll code s).rflags &&& ~~~arithMask = s.rflags &&& ~~~arithMask := by
  induction code generalizing s with
  | nil => rfl
  | cons i code ih =>
    rw [runAll_cons, ih fun j hj => h j (List.mem_cons_of_mem i hj),
      exec_rflags (h i List.mem_cons_self)]

theorem runAll_system (h : ∀ i ∈ code, i.system = false) : s.SameSystem (runAll code s) := by
  induction code generalizing s with
  | nil => exact .refl s
  | cons i code ih =>
    have hstep : s.SameSystem (i.exec s) := exec_system (h i List.mem_cons_self)
    exact hstep.trans (ih fun j hj => h j (List.mem_cons_of_mem i hj))

end

/-! ## Memory -/

section
variable {m : Memory} {a b v : Quad} {f : Flags}

theorem getLsbD_bits (f : Flags) : f.bits.getLsbD 0 = f.cf ∧ f.bits.getLsbD 6 = f.zf := by
  obtain ⟨cf, pf, af, zf, sf, of⟩ := f
  cases cf <;> cases pf <;> cases af <;> cases zf <;> cases sf <;> cases of <;> exact ⟨rfl, rfl⟩

/-- The zero flag among the others. -/
theorem zf_setFlags (s : Cpu) : (s.setFlags f).zf = f.zf := by
  have hmask : (~~~arithMask : Quad).getLsbD 6 = false := by decide
  rw [Cpu.zf, Cpu.setFlags_rflags, BitVec.getLsbD_or, BitVec.getLsbD_and, hmask, Bool.and_false,
    Bool.false_or, (getLsbD_bits f).2]

theorem cf_setFlags (s : Cpu) : (s.setFlags f).cf = f.cf := by
  have hmask : (~~~arithMask : Quad).getLsbD 0 = false := by decide
  rw [Cpu.cf, Cpu.setFlags_rflags, BitVec.getLsbD_or, BitVec.getLsbD_and, hmask, Bool.and_false,
    Bool.false_or, (getLsbD_bits f).1]

theorem ofSub_cf (a b : Quad) : (Flags.ofSub a b).cf = decide (a.toNat < b.toNat) := rfl

theorem cld_df (s : Cpu) : (SysInstr.cld.exec s).df = false := by
  have hmask : (~~~0x400 : Quad).getLsbD 10 = false := by decide
  have hflags : (SysInstr.cld.exec s).rflags = s.rflags &&& ~~~0x400 := rfl
  rw [Cpu.df, hflags, BitVec.getLsbD_and, hmask, Bool.and_false]

theorem toLe_append (lo hi : BitVec 32) :
    toLe 8 (hi ++ lo).toNat = toLe 4 lo.toNat ++ toLe 4 hi.toNat := by
  have hlo := ofLe_toLe_of_lt (show lo.toNat < 256 ^ 4 from lo.isLt)
  have hhi := ofLe_toLe_of_lt (show hi.toNat < 256 ^ 4 from hi.isLt)
  have hsum : ofLe (toLe 4 lo.toNat ++ toLe 4 hi.toNat) = (hi ++ lo).toNat := by
    rw [ofLe_append, hlo, hhi, length_toLe, BitVec.toNat_append,
      ← Nat.shiftLeft_add_eq_or_of_lt lo.isLt, Nat.shiftLeft_eq]
    omega
  rw [← hsum]
  exact toLe_ofLe (toLe 4 lo.toNat ++ toLe 4 hi.toNat)

/-- Two halves are a word. -/
theorem write32_write32 (lo hi : BitVec 32) :
    write32 (write32 m a lo) (a + 4) hi = write64 m a (hi ++ lo) := by
  funext x
  simp only [write32, write64, toLe_append, List.getD_eq_getElem?_getD]
  by_cases hx : (x - a).toNat < 4
  · have hfar : 4 ≤ (x - (a + 4)).toNat := by bv_omega
    rw [List.getElem?_append_left (by simpa using hx),
      List.getElem?_eq_none (by simpa using hfar), Option.getD_none]
  · have hnext : (x - (a + 4)).toNat = (x - a).toNat - 4 := by bv_omega
    rw [List.getElem?_append_right (by simpa using hx), hnext, length_toLe,
      List.getElem?_eq_none (show (toLe 4 lo.toNat).length ≤ _ by simpa using hx), Option.getD_none]

theorem bytesAt_halves : bytesAt m a = ((List.range 4).map fun i => m (a + BitVec.ofNat 64 i)) ++
    (List.range 4).map fun i => m (a + 4 + BitVec.ofNat 64 i) := by
  rw [bytesAt, show List.range 8 = List.range (4 + 4) from rfl, List.range_add, List.map_append,
    List.map_map]
  congr 1
  refine List.map_congr_left fun i _ => ?_
  rw [Function.comp_apply, BitVec.ofNat_add, ← BitVec.add_assoc]
  rfl

theorem read64_halves : (read64 m a).toNat = (read32 m a).toNat + 2 ^ 32 * (read32 m (a + 4)).toNat := by
  have hlo := ofLe_lt ((List.range 4).map fun i => m (a + BitVec.ofNat 64 i))
  have hhi := ofLe_lt ((List.range 4).map fun i => m (a + 4 + BitVec.ofNat 64 i))
  rw [List.length_map, List.length_range] at hlo hhi
  rw [read64, bytesAt_halves, ofLe_append, List.length_map, List.length_range, read32, read32,
    BitVec.toNat_ofNat, BitVec.toNat_ofNat, BitVec.toNat_ofNat, Nat.mod_eq_of_lt (by omega),
    Nat.mod_eq_of_lt (by omega), Nat.mod_eq_of_lt (by omega)]
  norm_num

theorem read32_append : read32 m (a + 4) ++ read32 m a = read64 m a := by
  apply BitVec.eq_of_toNat_eq
  rw [read64_halves, BitVec.toNat_append, ← Nat.shiftLeft_add_eq_or_of_lt (BitVec.isLt _),
    Nat.shiftLeft_eq]
  omega

end

end Refk.Lib.X86
