import Refk.Lib.Bytes

/-!
# An x86-64 core

The sixteen general registers, the flags and a byte-addressed memory, with the instructions
that read a 64-bit word of memory, change it and write it back. A `lock` prefix makes each of
them one indivisible step, which is what `Instr.exec` is.

Addresses are 64-bit and wrap, so a word may lie anywhere. Two words are `Apart` when they share
no byte; a store keeps every word that is apart from the one it writes.
-/

namespace Refk.Lib.X86

/-- A 64-bit operand. -/
abbrev Quad := BitVec 64

/-- Memory, byte by byte. -/
abbrev Memory := Quad → Byte

/-! ## Words in memory -/

/-- The byte `x - a` of the word at `a`, if `x` lies in it. -/
def write64 (m : Memory) (a v : Quad) : Memory := fun x =>
  (toLe 8 v.toNat).getD (x - a).toNat (m x)

/-- The eight bytes from `a` on. -/
def bytesAt (m : Memory) (a : Quad) : List Byte :=
  (List.range 8).map fun i => m (a + BitVec.ofNat 64 i)

def read64 (m : Memory) (a : Quad) : Quad := BitVec.ofNat 64 (ofLe (bytesAt m a))

/-- The words at `a` and `b` share no byte. -/
def Apart (a b : Quad) : Prop := 8 ≤ (b - a).toNat ∧ 8 ≤ (a - b).toNat

instance (a b : Quad) : Decidable (Apart a b) := inferInstanceAs (Decidable (_ ∧ _))

section
variable {m : Memory} {a b v w : Quad}

theorem Apart.symm (h : Apart a b) : Apart b a := ⟨h.2, h.1⟩

@[simp] theorem length_bytesAt : (bytesAt m a).length = 8 := by simp [bytesAt]

theorem toNat_offset {i : Nat} (hi : i < 8) :
    (a + BitVec.ofNat 64 i - a).toNat = i := by
  rw [BitVec.add_comm, BitVec.add_sub_cancel, BitVec.toNat_ofNat, Nat.mod_eq_of_lt (by omega)]

theorem write64_inside {i : Nat} (hi : i < (toLe 8 v.toNat).length) :
    write64 m a v (a + BitVec.ofNat 64 i) = (toLe 8 v.toNat)[i] := by
  rw [write64, toNat_offset (by simpa using hi)]
  simp only [List.getD_eq_getElem?_getD, List.getElem?_eq_getElem hi, Option.getD_some]

theorem write64_outside {x : Quad} (hx : 8 ≤ (x - a).toNat) : write64 m a v x = m x := by
  have hnone : (toLe 8 v.toNat)[(x - a).toNat]? = none :=
    List.getElem?_eq_none (by simpa only [length_toLe] using hx)
  rw [write64, List.getD_eq_getElem?_getD, hnone, Option.getD_none]

theorem bytesAt_write64 : bytesAt (write64 m a v) a = toLe 8 v.toNat := by
  apply List.ext_getElem
  · simp
  · intro i hi hi'
    simp only [bytesAt, List.getElem_map, List.getElem_range, write64_inside hi']

@[simp] theorem read64_write64 : read64 (write64 m a v) a = v := by
  rw [read64, bytesAt_write64, ofLe_toLe_of_lt (by simpa using v.isLt)]
  exact BitVec.ofNat_toNat 64 v

theorem read64_write64_apart (h : Apart a b) : read64 (write64 m a v) b = read64 m b := by
  obtain ⟨h₁, h₂⟩ := h
  have hbytes : bytesAt (write64 m a v) b = bytesAt m b := by
    unfold bytesAt
    refine List.map_congr_left fun i hi => ?_
    have hi := List.mem_range.mp hi
    exact write64_outside (by bv_omega)
  rw [read64, read64, hbytes]

/-- Writing a word back changes nothing. -/
theorem write64_read64 : write64 m a (read64 m a) = m := by
  funext x
  by_cases hx : (x - a).toNat < 8
  · have hval : (read64 m a).toNat = ofLe (bytesAt m a) := by
      rw [read64, BitVec.toNat_ofNat]
      exact Nat.mod_eq_of_lt (by simpa using ofLe_lt (bytesAt m a))
    have hbytes : toLe 8 (read64 m a).toNat = bytesAt m a := by
      simpa [hval] using toLe_ofLe (bytesAt m a)
    have hpos : a + BitVec.ofNat 64 (x - a).toNat = x := by
      rw [BitVec.ofNat_toNat, BitVec.setWidth_eq, BitVec.add_comm, BitVec.sub_add_cancel]
    rw [← hpos, write64_inside (by simpa only [length_toLe] using hx)]
    simp only [hbytes, bytesAt, List.getElem_map, List.getElem_range]
  · exact write64_outside (Nat.not_lt.mp hx)

end

/-! ## Registers and flags -/

inductive Reg
  | rax | rbx | rcx | rdx | rsi | rdi | rbp | rsp | r8 | r9 | r10 | r11 | r12 | r13 | r14 | r15
  deriving DecidableEq, Repr

/-- The six arithmetic flags. -/
structure Flags where
  cf : Bool
  pf : Bool
  af : Bool
  zf : Bool
  sf : Bool
  of : Bool
  deriving DecidableEq, Repr

/-- The flags that depend on the result alone. -/
def Flags.ofResult (r : Quad) (cf af of : Bool) : Flags where
  cf := cf
  pf := (List.range 8).foldl (fun p i => p ^^ r.getLsbD i) true
  af := af
  zf := r == 0
  sf := r.msb
  of := of

/-- The flags of `a + b`. -/
def Flags.ofAdd (a b : Quad) : Flags :=
  .ofResult (a + b) (2 ^ 64 ≤ a.toNat + b.toNat) (16 ≤ a.toNat % 16 + b.toNat % 16)
    (a.msb == b.msb && (a + b).msb != a.msb)

/-- The flags of `a - b`. -/
def Flags.ofSub (a b : Quad) : Flags :=
  .ofResult (a - b) (a.toNat < b.toNat) (a.toNat % 16 < b.toNat % 16)
    (a.msb != b.msb && (a - b).msb != a.msb)

/-- A processor and its memory. -/
structure Machine where
  reg : Reg → Quad
  flags : Flags
  mem : Memory

namespace Machine

variable (s : Machine) (r : Reg) (v a : Quad)

def setReg : Machine := { s with reg := Function.update s.reg r v }

def setFlags (f : Flags) : Machine := { s with flags := f }

def store (a v : Quad) : Machine := { s with mem := write64 s.mem a v }

@[simp] theorem setReg_flags : (s.setReg r v).flags = s.flags := rfl
@[simp] theorem setReg_mem : (s.setReg r v).mem = s.mem := rfl
@[simp] theorem setReg_reg (r' : Reg) :
    (s.setReg r v).reg r' = if r' = r then v else s.reg r' := Function.update_apply ..
@[simp] theorem setFlags_reg (f : Flags) : (s.setFlags f).reg = s.reg := rfl
@[simp] theorem setFlags_flags (f : Flags) : (s.setFlags f).flags = f := rfl
@[simp] theorem setFlags_mem (f : Flags) : (s.setFlags f).mem = s.mem := rfl
@[simp] theorem store_reg : (s.store a v).reg = s.reg := rfl
@[simp] theorem store_flags : (s.store a v).flags = s.flags := rfl
@[simp] theorem store_mem : (s.store a v).mem = write64 s.mem a v := rfl

end Machine

/-! ## Instructions -/

/-- The instructions of a word in memory, at the address in the register `base`, and the two
    that work on registers alone. Operands are in the order destination, source. -/
inductive Instr
  | xchg (base r : Reg)
  | add (base r : Reg)
  | inc (base : Reg)
  | dec (base : Reg)
  | cmpxchg (base r : Reg)
  | xor (r r' : Reg)
  | cmovz (r r' : Reg)
  deriving DecidableEq, Repr

/-- One instruction, with its `lock` prefix where it has one. -/
def Instr.exec (s : Machine) : Instr → Machine
  | xchg base r =>
    let a := s.reg base
    (s.store a (s.reg r)).setReg r (read64 s.mem a)
  | add base r =>
    let a := s.reg base
    let old := read64 s.mem a
    (s.store a (old + s.reg r)).setFlags (.ofAdd old (s.reg r))
  | inc base =>
    let a := s.reg base
    let old := read64 s.mem a
    -- `inc` and `dec` leave the carry
    (s.store a (old + 1)).setFlags { Flags.ofAdd old 1 with cf := s.flags.cf }
  | dec base =>
    let a := s.reg base
    let old := read64 s.mem a
    (s.store a (old - 1)).setFlags { Flags.ofSub old 1 with cf := s.flags.cf }
  | cmpxchg base r =>
    let a := s.reg base
    let old := read64 s.mem a
    let s' := s.setFlags (.ofSub (s.reg .rax) old)
    if s.reg .rax = old then s'.store a (s.reg r) else (s'.store a old).setReg .rax old
  | xor r r' =>
    let v := s.reg r ^^^ s.reg r'
    (s.setReg r v).setFlags (.ofResult v false s.flags.af false)
  | cmovz r r' => if s.flags.zf then s.setReg r (s.reg r') else s

/-- A straight line of instructions. -/
def execAll (code : List Instr) (s : Machine) : Machine := code.foldl Instr.exec s

@[simp] theorem execAll_nil (s : Machine) : execAll [] s = s := rfl

@[simp] theorem execAll_cons (i : Instr) (code : List Instr) (s : Machine) :
    execAll (i :: code) s = execAll code (i.exec s) := rfl

@[simp] theorem ofResult_zf (r : Quad) (cf af of : Bool) :
    (Flags.ofResult r cf af of).zf = (r == 0) := rfl

/-- **The zero flag says that two numbers are equal.** -/
theorem ofSub_zf (a b : Quad) : (Flags.ofSub a b).zf = (a == b) := by
  rw [Flags.ofSub, ofResult_zf]
  by_cases hab : a = b
  · simp [hab]
  · have hne : a - b ≠ 0 := fun h => hab (by bv_omega)
    rw [beq_eq_false_iff_ne.mpr hab, beq_eq_false_iff_ne.mpr hne]

end Refk.Lib.X86
