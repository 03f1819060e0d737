import Refk.Lib.Bytes
import Refk.Kernel.Pci

/-!
# `kernel/hw/ioapic.c` — programming the I/O APICs

An I/O APIC shows two of its registers in memory: an index, and behind it the data of the register
that the index names. `ioapic_init` counts the lines of the device whose address is in
`base_address` at the time, which is that of the call before, and then sets `base_address`: the
first call writes to physical address 0, and each later one to the device before its own.
`lapic_id` is the low byte of a register that has the id in its high byte.
-/

namespace Refk

open Lib

/-! ## Devices and memory -/

/-- An I/O APIC: its index, and its registers by index. -/
structure IoApic where
  index : BitVec 32
  regs : BitVec 32 → BitVec 32

/-- Physical memory by 32-bit words, with the I/O APICs by the address of their index register and
    the local APIC's id register; and the static variables. `writes` are the addresses written to,
    latest first, which is bookkeeping that no function reads. -/
structure Apics where
  memory : Word → BitVec 32
  ioapics : Word → Option IoApic
  lapicIdReg : BitVec 32
  lapicBase : Word
  baseAddress : Word
  writes : List Word

/-- `phy_write32` -/
def Apics.phyWrite32 (s : Apics) (address : Word) (value : BitVec 32) : Apics :=
  let s := { s with writes := address :: s.writes }
  match s.ioapics address with
  | some d =>
    let d := { d with index := value }
    { s with ioapics := Function.update s.ioapics address (some d) }
  | none =>
    match s.ioapics (address - 0x10) with
    | some d =>
      let d := { d with regs := Function.update d.regs d.index value }
      { s with ioapics := Function.update s.ioapics (address - 0x10) (some d) }
    | none => { s with memory := Function.update s.memory address value }

/-- `phy_read32` -/
def Apics.phyRead32 (s : Apics) (address : Word) : BitVec 32 :=
  match s.ioapics address with
  | some d => d.index
  | none =>
    match s.ioapics (address - 0x10) with
    | some d => d.regs d.index
    | none => if address = s.lapicBase + 0x20 then s.lapicIdReg else s.memory address

/-! ## The code -/

/-- `get_reg` of `lapic.c` -/
def lapicGetReg (s : Apics) (index : Word) : BitVec 32 := s.phyRead32 (s.lapicBase + index * 0x10)

/-- `lapic_id` -/
def lapicId (s : Apics) : Byte := (lapicGetReg s 0x2).setWidth 8

/-- `ioapic_read` -/
def ioapicRead (s : Apics) (index : Word) : Apics × BitVec 32 :=
  let s := s.phyWrite32 s.baseAddress (index.setWidth 32)
  (s, s.phyRead32 (s.baseAddress + 0x10))

/-- `ioapic_write` -/
def ioapicWrite (s : Apics) (index : Word) (value : BitVec 32) : Apics :=
  let s := s.phyWrite32 s.baseAddress (index.setWidth 32)
  s.phyWrite32 (s.baseAddress + 0x10) value

/-- `low_index` -/
def lowIndex (irq : Byte) : BitVec 32 := 0x10 + irq.setWidth 32 * 2

/-- `high_index` -/
def highIndex (irq : Byte) : BitVec 32 := 0x10 + irq.setWidth 32 * 2 + 1

/-- What `ioapic_set_irq` makes of the upper half of an entry. -/
def highEntry (high : BitVec 32) (apicId : Word) : BitVec 32 :=
  ((high &&& ~~~0xff000000).setWidth 64 ||| apicId <<< 24).setWidth 32

/-- And of the lower half. -/
def lowEntry (low : BitVec 32) (vector : Byte) : BitVec 32 :=
  let low := low &&& ~~~(1 <<< 16 : BitVec 32)
  let low := low &&& ~~~(1 <<< 11 : BitVec 32)
  let low := low &&& ~~~0x700
  let low := low &&& ~~~0xff
  low ||| vector.setWidth 32

/-- `ioapic_set_irq` -/
def ioapicSetIrq (s : Apics) (irq : Byte) (apicId : Word) (vector : Byte) : Apics :=
  let high := ioapicRead s ((highIndex irq).setWidth 64)
  let s := ioapicWrite high.1 ((highIndex irq).setWidth 64) (highEntry high.2 apicId)
  let low := ioapicRead s ((lowIndex irq).setWidth 64)
  ioapicWrite low.1 ((lowIndex irq).setWidth 64) (lowEntry low.2 vector)

/-- How many lines a version register speaks of. -/
def linesOf (version : BitVec 32) : Word := (((version >>> 16) &&& 0xff) + 1).setWidth 64

/-- `ioapic_get_linecount` -/
def ioapicGetLinecount (s : Apics) : Apics × Word :=
  let version := ioapicRead s 0x01
  (version.1, linesOf version.2)

/-- The loop of `ioapic_init`, with `n` lines left from line `i` on. -/
def ioapicInitLoop (irqbase : Word) : Nat → Word → Apics → Apics
  | 0, _, s => s
  | n + 1, i, s => ioapicInitLoop irqbase n (i + 1)
      (ioapicSetIrq s (i.setWidth 8) ((lapicId s).setWidth 64) ((0x80 + irqbase + i).setWidth 8))

/-- `ioapic_init` -/
def ioapicInit (s : Apics) (address irqbase : Word) : Apics :=
  let irqcount := ioapicGetLinecount s
  let s := { irqcount.1 with baseAddress := address }
  ioapicInitLoop irqbase irqcount.2.toNat 0 s

/-- Calls of `ioapic_init`, with address and interrupt base. -/
def ioapicInits (s : Apics) (calls : List (Word × Word)) : Apics :=
  calls.foldl (fun s c => ioapicInit s c.1 c.2) s

/-! ## What they are for -/

/-- Line `i` of a device is programmed, where it was `d` before and is `d'` now. -/
structure EntryProgrammed (apicId : Byte) (irqbase : Word) (i : Nat) (d d' : IoApic) : Prop where
  id : (d'.regs (highIndex (BitVec.ofNat 8 i))).extractLsb' 24 8 = apicId
  unmasked : (d'.regs (lowIndex (BitVec.ofNat 8 i))).getLsbD 16 = false
  physical : (d'.regs (lowIndex (BitVec.ofNat 8 i))).getLsbD 11 = false
  fixed : (d'.regs (lowIndex (BitVec.ofNat 8 i))).extractLsb' 8 3 = 0
  vector : ((d'.regs (lowIndex (BitVec.ofNat 8 i))).extractLsb' 0 8).toNat =
    0x80 + irqbase.toNat + i
  free : 0x80 + irqbase.toNat + i < 0xfe
  keepsLow : (d'.regs (lowIndex (BitVec.ofNat 8 i))).extractLsb' 12 4 =
    (d.regs (lowIndex (BitVec.ofNat 8 i))).extractLsb' 12 4
  keepsMiddle : (d'.regs (lowIndex (BitVec.ofNat 8 i))).extractLsb' 17 15 =
    (d.regs (lowIndex (BitVec.ofNat 8 i))).extractLsb' 17 15
  keepsHigh : (d'.regs (highIndex (BitVec.ofNat 8 i))).extractLsb' 0 24 =
    (d.regs (highIndex (BitVec.ofNat 8 i))).extractLsb' 0 24

/-- The number of lines of a device, by its own version register. -/
def IoApic.lines (d : IoApic) : Nat := (linesOf (d.regs 1)).toNat

/-- The local APIC's id. -/
def Apics.localId (s : Apics) : Byte := s.lapicIdReg.extractLsb' 24 8

/-- The addresses that a call writes to. -/
def writesOf (s : Apics) (call : Word × Word) : List Word :=
  (ioapicInit { s with writes := [] } call.1 call.2).writes

/-- **Every I/O APIC is programmed completely, and alone.** -/
structure ProgramsAll (s : Apics) (calls : List (Word × Word)) : Prop where
  complete : ∀ c ∈ calls, ∀ d, s.ioapics c.1 = some d →
    ∃ d', (ioapicInits s calls).ioapics c.1 = some d' ∧
      ∀ i < d.lines, EntryProgrammed s.localId c.2 i d d'
  alone : ∀ before c after, calls = before ++ c :: after →
    ∀ a ∈ writesOf (ioapicInits s before) c, a = c.1 ∨ a = c.1 + 0x10

/-- The machine at boot: nothing has been programmed, I/O APICs are at 32-bit addresses, and no
    register is another's. -/
structure AtBoot (s : Apics) : Prop where
  base : s.baseAddress = 0
  low : ∀ b, s.ioapics b ≠ none → b.toNat < 2 ^ 32
  apart : ∀ b, s.ioapics b ≠ none → s.ioapics (b + 0x10) = none
  lapic : s.ioapics (s.lapicBase + 0x20) = none ∧ s.ioapics (s.lapicBase + 0x10) = none

/-- The calls are over all I/O APICs, each once. -/
structure CallsAll (s : Apics) (calls : List (Word × Word)) : Prop where
  nodup : (calls.map (·.1)).Nodup
  all : ∀ b, s.ioapics b ≠ none ↔ b ∈ calls.map (·.1)

/-! ## The fields of an entry -/

section
variable {low high : BitVec 32} {vector id : Byte}

theorem toNat_highEntry (high : BitVec 32) (id : Byte) :
    (highEntry high (id.setWidth 64)).toNat = high.toNat % 2 ^ 24 + id.toNat * 2 ^ 24 := by
  have hid := id.isLt
  have hmask : (high &&& ~~~0xff000000).toNat = high.toNat % 2 ^ 24 := toNat_and_ones 24 rfl
  have hshift : (id.setWidth 64 <<< 24 : Word).toNat = id.toNat * 2 ^ 24 := by
    rw [BitVec.toNat_shiftLeft, BitVec.toNat_setWidth, Nat.shiftLeft_eq]
    omega
  rw [highEntry, BitVec.toNat_setWidth, BitVec.toNat_or, BitVec.toNat_setWidth, hmask, hshift,
    Nat.or_comm, Nat.mod_eq_of_lt (a := high.toNat % 2 ^ 24) (by omega),
    or_eq_add (k := 24) (by omega) (by omega)]
  omega

theorem highEntry_id (high : BitVec 32) (id : Byte) :
    (highEntry high (id.setWidth 64)).extractLsb' 24 8 = id := by
  have hid := id.isLt
  rw [← BitVec.toNat_inj, BitVec.extractLsb'_toNat, toNat_highEntry, Nat.shiftRight_eq_div_pow]
  omega

theorem highEntry_keeps (high : BitVec 32) (id : Byte) :
    (highEntry high (id.setWidth 64)).extractLsb' 0 24 = high.extractLsb' 0 24 := by
  rw [← BitVec.toNat_inj, BitVec.extractLsb'_toNat, BitVec.extractLsb'_toNat, toNat_highEntry,
    Nat.shiftRight_eq_div_pow, Nat.shiftRight_eq_div_pow]
  omega

/-- The bits that are cleared, in one mask. -/
theorem lowEntry_eq (low : BitVec 32) (vector : Byte) :
    lowEntry low vector = (low &&& 0xfffef000) ||| vector.setWidth 32 := by
  have hmask : (~~~(1 <<< 16 : BitVec 32) &&& (~~~(1 <<< 11 : BitVec 32) &&&
      (~~~(0x700 : BitVec 32) &&& ~~~(0xff : BitVec 32)))) = 0xfffef000 := by decide
  rw [lowEntry, ← hmask, BitVec.and_assoc, BitVec.and_assoc, BitVec.and_assoc]

theorem getLsbD_lowEntry (low : BitVec 32) (vector : Byte) (k : Nat) :
    (lowEntry low vector).getLsbD k =
      (low.getLsbD k && (0xfffef000 : BitVec 32).getLsbD k || vector.getLsbD k) := by
  rw [lowEntry_eq, BitVec.getLsbD_or, BitVec.getLsbD_and, BitVec.getLsbD_setWidth]
  by_cases hk : k < 32
  · simp [hk]
  · simp [hk, BitVec.getLsbD_of_ge vector k (by omega)]

/-- A field that the mask keeps, above the vector. -/
theorem lowEntry_keeps {k n : Nat} (hk : 8 ≤ k)
    (hmask : ∀ i < n, (0xfffef000 : BitVec 32).getLsbD (k + i) = true) (low : BitVec 32)
    (vector : Byte) : (lowEntry low vector).extractLsb' k n = low.extractLsb' k n := by
  apply BitVec.eq_of_getLsbD_eq
  intro i hi
  rw [BitVec.getLsbD_extractLsb', BitVec.getLsbD_extractLsb', getLsbD_lowEntry, hmask i hi,
    BitVec.getLsbD_of_ge vector (k + i) (by omega), Bool.and_true, Bool.or_false]

theorem lowEntry_vector (low : BitVec 32) (vector : Byte) :
    (lowEntry low vector).extractLsb' 0 8 = vector := by
  apply BitVec.eq_of_getLsbD_eq
  intro i hi
  have hmask : (0xfffef000 : BitVec 32).getLsbD (0 + i) = false := by
    interval_cases i <;> rfl
  rw [BitVec.getLsbD_extractLsb', getLsbD_lowEntry, hmask]
  simp [hi]

theorem lowEntry_fixed (low : BitVec 32) (vector : Byte) :
    (lowEntry low vector).extractLsb' 8 3 = 0 := by
  apply BitVec.eq_of_getLsbD_eq
  intro i hi
  have hmask : (0xfffef000 : BitVec 32).getLsbD (8 + i) = false := by
    interval_cases i <;> rfl
  rw [BitVec.getLsbD_extractLsb', getLsbD_lowEntry, hmask,
    BitVec.getLsbD_of_ge vector (8 + i) (by omega)]
  simp

theorem lowEntry_clear {k : Nat} (hk : 8 ≤ k)
    (hmask : (0xfffef000 : BitVec 32).getLsbD k = false) (low : BitVec 32) (vector : Byte) :
    (lowEntry low vector).getLsbD k = false := by
  rw [getLsbD_lowEntry, hmask, BitVec.getLsbD_of_ge vector k (by omega)]
  simp

end

/-! ## The device that `base_address` is at -/

/-- The machine with the device at `b` changed, through the addresses `ws`. -/
def Apics.put (s : Apics) (b : Word) (d : IoApic) (ws : List Word) : Apics :=
  { s with ioapics := Function.update s.ioapics b (some d), writes := ws ++ s.writes }

/-- The index register of `d` is at `b`, which is `base_address`. -/
structure Selected (s : Apics) (b : Word) (d : IoApic) : Prop where
  base : s.baseAddress = b
  here : s.ioapics b = some d
  data : s.ioapics (b + 0x10) = none
  lapic : s.ioapics (s.lapicBase + 0x20) = none ∧ s.ioapics (s.lapicBase + 0x10) = none

section
variable {s : Apics} {b irqbase : Word} {d d' : IoApic} {ws ws' : List Word} {irq vector : Byte}
  {i j n : Nat}

theorem put_here (s : Apics) (b : Word) (d : IoApic) (ws : List Word) :
    (s.put b d ws).ioapics b = some d := Function.update_self ..

theorem put_put : (s.put b d ws).put b d' ws' = s.put b d' (ws' ++ ws) := by
  unfold Apics.put
  simp only [Function.update_idem, List.append_assoc]

theorem Selected.put (h : Selected s b d) (d' : IoApic) (ws : List Word) :
    Selected (s.put b d' ws) b d' := by
  have hne {a : Word} (ha : s.ioapics a = none) : a ≠ b := by
    intro heq
    rw [heq, h.here] at ha
    cases ha
  refine ⟨h.base, Function.update_self .., ?_, ?_, ?_⟩
  · exact (Function.update_of_ne (hne h.data) ..).trans h.data
  · exact (Function.update_of_ne (hne h.lapic.1) ..).trans h.lapic.1
  · exact (Function.update_of_ne (hne h.lapic.2) ..).trans h.lapic.2

theorem Selected.writeIndex (h : Selected s b d) (v : BitVec 32) :
    s.phyWrite32 b v = s.put b { d with index := v } [b] := by
  unfold Apics.phyWrite32
  simp only [h.here]
  rfl

theorem Selected.writeData (h : Selected s b d) (v : BitVec 32) : s.phyWrite32 (b + 0x10) v =
    s.put b { d with regs := Function.update d.regs d.index v } [b + 0x10] := by
  unfold Apics.phyWrite32
  simp only [h.data, BitVec.add_sub_cancel, h.here]
  rfl

theorem Selected.readData (h : Selected s b d) : s.phyRead32 (b + 0x10) = d.regs d.index := by
  unfold Apics.phyRead32
  simp only [h.data, BitVec.add_sub_cancel, h.here]

theorem Selected.readId (h : Selected s b d) : lapicId s = s.lapicIdReg.setWidth 8 := by
  have haddr : s.lapicBase + 0x2 * 0x10 = s.lapicBase + 0x20 := rfl
  have hdata : s.lapicBase + 0x20 - 0x10 = s.lapicBase + 0x10 := by bv_omega
  rw [lapicId, lapicGetReg, haddr]
  unfold Apics.phyRead32
  simp only [h.lapic.1, hdata, h.lapic.2, if_true]

theorem Selected.read (h : Selected s b d) (index : BitVec 32) :
    ioapicRead s (index.setWidth 64) = (s.put b { d with index := index } [b], d.regs index) := by
  have hindex : (index.setWidth 64).setWidth 32 = index := by simp
  unfold ioapicRead
  rw [h.base, hindex, h.writeIndex]
  simp only [(h.put { d with index := index } [b]).base,
    (h.put { d with index := index } [b]).readData]

theorem Selected.write (h : Selected s b d) (index v : BitVec 32) :
    ioapicWrite s (index.setWidth 64) v =
      s.put b ⟨index, Function.update d.regs index v⟩ [b + 0x10, b] := by
  have hindex : (index.setWidth 64).setWidth 32 = index := by simp
  have hput := h.put { d with index := index } [b]
  unfold ioapicWrite
  rw [h.base, hindex, h.writeIndex]
  simp only [hput.base, hput.writeData, put_put]
  rfl

/-- A device after one entry has been set. -/
def IoApic.program (d : IoApic) (irq : Byte) (apicId : Word) (vector : Byte) : IoApic where
  index := lowIndex irq
  regs := Function.update (Function.update d.regs (highIndex irq)
    (highEntry (d.regs (highIndex irq)) apicId)) (lowIndex irq)
      (lowEntry (d.regs (lowIndex irq)) vector)

theorem lowIndex_ne_highIndex (irq irq' : Byte) : lowIndex irq ≠ highIndex irq' := by
  unfold lowIndex highIndex
  bv_omega

/-- **`ioapic_set_irq`** sets one entry of the device at `base_address`. -/
theorem Selected.setIrq (h : Selected s b d) (irq : Byte) (apicId : Word) (vector : Byte) :
    ioapicSetIrq s irq apicId vector =
      s.put b (d.program irq apicId vector) [b + 0x10, b, b, b + 0x10, b, b] := by
  have h₁ := h.put { d with index := highIndex irq } [b]
  have h₂ := h₁.put ⟨highIndex irq, Function.update d.regs (highIndex irq)
    (highEntry (d.regs (highIndex irq)) apicId)⟩ [b + 0x10, b]
  have h₃ := h₂.put ⟨lowIndex irq, Function.update d.regs (highIndex irq)
    (highEntry (d.regs (highIndex irq)) apicId)⟩ [b]
  have hlow : Function.update d.regs (highIndex irq) (highEntry (d.regs (highIndex irq)) apicId)
      (lowIndex irq) = d.regs (lowIndex irq) :=
    Function.update_of_ne (lowIndex_ne_highIndex irq irq) ..
  unfold ioapicSetIrq
  simp only [h.read, h₁.write, h₂.read, h₃.write, hlow]
  simp only [put_put]
  rfl

/-! ## The loop over the lines -/

theorem program_self (d : IoApic) (irq : Byte) (apicId : Word) (vector : Byte) :
    (d.program irq apicId vector).regs (lowIndex irq) = lowEntry (d.regs (lowIndex irq)) vector ∧
      (d.program irq apicId vector).regs (highIndex irq) =
        highEntry (d.regs (highIndex irq)) apicId := by
  constructor
  · exact Function.update_self ..
  · unfold IoApic.program
    simp only [Function.update_of_ne (lowIndex_ne_highIndex irq irq).symm, Function.update_self]

theorem program_of_ne (d : IoApic) {irq irq' : Byte} (apicId : Word) (vector : Byte)
    (hne : irq' ≠ irq) :
    (d.program irq apicId vector).regs (lowIndex irq') = d.regs (lowIndex irq') ∧
      (d.program irq apicId vector).regs (highIndex irq') = d.regs (highIndex irq') := by
  have hlow : lowIndex irq' ≠ lowIndex irq := by
    unfold lowIndex
    bv_omega
  have hhigh : highIndex irq' ≠ highIndex irq := by
    unfold highIndex
    bv_omega
  unfold IoApic.program
  constructor
  · simp only [Function.update_of_ne hlow, Function.update_of_ne (lowIndex_ne_highIndex _ _)]
  · simp only [Function.update_of_ne (lowIndex_ne_highIndex _ _).symm, Function.update_of_ne hhigh]

/-- The vector that line `i` is given. -/
def lineVector (irqbase : Word) (i : Nat) : Byte :=
  (0x80 + irqbase + BitVec.ofNat 64 i).setWidth 8

/-- The lines from `i` up to `k` are programmed, the others are as they were. -/
structure Lines (apicId : Word) (irqbase : Word) (i k : Nat) (d d' : IoApic) : Prop where
  done : ∀ j < 256, i ≤ j → j < k →
    d'.regs (lowIndex (BitVec.ofNat 8 j)) =
        lowEntry (d.regs (lowIndex (BitVec.ofNat 8 j))) (lineVector irqbase j) ∧
      d'.regs (highIndex (BitVec.ofNat 8 j)) =
        highEntry (d.regs (highIndex (BitVec.ofNat 8 j))) apicId
  others : ∀ j < 256, ¬ (i ≤ j ∧ j < k) →
    d'.regs (lowIndex (BitVec.ofNat 8 j)) = d.regs (lowIndex (BitVec.ofNat 8 j)) ∧
      d'.regs (highIndex (BitVec.ofNat 8 j)) = d.regs (highIndex (BitVec.ofNat 8 j))

/-- **The loop** programs its lines, through the device's own two registers. -/
theorem Selected.loop (h : Selected s b d) (irqbase : Word) (hn : i + n ≤ 256) :
    ∃ d' ws, ioapicInitLoop irqbase n (BitVec.ofNat 64 i) s = s.put b d' ws ∧
      (∀ a ∈ ws, a = b ∨ a = b + 0x10) ∧
      Lines ((lapicId s).setWidth 64) irqbase i (i + n) d d' := by
  induction n generalizing i s d with
  | zero =>
    refine ⟨d, [], ?_, ?_, ?_⟩
    · have hself : Function.update s.ioapics b (some d) = s.ioapics := by
        rw [← h.here, Function.update_eq_self]
      rw [ioapicInitLoop, Apics.put, hself]
      rfl
    · intro a ha
      cases ha
    · constructor
      · intro j _ hij hjk
        omega
      · intro j _ _
        exact ⟨rfl, rfl⟩
  | succ n ih =>
    have hirq : (BitVec.ofNat 64 i).setWidth 8 = BitVec.ofNat 8 i := by
      rw [← BitVec.toNat_inj, BitVec.toNat_setWidth, BitVec.toNat_ofNat, BitVec.toNat_ofNat]
      omega
    have hnext : BitVec.ofNat 64 i + 1 = BitVec.ofNat 64 (i + 1) := by bv_omega
    set d₁ := d.program (BitVec.ofNat 8 i) ((lapicId s).setWidth 64) (lineVector irqbase i)
      with hd₁
    have hset := h.setIrq (BitVec.ofNat 8 i) ((lapicId s).setWidth 64) (lineVector irqbase i)
    have hput := h.put d₁ [b + 0x10, b, b, b + 0x10, b, b]
    have hid : lapicId (s.put b d₁ [b + 0x10, b, b, b + 0x10, b, b]) = lapicId s := by
      rw [hput.readId, h.readId]
      rfl
    obtain ⟨d', ws, hloop, hws, hlines⟩ := ih hput (i := i + 1) (by omega)
    rw [hid] at hlines
    refine ⟨d', ws ++ [b + 0x10, b, b, b + 0x10, b, b], ?_, ?_, ?_⟩
    · rw [ioapicInitLoop, hirq, hnext]
      unfold lineVector at hset
      rw [hset]
      exact hloop.trans put_put
    · intro a ha
      cases List.mem_append.mp ha with
      | inl ha => exact hws a ha
      | inr ha =>
        simp only [List.mem_cons, List.mem_nil_iff, or_false] at ha
        tauto
    · have hbyte {j : Nat} (hj : j < 256) (hne : j ≠ i) :
          BitVec.ofNat 8 j ≠ BitVec.ofNat 8 i := by bv_omega
      constructor
      · intro j hj hij hjk
        by_cases hji : j = i
        · subst hji
          have hkept := hlines.others j hj (by omega)
          rw [hkept.1, hkept.2]
          exact program_self d _ _ _
        · have hdone := hlines.done j hj (by omega) (by omega)
          have hsame := program_of_ne d ((lapicId s).setWidth 64) (lineVector irqbase i)
            (hbyte hj hji)
          rw [hdone.1, hdone.2, hsame.1, hsame.2]
          exact ⟨rfl, rfl⟩
      · intro j hj hout
        have hkept := hlines.others j hj (by omega)
        have hsame := program_of_ne d ((lapicId s).setWidth 64) (lineVector irqbase i)
          (hbyte hj (by omega))
        rw [hkept.1, hkept.2, hsame.1, hsame.2]
        exact ⟨rfl, rfl⟩

theorem lines_le (d : IoApic) : d.lines ≤ 256 := by
  unfold IoApic.lines linesOf
  rw [BitVec.toNat_setWidth, BitVec.toNat_add, toNat_and_ones 8 rfl]
  have hlt := Nat.mod_lt (d.regs 1 >>> 16).toNat (show 0 < 2 ^ 8 by omega)
  simp
  omega

theorem lines_pos (d : IoApic) : 0 < d.lines := by
  unfold IoApic.lines linesOf
  rw [BitVec.toNat_setWidth, BitVec.toNat_add, toNat_and_ones 8 rfl]
  simp
  omega

/-- **A call with the right `base_address`** programs every line of its device. -/
theorem Selected.init (h : Selected s b d) (irqbase : Word) :
    ∃ d' ws, ioapicInit s b irqbase = s.put b d' ws ∧ (∀ a ∈ ws, a = b ∨ a = b + 0x10) ∧
      Lines ((lapicId s).setWidth 64) irqbase 0 d.lines d d' := by
  have hread : ioapicRead s 0x01 = (s.put b { d with index := 1 } [b], d.regs 1) := h.read 1
  have hput := h.put { d with index := 1 } [b]
  have hid : lapicId (s.put b { d with index := 1 } [b]) = lapicId s := by
    rw [hput.readId, h.readId]
    rfl
  obtain ⟨d', ws, hloop, hws, hlines⟩ := hput.loop irqbase (i := 0) (n := d.lines) (by
    have hle := lines_le d
    omega)
  have hbase : { s.put b { d with index := 1 } [b] with baseAddress := b } =
      s.put b { d with index := 1 } [b] := by
    rw [← h.base]
    rfl
  rw [hid, Nat.zero_add] at hlines
  refine ⟨d', ws ++ [b], ?_, ?_, ⟨hlines.done, hlines.others⟩⟩
  · unfold ioapicInit ioapicGetLinecount
    rw [hread]
    exact (congrArg (ioapicInitLoop irqbase d.lines 0) hbase).trans (hloop.trans put_put)
  · intro a ha
    cases List.mem_append.mp ha with
    | inl ha => exact hws a ha
    | inr ha => exact Or.inl (List.mem_singleton.mp ha)

end

/-! ## What every call does -/

/-- The machine goes on: writes are added to the ones before, and `base_address` stays. -/
structure GoesOn (s s' : Apics) : Prop where
  base : s'.baseAddress = s.baseAddress
  writes : s.writes <:+ s'.writes

section
variable {s s' s'' : Apics}

theorem GoesOn.refl (s : Apics) : GoesOn s s := ⟨rfl, List.suffix_refl _⟩

theorem GoesOn.trans (h : GoesOn s s') (h' : GoesOn s' s'') : GoesOn s s'' :=
  ⟨h'.base.trans h.base, h.writes.trans h'.writes⟩

theorem phyWrite32_writes (s : Apics) (address : Word) (value : BitVec 32) :
    (s.phyWrite32 address value).writes = address :: s.writes ∧
      (s.phyWrite32 address value).baseAddress = s.baseAddress := by
  unfold Apics.phyWrite32
  cases hindex : s.ioapics address with
  | some d => simp only [hindex, and_self]
  | none =>
    cases hdata : s.ioapics (address - 0x10) with
    | some d => simp only [hindex, hdata, and_self]
    | none => simp only [hindex, hdata, and_self]

theorem goesOn_phyWrite32 (s : Apics) (address : Word) (value : BitVec 32) :
    GoesOn s (s.phyWrite32 address value) := by
  obtain ⟨hwrites, hbase⟩ := phyWrite32_writes s address value
  exact ⟨hbase, hwrites ▸ List.suffix_cons ..⟩

theorem goesOn_read (s : Apics) (index : Word) : GoesOn s (ioapicRead s index).1 :=
  goesOn_phyWrite32 s _ _

theorem goesOn_write (s : Apics) (index : Word) (value : BitVec 32) :
    GoesOn s (ioapicWrite s index value) :=
  (goesOn_phyWrite32 s _ _).trans (goesOn_phyWrite32 _ _ _)

theorem goesOn_setIrq (s : Apics) (irq : Byte) (apicId : Word) (vector : Byte) :
    GoesOn s (ioapicSetIrq s irq apicId vector) :=
  (goesOn_read s _).trans ((goesOn_write _ _ _).trans ((goesOn_read _ _).trans (goesOn_write _ _ _)))

theorem goesOn_loop (irqbase : Word) (n : Nat) (i : Word) (s : Apics) :
    GoesOn s (ioapicInitLoop irqbase n i s) := by
  induction n generalizing i s with
  | zero => exact .refl s
  | succ n ih => exact (goesOn_setIrq s _ _ _).trans (ih _ _)

/-- **A call writes to where `base_address` was**, and leaves its own address there. -/
theorem ioapicInit_base (s : Apics) (address irqbase : Word) :
    (ioapicInit s address irqbase).baseAddress = address ∧
      s.baseAddress ∈ (ioapicInit s address irqbase).writes := by
  have hloop := goesOn_loop irqbase (ioapicGetLinecount s).2.toNat 0
    { (ioapicGetLinecount s).1 with baseAddress := address }
  refine ⟨hloop.base, hloop.writes.subset ?_⟩
  have hwrites := (phyWrite32_writes s s.baseAddress ((0x01 : Word).setWidth 32)).1
  exact hwrites ▸ List.mem_cons_self

end

/-! ## The main theorem -/

/-- A line's vector fits into eight bits below the scheduler's. -/
theorem lineVector_eq {irqbase : Word} {i : Nat} (hi : i < 256)
    (hfree : 0x80 + irqbase.toNat + i < 0xfe) :
    (lineVector irqbase i).toNat = 0x80 + irqbase.toNat + i := by
  unfold lineVector
  bv_omega

theorem base_mem_writesOf (s : Apics) (c : Word × Word) : s.baseAddress ∈ writesOf s c :=
  (ioapicInit_base { s with writes := [] } c.1 c.2).2

/-- A call that is alone finds `base_address` at its own device. -/
theorem address_of_alone {s : Apics} {c : Word × Word} (hlow : c.1.toNat < 2 ^ 32)
    (hbase : s.baseAddress = 0) (h : ∀ a ∈ writesOf s c, a = c.1 ∨ a = c.1 + 0x10) : c.1 = 0 := by
  have hmem := base_mem_writesOf s c
  rw [hbase] at hmem
  cases h 0 hmem with
  | inl heq => exact heq.symm
  | inr heq => bv_omega

theorem Lines.programmed {d d' : IoApic} {id : Byte} {irqbase : Word} {i n : Nat}
    (h : Lines (id.setWidth 64) irqbase 0 n d d') (hi : i < n) (hn : n ≤ 256)
    (hfree : 0x80 + irqbase.toNat + i < 0xfe) : EntryProgrammed id irqbase i d d' := by
  obtain ⟨hlow, hhigh⟩ := h.done i (by omega) (Nat.zero_le i) hi
  constructor
  · rw [hhigh, highEntry_id]
  · rw [hlow, lowEntry_clear (by omega) (by decide)]
  · rw [hlow, lowEntry_clear (by omega) (by decide)]
  · rw [hlow, lowEntry_fixed]
  · rw [hlow, lowEntry_vector, lineVector_eq (by omega) hfree]
  · exact hfree
  · rw [hlow, lowEntry_keeps (by omega) (by decide)]
  · rw [hlow, lowEntry_keeps (by omega) (by decide)]
  · rw [hhigh, highEntry_keeps]

/-- **I/O APICs are programmed completely and alone** exactly if there is none, or there is just
    one, its registers are where `base_address` is at boot, the local APIC's id is what the low byte
    of its id register shows, and all its vectors are below the scheduler's. -/
theorem ioapics_programmed (s : Apics) (calls : List (Word × Word)) (hboot : AtBoot s)
    (hcalls : CallsAll s calls) : ProgramsAll s calls ↔
      calls = [] ∨ ∃ irqbase d, calls = [(0, irqbase)] ∧ s.ioapics 0 = some d ∧
        s.lapicIdReg.setWidth 8 = s.localId ∧ 0x80 + irqbase.toNat + d.lines ≤ 0xfe := by
  have hknown {c : Word × Word} (hc : c ∈ calls) : s.ioapics c.1 ≠ none :=
    (hcalls.all c.1).mpr (List.mem_map.mpr ⟨c, hc, rfl⟩)
  have hselected {d : IoApic} (hd : s.ioapics 0 = some d) : Selected s 0 d :=
    ⟨hboot.base, hd, hboot.apart 0 (by rw [hd]; exact Option.some_ne_none d), hboot.lapic⟩
  constructor
  · intro h
    cases calls with
    | nil => exact Or.inl rfl
    | cons c rest =>
      have hlow (c' : Word × Word) (hc' : c' ∈ c :: rest) : c'.1.toNat < 2 ^ 32 :=
        hboot.low c'.1 (hknown hc')
      have hfirst : c.1 = 0 := by
        apply address_of_alone (hlow c List.mem_cons_self) hboot.base
        exact h.alone [] c rest rfl
      cases rest with
      | cons c₂ rest =>
        -- the second call starts with the device of the first
        have hbase : (ioapicInits s [c]).baseAddress = 0 := by
          rw [← hfirst]
          exact (ioapicInit_base s c.1 c.2).1
        have hsecond : c₂.1 = 0 := by
          apply address_of_alone (hlow c₂ (by simp)) hbase
          exact h.alone [c] c₂ rest rfl
        have hnodup := hcalls.nodup
        simp [hfirst, hsecond] at hnodup
      | nil =>
        right
        obtain ⟨address, irqbase⟩ := c
        cases hfirst
        obtain ⟨d, hd⟩ := Option.ne_none_iff_exists'.mp (hknown List.mem_cons_self)
        obtain ⟨d', hd', hlines⟩ := h.complete _ List.mem_cons_self d hd
        obtain ⟨d'', ws, hinit, -, hdone⟩ := (hselected hd).init irqbase
        have hsame : d'' = d' := by
          have hfinal : (ioapicInits s [(0, irqbase)]).ioapics 0 = some d'' := by
            rw [ioapicInits, List.foldl_cons, List.foldl_nil, hinit]
            exact put_here ..
          exact Option.some_inj.mp (hfinal.symm.trans hd')
        subst hsame
        have hpos := lines_pos d
        have hlast : 0x80 + irqbase.toNat + (d.lines - 1) < 0xfe :=
          (hlines (d.lines - 1) (by omega)).free
        have hid := (hlines 0 hpos).id
        rw [(hdone.done 0 (by omega) le_rfl hpos).2, highEntry_id, (hselected hd).readId] at hid
        exact ⟨irqbase, d, rfl, hd, hid, by omega⟩
  · intro h
    cases h with
    | inl hnil =>
      subst hnil
      constructor
      · intro c hc
        cases hc
      · intro before c after heq
        exact absurd heq (by simp)
    | inr hone =>
      obtain ⟨irqbase, d, rfl, hd, hid, hfree⟩ := hone
      have hle := lines_le d
      constructor
      · intro c hc d₀ hd₀
        cases List.mem_singleton.mp hc
        cases Option.some_inj.mp (hd.symm.trans hd₀)
        obtain ⟨d', ws, hinit, -, hdone⟩ := (hselected hd).init irqbase
        rw [(hselected hd).readId, hid] at hdone
        refine ⟨d', ?_, ?_⟩
        · rw [ioapicInits, List.foldl_cons, List.foldl_nil, hinit]
          exact put_here ..
        · intro i hi
          exact hdone.programmed hi hle (by omega)
      · intro before c after heq
        obtain ⟨rfl, hc⟩ : before = [] ∧ c = (0, irqbase) := by
          cases before with
          | nil => exact ⟨rfl, (List.cons.inj heq).1.symm⟩
          | cons b before => exact absurd (congrArg List.length heq) (by simp)
        subst hc
        have hclear : Selected { s with writes := [] } 0 d :=
          ⟨hboot.base, hd, (hselected hd).data, (hselected hd).lapic⟩
        obtain ⟨d', ws, hinit, hws, -⟩ := hclear.init irqbase
        intro a ha
        have hwrites : writesOf (ioapicInits s []) (0, irqbase) = ws ++ [] := by
          rw [writesOf]
          exact congrArg Apics.writes hinit
        rw [hwrites, List.append_nil] at ha
        exact hws a ha

/-- A machine with one I/O APIC of 24 lines, at `b`, and a local APIC with the id 0. -/
def oneIoApic (b : Word) : Apics where
  memory _ := 0
  ioapics := Function.update (fun _ => none) b (some ⟨0, fun i => if i = 1 then 0x170011 else 0⟩)
  lapicIdReg := 0
  lapicBase := 0xfee00000
  baseAddress := 0
  writes := []

theorem oneIoApic_boot {b : Word} (hlow : b.toNat < 0xfee00000) :
    AtBoot (oneIoApic b) ∧ CallsAll (oneIoApic b) [(b, 0)] := by
  have hnone {a : Word} (ha : a ≠ b) : (oneIoApic b).ioapics a = none := by
    simp only [oneIoApic, Function.update_of_ne ha]
  have hhere {a : Word} : (oneIoApic b).ioapics a ≠ none ↔ a = b := by
    constructor
    · intro ha
      by_contra hne
      exact ha (hnone hne)
    · intro ha
      simp [ha, oneIoApic]
  refine ⟨⟨rfl, ?_, ?_, ?_, ?_⟩, ⟨by simp, ?_⟩⟩
  · intro a ha
    rw [hhere.mp ha]
    omega
  · intro a ha
    rw [hhere.mp ha]
    exact hnone (by bv_omega)
  · have hbase : (oneIoApic b).lapicBase = 0xfee00000 := rfl
    rw [hbase]
    exact hnone (by bv_omega)
  · have hbase : (oneIoApic b).lapicBase = 0xfee00000 := rfl
    rw [hbase]
    exact hnone (by bv_omega)
  · intro a
    rw [hhere, List.map_singleton, List.mem_singleton]

/-- At physical address 0 it is programmed. -/
theorem ioapics_programmed_of_one : ProgramsAll (oneIoApic 0) [(0, 0)] := by
  obtain ⟨hboot, hcalls⟩ := oneIoApic_boot (b := 0) (by decide)
  apply (ioapics_programmed (oneIoApic 0) [(0, 0)] hboot hcalls).mpr
  exact Or.inr ⟨0, _, rfl, rfl, by decide, by decide⟩

/-- At 0xfec00000, where a PC has it, the call writes to physical address 0. -/
theorem ioapic_writes_low_memory :
    AtBoot (oneIoApic 0xfec00000) ∧ CallsAll (oneIoApic 0xfec00000) [(0xfec00000, 0)] ∧
      0 ∈ writesOf (oneIoApic 0xfec00000) (0xfec00000, 0) ∧
      ¬ ProgramsAll (oneIoApic 0xfec00000) [(0xfec00000, 0)] := by
  obtain ⟨hboot, hcalls⟩ := oneIoApic_boot (b := 0xfec00000) (by decide)
  have hmem : 0 ∈ writesOf (oneIoApic 0xfec00000) (0xfec00000, 0) :=
    base_mem_writesOf (oneIoApic 0xfec00000) (0xfec00000, 0)
  refine ⟨hboot, hcalls, hmem, ?_⟩
  intro h
  cases h.alone [] _ [] rfl 0 hmem with
  | inl heq => exact absurd heq (by decide)
  | inr heq => exact absurd heq (by decide)

end Refk
