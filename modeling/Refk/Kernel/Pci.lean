import Refk.Lib.Bytes
import Refk.Klib.Kmem

/-!
# `kernel/hw/pci.c` and `osl.c` — reading PCI configuration space

Configuration space is reached through two ports: the address of a doubleword is written to 0xcf8
and the doubleword read from 0xcfc. All widths of `AcpiOsReadPciConfiguration` are made from one
such read by shifting it right. For 16 bits the shift is taken from bit 0 of the offset where the
half is told by bit 1, so the upper half of a doubleword is read as the lower one.
-/

namespace Refk

open Lib

/-! ## The host bridge -/

/-- A device's function, as it is addressed on the bus. -/
structure PciDevice where
  bus : BitVec 8
  device : BitVec 5
  function : BitVec 3
  deriving DecidableEq, Repr

/-- The bridge: its address register, and the configuration space of every device. -/
structure PciHost where
  address : BitVec 32
  config : PciDevice → BitVec 8 → Byte

/-- The little-endian value of the `n` bytes at offset `off` of a device. -/
def PciHost.value (h : PciHost) (d : PciDevice) (off : BitVec 8) (n : Nat) : Nat :=
  ofLe (load (fun i => h.config d (off + BitVec.ofNat 8 i)) 0 n)

/-- `io_out32` -/
def ioOut32 (h : PciHost) (port : BitVec 16) (value : BitVec 32) : PciHost :=
  if port = 0xcf8 then { h with address := value } else h

/-- `io_in32`: the data port shows the doubleword that the address register names, while its
    enable bit is set. -/
def ioIn32 (h : PciHost) (port : BitVec 16) : BitVec 32 :=
  if port = 0xcfc ∧ h.address.getLsbD 31 then
    let d : PciDevice := ⟨h.address.extractLsb' 16 8, h.address.extractLsb' 11 5,
      h.address.extractLsb' 8 3⟩
    BitVec.ofNat 32 (h.value d (h.address.extractLsb' 0 8 &&& 0xfc) 4)
  else 0xffffffff

/-! ## The code -/

/-- `pci_readconfig` -/
def pciReadconfig (h : PciHost) (bus slot fun_ off : BitVec 32) : PciHost × BitVec 32 :=
  let address : BitVec 32 := 1 <<< 31
  let address := address ||| bus <<< 16
  let address := address ||| slot <<< 11
  let address := address ||| fun_ <<< 8
  let address := address ||| (off &&& 0xfc)
  let h := ioOut32 h 0xcf8 address
  (h, ioIn32 h 0xcfc)

/-- `ACPI_PCI_ID`, without the segment, which is not read. -/
structure AcpiPciId where
  bus : BitVec 16
  device : BitVec 16
  function : BitVec 16

/-- `AcpiOsReadPciConfiguration`, with `*Value` and its return value. -/
def acpiOsReadPciConfiguration (h : PciHost) (pciId : AcpiPciId) (reg : BitVec 32) (value : Word)
    (width : BitVec 32) : PciHost × Word × Nat :=
  let read := pciReadconfig h (pciId.bus.setWidth 32) (pciId.device.setWidth 32)
    (pciId.function.setWidth 32) reg
  if width = 8 then
    (read.1, ((read.2 >>> (8 * (reg &&& 3))) &&& 0xff).setWidth 64, 0)
  else if width = 16 then
    (read.1, ((read.2 >>> (16 * (reg &&& 1))) &&& 0xffff).setWidth 64, 0)
  else if width = 32 then
    (read.1, read.2.setWidth 64, 0)
  else (h, value, 0)

/-! ## What is read -/

section
variable {h : PciHost} {d : PciDevice} {off : BitVec 8}

/-- The id that names a device. -/
def PciDevice.id (d : PciDevice) : AcpiPciId :=
  ⟨d.bus.setWidth 16, d.device.setWidth 16, d.function.setWidth 16⟩

/-- What a read of `width` bits at `off` stores. -/
def pciRead (h : PciHost) (d : PciDevice) (off : BitVec 8) (width : BitVec 32) : Nat :=
  (acpiOsReadPciConfiguration h d.id (off.setWidth 32) 0 width).2.1.toNat

theorem or_eq_add {a b k : Nat} (ha : a % 2 ^ k = 0) (hb : b < 2 ^ k) : a ||| b = a + b := by
  rw [← Nat.div_add_mod a (2 ^ k), ha, Nat.add_zero]
  exact (Nat.two_pow_add_eq_or_of_lt hb _).symm

theorem toNat_and_fc : ∀ off : BitVec 8, (off &&& 0xfc).toNat = off.toNat / 4 * 4 := by decide

/-- What `pci_readconfig` writes to the address port. -/
def configAddress (bus slot fun_ off : BitVec 32) : BitVec 32 :=
  1 <<< 31 ||| bus <<< 16 ||| slot <<< 11 ||| fun_ <<< 8 ||| (off &&& 0xfc)

/-- The fields of the address lie beside each other. -/
theorem toNat_configAddress (d : PciDevice) (off : BitVec 8) :
    (configAddress (d.id.bus.setWidth 32) (d.id.device.setWidth 32) (d.id.function.setWidth 32)
      (off.setWidth 32)).toNat = 2 ^ 31 + d.bus.toNat * 2 ^ 16 + d.device.toNat * 2 ^ 11 +
        d.function.toNat * 2 ^ 8 + off.toNat / 4 * 4 := by
  have hb := d.bus.isLt
  have hd := d.device.isLt
  have hf := d.function.isLt
  have ho := off.isLt
  have hoff : (off.setWidth 32 &&& 0xfc : BitVec 32).toNat = off.toNat / 4 * 4 := by
    have hand : (off.setWidth 32 &&& 0xfc : BitVec 32) = (off &&& 0xfc).setWidth 32 := by
      simp [BitVec.setWidth_and]
    rw [hand, BitVec.toNat_setWidth, toNat_and_fc]
    omega
  have hbus : (d.id.bus.setWidth 32 <<< 16 : BitVec 32).toNat = d.bus.toNat * 2 ^ 16 := by
    simp only [PciDevice.id, BitVec.toNat_shiftLeft, BitVec.toNat_setWidth, Nat.shiftLeft_eq]
    omega
  have hdev : (d.id.device.setWidth 32 <<< 11 : BitVec 32).toNat = d.device.toNat * 2 ^ 11 := by
    simp only [PciDevice.id, BitVec.toNat_shiftLeft, BitVec.toNat_setWidth, Nat.shiftLeft_eq]
    omega
  have hfun : (d.id.function.setWidth 32 <<< 8 : BitVec 32).toNat = d.function.toNat * 2 ^ 8 := by
    simp only [PciDevice.id, BitVec.toNat_shiftLeft, BitVec.toNat_setWidth, Nat.shiftLeft_eq]
    omega
  have hbit : (1 <<< 31 : BitVec 32).toNat = 2 ^ 31 := by decide
  rw [configAddress, BitVec.toNat_or, BitVec.toNat_or, BitVec.toNat_or, BitVec.toNat_or, hoff,
    hbus, hdev, hfun, hbit]
  -- each field is below the lowest bit of what is there already
  rw [or_eq_add (a := 2 ^ 31) (k := 24) (by omega) (by omega),
    or_eq_add (b := d.device.toNat * 2 ^ 11) (k := 16) (by omega) (by omega),
    or_eq_add (b := d.function.toNat * 2 ^ 8) (k := 11) (by omega) (by omega),
    or_eq_add (k := 8) (by omega) (by omega)]

/-- **The bridge takes the address apart as it was put together.** -/
theorem pciReadconfig_eq (h : PciHost) (d : PciDevice) (off : BitVec 8) :
    (pciReadconfig h (d.id.bus.setWidth 32) (d.id.device.setWidth 32) (d.id.function.setWidth 32)
      (off.setWidth 32)).2 = BitVec.ofNat 32 (h.value d (off &&& 0xfc) 4) := by
  have haddr := toNat_configAddress d off
  have hb := d.bus.isLt
  have hd := d.device.isLt
  have hf := d.function.isLt
  have ho := off.isLt
  set address := configAddress (d.id.bus.setWidth 32) (d.id.device.setWidth 32)
    (d.id.function.setWidth 32) (off.setWidth 32) with hset
  have henable : address.getLsbD 31 = true := by
    rw [BitVec.getLsbD, Nat.testBit_eq_decide_div_mod_eq, haddr]
    simp only [decide_eq_true_eq]
    omega
  have hbus : address.extractLsb' 16 8 = d.bus := by
    rw [← BitVec.toNat_inj, BitVec.extractLsb'_toNat, haddr, Nat.shiftRight_eq_div_pow]
    omega
  have hdev : address.extractLsb' 11 5 = d.device := by
    rw [← BitVec.toNat_inj, BitVec.extractLsb'_toNat, haddr, Nat.shiftRight_eq_div_pow]
    omega
  have hfun : address.extractLsb' 8 3 = d.function := by
    rw [← BitVec.toNat_inj, BitVec.extractLsb'_toNat, haddr, Nat.shiftRight_eq_div_pow]
    omega
  have hreg : address.extractLsb' 0 8 &&& 0xfc = off &&& 0xfc := by
    rw [← BitVec.toNat_inj, toNat_and_fc, toNat_and_fc, BitVec.extractLsb'_toNat, haddr,
      Nat.shiftRight_eq_div_pow]
    omega
  have hread : (pciReadconfig h (d.id.bus.setWidth 32) (d.id.device.setWidth 32)
      (d.id.function.setWidth 32) (off.setWidth 32)).2 =
        ioIn32 (ioOut32 h 0xcf8 address) 0xcfc := rfl
  rw [hread, ioOut32, if_pos rfl, ioIn32, if_pos ⟨rfl, henable⟩]
  simp only [hbus, hdev, hfun, hreg]
  rfl

end

/-- The bytes at an offset are those of its doubleword, from the offset's place in it. -/
theorem value_eq (h : PciHost) (d : PciDevice) (off : BitVec 8) {n : Nat}
    (hn : off.toNat % 4 + n ≤ 4) : h.value d off n =
      h.value d (off &&& 0xfc) 4 / 256 ^ (off.toNat % 4) % 256 ^ n := by
  have hplace (i : Nat) : off + BitVec.ofNat 8 i =
      (off &&& 0xfc) + BitVec.ofNat 8 (off.toNat % 4 + i) := by
    rw [← BitVec.toNat_inj, BitVec.toNat_add, BitVec.toNat_add, toNat_and_fc, BitVec.toNat_ofNat,
      BitVec.toNat_ofNat]
    omega
  have hload : load (fun i => h.config d (off + BitVec.ofNat 8 i)) 0 n =
      load (fun i => h.config d ((off &&& 0xfc) + BitVec.ofNat 8 i)) (0 + off.toNat % 4) n := by
    unfold load
    apply List.map_congr_left
    intro i _
    simp only [hplace, Nat.zero_add]
  rw [PciHost.value, hload, ofLe_load_part _ hn, PciHost.value]

theorem value_add (h : PciHost) (d : PciDevice) (off : BitVec 8) (n k : Nat) :
    h.value d off (n + k) = h.value d off n + 256 ^ n * h.value d (off + BitVec.ofNat 8 n) k := by
  have hload : load (fun i => h.config d (off + BitVec.ofNat 8 i)) (0 + n) k =
      load (fun i => h.config d (off + BitVec.ofNat 8 n + BitVec.ofNat 8 i)) 0 k := by
    unfold load
    apply List.map_congr_left
    intro i _
    simp only [Nat.zero_add, BitVec.ofNat_add, BitVec.add_assoc]
  rw [PciHost.value, load_add, ofLe_append, length_load, hload, PciHost.value, PciHost.value]

theorem value_lt (h : PciHost) (d : PciDevice) (off : BitVec 8) : h.value d off 4 < 2 ^ 32 := by
  have hlt := ofLe_lt (load (fun i => h.config d (off + BitVec.ofNat 8 i)) 0 4)
  rw [length_load] at hlt
  exact hlt

section
variable (h : PciHost) (d : PciDevice) (off : BitVec 8)

theorem toNat_dword : (BitVec.ofNat 32 (h.value d (off &&& 0xfc) 4)).toNat =
    h.value d (off &&& 0xfc) 4 := by
  rw [BitVec.toNat_ofNat, Nat.mod_eq_of_lt (value_lt h d _)]

theorem toNat_and_ones {x m : BitVec 32} (k : Nat) (hm : m.toNat = 2 ^ k - 1) :
    (x &&& m).toNat = x.toNat % 2 ^ k := by
  rw [BitVec.toNat_and, hm]
  exact Nat.and_two_pow_sub_one_eq_mod _ k

theorem pciRead_8 : pciRead h d off 8 =
    h.value d (off &&& 0xfc) 4 / 2 ^ (8 * (off.toNat % 4)) % 2 ^ 8 := by
  have ho := off.isLt
  have hshift : (8 * (off.setWidth 32 &&& 3) : BitVec 32).toNat = 8 * (off.toNat % 4) := by
    rw [BitVec.toNat_mul, toNat_and_ones 2 rfl, BitVec.toNat_setWidth]
    simp
    omega
  rw [pciRead, acpiOsReadPciConfiguration, if_pos rfl]
  simp only [pciReadconfig_eq, BitVec.toNat_setWidth, toNat_and_ones (m := 0xff) 8 rfl,
    BitVec.ushiftRight_eq', BitVec.toNat_ushiftRight, hshift, Nat.shiftRight_eq_div_pow,
    toNat_dword]
  omega

/-- The shift is by bit 0 of the offset. -/
theorem pciRead_16 : pciRead h d off 16 =
    h.value d (off &&& 0xfc) 4 / 2 ^ (16 * (off.toNat % 2)) % 2 ^ 16 := by
  have ho := off.isLt
  have hshift : (16 * (off.setWidth 32 &&& 1) : BitVec 32).toNat = 16 * (off.toNat % 2) := by
    rw [BitVec.toNat_mul, toNat_and_ones 1 rfl, BitVec.toNat_setWidth]
    simp
    omega
  have hne : (16 : BitVec 32) ≠ 8 := by decide
  rw [pciRead, acpiOsReadPciConfiguration, if_neg hne, if_pos rfl]
  simp only [pciReadconfig_eq, BitVec.toNat_setWidth, toNat_and_ones (m := 0xffff) 16 rfl,
    BitVec.ushiftRight_eq', BitVec.toNat_ushiftRight, hshift, Nat.shiftRight_eq_div_pow,
    toNat_dword]
  omega

theorem pciRead_32 : pciRead h d off 32 = h.value d (off &&& 0xfc) 4 := by
  have hlt := value_lt h d (off &&& 0xfc)
  have hne₈ : (32 : BitVec 32) ≠ 8 := by decide
  have hne₁₆ : (32 : BitVec 32) ≠ 16 := by decide
  rw [pciRead, acpiOsReadPciConfiguration, if_neg hne₈, if_neg hne₁₆, if_pos rfl]
  simp only [pciReadconfig_eq, BitVec.toNat_setWidth, toNat_dword]
  omega

end

/-- **The widths agree** at an offset, where it is aligned for them: each read gives the bytes that
    are there, and a wider read what two narrower ones do. -/
structure ReadsAgree (h : PciHost) (d : PciDevice) (off : BitVec 8) : Prop where
  byte : pciRead h d off 8 = h.value d off 1
  half : off.toNat % 2 = 0 → pciRead h d off 16 = h.value d off 2
  word : off.toNat % 4 = 0 → pciRead h d off 32 = h.value d off 4
  bytes : off.toNat % 2 = 0 →
    pciRead h d off 16 = pciRead h d off 8 + 2 ^ 8 * pciRead h d (off + 1) 8
  halves : off.toNat % 4 = 0 →
    pciRead h d off 32 = pciRead h d off 16 + 2 ^ 16 * pciRead h d (off + 2) 16

/-- The two halves of the doubleword at an offset are the same. -/
def SameHalves (h : PciHost) (d : PciDevice) (off : BitVec 8) : Prop :=
  h.value d (off &&& 0xfc) 2 = h.value d ((off &&& 0xfc) + 2) 2

instance (h : PciHost) (d : PciDevice) (off : BitVec 8) : Decidable (SameHalves h d off) :=
  inferInstanceAs (Decidable (_ = _))

section
variable {h : PciHost} {d : PciDevice} {off : BitVec 8}

theorem pciRead_byte (h : PciHost) (d : PciDevice) (off : BitVec 8) :
    pciRead h d off 8 = h.value d off 1 := by
  rw [pciRead_8, value_eq h d off (n := 1) (by omega), Nat.pow_mul]
  rfl

/-- A read of 16 bits is right at the lower half of a doubleword. -/
theorem pciRead_half (ho : off.toNat % 4 = 0) : pciRead h d off 16 = h.value d off 2 := by
  have heven : off.toNat % 2 = 0 := by omega
  rw [pciRead_16, value_eq h d off (n := 2) (by omega), ho, heven]
  rfl

theorem pciRead_word (ho : off.toNat % 4 = 0) : pciRead h d off 32 = h.value d off 4 := by
  have hlt := value_lt h d (off &&& 0xfc)
  rw [pciRead_32, value_eq h d off (n := 4) (by omega), ho, Nat.pow_zero, Nat.div_one]
  exact (Nat.mod_eq_of_lt hlt).symm

/-- At the upper half it gives the lower one. -/
theorem pciRead_upper (ho : off.toNat % 4 = 2) :
    pciRead h d off 16 = h.value d off 2 ↔ SameHalves h d off := by
  have heven : off.toNat % 2 = 0 := by omega
  have hbase : (off &&& 0xfc).toNat = off.toNat - 2 := by
    rw [toNat_and_fc]
    omega
  have hself : (off &&& 0xfc) &&& 0xfc = off &&& 0xfc := by
    rw [← BitVec.toNat_inj, toNat_and_fc, hbase]
    omega
  have hlow : h.value d (off &&& 0xfc) 2 = h.value d (off &&& 0xfc) 4 % 2 ^ 16 := by
    have hzero : (off &&& 0xfc).toNat % 4 = 0 := by omega
    rw [value_eq h d (off &&& 0xfc) (n := 2) (by omega), hself, hzero, Nat.pow_zero, Nat.div_one]
    rfl
  have hhigh : (off &&& 0xfc) + 2 = off := by
    rw [← BitVec.toNat_inj, BitVec.toNat_add, hbase]
    simp
    omega
  rw [pciRead_16, heven, Nat.mul_zero, Nat.pow_zero, Nat.div_one, ← hlow, SameHalves, hhigh]

end

/-- **PCI reads of different widths agree** exactly if the offset is odd, so that it is aligned for
    bytes alone, or both halves of its doubleword are the same; the reads of 8 and of 32 bits, and
    those of 16 bits at the lower half, give what is there in any case. -/
theorem pci_reads_agree (h : PciHost) (d : PciDevice) (off : BitVec 8) :
    (ReadsAgree h d off ↔ (off.toNat % 2 = 0 → SameHalves h d off)) ∧
      pciRead h d off 8 = h.value d off 1 ∧
      (off.toNat % 4 = 0 →
        pciRead h d off 16 = h.value d off 2 ∧ pciRead h d off 32 = h.value d off 4) := by
  have hbytes : h.value d off 2 = h.value d off 1 + 2 ^ 8 * h.value d (off + 1) 1 :=
    value_add h d off 1 1
  have hhalves : h.value d off 4 = h.value d off 2 + 2 ^ 16 * h.value d (off + 2) 2 :=
    value_add h d off 2 2
  have hnext (h₀ : off.toNat % 4 = 0) : (off + 2).toNat % 4 = 2 ∧
      (SameHalves h d (off + 2) ↔ SameHalves h d off) := by
    have hplus : (off + 2).toNat = off.toNat + 2 := by
      rw [BitVec.toNat_add]
      simp
      omega
    have hbase : (off + 2) &&& 0xfc = off &&& 0xfc := by
      rw [← BitVec.toNat_inj, toNat_and_fc, toNat_and_fc, hplus]
      omega
    refine ⟨by omega, ?_⟩
    rw [SameHalves, SameHalves, hbase]
  refine ⟨?_, pciRead_byte h d off, fun h₀ => ⟨pciRead_half h₀, pciRead_word h₀⟩⟩
  constructor
  · intro hagree heven
    by_cases h₀ : off.toNat % 4 = 0
    · obtain ⟨h₂, hsame⟩ := hnext h₀
      have hread := hagree.halves h₀
      rw [pciRead_word h₀, pciRead_half h₀, hhalves] at hread
      exact hsame.mp ((pciRead_upper h₂).mp (by omega))
    · exact (pciRead_upper (by omega)).mp (hagree.half heven)
  · intro hsame
    have hhalf (heven : off.toNat % 2 = 0) : pciRead h d off 16 = h.value d off 2 := by
      by_cases h₀ : off.toNat % 4 = 0
      · exact pciRead_half h₀
      · exact (pciRead_upper (by omega)).mpr (hsame heven)
    refine ⟨pciRead_byte h d off, hhalf, pciRead_word, ?_, ?_⟩
    · intro heven
      rw [hhalf heven, pciRead_byte, pciRead_byte, hbytes]
    · intro h₀
      obtain ⟨h₂, hiff⟩ := hnext h₀
      rw [pciRead_word h₀, pciRead_half h₀, (pciRead_upper h₂).mpr (hiff.mpr (hsame (by omega))),
        hhalves]

/-- A device whose first doubleword is `0x00010000`: a 16-bit read of its upper half. -/
theorem pciRead_upper_wrong :
    let h : PciHost := ⟨0, fun _ off => if off = 2 then 1 else 0⟩
    let d : PciDevice := ⟨0, 3, 0⟩
    pciRead h d 2 16 = 0 ∧ h.value d 2 2 = 1 ∧ pciRead h d 2 8 = 1 ∧ ¬ ReadsAgree h d 2 := by
  intro h d
  have hread : pciRead h d 2 16 = 0 := by decide
  have hvalue : h.value d 2 2 = 1 := by decide
  refine ⟨hread, hvalue, by decide, ?_⟩
  intro hagree
  have hhalf := hagree.half (by decide)
  rw [hread, hvalue] at hhalf
  exact absurd hhalf (by decide)

end Refk
