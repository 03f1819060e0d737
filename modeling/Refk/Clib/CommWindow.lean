import Refk.Clib.CommFifo
import Refk.Clib.Mem

/-!
# The window of a ring that a copy goes through

`comm_put_data` and `comm_get_data` each split their copy at the end of the ring. Whatever is in the
ring, the one writes and the other reads the cells from its cursor on, in a circle, and both leave
their cursor behind the last of them.
-/

namespace Refk

open Lib

section
variable {cc : Comm} {data : List Byte} {dataSize : Word} {base buf : Word} {m : Copying} {i : Nat}

/-- The copy to the ring is `mem_copy`'s, in memory that has the ring at `base` and the data in a
    buffer apart from it. -/
theorem copyIn_memCopy {bytes : Word → Byte} {at_ n : Word} (hring : NoWrap base cc.dataLength)
    (hfit : at_.toNat + n.toNat ≤ cc.dataLength.toNat) (hdata : n.toNat ≤ data.length)
    (hbuf : NoWrap buf n)
    (hat : ∀ i < cc.dataLength.toNat, bytes (base + BitVec.ofNat 64 i) = cc.data i)
    (hsrc : ∀ i (h : i < n.toNat), bytes (buf + BitVec.ofNat 64 i) = data[i])
    (hi : i < cc.dataLength.toNat) :
    (memCopy ⟨bytes, []⟩ (base + at_) buf n).1.bytes (base + BitVec.ofNat 64 i) =
      (cc.copyIn at_ data n).data i := by
  have hplace (k : Nat) :
      base + at_ + BitVec.ofNat 64 k = base + BitVec.ofNat 64 (at_.toNat + k) := by bv_omega
  have hto : NoWrap (base + at_) n := by
    unfold NoWrap at *
    bv_omega
  have h := moving_memMove bytes hto hbuf
  by_cases hin : at_.toNat ≤ i ∧ i < at_.toNat + n.toNat
  · obtain ⟨k, rfl⟩ := Nat.exists_eq_add_of_le hin.1
    have hk : k < n.toNat := by omega
    have hcopied := h.copied k (Nat.zero_le k) hk
    have htake : k < (data.take n.toNat).length := by
      rw [List.length_take]
      omega
    have hcell : (cc.copyIn at_ data n).data (at_.toNat + k) = data[k] :=
      (store_add htake).trans List.getElem_take
    rw [← hplace, memCopy, hcopied, hsrc k hk, hcell]
  · have hcell : (cc.copyIn at_ data n).data i = cc.data i := by
      by_cases hlt : i < at_.toNat
      · exact store_of_lt hlt
      · apply store_of_le
        rw [List.length_take]
        omega
    rw [hcell, ← hat i hi, memCopy]
    apply h.others
    intro k _ hk heq
    rw [hplace] at heq
    unfold NoWrap at hring
    have hnat := congrArg BitVec.toNat heq
    bv_omega

/-- What `comm_put_data` does, with the ring as a circle. -/
theorem commPutData_window (hn : dataSize.toNat = data.length)
    (hD : cc.dataLength.toNat < 2 ^ 63) (he : cc.ringEnd.toNat < cc.dataLength.toNat)
    (hfit : dataSize.toNat ≤ cc.dataLength.toNat) :
    let put := commPutData cc data dataSize
    (∀ i (h : i < data.length),
        put.data ((cc.ringEnd.toNat + i) % cc.dataLength.toNat) = data[i]) ∧
      (∀ j, (∀ i < data.length, j ≠ (cc.ringEnd.toNat + i) % cc.dataLength.toNat) →
        put.data j = cc.data j) ∧
      put = { cc with data := put.data, ringEnd := put.ringEnd } ∧
      put.ringEnd.toNat = (cc.ringEnd.toNat + dataSize.toNat) % cc.dataLength.toNat := by
  obtain ⟨e, hput, hend⟩ := commPutData_eq hn he (by omega)
  rw [Ring.put_snd he, Ring.index_eq_mod he (by omega), ← hn] at hend
  rw [hput]
  refine ⟨?_, ?_, rfl, hend⟩
  · intro i hi
    rw [← Ring.index_eq_mod he (by omega)]
    exact Ring.put_holds he (by omega) i hi
  · intro j hj
    by_cases hin : j < cc.dataLength.toNat
    · obtain ⟨i, hi, rfl⟩ := Ring.exists_index he hin
      by_cases hlt : i < data.length
      · exact absurd (Ring.index_eq_mod he hi.le) (hj i hlt)
      · exact Ring.put_frame he (by omega) hi
    · exact Ring.put_of_le he (by omega) (by omega)

/-- What `comm_get_data` does: it reads what the window holds. -/
theorem commGetData_window (cc : Comm) (hn : dataSize.toNat = data.length)
    (hD : cc.dataLength.toNat < 2 ^ 63) (hb : cc.ringBegin.toNat < cc.dataLength.toNat)
    (hfit : dataSize.toNat ≤ cc.dataLength.toNat)
    (hholds : ∀ i (h : i < data.length),
      cc.data ((cc.ringBegin.toNat + i) % cc.dataLength.toNat) = data[i]) :
    ∃ b : Word, commGetData cc dataSize = ({ cc with ringBegin := b }, data) ∧
      b.toNat = (cc.ringBegin.toNat + dataSize.toNat) % cc.dataLength.toNat := by
  obtain ⟨b, hget, hbegin⟩ := commGetData_eq (n := dataSize) hb (by omega)
  rw [Ring.get_snd hb, Ring.index_eq_mod hb hfit] at hbegin
  have hring : Ring.Holds cc.dataLength.toNat cc.data cc.ringBegin.toNat data := by
    intro i hi
    rw [Ring.index_eq_mod hb (by omega)]
    exact hholds i hi
  rw [hn, Ring.get_fst hb hring] at hget
  exact ⟨b, hget, hbegin⟩

end

/-- **Writing and reading agree** at every offset, wherever the data ends: the write fills its
    window and nothing else, a read from the same offset gets the same bytes, and the two cursors
    stop at the same place in the ring. -/
theorem put_get_window (cc : Comm) (data : List Byte) (dataSize : Word)
    (hn : dataSize.toNat = data.length) (hD : cc.dataLength.toNat < 2 ^ 63)
    (he : cc.ringEnd.toNat < cc.dataLength.toNat)
    (hfit : dataSize.toNat ≤ cc.dataLength.toNat) :
    let put := commPutData cc data dataSize
    let get := commGetData { put with ringBegin := cc.ringEnd } dataSize
    (∀ i (h : i < data.length),
        put.data ((cc.ringEnd.toNat + i) % cc.dataLength.toNat) = data[i]) ∧
      (∀ j, (∀ i < data.length, j ≠ (cc.ringEnd.toNat + i) % cc.dataLength.toNat) →
        put.data j = cc.data j) ∧
      put = { cc with data := put.data, ringEnd := put.ringEnd } ∧
      get = ({ put with ringBegin := put.ringEnd }, data) ∧
      put.ringEnd.toNat = (cc.ringEnd.toNat + dataSize.toNat) % cc.dataLength.toNat ∧
      put.ringEnd.toNat < cc.dataLength.toNat := by
  obtain ⟨hbytes, hothers, hsame, hend⟩ := commPutData_window hn hD he hfit
  have hlength : (commPutData cc data dataSize).dataLength = cc.dataLength := by
    rw [hsame]
  have hlt : (commPutData cc data dataSize).ringEnd.toNat < cc.dataLength.toNat := by
    rw [hend]
    exact Nat.mod_lt _ (by omega)
  obtain ⟨b, hget, hbegin⟩ := commGetData_window
    { commPutData cc data dataSize with ringBegin := cc.ringEnd } hn
    (by simpa only [hlength] using hD) (by simpa only [hlength] using he)
    (by simpa only [hlength] using hfit) (by simpa only [hlength] using hbytes)
  have hb : b = (commPutData cc data dataSize).ringEnd := by
    rw [← BitVec.toNat_inj, hbegin, hend, hlength]
  refine ⟨hbytes, hothers, hsame, ?_, hend, hlt⟩
  rw [hget, hb]

/-- A ring of eight bytes and a write of three that ends exactly at its end. -/
theorem put_get_window_of_end :
    let cc : Comm := ⟨64, 56, 8, 0, 5, 5, 0, fun _ => 0⟩
    (commGetData { commPutData cc [1, 2, 3] 3 with ringBegin := 5 } 3).2 = [1, 2, 3] ∧
      (commPutData cc [1, 2, 3] 3).ringEnd.toNat = 0 := by
  intro cc
  have h := put_get_window cc [1, 2, 3] 3 (by decide) (by decide) (by decide) (by decide)
  exact ⟨congrArg Prod.snd h.2.2.2.1, h.2.2.2.2.1.trans (by decide)⟩

end Refk
