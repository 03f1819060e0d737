import Refk.Scheduler.Request

/-!
# Forwarding

`SCHED_FORWARD` passes on what is behind its header of 32 bytes. How much that is, it takes from
`in_size`; but the loop has set that back to the size of `in` before the packet is looked at. What a
packet shorter than `in` does not cover is forwarded as well.
-/

namespace Refk

open Lib

/-- `SCHED_FORWARD`, given the bytes to pass on. -/
def forwardData (s : Sched) (l : Locals) (data : List Byte) : Option (Sched × Locals) := do
  let tinfo := s.getInfo (l.arg 0).toNat
  if tinfo = 0 then return (s, l.result (-1))
  else do
    let i ← s.info? tinfo
    let (cc, r) := commWrite (s.channels i.gin) data
    return ({ s with channels := Function.update s.channels i.gin cc }, l.result (resultWord r))

/-- **The packet is what is forwarded**, as much of it as the request says, and nothing else;
    without a whole header nothing is, and the sender is told. -/
structure ForwardsInside (s : Sched) (packet : List Byte) (l : Locals) : Prop where
  exact : 32 ≤ packet.length →
    handleForward s l = forwardData s l ((packet.drop 32).take (l.arg 1).toNat)
  short : packet.length < 32 → ∃ l', handleForward s l = some (s, l') ∧ l'.status.word 16 ≠ 0
  inside : s.getInfo (l.arg 0).toNat ≠ 0 → ∀ j < l.forwardLength.toNat, 32 + j < packet.length

/-- `comm_read` hands over a packet, and its length. -/
structure Delivers (cc : Comm) (packet : List Byte) : Prop where
  ret : (commRead cc inSize).2.ret = 0
  bytes : (commRead cc inSize).2.bytes = packet
  size : ∃ n, (commRead cc inSize).2.dataSize = some n ∧ n.toNat = packet.length

/-- `comm_write` has no room even for an empty packet. -/
def RefusesAll (cc : Comm) : Prop := cc.flags &&& commTypeMask ≠ 0 ∨ commRemaining cc < 4

/-- The packet has all that the request asks for, or fills `in`. Otherwise there is nobody to
    forward to, or nothing to forward and no room for that. -/
def AsksForLess (s : Sched) (packet : List Byte) (l : Locals) : Prop :=
  s.getInfo (l.arg 0).toNat = 0 ∨
    32 ≤ packet.length ∧ (packet.length = 56 ∨ (l.arg 1).toNat ≤ packet.length - 32) ∨
      packet.length < 32 ∧ l.arg 1 = 0 ∧
        ∃ i, s.info? (s.getInfo (l.arg 0).toNat) = some i ∧ RefusesAll (s.channels i.gin)

section
variable {s : Sched} {packet : List Byte} {l : Locals}

theorem handleForward_data (s : Sched) (l : Locals) :
    handleForward s l = forwardData s l (load l.input 32 l.forwardLength.toNat) := rfl

/-- The least of what is asked for and what `in` has room for. -/
theorem toNat_forwardLength (l : Locals) : l.forwardLength.toNat = min (l.arg 1).toNat 24 := by
  have h24 : inSize - 32 = 24 := rfl
  have hlt : l.arg 1 < 24 ↔ (l.arg 1).toNat < 24 := BitVec.lt_def
  simp only [Locals.forwardLength, h24, hlt]
  split
  · omega
  · rename_i hge
    change (24 : Nat) = _
    omega

/-- `comm_read` delivers no more than `in` has room for. -/
theorem commRead_dataSize {cc : Comm} (h : (commRead cc inSize).2.ret = 0) :
    ∃ n, (commRead cc inSize).2.dataSize = some n ∧ n.toNat ≤ 56 := by
  unfold commRead at h ⊢
  by_cases hsimple : cc.flags &&& commTypeMask = 0
  · rw [if_pos hsimple] at h ⊢
    unfold commPeek at h ⊢
    by_cases hcount : cc.packetCount = 0
    · rw [if_pos hcount] at h
      exact absurd h one_ne_zero
    · simp only [if_neg hcount] at h ⊢
      split at h
      · exact absurd h one_ne_zero
      · rename_i hle
        rw [if_neg hle]
        exact ⟨_, rfl, not_lt.mp hle⟩
  · rw [if_neg hsimple] at h
    exact absurd h one_ne_zero

theorem Delivers.length_le {cc : Comm} (h : Delivers cc packet) : packet.length ≤ 56 := by
  obtain ⟨n, hn, hle⟩ := commRead_dataSize h.ret
  obtain ⟨n', hn', hlen⟩ := h.size
  obtain rfl := Option.some.inj (hn.symm.trans hn')
  omega

/-- What was read is at the front of `in`. -/
theorem load_receive (l : Locals) {off n : Nat} (h : off + n ≤ packet.length) :
    load (l.receive packet).input off n = (packet.drop off).take n := by
  apply List.ext_getElem
  · simp
    omega
  · intro j hj hj'
    have hlt : j < n := by simpa using hj
    have hstore : store l.input 0 packet (0 + (off + j)) = packet[off + j] := store_add (by omega)
    rw [getElem_load, List.getElem_take, List.getElem_drop, ← hstore, Nat.zero_add]
    rfl

/-- An empty packet is refused by a channel without room for its header only. -/
theorem commWrite_nil (cc : Comm) :
    RefusesAll cc ∧ commWrite cc [] = (cc, 1) ∨ ¬ RefusesAll cc ∧ (commWrite cc []).2 = 0 := by
  unfold RefusesAll commWrite
  by_cases hsimple : cc.flags &&& commTypeMask = 0
  · rw [if_pos hsimple]
    unfold commPut
    have hsize : BitVec.ofNat 64 ([] : List Byte).length + 4 = 4 := by decide
    simp only [hsize]
    by_cases hroom : commRemaining cc < 4
    · exact .inl ⟨.inr hroom, if_pos hroom⟩
    · rw [if_neg hroom]
      refine .inr ⟨?_, rfl⟩
      intro hor
      rcases hor with hne | hlt
      · exact hne hsimple
      · exact hroom hlt
  · rw [if_neg hsimple]
    exact .inl ⟨.inl hsimple, rfl⟩

/-- Nobody to forward to: the sender is told. -/
theorem forwardData_unknown (h : s.getInfo (l.arg 0).toNat = 0) (data : List Byte) :
    forwardData s l data = some (s, l.result (-1)) := by
  simp only [forwardData, if_pos h]
  rfl

theorem forwardData_known {i : TaskInfo} (h : s.getInfo (l.arg 0).toNat ≠ 0)
    (hi : s.info? (s.getInfo (l.arg 0).toNat) = some i) (data : List Byte) :
    forwardData s l data = some (s.setChannel i.gin (commWrite (s.channels i.gin) data).1,
      l.result (resultWord (commWrite (s.channels i.gin) data).2)) := by
  simp only [forwardData, if_neg h, hi]
  rfl

/-- **Forwarding stays inside of the packet** if and only if the request does not ask for more than
    the packet has. -/
theorem forwards_inside {cc : Comm} (hread : Delivers cc packet) (s : Sched) (l : Locals) :
    ForwardsInside s packet (l.receive packet).start ↔
      AsksForLess s packet (l.receive packet).start := by
  have hlen := hread.length_le
  have hinput : (l.receive packet).start.input = (l.receive packet).input := rfl
  generalize hstart : (l.receive packet).start = m at hinput
  have hlength := toNat_forwardLength m
  constructor
  · intro h
    by_cases hknown : s.getInfo (m.arg 0).toNat = 0
    · exact .inl hknown
    · have hinside := h.inside hknown
      refine .inr ?_
      by_cases hshort : packet.length < 32
      · -- not a byte may be asked for
        have hzero : m.forwardLength.toNat = 0 := by
          by_contra hpos
          have := hinside 0 (Nat.pos_of_ne_zero hpos)
          omega
        have harg : m.arg 1 = 0 := by
          apply BitVec.eq_of_toNat_eq
          change (m.arg 1).toNat = 0
          omega
        obtain ⟨l', hl', hword⟩ := h.short hshort
        rw [handleForward_data, hzero] at hl'
        cases hi : s.info? (s.getInfo (m.arg 0).toNat) with
        | none => simp [forwardData, hknown, hi] at hl'
        | some i =>
          refine .inr ⟨hshort, harg, i, rfl, ?_⟩
          rcases commWrite_nil (s.channels i.gin) with ⟨hrefuses, -⟩ | ⟨-, hret⟩
          · exact hrefuses
          · rw [forwardData_known hknown hi] at hl'
            refine absurd ?_ hword
            rw [← (Prod.mk.inj (Option.some.inj hl')).2]
            exact word_setWord.trans (congrArg (fun r : Nat => resultWord r) hret)
      · refine .inl ⟨by omega, ?_⟩
        by_cases hzero : m.forwardLength.toNat = 0
        · omega
        · have := hinside (m.forwardLength.toNat - 1) (by omega)
          omega
  · intro h
    by_cases hknown : s.getInfo (m.arg 0).toNat = 0
    · refine ⟨fun _ => ?_, fun _ => ?_, fun hne => absurd hknown hne⟩
      · rw [handleForward_data, forwardData_unknown hknown, forwardData_unknown hknown]
      · refine ⟨_, (handleForward_data s m).trans (forwardData_unknown hknown _), ?_⟩
        have hword : (m.result (-1)).status.word 16 = -1 := word_setWord
        rw [hword]
        decide
    · rcases h.resolve_left hknown with ⟨hge, hless⟩ | ⟨hshort, harg, i, hi, hrefuses⟩
      · have hbytes : load m.input 32 m.forwardLength.toNat =
            (packet.drop 32).take (m.arg 1).toNat := by
          rw [hinput, load_receive l (by omega)]
          apply List.ext_getElem
          · simp
            omega
          · intro j hj hj'
            rw [List.getElem_take, List.getElem_take]
        refine ⟨fun _ => ?_, fun hlt => absurd hge (by omega), fun _ j hj => by omega⟩
        rw [handleForward_data, hbytes]
      · have hzero : m.forwardLength.toNat = 0 := by
          rw [hlength, harg]
          rfl
        have hrefused : commWrite (s.channels i.gin) [] = (s.channels i.gin, 1) := by
          rcases commWrite_nil (s.channels i.gin) with ⟨-, hwrite⟩ | ⟨hnot, -⟩
          · exact hwrite
          · exact absurd hrefuses hnot
        refine ⟨fun hge => absurd hge (by omega), fun _ => ?_, fun _ j hj => by omega⟩
        refine ⟨m.result (resultWord 1), ?_, ?_⟩
        · rw [handleForward_data, hzero, forwardData_known hknown hi]
          have hnil : load m.input 32 0 = [] := rfl
          simp only [hnil, hrefused, Sched.setChannel, Function.update_eq_self]
          rfl
        · have hword : (m.result (resultWord 1)).status.word 16 = resultWord 1 := word_setWord
          rw [hword]
          decide

end

/-- An empty channel in a page of its own. -/
def emptyChannel : Comm := ⟨0x1000, 56, 0x1000 - 56, 0, 0, 0, 0, fun _ => 0⟩

/-- A task `7`, with three channels. -/
def forwardClient : Sched :=
  let (s, info) := oneClient.alloc (.info (some ⟨7, 2, 0x1000, 0x1000, 0x2000, 0x3000⟩))
  { s with taskMap := (s.taskMap.insert 7 info).1, channels := fun _ => emptyChannel }

/-- The task forwards `length` bytes to itself, in a packet that has `data`. -/
def forwardPacket (length : Byte) (data : List Byte) : List Byte :=
  [0, 0, 0, 0, 0, 0, 0, 0, 1, 0, 0, 0, 0, 0, 0, 0, 7, 0, 0, 0, 0, 0, 0, 0, length, 0, 0, 0, 0, 0, 0,
    0] ++ data

theorem forwards_inside_of_two :
    ForwardsInside forwardClient (forwardPacket 2 [65, 66])
      ((leftover 0 0).receive (forwardPacket 2 [65, 66])).start := by
  have hread : Delivers (commWrite emptyChannel (forwardPacket 2 [65, 66])).1
      (forwardPacket 2 [65, 66]) := ⟨by decide, by decide, 34, by decide, by decide⟩
  exact (forwards_inside hread forwardClient (leftover 0 0)).mpr
    (.inr (.inl ⟨by decide, .inr (by decide)⟩))

/-- A header alone, and `24` bytes of what an earlier packet has left behind it are forwarded. -/
theorem forwards_leftovers :
    Delivers (commWrite emptyChannel (forwardPacket 24 [])).1 (forwardPacket 24 []) ∧
    handleForward forwardClient ((leftover 9 0).receive (forwardPacket 24 [])).start =
      forwardData forwardClient ((leftover 9 0).receive (forwardPacket 24 [])).start
        (List.replicate 24 9) ∧
    ¬ ForwardsInside forwardClient (forwardPacket 24 [])
      ((leftover 9 0).receive (forwardPacket 24 [])).start := by
  have hbytes : load ((leftover 9 0).receive (forwardPacket 24 [])).start.input 32
      ((leftover 9 0).receive (forwardPacket 24 [])).start.forwardLength.toNat =
      List.replicate 24 9 := by decide
  refine ⟨⟨by decide, by decide, 32, by decide, by decide⟩, ?_, fun h => ?_⟩
  · rw [handleForward_data, hbytes]
  · have hinside := h.inside (by decide) 0 (by decide)
    exact absurd hinside (by decide)

end Refk
