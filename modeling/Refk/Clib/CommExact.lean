import Refk.Clib.CommFifo

/-!
# What one call does to a channel

Two statements about a ring that stores its waiting packets, one for each end.

A `comm_peek` into a buffer that is too short is meant to drop the packet at the head.
`comm_skip_data` moves the cursor by itself: where it wraps it goes to the start of the ring
and then over the whole length, instead of over what is left of it. `EndsBeforeWrap` is where
it goes where a read would have gone.

A `comm_put` is meant to admit what fits. Three things make it answer otherwise: a ring that is
exactly full looks empty, the required size is formed by a sum that can wrap, and the length
field has only half the width of the length.
-/

namespace Refk

open Lib

variable {cc : Comm} {pending : List (List Byte)} {packet : List Byte} {dataSize : Word}

/-! ## A read that is too short -/

/-- The bytes of the packet at the head end before the end of the ring. -/
def EndsBeforeWrap (cc : Comm) (packet : List Byte) : Prop :=
  Ring.index cc.dataLength.toNat cc.ringBegin.toNat 4 + packet.length < cc.dataLength.toNat

instance (cc : Comm) (packet : List Byte) : Decidable (EndsBeforeWrap cc packet) :=
  inferInstanceAs (Decidable (_ < _))

/-- A read of `dataSize` bytes drops the packet at the head: it says how long the packet is,
    leaves the buffer alone, and leaves the channel with the other packets, exactly as a read
    with a long enough buffer would have. -/
structure DropsHead (cc : Comm) (packet : List Byte) (pending : List (List Byte))
    (dataSize : Word) : Prop where
  answer : (commPeek cc dataSize).2 = ⟨1, some (BitVec.ofNat 64 packet.length), []⟩
  stores : Stores (commPeek cc dataSize).1 pending
  asRead : ∀ large : Word, packet.length ≤ large.toNat →
    (commPeek cc dataSize).1 = (commPeek cc large).1

/-- The length of the packet at the head as the code computes with it. -/
theorem Stores.toNat_length (h : Stores cc (packet :: pending)) :
    (BitVec.ofNat 64 packet.length).toNat = packet.length := by
  have hroom := (h.room packet (by simp)).2
  rw [BitVec.toNat_ofNat, Nat.mod_eq_of_lt (by omega)]

/-- A read that is too short skips the packet. -/
theorem commPeek_short (h : Stores cc (packet :: pending))
    (hsize : dataSize.toNat < packet.length) :
    commPeek cc dataSize = (commSkipData (commPeekLength cc).1 (BitVec.ofNat 64 packet.length),
      ⟨1, some (BitVec.ofNat 64 packet.length), []⟩) := by
  obtain ⟨hne, hbytes, -, -⟩ := h.readLength
  have hlt : dataSize < BitVec.ofNat 64 packet.length := by
    rw [BitVec.lt_def, h.toNat_length]
    exact hsize
  unfold commPeekLength at hbytes
  unfold commPeek commPeekLength
  simp only [if_neg hne, hbytes, ofLe_toLe_of_lt (k := 4) (h.room packet (by simp)).1, if_pos hlt]

/-- A read that is long enough reads it. -/
theorem commPeek_long (h : Stores cc (packet :: pending))
    (hsize : packet.length ≤ dataSize.toNat) : (commPeek cc dataSize).1 =
      (commGetData (commPeekLength cc).1 (BitVec.ofNat 64 packet.length)).1 := by
  obtain ⟨hne, hbytes, -, -⟩ := h.readLength
  have hge : ¬ dataSize < BitVec.ofNat 64 packet.length := by
    rw [BitVec.lt_def, h.toNat_length]
    omega
  unfold commPeekLength at hbytes
  unfold commPeek commPeekLength
  simp only [if_neg hne, hbytes, ofLe_toLe_of_lt (k := 4) (h.room packet (by simp)).1, if_neg hge]

/-- Where the bytes of the packet at the head begin. -/
theorem Stores.ringBegin_readLength (h : Stores cc (packet :: pending)) :
    (commPeekLength cc).1.ringBegin.toNat =
      Ring.index cc.dataLength.toNat cc.ringBegin.toNat 4 := by
  have hb := h.holding.begin_lt
  have hroom := (h.room packet (by simp)).2
  obtain ⟨b, hget, hb'⟩ := @commGetData_eq { cc with packetCount := cc.packetCount - 1 } 4 hb (by
      rw [show (4 : Word).toNat = 4 from rfl]
      simp only []
      omega)
  rw [Ring.get_snd hb] at hb'
  rw [commPeekLength, hget]
  exact hb'

/-- Before the wrap, skipping is reading without the bytes. -/
theorem commSkipData_of_lt {n : Word} (h : cc.ringBegin + n < cc.dataLength) :
    commSkipData cc n = (commGetData cc n).1 := by
  have hge : ¬ cc.ringBegin + n ≥ cc.dataLength := BitVec.not_le.mpr h
  simp only [commSkipData, commGetData, if_neg hge]

/-- At the wrap it goes too far: the cursor is the whole length. -/
theorem commSkipData_of_ge {n : Word} (h : cc.ringBegin + n ≥ cc.dataLength) :
    (commSkipData cc n).ringBegin = n := by
  rw [commSkipData, if_pos h]
  exact BitVec.zero_add n

/-- The sum that decides about the wrap does not overflow. -/
theorem Stores.skip_sum (h : Stores cc (packet :: pending)) :
    ((commPeekLength cc).1.ringBegin + BitVec.ofNat 64 packet.length).toNat =
      Ring.index cc.dataLength.toNat cc.ringBegin.toNat 4 + packet.length := by
  have hroom := (h.room packet (by simp)).2
  obtain ⟨-, -, h₁, hsame⟩ := h.readLength
  have hb₁ := h₁.begin_lt
  rw [hsame.dataLength] at hb₁
  rw [BitVec.toNat_add, h.toNat_length, Nat.mod_eq_of_lt (by simp only [] at hb₁; omega),
    h.ringBegin_readLength]

/-- A skip that wraps leaves the cursor where a read does not. -/
theorem Stores.skip_ne_read (h : Stores cc (packet :: pending)) (hwrap : ¬ EndsBeforeWrap cc packet) :
    (commSkipData (commPeekLength cc).1 (BitVec.ofNat 64 packet.length)).ringBegin ≠
      (commGetData (commPeekLength cc).1 (BitVec.ofNat 64 packet.length)).1.ringBegin := by
  obtain ⟨-, -, h₁, hsame⟩ := h.readLength
  have hdl : (commPeekLength cc).1.dataLength.toNat = cc.dataLength.toNat :=
    congrArg BitVec.toNat hsame.dataLength
  have hlen := h.toNat_length
  have hroom := (h.room packet (by simp)).2
  have hb₁ := h₁.begin_lt
  have hfits := h₁.fits
  rw [List.length_append] at hfits
  have hge : (commPeekLength cc).1.ringBegin + BitVec.ofNat 64 packet.length ≥
      (commPeekLength cc).1.dataLength := by
    rw [ge_iff_le, BitVec.le_def, h.skip_sum, hdl]
    exact Nat.not_lt.mp hwrap
  obtain ⟨b, hget, hb⟩ := @commGetData_eq (commPeekLength cc).1
    (BitVec.ofNat 64 packet.length) hb₁ (by rw [hlen]; omega)
  rw [commSkipData_of_ge hge, hget]
  intro heq
  rw [EndsBeforeWrap, ← h.ringBegin_readLength, ← hdl] at hwrap
  -- the read stops at what is left of the packet behind the wrap
  rw [Ring.get_snd hb₁, hlen, ← show _ = b from heq, hlen, Ring.index, if_neg hwrap] at hb
  omega

/-- A packet that ends before the wrap is dropped as it should be. -/
theorem dropsHead_of_endsBeforeWrap (h : Stores cc (packet :: pending))
    (hsize : dataSize.toNat < packet.length) (hends : EndsBeforeWrap cc packet) :
    DropsHead cc packet pending dataSize := by
  obtain ⟨-, -, -, hsame⟩ := h.readLength
  have hlt : (commPeekLength cc).1.ringBegin + BitVec.ofNat 64 packet.length <
      (commPeekLength cc).1.dataLength := by
    rw [BitVec.lt_def, h.skip_sum, hsame.dataLength]
    exact hends
  have hskip := commPeek_short h hsize
  rw [commSkipData_of_lt hlt] at hskip
  have hread := (commPeek_head h h.toNat_length.ge).2.1
  rw [commPeek_long h h.toNat_length.ge] at hread
  refine ⟨congrArg Prod.snd hskip, ?_, fun large hlarge => ?_⟩
  · rw [hskip]
    exact hread
  · rw [hskip, commPeek_long h hlarge]

/-- **A read that is too short drops exactly the packet at the head** if and only if that packet
    ends before the end of the ring. -/
theorem short_read_drops_head (h : Stores cc (packet :: pending))
    (hsize : dataSize.toNat < packet.length) :
    DropsHead cc packet pending dataSize ↔ EndsBeforeWrap cc packet := by
  refine ⟨fun hdrops => ?_, dropsHead_of_endsBeforeWrap h hsize⟩
  by_contra hwrap
  have hcursor := congrArg Comm.ringBegin (hdrops.asRead _ h.toNat_length.ge)
  rw [commPeek_short h hsize, commPeek_long h h.toNat_length.ge] at hcursor
  exact h.skip_ne_read hwrap hcursor

/-- Two bytes in ten, and a buffer for one. -/
theorem short_read_drops_head_of_two :
    DropsHead (commPut smallChannel [1, 2]).1 [1, 2] [] 1 := by
  have hinit : commInit smallChannel 66 commSimple = some (smallChannel, 0) := rfl
  have hst := (channelInv_init (by decide) hinit).stores
  have hput : Stores (commPut smallChannel [1, 2]).1 [[1, 2]] :=
    (commPut_fits hst (by decide) (by decide) (by decide) (by decide)).2.1
  exact (short_read_drops_head hput (by decide)).mpr (by decide)

/-- **A packet that ends behind the wrap**: after one byte has gone through, two bytes lie in
    cells 9 and 0, and the skip leaves the cursor at 2 instead of 1. -/
theorem short_read_skips_too_far : ∃ w, RunIf commStep
      (fun w op => CommCallerOk w op ∧ NotIntoFull w op) ⟨smallChannel, [], []⟩
      [(.put [1], 0), (.peek 1, 0), (.put [2, 3], 0)] w ∧
    Stores w.comm [[2, 3]] ∧ ¬ DropsHead w.comm [2, 3] [] 1 := by
  have h := RunIf.of_exec commStep (fun w op => CommCallerOk w op ∧ NotIntoFull w op)
    ⟨smallChannel, [], []⟩ [.put [1], .peek 1, .put [2, 3]] rfl
  have hinit : commInit smallChannel 66 commSimple = some (smallChannel, 0) := rfl
  have hinv := h.invariant_state ChannelInv (channelInv_init (by decide) hinit)
    fun _ _ _ _ hinv hok hstep => channelInv_step hinv hok hstep
  refine ⟨_, h, hinv.stores, fun hdrops => ?_⟩
  exact absurd (congrArg Comm.ringBegin (hdrops.asRead 2 (by decide))) (by decide)

/-! ## What fits -/

/-- The bytes of the ring that no waiting packet occupies. -/
def free (cc : Comm) (pending : List (List Byte)) : Nat :=
  cc.dataLength.toNat - (encodeAll pending).length

/-- The length field at the position `at_` of the ring. -/
def lengthAt (cc : Comm) (at_ : Word) : Nat :=
  ofLe (commGetData { cc with ringBegin := at_ } 4).2

/-- `comm_put` of `data` admits it exactly if it fits, with its length in front of it, and
    otherwise refuses it. -/
structure AdmitsWhatFits (cc : Comm) (pending : List (List Byte)) (data : List Byte) : Prop where
  admits : (commPut cc data).2 = 0 ↔ 4 + data.length ≤ free cc pending
  stores : (commPut cc data).2 = 0 → lengthAt (commPut cc data).1 cc.ringEnd = data.length ∧
    (commPut cc data).1.packetCount.toNat = cc.packetCount.toNat + 1
  refuses : (commPut cc data).2 ≠ 0 → commPut cc data = (cc, 1)

/-- What the code computes with for a packet of `size` bytes. -/
structure SizeFits (cc : Comm) (pending : List (List Byte)) (size : Nat) : Prop where
  /-- A full ring looks empty: only what exceeds all of it is refused. -/
  notFull : RingFull cc → cc.dataLength.toNat < (size + 4) % 2 ^ 64
  /-- The required size wraps. -/
  noWrap : 2 ^ 64 ≤ size + 4 → free cc pending < (size + 4) % 2 ^ 64
  /-- The length field has 32 bits. -/
  short : 4 + size ≤ free cc pending → size < 2 ^ 32

instance (cc : Comm) (pending : List (List Byte)) (size : Nat) :
    Decidable (SizeFits cc pending size) :=
  decidable_of_iff ((RingFull cc → cc.dataLength.toNat < (size + 4) % 2 ^ 64) ∧
    (2 ^ 64 ≤ size + 4 → free cc pending < (size + 4) % 2 ^ 64) ∧
    (4 + size ≤ free cc pending → size < 2 ^ 32))
    ⟨fun ⟨h₁, h₂, h₃⟩ => ⟨h₁, h₂, h₃⟩, fun ⟨h₁, h₂, h₃⟩ => ⟨h₁, h₂, h₃⟩⟩

section
variable {data : List Byte}

/-- The comparison that decides, over the naturals. -/
theorem commPut_refuses_iff (hdata : data.length < 2 ^ 64) :
    commRemaining cc < BitVec.ofNat 64 data.length + 4 ↔
      (commRemaining cc).toNat < (data.length + 4) % 2 ^ 64 := by
  rw [BitVec.lt_def, BitVec.toNat_add, BitVec.toNat_ofNat, Nat.mod_eq_of_lt hdata,
    show (4 : Word).toNat = 4 from rfl]

/-- `comm_put` either refuses the packet or answers that it took it. -/
theorem commPut_cases (hdata : data.length < 2 ^ 64) :
    (commPut cc data = (cc, 1) ∧ (commRemaining cc).toNat < (data.length + 4) % 2 ^ 64) ∨
      ((commPut cc data).2 = 0 ∧ (data.length + 4) % 2 ^ 64 ≤ (commRemaining cc).toNat) := by
  by_cases hlt : commRemaining cc < BitVec.ofNat 64 data.length + 4
  · refine .inl ⟨?_, (commPut_refuses_iff hdata).mp hlt⟩
    rw [commPut]
    simp only [if_pos hlt]
  · refine .inr ⟨?_, Nat.not_lt.mp (mt (commPut_refuses_iff hdata).mpr hlt)⟩
    rw [commPut]
    simp only [if_neg hlt]

/-- On a full ring the cursors say that all of it is free … -/
theorem commRemaining_full (hfull : RingFull cc) : commRemaining cc = cc.dataLength := by
  rw [commRemaining, hfull.1, if_pos (by simp)]
  simp

/-- … while there is nothing free. -/
theorem free_full (h : Stores cc pending) (hfull : RingFull cc) : free cc pending = 0 := by
  obtain ⟨⟨hb, hfits, hend, -⟩, hcount, -⟩ := h
  have hpos : 0 < pending.length := by
    rw [← hcount]
    exact Nat.pos_of_ne_zero fun h₀ => hfull.2 (by simpa [← BitVec.toNat_inj] using h₀)
  have h₄ := four_mul_length_le pending
  rw [← hfull.1] at hend
  unfold Ring.index at hend
  unfold free
  split_ifs at hend <;> omega

/-- The length that is written is the low half of the length. -/
theorem lengthAt_commPut (h : Stores cc pending) (hfull : ¬ RingFull cc)
    (hroom : cc.dataLength.toNat + 4 + data.length ≤ 2 ^ 64)
    (hfits : 4 + data.length ≤ free cc pending) :
    lengthAt (commPut cc data).1 cc.ringEnd = data.length % 2 ^ 32 := by
  unfold free at hfits
  obtain ⟨-, hhold, -, hbegin, hdl, -⟩ := commPut_holding h hfull hroom (by omega)
  have hb := h.holding.begin_lt
  have he := h.holding.end_lt
  have hU := h.holding.fits
  -- the length field is what the ring holds behind the packets that were waiting
  have hholds := hhold.holds
  rw [List.append_assoc, hbegin, hdl, Ring.holds_append hb
    (by simp only [List.length_append, length_toLe]; omega), ← h.holding.end_eq] at hholds
  have hfield := ((Ring.holds_append he
    (by simp only [length_toLe]; omega)).mp hholds.2).1
  obtain ⟨b, hget, -⟩ := @commGetData_eq
    { (commPut cc data).1 with ringBegin := cc.ringEnd } 4 (by simpa [hdl] using he)
    (by rw [show (4 : Word).toNat = 4 from rfl]; simp only []; omega)
  have hread := Ring.get_fst he hfield
  rw [length_toLe] at hread
  rw [lengthAt, hget]
  simp only [hdl, show (4 : Word).toNat = 4 from rfl, hread]
  exact ofLe_toLe_of_lt (Nat.mod_lt _ (by decide))

/-- **`comm_put` admits exactly what fits** if and only if the size fits the three places where
    the code computes with it. -/
theorem commPut_admits (h : Stores cc pending) (hdata : data.length < 2 ^ 64)
    (hroom : 4 + data.length ≤ cc.dataLength.toNat →
      cc.dataLength.toNat + 4 + data.length ≤ 2 ^ 64) :
    AdmitsWhatFits cc pending data ↔ SizeFits cc pending data.length := by
  have hfree : free cc pending ≤ cc.dataLength.toNat := Nat.sub_le _ _
  have hU := h.holding.fits
  constructor
  · intro hadm
    -- what does not fit is refused, and so compared greater
    have hgt : ¬ 4 + data.length ≤ free cc pending →
        (commRemaining cc).toNat < (data.length + 4) % 2 ^ 64 := by
      intro hnot
      rcases @commPut_cases cc data hdata with ⟨-, hlt⟩ | ⟨hret, -⟩
      · exact hlt
      · exact absurd (hadm.admits.mp hret) hnot
    refine ⟨fun hfull => ?_, fun hwrap => ?_, fun hfits => ?_⟩
    · rw [← commRemaining_full hfull]
      apply hgt
      rw [free_full h hfull]
      omega
    · have hlt := hgt (by have := cc.dataLength.isLt; omega)
      by_cases hfull : RingFull cc
      · rw [free_full h hfull]
        exact (Nat.zero_le _).trans_lt hlt
      · rw [commRemaining_eq h hfull] at hlt
        exact hlt
    · have hfull : ¬ RingFull cc := fun hfull => by
        rw [free_full h hfull] at hfits
        omega
      have hlen := (hadm.stores (hadm.admits.mpr hfits)).1
      rw [lengthAt_commPut h hfull (hroom (hfits.trans hfree)) hfits] at hlen
      rw [← hlen]
      exact Nat.mod_lt _ (by decide)
  · rintro ⟨hnotFull, hnoWrap, hshort⟩
    rcases @commPut_cases cc data hdata with ⟨heq, hlt⟩ | ⟨hret, hge⟩
    · refine ⟨iff_of_false (by simp [heq]) fun hfits => ?_, fun h₀ => ?_, fun _ => heq⟩
      · have hfull : ¬ RingFull cc := fun hfull => by
          rw [free_full h hfull] at hfits
          omega
        rw [commRemaining_eq h hfull] at hlt
        have hmod := Nat.mod_le (data.length + 4) (2 ^ 64)
        unfold free at hfits
        omega
      · simp [heq] at h₀
    · have hfull : ¬ RingFull cc := fun hfull => by
        have := hnotFull hfull
        rw [commRemaining_full hfull] at hge
        omega
      rw [commRemaining_eq h hfull] at hge
      have hlt : data.length + 4 < 2 ^ 64 := by
        by_contra hwrap
        exact Nat.not_lt.mpr hge (hnoWrap (Nat.not_lt.mp hwrap))
      have hfits : 4 + data.length ≤ free cc pending := by
        rw [Nat.mod_eq_of_lt hlt] at hge
        unfold free
        omega
      have hroom := hroom (hfits.trans hfree)
      refine ⟨iff_of_true hret hfits, fun _ => ⟨?_, ?_⟩, fun h₀ => absurd hret h₀⟩
      · rw [lengthAt_commPut h hfull hroom hfits, Nat.mod_eq_of_lt (hshort hfits)]
      · unfold free at hfits
        rw [(commPut_holding h hfull hroom (by omega)).2.2.1, h.count]

end

/-! ## Histories -/

/-- A channel with the packets that wait in it. -/
structure Mailbox where
  comm : Comm
  waiting : List (List Byte)

/-- One call. A `comm_put` that returns `0` adds its packet, a `comm_peek` that tells a size
    takes the oldest one out, whether or not it had a buffer for it. -/
def mailboxStep (w : Mailbox) : CommOp → Option (Mailbox × Nat)
  | .put data =>
    let (cc, ret) := commPut w.comm data
    some (⟨cc, if ret = 0 then w.waiting ++ [data] else w.waiting⟩, ret)
  | .peek dataSize =>
    let (cc, out) := commPeek w.comm dataSize
    some (⟨cc, if out.dataSize.isSome then w.waiting.tail else w.waiting⟩, out.ret)

/-- The sizes are 64-bit sizes, a packet that could fit the ring lies in one address space with
    it, and a read has a long enough buffer or drops a packet that ends before the wrap. -/
def MailboxOk (w : Mailbox) : CommOp → Prop
  | .put data => data.length < 2 ^ 64 ∧ (4 + data.length ≤ w.comm.dataLength.toNat →
      w.comm.totalLength.toNat + data.length ≤ 2 ^ 64)
  | .peek dataSize => ∀ packet ∈ w.waiting.head?,
      packet.length ≤ dataSize.toNat ∨ EndsBeforeWrap w.comm packet

instance (w : Mailbox) : DecidablePred (MailboxOk w)
  | .put _ => inferInstanceAs (Decidable (_ ∧ _))
  | .peek dataSize => inferInstanceAs (Decidable (∀ packet ∈ w.waiting.head?,
      packet.length ≤ dataSize.toNat ∨ EndsBeforeWrap w.comm packet))

/-- The step, if it is a `comm_put`, admits exactly what fits. -/
def PutExact (w : Mailbox) (op : CommOp) (_ : Nat) (_ : Mailbox) : Prop :=
  ∀ data, op = .put data → AdmitsWhatFits w.comm w.waiting data

/-- The step, if it is a `comm_put`, has a size the code computes with correctly. -/
def PutFits (w : Mailbox) (op : CommOp) (_ : Nat) (_ : Mailbox) : Prop :=
  ∀ data, op = .put data → SizeFits w.comm w.waiting data.length

/-- The invariant of a history. -/
structure MailboxInv (w : Mailbox) : Prop where
  stores : Stores w.comm w.waiting
  header : w.comm.dataLength.toNat + 56 = w.comm.totalLength.toNat

theorem mailboxInv_put {w w' : Mailbox} {data : List Byte} {ret : Nat} (h : MailboxInv w)
    (hok : MailboxOk w (.put data)) (hfits : SizeFits w.comm w.waiting data.length)
    (hstep : mailboxStep w (.put data) = some (w', ret)) : MailboxInv w' := by
  obtain ⟨hst, hhead⟩ := h
  obtain ⟨hdata, hspace⟩ := hok
  have hroom : 4 + data.length ≤ w.comm.dataLength.toNat →
      w.comm.dataLength.toNat + 4 + data.length ≤ 2 ^ 64 := fun hle => by
    have := hspace hle
    omega
  have hadm := (commPut_admits hst hdata hroom).mpr hfits
  obtain ⟨rfl, -⟩ : _ = w' ∧ _ = ret := by simpa [mailboxStep] using hstep
  by_cases hret : (commPut w.comm data).2 = 0
  · have hle := hadm.admits.mp hret
    have hfull : ¬ RingFull w.comm := fun hfull => by
      rw [free_full hst hfull] at hle
      omega
    have hU := hst.holding.fits
    have hle' := hle
    unfold free at hle'
    obtain ⟨-, hst', hdl, htl⟩ := commPut_fits hst hfull (hfits.short hle)
      (hroom (hle.trans (Nat.sub_le _ _))) (by omega)
    rw [if_pos hret]
    refine ⟨hst', ?_⟩
    rw [hdl, htl]
    exact hhead
  · rw [if_neg hret, hadm.refuses hret]
    exact ⟨hst, hhead⟩

/-- `comm_skip_data` touches nothing but the cursor. -/
theorem sameHeader_commSkipData (cc : Comm) (n : Word) : SameHeader cc (commSkipData cc n) := by
  unfold commSkipData
  split <;> exact ⟨rfl, rfl, rfl, rfl⟩

theorem mailboxInv_peek {w w' : Mailbox} {ret : Nat} (h : MailboxInv w)
    (hok : MailboxOk w (.peek dataSize))
    (hstep : mailboxStep w (.peek dataSize) = some (w', ret)) : MailboxInv w' := by
  obtain ⟨hst, hhead⟩ := h
  obtain ⟨rfl, -⟩ : _ = w' ∧ _ = ret := by simpa [mailboxStep] using hstep
  cases hw : w.waiting with
  | nil =>
    rw [hw] at hst
    rw [commPeek_empty hst]
    exact ⟨hst, hhead⟩
  | cons packet waiting =>
    rw [hw] at hst
    by_cases hlong : packet.length ≤ dataSize.toNat
    · obtain ⟨hout, hst', hdl, htl⟩ := commPeek_head hst hlong
      rw [hout]
      refine ⟨hst', ?_⟩
      rw [hdl, htl]
      exact hhead
    · have hends := (hok packet (by simp [hw])).resolve_left hlong
      have hdrops := dropsHead_of_endsBeforeWrap hst (Nat.not_le.mp hlong) hends
      obtain ⟨-, -, -, hsame⟩ := hst.readLength
      have hsame' := hsame.trans (sameHeader_commSkipData _ (BitVec.ofNat 64 packet.length))
      rw [hdrops.answer]
      refine ⟨hdrops.stores, ?_⟩
      rw [commPeek_short hst (Nat.not_le.mp hlong), hsame'.dataLength, hsame'.totalLength]
      exact hhead

theorem mailboxInv_init {c₀ cc : Comm} {length : Word} (hlen : commHeader < length)
    (hinit : commInit c₀ length commSimple = some (cc, 0)) : MailboxInv ⟨cc, []⟩ :=
  let h := channelInv_init hlen hinit
  ⟨h.stores, h.header⟩

/-- **`comm_put` admits exactly what fits**, in every history of a channel, if and only if every
    size put into it is one the code computes with correctly. -/
theorem put_admits_what_fits {c₀ cc : Comm} {length : Word} (hlen : commHeader < length)
    (hinit : commInit c₀ length commSimple = some (cc, 0)) {tr : List (CommOp × Nat)}
    {w : Mailbox} (h : RunIf mailboxStep MailboxOk ⟨cc, []⟩ tr w) :
    Along mailboxStep ⟨cc, []⟩ PutExact tr ↔ Along mailboxStep ⟨cc, []⟩ PutFits tr := by
  refine Along.iff_of_invariant MailboxInv (mailboxInv_init hlen hinit) ?_ h
  intro w op w' ret hinv hok hstep
  cases op with
  | put data =>
    have hiff : AdmitsWhatFits w.comm w.waiting data ↔ SizeFits w.comm w.waiting data.length := by
      refine commPut_admits hinv.stores hok.1 fun hle => ?_
      have := hok.2 hle
      have := hinv.header
      omega
    constructor
    · constructor
      · intro hexact data' heq
        cases heq
        exact hiff.mp (hexact data rfl)
      · intro hfits data' heq
        cases heq
        exact hiff.mpr (hfits data rfl)
    · intro hfits
      exact mailboxInv_put hinv hok (hfits data rfl) hstep
  | peek dataSize =>
    refine ⟨iff_of_true ?_ ?_, fun _ => mailboxInv_peek hinv hok hstep⟩
    · intro _ heq
      cases heq
    · intro _ heq
      cases heq

/-- A packet in, one out, and one that wraps: the theorem at a run with all three. -/
theorem put_admits_what_fits_of_three : ∃ w, RunIf mailboxStep MailboxOk ⟨smallChannel, []⟩
      [(.put [1, 2], 0), (.peek 1, 1), (.put [3, 4, 5], 0)] w ∧ w.waiting = [[3, 4, 5]] ∧
    (Along mailboxStep ⟨smallChannel, []⟩ PutExact
        [(.put [1, 2], 0), (.peek 1, 1), (.put [3, 4, 5], 0)] ↔
      Along mailboxStep ⟨smallChannel, []⟩ PutFits
        [(.put [1, 2], 0), (.peek 1, 1), (.put [3, 4, 5], 0)]) := by
  have h := RunIf.of_exec mailboxStep MailboxOk ⟨smallChannel, []⟩
    [.put [1, 2], .peek 1, .put [3, 4, 5]] rfl
  have hinit : commInit smallChannel 66 commSimple = some (smallChannel, 0) := rfl
  exact ⟨_, h, rfl, put_admits_what_fits (by decide) hinit h⟩

/-- **A second packet goes into a full ring**: after six bytes and their length nothing of the
    ten is free, and six more are taken. -/
theorem full_ring_admits : ∃ w, RunIf mailboxStep MailboxOk ⟨smallChannel, []⟩
      [(.put [1, 2, 3, 4, 5, 6], 0)] w ∧ w.waiting = [[1, 2, 3, 4, 5, 6]] ∧
    ¬ AdmitsWhatFits w.comm w.waiting [7, 8, 9, 10, 11, 12] := by
  have h := RunIf.of_exec mailboxStep MailboxOk ⟨smallChannel, []⟩ [.put [1, 2, 3, 4, 5, 6]] rfl
  exact ⟨_, h, rfl, fun hadm => absurd (hadm.admits.mp rfl) (by decide)⟩

end Refk
