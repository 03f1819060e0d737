import Refk.Clib.Comm
import Refk.Lib.Run

/-!
# A channel is a queue

`Holding cc xs` says that the ring holds exactly the bytes `xs`, from `ring_begin` to
`ring_end`, and `Stores cc pending` that these are the encoded pending packets. The two copies
append to that and take off its front wherever the wrap falls; the free-space rule is right
about it in every case but one. When the packets fill the ring to the last byte the two
cursors meet, `comm_remaining` answers that everything is free, and the next packet is written
over the oldest.

`channel_fifo` is the queue property of every history that does not put into a ring in that
state.
-/

namespace Refk

open Lib

/-- The ring holds `xs` and nothing else. -/
structure Holding (cc : Comm) (xs : List Byte) : Prop where
  begin_lt : cc.ringBegin.toNat < cc.dataLength.toNat
  fits : xs.length ≤ cc.dataLength.toNat
  end_eq : cc.ringEnd.toNat = Ring.index cc.dataLength.toNat cc.ringBegin.toNat xs.length
  holds : Ring.Holds cc.dataLength.toNat cc.data cc.ringBegin.toNat xs

theorem Holding.end_lt {cc : Comm} {xs : List Byte} (h : Holding cc xs) :
    cc.ringEnd.toNat < cc.dataLength.toNat := by
  rw [h.end_eq]
  exact Ring.index_lt h.begin_lt h.fits

/-! ## The two copies -/

/-- What a copy leaves alone. -/
structure SameHeader (cc cc' : Comm) : Prop where
  totalLength : cc'.totalLength = cc.totalLength
  dataLength : cc'.dataLength = cc.dataLength
  flags : cc'.flags = cc.flags
  packetCount : cc'.packetCount = cc.packetCount

theorem SameHeader.trans {cc₁ cc₂ cc₃ : Comm} (h : SameHeader cc₁ cc₂) (h' : SameHeader cc₂ cc₃) :
    SameHeader cc₁ cc₃ :=
  ⟨h'.totalLength.trans h.totalLength, h'.dataLength.trans h.dataLength, h'.flags.trans h.flags,
    h'.packetCount.trans h.packetCount⟩

/-- `comm_put_data` is a circular write as long as its sum does not overflow. -/
theorem commPutData_eq {cc : Comm} {data : List Byte} {n : Word} (hn : n.toNat = data.length)
    (he : cc.ringEnd.toNat < cc.dataLength.toNat) (hfit : cc.ringEnd.toNat + n.toNat < 2 ^ 64) :
    ∃ e : Word, commPutData cc data n = { cc with
        data := (Ring.put cc.dataLength.toNat cc.data cc.ringEnd.toNat data).1, ringEnd := e } ∧
      e.toNat = (Ring.put cc.dataLength.toNat cc.data cc.ringEnd.toNat data).2 := by
  have hsum : (cc.ringEnd + n).toNat = cc.ringEnd.toNat + n.toNat := by
    rw [BitVec.toNat_add, Nat.mod_eq_of_lt hfit]
  have hbw : (cc.dataLength - cc.ringEnd).toNat = cc.dataLength.toNat - cc.ringEnd.toNat := by
    bv_omega
  unfold commPutData Ring.put
  by_cases hw : cc.ringEnd + n ≥ cc.dataLength
  · have hw' : cc.ringEnd.toNat + data.length ≥ cc.dataLength.toNat := by
      rw [← hn, ← hsum]
      exact hw
    have hrest : (n - (cc.dataLength - cc.ringEnd)).toNat =
        data.length - (cc.dataLength.toNat - cc.ringEnd.toNat) := by
      bv_omega
    refine ⟨0 + (n - (cc.dataLength - cc.ringEnd)), ?_, ?_⟩
    · simp only [hw, hw', if_true, Comm.copyIn, hbw, hrest]
      rw [List.take_of_length_le (l := data.drop _) (by simp)]
      rfl
    · simp only [hw', if_true]
      rw [← hrest]
      simp
  · have hw' : ¬ cc.ringEnd.toNat + data.length ≥ cc.dataLength.toNat := by
      rw [← hn, ← hsum]
      exact hw
    refine ⟨cc.ringEnd + n, ?_, ?_⟩
    · simp only [hw, hw', if_false, Comm.copyIn, hn, List.take_length]
    · simp only [hw', if_false, hsum, hn]

theorem commGetData_eq {cc : Comm} {n : Word}
    (hb : cc.ringBegin.toNat < cc.dataLength.toNat)
    (hfit : cc.ringBegin.toNat + n.toNat < 2 ^ 64) :
    ∃ b : Word, commGetData cc n = ({ cc with ringBegin := b },
        (Ring.get cc.dataLength.toNat cc.data cc.ringBegin.toNat n.toNat).1) ∧
      b.toNat = (Ring.get cc.dataLength.toNat cc.data cc.ringBegin.toNat n.toNat).2 := by
  have hsum : (cc.ringBegin + n).toNat = cc.ringBegin.toNat + n.toNat := by
    rw [BitVec.toNat_add, Nat.mod_eq_of_lt hfit]
  have hbw : (cc.dataLength - cc.ringBegin).toNat =
      cc.dataLength.toNat - cc.ringBegin.toNat := by
    bv_omega
  unfold commGetData Ring.get
  by_cases hw : cc.ringBegin + n ≥ cc.dataLength
  · have hw' : cc.ringBegin.toNat + n.toNat ≥ cc.dataLength.toNat := hsum ▸ hw
    have hrest : (n - (cc.dataLength - cc.ringBegin)).toNat =
        n.toNat - (cc.dataLength.toNat - cc.ringBegin.toNat) := by
      bv_omega
    refine ⟨0 + (n - (cc.dataLength - cc.ringBegin)), ?_, ?_⟩
    · simp only [hw, hw', if_true, hbw, hrest]
      rfl
    · simp only [hw', if_true]
      rw [← hrest]
      simp
  · have hw' : ¬ cc.ringBegin.toNat + n.toNat ≥ cc.dataLength.toNat := hsum ▸ hw
    refine ⟨cc.ringBegin + n, ?_, ?_⟩
    · simp only [hw, hw', if_false]
    · simp only [hw', if_false, hsum]

section
variable {cc : Comm} {xs data : List Byte} {n : Word}

/-- **Appending.** -/
theorem Holding.put (h : Holding cc xs) (hn : n.toNat = data.length)
    (hfits : xs.length + data.length ≤ cc.dataLength.toNat)
    (hroom : cc.dataLength.toNat + data.length ≤ 2 ^ 64) :
    Holding (commPutData cc data n) (xs ++ data) ∧ SameHeader cc (commPutData cc data n) := by
  have hend := h.end_lt
  obtain ⟨e, hput, he⟩ := commPutData_eq hn hend (by omega)
  rw [hput]
  refine ⟨⟨h.begin_lt, by simpa using hfits, ?_, ?_⟩, ⟨rfl, rfl, rfl, rfl⟩⟩
  · simp only [he, Ring.put_snd hend, List.length_append]
    rw [h.end_eq, Ring.index_index h.begin_lt hfits]
  · exact Ring.holds_put h.begin_lt hfits h.holds h.end_eq

/-- **Taking off the front.** -/
theorem Holding.get (h : Holding cc (data ++ xs)) (hn : n.toNat = data.length)
    (hroom : cc.dataLength.toNat + data.length ≤ 2 ^ 64) :
    (commGetData cc n).2 = data ∧ Holding (commGetData cc n).1 xs ∧
      SameHeader cc (commGetData cc n).1 := by
  have hb := h.begin_lt
  have hfits := h.fits
  rw [List.length_append] at hfits
  obtain ⟨b, hget, hb'⟩ := commGetData_eq (n := n) hb (by omega)
  obtain ⟨hdata, hxs⟩ := (Ring.holds_append hb hfits).mp h.holds
  rw [hn] at hb' hget
  rw [Ring.get_snd hb] at hb'
  rw [Ring.get_fst hb hdata] at hget
  rw [hget]
  refine ⟨rfl, ⟨?_, by simp only []; omega, ?_, ?_⟩, ⟨rfl, rfl, rfl, rfl⟩⟩
  · rw [hb']
    exact Ring.index_lt hb (by omega)
  · simp only [hb', Ring.index_index h.begin_lt hfits, h.end_eq, List.length_append]
  · rw [← hb'] at hxs
    exact hxs

end

/-! ## Packets -/

/-- A packet as it is stored: its length and its bytes. -/
def encode (packet : List Byte) : List Byte := toLe 4 packet.length ++ packet

/-- The pending packets as they are stored. -/
def encodeAll (pending : List (List Byte)) : List Byte := pending.flatMap encode

@[simp] theorem length_encode (packet : List Byte) :
    (encode packet).length = 4 + packet.length := by
  simp [encode]

theorem encodeAll_cons (packet : List Byte) (pending : List (List Byte)) :
    encodeAll (packet :: pending) =
      toLe 4 packet.length ++ (packet ++ encodeAll pending) := by
  simp [encodeAll, encode]

theorem encodeAll_snoc (pending : List (List Byte)) (packet : List Byte) :
    encodeAll (pending ++ [packet]) =
      encodeAll pending ++ toLe 4 packet.length ++ packet := by
  simp [encodeAll, encode]

theorem four_mul_length_le (pending : List (List Byte)) :
    4 * pending.length ≤ (encodeAll pending).length := by
  induction pending with
  | nil => simp
  | cons p ps ih =>
    simp only [encodeAll_cons, List.length_append, length_toLe, List.length_cons]
    omega

/-- The ring holds the pending packets, oldest first; each was short enough for its length
    field, and fits the address space beside the ring. -/
structure Stores (cc : Comm) (pending : List (List Byte)) : Prop where
  holding : Holding cc (encodeAll pending)
  count : cc.packetCount.toNat = pending.length
  room : ∀ packet ∈ pending,
    packet.length < 2 ^ 32 ∧ cc.dataLength.toNat + 4 + packet.length ≤ 2 ^ 64

/-- The cursors have met on a ring with packets in it. -/
def RingFull (cc : Comm) : Prop := cc.ringBegin = cc.ringEnd ∧ cc.packetCount ≠ 0

section
variable {cc : Comm} {pending : List (List Byte)} {packet : List Byte} {dataSize : Word}

theorem Stores.count_lt (h : Stores cc pending) :
    4 * pending.length ≤ cc.dataLength.toNat :=
  (four_mul_length_le pending).trans h.holding.fits

/-- **The free-space rule is right unless the ring is full.** -/
theorem commRemaining_eq (h : Stores cc pending) (hfull : ¬ RingFull cc) :
    (commRemaining cc).toNat = cc.dataLength.toNat - (encodeAll pending).length := by
  obtain ⟨⟨hb, hfits, hend, -⟩, hcount, -⟩ := h
  -- a ring without room to spare would be full
  have hne : (encodeAll pending).length ≠ cc.dataLength.toNat := by
    intro heq
    refine hfull ⟨?_, fun h₀ => ?_⟩
    · rw [← BitVec.toNat_inj, hend, Ring.index, if_neg (by omega)]
      omega
    · have hnil : pending = [] := by simpa [h₀] using hcount.symm
      rw [hnil] at heq
      simp [encodeAll] at heq
      omega
  unfold commRemaining
  simp only [BitVec.le_def]
  unfold Ring.index at hend
  split_ifs at hend ⊢ <;> bv_omega

@[simp] theorem commPutData_ringBegin (cc : Comm) (data : List Byte) (n : Word) :
    (commPutData cc data n).ringBegin = cc.ringBegin := by
  unfold commPutData
  split <;> rfl

/-- **`comm_put` with room for the packet** appends the low half of its length and its
    bytes. -/
theorem commPut_holding (h : Stores cc pending) (hfull : ¬ RingFull cc)
    (hroom : cc.dataLength.toNat + 4 + packet.length ≤ 2 ^ 64)
    (hfits : (encodeAll pending).length + (4 + packet.length) ≤ cc.dataLength.toNat) :
    (commPut cc packet).2 = 0 ∧
      Holding (commPut cc packet).1
        (encodeAll pending ++ toLe 4 (packet.length % 2 ^ 32) ++ packet) ∧
      (commPut cc packet).1.packetCount.toNat = pending.length + 1 ∧
      (commPut cc packet).1.ringBegin = cc.ringBegin ∧
      (commPut cc packet).1.dataLength = cc.dataLength ∧
      (commPut cc packet).1.totalLength = cc.totalLength := by
  have hsize : (BitVec.ofNat 64 packet.length).toNat = packet.length := by
    rw [BitVec.toNat_ofNat, Nat.mod_eq_of_lt (by omega)]
  have hreq : ¬ commRemaining cc < BitVec.ofNat 64 packet.length + 4 := by
    rw [BitVec.lt_def, commRemaining_eq h hfull, BitVec.toNat_add, hsize,
      show (4 : Word).toNat = 4 from rfl, Nat.mod_eq_of_lt (by omega)]
    omega
  obtain ⟨h₁, hsame₁⟩ := h.holding.put (n := 4)
    (show (4 : Word).toNat = (toLe 4 (packet.length % 2 ^ 32)).length by simp)
    (by simp only [length_toLe]; omega) (by simp only [length_toLe]; omega)
  obtain ⟨h₂, hsame₂⟩ := h₁.put hsize
    (by rw [hsame₁.dataLength, List.length_append, length_toLe]; omega)
    (by rw [hsame₁.dataLength]; omega)
  have hsame := hsame₁.trans hsame₂
  unfold commPut
  simp only [if_neg hreq, hsize]
  refine ⟨trivial, ⟨h₂.begin_lt, h₂.fits, h₂.end_eq, h₂.holds⟩, ?_, by simp, hsame.dataLength,
    hsame.totalLength⟩
  have := h.count_lt
  have := h.count
  simp only [hsame.packetCount]
  bv_omega

/-- `comm_put` with room for a packet whose length fits its field. -/
theorem commPut_fits (h : Stores cc pending) (hfull : ¬ RingFull cc)
    (hshort : packet.length < 2 ^ 32) (hroom : cc.dataLength.toNat + 4 + packet.length ≤ 2 ^ 64)
    (hfits : (encodeAll pending).length + (4 + packet.length) ≤ cc.dataLength.toNat) :
    (commPut cc packet).2 = 0 ∧ Stores (commPut cc packet).1 (pending ++ [packet]) ∧
      (commPut cc packet).1.dataLength = cc.dataLength ∧
      (commPut cc packet).1.totalLength = cc.totalLength := by
  obtain ⟨hret, hhold, hcount, -, hdl, htl⟩ := commPut_holding h hfull hroom hfits
  rw [Nat.mod_eq_of_lt hshort, ← encodeAll_snoc] at hhold
  refine ⟨hret, ⟨hhold, by simpa using hcount, fun p hp => ?_⟩, hdl, htl⟩
  rw [hdl]
  rcases List.mem_append.mp hp with hp | hp
  · exact h.room p hp
  · exact List.mem_singleton.mp hp ▸ ⟨hshort, hroom⟩

/-- Full or not, no more than the whole ring is free. -/
theorem commRemaining_le (h : Stores cc pending) :
    (commRemaining cc).toNat ≤ cc.dataLength.toNat := by
  have hb := h.holding.begin_lt
  have he := h.holding.end_lt
  unfold commRemaining
  split_ifs with hle
  · rw [BitVec.le_def] at hle
    bv_omega
  · bv_omega

/-- `comm_put` without room for it. -/
theorem commPut_refused (hshort : packet.length < 2 ^ 32)
    (hrem : (commRemaining cc).toNat < 4 + packet.length) : commPut cc packet = (cc, 1) := by
  have hreq : commRemaining cc < BitVec.ofNat 64 packet.length + 4 := by
    rw [BitVec.lt_def, BitVec.toNat_add, BitVec.toNat_ofNat, show (4 : Word).toNat = 4 from rfl,
      Nat.mod_eq_of_lt (b := 2 ^ 64) (by omega), Nat.mod_eq_of_lt (by omega)]
    omega
  rw [commPut]
  simp only [if_pos hreq]

/-- `comm_peek` on an empty channel. -/
theorem commPeek_empty (h : Stores cc []) : commPeek cc dataSize = (cc, ⟨1, none, []⟩) := by
  have h₀ : cc.packetCount = 0 := by simpa [← BitVec.toNat_inj] using h.count
  simp [commPeek, h₀]

/-- What `comm_peek` has done before it looks at the buffer: the packet is counted out and its
    length is read. -/
def commPeekLength (cc : Comm) : Comm × List Byte :=
  commGetData { cc with packetCount := cc.packetCount - 1 } 4

theorem Stores.readLength (h : Stores cc (packet :: pending)) :
    cc.packetCount ≠ 0 ∧ (commPeekLength cc).2 = toLe 4 packet.length ∧
      Holding (commPeekLength cc).1 (packet ++ encodeAll pending) ∧
      SameHeader { cc with packetCount := cc.packetCount - 1 } (commPeekLength cc).1 := by
  obtain ⟨hshort, hroom⟩ := h.room packet (by simp)
  have hne : cc.packetCount ≠ 0 := fun h₀ => by
    have := h.count
    simp [h₀] at this
  have h₀ : Holding { cc with packetCount := cc.packetCount - 1 }
      (toLe 4 packet.length ++ (packet ++ encodeAll pending)) := by
    have h₀ := h.holding
    rw [encodeAll_cons] at h₀
    exact ⟨h₀.begin_lt, h₀.fits, h₀.end_eq, h₀.holds⟩
  exact ⟨hne, h₀.get (n := 4) (by simp) (by simp only [length_toLe]; omega)⟩

/-- A channel that holds what is left behind the packet at the head stores the others. -/
theorem Stores.rest {cc' : Comm} (h : Stores cc (packet :: pending))
    (hsame : SameHeader { cc with packetCount := cc.packetCount - 1 } cc')
    (h' : Holding cc' (encodeAll pending)) : Stores cc' pending := by
  refine ⟨h', ?_, fun p hp => ?_⟩
  · have := h.count_lt
    have hcount := h.count
    rw [List.length_cons] at hcount this
    rw [hsame.packetCount]
    bv_omega
  · rw [hsame.dataLength]
    exact h.room p (by simp [hp])

/-- `comm_peek` into a buffer that is long enough for the packet at the head. -/
theorem commPeek_head (h : Stores cc (packet :: pending))
    (hsize : packet.length ≤ dataSize.toNat) :
    (commPeek cc dataSize).2 = ⟨0, some (BitVec.ofNat 64 packet.length), packet⟩ ∧
      Stores (commPeek cc dataSize).1 pending ∧
      (commPeek cc dataSize).1.dataLength = cc.dataLength ∧
      (commPeek cc dataSize).1.totalLength = cc.totalLength := by
  obtain ⟨hshort, hroom⟩ := h.room packet (by simp)
  have hlen : (BitVec.ofNat 64 packet.length).toNat = packet.length := by
    rw [BitVec.toNat_ofNat, Nat.mod_eq_of_lt (by omega)]
  obtain ⟨hne, hbytes₁, h₁, hsame₁⟩ := h.readLength
  obtain ⟨hbytes₂, h₂, hsame₂⟩ := h₁.get hlen (by simp only [hsame₁.dataLength]; omega)
  have hsame := hsame₁.trans hsame₂
  have hge : ¬ dataSize < BitVec.ofNat 64 packet.length := by
    rw [BitVec.lt_def, hlen]
    omega
  unfold commPeekLength at hbytes₁ hbytes₂ h₂ hsame
  unfold commPeek
  simp only [if_neg hne, hbytes₁, ofLe_toLe_of_lt (k := 4) hshort, if_neg hge, hbytes₂]
  exact ⟨trivial, h.rest hsame h₂, hsame.dataLength, hsame.totalLength⟩

end

/-! ## Histories -/

/-- A channel with the packets it accepted and the packets it delivered. -/
structure Channel where
  comm : Comm
  accepted : List (List Byte)
  delivered : List (List Byte)

/-- The packets accepted and not delivered, oldest first. -/
def Channel.pending (w : Channel) : List (List Byte) := w.accepted.drop w.delivered.length

inductive CommOp where
  | put (data : List Byte)
  | peek (dataSize : Word)

/-- One call. A `comm_put` that returns `0` accepts its packet, a `comm_peek` that returns `0`
    delivers one. -/
def commStep (w : Channel) : CommOp → Option (Channel × Nat)
  | .put data =>
    let (cc, ret) := commPut w.comm data
    some (⟨cc, if ret = 0 then w.accepted ++ [data] else w.accepted, w.delivered⟩, ret)
  | .peek dataSize =>
    let (cc, out) := commPeek w.comm dataSize
    some (⟨cc, w.accepted, if out.ret = 0 then w.delivered ++ [out.bytes] else w.delivered⟩,
      out.ret)

/-- The callers' side: messages are shorter than `2^32` and lie, with the channel, in one
    64-bit address space; a buffer is as long as the packet at the head. -/
def CommCallerOk (w : Channel) : CommOp → Prop
  | .put data => data.length < 2 ^ 32 ∧ w.comm.totalLength.toNat + data.length ≤ 2 ^ 64
  | .peek dataSize => ∀ packet ∈ w.pending.head?, packet.length ≤ dataSize.toNat

/-- The step does not put a packet that would go through into a full ring. -/
def NotIntoFull (w : Channel) : CommOp → Prop
  | .put data => ¬ (RingFull w.comm ∧ 4 + data.length ≤ w.comm.dataLength.toNat)
  | .peek _ => True

instance (cc : Comm) : Decidable (RingFull cc) := inferInstanceAs (Decidable (_ ∧ _))

instance (w : Channel) : DecidablePred (CommCallerOk w)
  | .put _ => inferInstanceAs (Decidable (_ ∧ _))
  | .peek dataSize =>
    inferInstanceAs (Decidable (∀ packet ∈ w.pending.head?, packet.length ≤ dataSize.toNat))

instance (w : Channel) : DecidablePred (NotIntoFull w)
  | .put _ => inferInstanceAs (Decidable (¬ (_ ∧ _)))
  | .peek _ => inferInstanceAs (Decidable True)

/-- The queue property: what was delivered is the oldest part of what was accepted, and the
    next `comm_peek` delivers the next packet, or none if there is none. -/
structure Fifo (w : Channel) : Prop where
  oldest : w.delivered <+: w.accepted
  count : w.comm.packetCount.toNat = w.pending.length
  next : ∀ dataSize : Word, (∀ packet ∈ w.pending.head?, packet.length ≤ dataSize.toNat) →
    (commPeek w.comm dataSize).2 = match w.pending with
      | [] => ⟨1, none, []⟩
      | packet :: _ => ⟨0, some (BitVec.ofNat 64 packet.length), packet⟩

/-- The invariant of a history. -/
structure ChannelInv (w : Channel) : Prop where
  stores : Stores w.comm w.pending
  oldest : w.delivered <+: w.accepted
  header : w.comm.dataLength.toNat + 56 = w.comm.totalLength.toNat

theorem ChannelInv.fifo {w : Channel} (h : ChannelInv w) : Fifo w where
  oldest := h.oldest
  count := h.stores.count
  next dataSize hsize := by
    have hst := h.stores
    cases hp : w.pending with
    | nil => simp [commPeek_empty (hp ▸ hst)]
    | cons packet pending =>
      exact (commPeek_head (hp ▸ hst) (hsize packet (by simp [hp]))).1

theorem Channel.pending_append {w : Channel} (h : w.delivered <+: w.accepted)
    (data : List Byte) (cc : Comm) :
    (⟨cc, w.accepted ++ [data], w.delivered⟩ : Channel).pending = w.pending ++ [data] :=
  List.drop_append_of_le_length h.length_le

theorem Channel.accepted_eq {w : Channel} (h : w.delivered <+: w.accepted) :
    w.accepted = w.delivered ++ w.pending := by
  obtain ⟨rest, hrest⟩ := h
  simp [Channel.pending, ← hrest]

theorem channelInv_step {w w' : Channel} {op : CommOp} {ret : Nat} (h : ChannelInv w)
    (hok : CommCallerOk w op ∧ NotIntoFull w op) (hstep : commStep w op = some (w', ret)) :
    ChannelInv w' := by
  obtain ⟨hst, hold, hhead⟩ := h
  cases op with
  | put data =>
    obtain ⟨⟨hshort, hroom⟩, hfull⟩ := hok
    obtain ⟨rfl, -⟩ : _ = w' ∧ _ = ret := by simpa [commStep] using hstep
    by_cases hfits : (commRemaining w.comm).toNat < 4 + data.length
    · rw [commPut_refused hshort hfits]
      exact ⟨hst, hold, hhead⟩
    · have hle := commRemaining_le hst
      have hnot : ¬ RingFull w.comm := fun hf => hfull ⟨hf, by omega⟩
      have hU := hst.holding.fits
      rw [commRemaining_eq hst hnot] at hfits
      obtain ⟨hret, hst', hdl, htl⟩ := commPut_fits hst hnot hshort (by omega) (by omega)
      rw [hret]
      refine ⟨?_, hold.trans (List.prefix_append _ _), ?_⟩
      · simpa only [if_true, Channel.pending_append hold] using hst'
      · simpa only [hdl, htl] using hhead
  | peek dataSize =>
    obtain ⟨rfl, -⟩ : _ = w' ∧ _ = ret := by simpa [commStep] using hstep
    cases hp : w.pending with
    | nil =>
      rw [commPeek_empty (hp ▸ hst)]
      exact ⟨hst, hold, hhead⟩
    | cons packet pending =>
      have hacc := Channel.accepted_eq hold
      rw [hp] at hst hacc
      obtain ⟨hout, hst', hdl, htl⟩ := commPeek_head hst (hok.1 packet (by simp [hp]))
      rw [hout]
      refine ⟨?_, ?_, ?_⟩
      · simpa [Channel.pending, hacc] using hst'
      · simp [hacc]
      · simpa only [hdl, htl] using hhead

/-- What `comm_init` sets up, given any memory. -/
theorem channelInv_init {c₀ cc : Comm} {length : Word} (hlen : commHeader < length)
    (hinit : commInit c₀ length commSimple = some (cc, 0)) : ChannelInv ⟨cc, [], []⟩ := by
  obtain rfl : _ = cc := by simpa [commInit, commSimple] using hinit
  have hdl : (length - commHeader).toNat + 56 = length.toNat := by
    simp only [commHeader] at hlen ⊢
    bv_omega
  have hpos : 0 < (length - commHeader).toNat := by
    simp only [commHeader] at hlen ⊢
    bv_omega
  refine ⟨⟨⟨hpos, by simp [Channel.pending, encodeAll], ?_, ?_⟩, ?_, ?_⟩, List.prefix_refl _, hdl⟩
  · exact (if_pos hpos).symm
  · exact fun i hi => absurd hi (by simp [Channel.pending, encodeAll])
  · rfl
  · exact fun packet hp => absurd hp (by simp [Channel.pending])

/-- **A channel is a queue**, from `comm_init` on and for every fill level and wrap position,
    as long as no packet is put into a full ring. -/
theorem channel_fifo {c₀ cc : Comm} {length : Word} (hlen : commHeader < length)
    (hinit : commInit c₀ length commSimple = some (cc, 0)) {tr : List (CommOp × Nat)}
    {w : Channel}
    (h : RunIf commStep (fun w op => CommCallerOk w op ∧ NotIntoFull w op) ⟨cc, [], []⟩ tr w) :
    Fifo w :=
  (h.invariant_state ChannelInv (channelInv_init hlen hinit)
    fun _ _ _ _ hinv hok hstep => channelInv_step hinv hok hstep).fifo

/-- Ten bytes of ring behind whatever a channel's memory held before. -/
def smallChannel : Comm := ⟨66, commHeader, 10, 0, 0, 0, 0, fun _ => 0xff⟩

/-- A packet in, a packet out, and one that wraps: the theorem at a run with all three. -/
theorem channel_fifo_of_three : ∃ w, RunIf commStep
      (fun w op => CommCallerOk w op ∧ NotIntoFull w op) ⟨smallChannel, [], []⟩
      [(.put [1, 2], 0), (.peek 2, 0), (.put [3, 4, 5], 0)] w ∧
    w.accepted = [[1, 2], [3, 4, 5]] ∧ w.delivered = [[1, 2]] ∧ Fifo w := by
  have hinit : commInit smallChannel 66 commSimple = some (smallChannel, 0) := rfl
  have h := RunIf.of_exec commStep (fun w op => CommCallerOk w op ∧ NotIntoFull w op)
    ⟨smallChannel, [], []⟩ [.put [1, 2], .peek 2, .put [3, 4, 5]] rfl
  exact ⟨_, h, rfl, rfl, channel_fifo (by decide) hinit h⟩

/-- **Two packets that each fill the ring**: the second is accepted and written over the
    first, which the next `comm_peek` then does not deliver. -/
theorem channel_overwrites : commInit smallChannel 66 commSimple = some (smallChannel, 0) ∧
    ∃ w, RunIf commStep CommCallerOk ⟨smallChannel, [], []⟩
      [(.put [1, 2, 3, 4, 5, 6], 0), (.put [7, 8, 9, 10, 11, 12], 0), (.peek 6, 0)] w ∧
    w.accepted = [[1, 2, 3, 4, 5, 6], [7, 8, 9, 10, 11, 12]] ∧
    w.delivered = [[7, 8, 9, 10, 11, 12]] ∧ ¬ Fifo w := by
  have h := RunIf.of_exec commStep CommCallerOk ⟨smallChannel, [], []⟩
    [.put [1, 2, 3, 4, 5, 6], .put [7, 8, 9, 10, 11, 12], .peek 6] rfl
  exact ⟨rfl, _, h, rfl, rfl, fun h => absurd h.oldest (by decide)⟩

end Refk
