import Refk.Clib.CommExact
import Refk.Rlib.Anonymous

/-!
# `rlib/scheduler.c` — requests and their replies

A task writes a packet into its channel to the scheduler, and `int $0xfe` has the scheduler serve
it. The replies come back through another channel, and not everybody reads them: `rlib_wait`,
`rlib_wake` and `rlib_ready_task` leave theirs there. So whoever waits for a reply reads until one
has the number of the request.

`rlib_anonymous_answered` takes such a call from the bytes of the packet to the bytes of the reply,
with other tasks running whenever the scheduler gets to choose.
-/

namespace Refk

open Lib

/-- `rlib_sequence`: the word at `%gs:0x400`, which is also the answer. -/
def rlibSequence (seq : Word) : Word :=
  if seq + 1 = 0 then seq + 1 + 1 else seq + 1

/-- What a task of the library finds behind `%gs`: its id, and the windows of its channels. -/
structure ClientTask where
  ownId : Nat
  schedin : Word
  schedout : Word

/-- `in`, filled in over what the stack holds. -/
def inFilled (stack : Bytes) (type : Byte) (reqId : Word) (args : List (Nat × Word)) : Bytes :=
  Bytes.fill (Bytes.setWord (store stack 0 [type]) 8 reqId) args

/-- The packet. -/
def inPacket (stack : Bytes) (type : Byte) (reqId : Word) (args : List (Nat × Word)) : List Byte :=
  load (inFilled stack type reqId args) 0 56

/-- `process_for` -/
def processFor (fuel : Nat) (l : Locals) (s : Sched) (taskId : Nat) : Option Sched :=
  match (List.range s.queueSize).find? fun i => (s.queue i).taskId = taskId with
  | none => some s
  | some q => processLoop q fuel s l

/-- What goes on around a task: the scheduler's turns and its stack, and what the other tasks do
    until the task runs again. -/
structure Around where
  fuel : Nat
  locals : Nat → Locals
  others : Nat → Sched → Sched

/-- `rlib_process_queued`, an `int $0xfe`: the scheduler serves the task, and others may run before
    it goes on. -/
def Around.processQueued (w : Around) (t : ClientTask) (n : Nat) (s : Sched) : Option Sched :=
  (processFor w.fuel (w.locals n) s t.ownId).map (w.others n)

/-- The loop that waits for a reply: `out` is what has been read, and `pause` what is done in its
    body. -/
def awaitReply (t : ClientTask) (pause : Nat → Sched → Option Sched) (reqId : Word) :
    Nat → Nat → Sched → Bytes → Option (Sched × Bytes)
  | 0, _, _, _ => none
  | fuel + 1, n, s, out =>
    let (cc, read) := commRead (s.channels t.schedout) (BitVec.ofNat 64 outSize)
    let s := s.setChannel t.schedout cc
    let out : Bytes := store out 0 read.bytes
    if read.ret ≠ 0 ∨ out.word 8 ≠ reqId then do
      let s ← pause n s
      awaitReply t pause reqId fuel (n + 1) s out
    else some (s, out)

/-- A request is sent and served. -/
def sendRequest (w : Around) (t : ClientTask) (stack : Bytes) (reqId : Word) (type : Byte)
    (args : List (Nat × Word)) (s : Sched) : Option Sched :=
  let (cc, _) := commWrite (s.channels t.schedin) (inPacket stack type reqId args)
  w.processQueued t 0 (s.setChannel t.schedin cc)

/-- `rlib_create_task`, with the reply. -/
def rlibCreateTask (w : Around) (t : ClientTask) (stack out : Bytes) (seq root : Word) (fuel : Nat)
    (s : Sched) : Option (Sched × Bytes) := do
  let s ← sendRequest w t stack (rlibSequence seq) 9 [(16, root)] s
  awaitReply t (fun n s => some (w.others n s)) (rlibSequence seq) fuel 1 s out

/-- `rlib_wait` -/
def rlibWait (w : Around) (t : ClientTask) (stack : Bytes) (seq pointer value : Word) (s : Sched) :
    Option Sched :=
  sendRequest w t stack (rlibSequence seq) 1 [(16, pointer), (24, value)] s

/-- `rlib_wake` -/
def rlibWake (w : Around) (t : ClientTask) (stack : Bytes) (seq pointer value count : Word)
    (s : Sched) : Option Sched :=
  sendRequest w t stack (rlibSequence seq) 2 [(16, pointer), (24, value), (32, count)] s

/-- `rlib_ready_task` -/
def rlibReadyTask (w : Around) (t : ClientTask) (stack : Bytes) (seq task : Word) (s : Sched) :
    Option Sched :=
  sendRequest w t stack (rlibSequence seq) 10
    [(16, task), (24, 27), (32, taskStateValid ||| taskStateRunnable)] s

/-- `rlib_reap_self`, up to the loop behind it. -/
def rlibReapSelf (w : Around) (t : ClientTask) (stack : Bytes) (seq : Word) (s : Sched) :
    Option Sched :=
  sendRequest w t stack (rlibSequence seq) 11 [(16, 0)] s

/-- `rlib_anonymous` from the packet on, with the reply. -/
def rlibAnonymousCall (w : Around) (t : ClientTask) (stack out : Bytes) (seq address size : Word)
    (fuel : Nat) (s : Sched) : Option (Sched × Bytes) := do
  let s ← sendRequest w t stack (rlibSequence seq) 3 [(16, 0), (24, address), (32, size)] s
  awaitReply t (w.processQueued t) (rlibSequence seq) fuel 1 s (out.setWord 8 0)

/-! ## Packets -/

/-- What the library writes for a request: the type, and the arguments. -/
def Request.written : Request → Option (Byte × List (Nat × Word))
  | .wait address value => some (1, [(16, address), (24, value)])
  | .wake address value count => some (2, [(16, address), (24, value), (32, count)])
  | .mapAnonymous root address size => some (3, [(16, root), (24, address), (32, size)])
  | .mapMirror root address oroot oaddress size =>
    some (5, [(16, root), (24, address), (32, oroot), (40, oaddress), (48, size)])
  | .spawn root => some (9, [(16, root)])
  | .setState task index value => some (10, [(16, task), (24, index), (32, value)])
  | .reap task => some (11, [(16, task)])
  | _ => none

section
variable {s s' : Sched} {t : ClientTask} {w : Around} {l : Locals} {stack : Bytes} {type : Byte}
  {args : List (Nat × Word)} {reqId seq : Word} {r : Request}

theorem rlibSequence_ne_zero (seq : Word) : rlibSequence seq ≠ 0 := by
  unfold rlibSequence
  split_ifs with h
  · rw [h]
    decide
  · exact h

theorem length_inPacket : (inPacket stack type reqId args).length = 56 := length_load

theorem receive_input {packet : List Byte} {b : Bytes} {i : Nat} (h : packet = load b 0 56)
    (hi : i < 56) : (l.receive packet).input i = b i := by
  have hlen : i < packet.length := by
    rw [h, length_load]
    exact hi
  have hadd : store l.input 0 packet (0 + i) = packet[i] := store_add hlen
  rw [Nat.zero_add] at hadd
  change store l.input 0 packet i = b i
  rw [hadd]
  subst h
  rw [getElem_load, Nat.zero_add]

theorem receive_word (off : Nat) (hoff : off + 8 ≤ 56) :
    (l.receive (inPacket stack type reqId args)).input.word off =
      (inFilled stack type reqId args).word off :=
  word_congr fun i _ hi => receive_input rfl (by omega)

theorem receive_type (h : ∀ a ∈ args, 16 ≤ a.1) :
    (l.receive (inPacket stack type reqId args)).type = type := by
  have hinput : (l.receive (inPacket stack type reqId args)).input 0 =
      inFilled stack type reqId args 0 := receive_input rfl (by omega)
  rw [Locals.type, hinput, inFilled, fill_other, setWord_other (by omega)]
  · rfl
  · intro ⟨a, ha, hle, _⟩
    have := h a ha
    omega

theorem fill_word_other {b : Bytes} {off : Nat} (h : ∀ a ∈ args, off + 8 ≤ a.1 ∨ a.1 + 8 ≤ off) :
    (b.fill args).word off = b.word off := by
  apply word_congr
  intro i hi hi'
  apply fill_other
  intro ⟨a, ha, hle, hlt⟩
  have := h a ha
  omega

/-- Words that do not overlap are what they have been filled in with. -/
theorem fill_word {b : Bytes} {off : Nat} {v : Word}
    (hapart : args.Pairwise fun a a' => a.1 + 8 ≤ a'.1 ∨ a'.1 + 8 ≤ a.1) (h : (off, v) ∈ args) :
    (b.fill args).word off = v := by
  induction args generalizing b with
  | nil => cases h
  | cons a args ih =>
    obtain ⟨hhead, htail⟩ := List.pairwise_cons.mp hapart
    change (Bytes.fill (b.setWord a.1 a.2) args).word off = v
    rcases List.mem_cons.mp h with rfl | hmem
    · rw [fill_word_other hhead, word_setWord]
    · exact ih htail hmem

theorem receive_reqId (h : ∀ a ∈ args, 16 ≤ a.1) :
    (l.receive (inPacket stack type reqId args)).reqId = reqId := by
  rw [Locals.reqId, receive_word 8 (by omega), inFilled, fill_word_other fun a ha => ?_,
    word_setWord]
  have := h a ha
  omega

/-- **What the library writes is what the scheduler reads**, whatever was on the two stacks. -/
theorem request_written (l : Locals) (stack : Bytes) (reqId : Word)
    (h : r.written = some (type, args)) :
    (l.receive (inPacket stack type reqId args)).request = r ∧
      (l.receive (inPacket stack type reqId args)).reqId = reqId := by
  have harg : ∀ i < 5, args.Pairwise (fun a a' => a.1 + 8 ≤ a'.1 ∨ a'.1 + 8 ≤ a.1) →
      ∀ v, (16 + 8 * i, v) ∈ args → (l.receive (inPacket stack type reqId args)).arg i = v :=
    fun i hi hapart v hv => (receive_word _ (by omega)).trans (fill_word hapart hv)
  cases r with
  | wait address value =>
    obtain ⟨rfl, rfl⟩ := Prod.mk.inj (Option.some.inj h)
    rw [Locals.request, receive_type (by simp), receive_reqId (by simp)]
    refine ⟨?_, rfl⟩
    change Request.wait _ _ = _
    rw [harg 0 (by omega) (by simp) address (by simp), harg 1 (by omega) (by simp) value (by simp)]
  | wake address value count =>
    obtain ⟨rfl, rfl⟩ := Prod.mk.inj (Option.some.inj h)
    rw [Locals.request, receive_type (by simp), receive_reqId (by simp)]
    refine ⟨?_, rfl⟩
    change Request.wake _ _ _ = _
    rw [harg 0 (by omega) (by simp) address (by simp), harg 1 (by omega) (by simp) value (by simp),
      harg 2 (by omega) (by simp) count (by simp)]
  | mapAnonymous root address size =>
    obtain ⟨rfl, rfl⟩ := Prod.mk.inj (Option.some.inj h)
    rw [Locals.request, receive_type (by simp), receive_reqId (by simp)]
    refine ⟨?_, rfl⟩
    change Request.mapAnonymous _ _ _ = _
    rw [harg 0 (by omega) (by simp) root (by simp), harg 1 (by omega) (by simp) address (by simp),
      harg 2 (by omega) (by simp) size (by simp)]
  | mapMirror root address oroot oaddress size =>
    obtain ⟨rfl, rfl⟩ := Prod.mk.inj (Option.some.inj h)
    rw [Locals.request, receive_type (by simp), receive_reqId (by simp)]
    refine ⟨?_, rfl⟩
    change Request.mapMirror _ _ _ _ _ = _
    rw [harg 0 (by omega) (by simp) root (by simp), harg 1 (by omega) (by simp) address (by simp),
      harg 2 (by omega) (by simp) oroot (by simp), harg 3 (by omega) (by simp) oaddress (by simp),
      harg 4 (by omega) (by simp) size (by simp)]
  | spawn root =>
    obtain ⟨rfl, rfl⟩ := Prod.mk.inj (Option.some.inj h)
    rw [Locals.request, receive_type (by simp), receive_reqId (by simp)]
    refine ⟨?_, rfl⟩
    change Request.spawn _ = _
    rw [harg 0 (by omega) (by simp) root (by simp)]
  | setState task index value =>
    obtain ⟨rfl, rfl⟩ := Prod.mk.inj (Option.some.inj h)
    rw [Locals.request, receive_type (by simp), receive_reqId (by simp)]
    refine ⟨?_, rfl⟩
    change Request.setState _ _ _ = _
    rw [harg 0 (by omega) (by simp) task (by simp), harg 1 (by omega) (by simp) index (by simp),
      harg 2 (by omega) (by simp) value (by simp)]
  | reap task =>
    obtain ⟨rfl, rfl⟩ := Prod.mk.inj (Option.some.inj h)
    rw [Locals.request, receive_type (by simp), receive_reqId (by simp)]
    refine ⟨?_, rfl⟩
    change Request.reap _ = _
    rw [harg 0 (by omega) (by simp) task (by simp)]
  | forward | mapPhysical | unmap | setName | getNamed | unknown => cases h

end

/-! ## Channels -/

/-- A channel of the plain kind that holds these packets. -/
structure Backlog (cc : Comm) (ps : List (List Byte)) : Prop where
  plain : cc.flags &&& commTypeMask = 0
  stores : Stores cc ps
  small : cc.dataLength.toNat < 2 ^ 63

section
variable {cc : Comm} {packet : List Byte} {ps : List (List Byte)} {n : Word}

theorem flags_commPutData (cc : Comm) (data : List Byte) (n : Word) :
    (commPutData cc data n).flags = cc.flags := by
  unfold commPutData
  split <;> rfl

theorem flags_commPut (cc : Comm) (data : List Byte) : (commPut cc data).1.flags = cc.flags := by
  unfold commPut
  simp only []
  split
  · rfl
  · simp only [flags_commPutData]

theorem flags_commGetData (cc : Comm) (n : Word) : (commGetData cc n).1.flags = cc.flags := by
  unfold commGetData
  split <;> rfl

theorem flags_commPeek (cc : Comm) (n : Word) : (commPeek cc n).1.flags = cc.flags := by
  unfold commPeek
  simp only []
  split
  · rfl
  · split
    · rw [(sameHeader_commSkipData _ _).flags, flags_commGetData]
    · rw [flags_commGetData, flags_commGetData]

theorem dataLength_commGetData (cc : Comm) (n : Word) :
    (commGetData cc n).1.dataLength = cc.dataLength := by
  unfold commGetData
  split <;> rfl

theorem dataLength_commRead (cc : Comm) (n : Word) :
    (commRead cc n).1.dataLength = cc.dataLength := by
  unfold commRead commPeek
  simp only []
  split
  · split
    · rfl
    · split
      · rw [(sameHeader_commSkipData _ _).dataLength, dataLength_commGetData]
      · rw [dataLength_commGetData, dataLength_commGetData]
  · rfl

theorem dataLength_commPutData (cc : Comm) (data : List Byte) (n : Word) :
    (commPutData cc data n).dataLength = cc.dataLength := by
  unfold commPutData
  split <;> rfl

theorem dataLength_commWrite (cc : Comm) (data : List Byte) :
    (commWrite cc data).1.dataLength = cc.dataLength := by
  unfold commWrite commPut
  simp only []
  split
  · split
    · rfl
    · simp only [dataLength_commPutData]
  · rfl

theorem Backlog.write (h : Backlog cc ps) (packet : List Byte) (hshort : packet.length < 2 ^ 32)
    (hroom : (encodeAll ps).length + (4 + packet.length) ≤ cc.dataLength.toNat) :
    Backlog (commWrite cc packet).1 (ps ++ [packet]) ∧
      (commWrite cc packet).1.dataLength = cc.dataLength := by
  have hsmall := h.small
  have hfull : ¬ RingFull cc := by
    intro hfull
    have hfree := free_full h.stores hfull
    rw [free] at hfree
    omega
  obtain ⟨-, hstores, hlength, -⟩ := commPut_fits h.stores hfull hshort (by omega) hroom
  rw [commWrite, if_pos h.plain]
  refine ⟨⟨?_, hstores, ?_⟩, hlength⟩
  · rw [flags_commPut]
    exact h.plain
  · rw [hlength]
    exact hsmall

theorem Backlog.read (h : Backlog cc (packet :: ps)) (hsize : packet.length ≤ n.toNat) :
    (commRead cc n).2 = ⟨0, some (BitVec.ofNat 64 packet.length), packet⟩ ∧
      Backlog (commRead cc n).1 ps ∧ (commRead cc n).1.dataLength = cc.dataLength := by
  obtain ⟨hread, hstores, hlength, -⟩ := commPeek_head h.stores hsize
  rw [commRead, if_pos h.plain]
  refine ⟨hread, ⟨?_, hstores, ?_⟩, hlength⟩
  · rw [flags_commPeek]
    exact h.plain
  · rw [hlength]
    exact h.small

theorem Backlog.empty (h : Backlog cc []) (n : Word) : commRead cc n = (cc, ⟨1, none, []⟩) := by
  rw [commRead, if_pos h.plain]
  exact commPeek_empty h.stores

end

/-! ## A turn of the scheduler -/

/-- The task's entry in the queue is `q`, and its channels are those. -/
structure ClientAt (s : Sched) (t : ClientTask) (q : Nat) (i : TaskInfo) : Prop where
  inside : q < s.queueSize
  task : (s.queue q).taskId = t.ownId
  first : ∀ j < q, (s.queue j).taskId ≠ t.ownId
  entry : s.entryInfo q = some i
  sin : i.sin = t.schedin
  sout : i.sout = t.schedout
  apart : t.schedin ≠ t.schedout

/-- A request leaves the sender's entry and its channels alone. -/
structure LeavesClient (s s' : Sched) (t : ClientTask) (q : Nat) (i : TaskInfo) : Prop where
  place : ClientAt s' t q i
  schedin : s'.channels t.schedin = s.channels t.schedin
  schedout : s'.channels t.schedout = s.channels t.schedout

/-- `status` when a request has been handled. -/
def answered (l : Locals) (packet : List Byte) (ws : List (Nat × Word)) : Bytes :=
  (l.receive packet).start.status.fill ws

section
variable {s s₁ s₂ : Sched} {t : ClientTask} {q : Nat} {i : TaskInfo} {l : Locals}
  {packet : List Byte} {ps : List (List Byte)} {ws : List (Nat × Word)} {r : Request} {n : Nat}
  {window : Word} {cc : Comm}

theorem ClientAt.setChannel (h : ClientAt s t q i) (window : Word) (cc : Comm) :
    ClientAt (s.setChannel window cc) t q i :=
  ⟨h.inside, h.task, h.first, h.entry, h.sin, h.sout, h.apart⟩

theorem setChannel_self (s : Sched) (window : Word) :
    s.setChannel window (s.channels window) = s := by
  unfold Sched.setChannel
  rw [Function.update_eq_self]

theorem channels_setChannel_self (s : Sched) (window : Word) (cc : Comm) :
    (s.setChannel window cc).channels window = cc := Function.update_self ..

theorem channels_setChannel_other (h : t.schedin ≠ t.schedout) (cc : Comm) :
    (s.setChannel t.schedin cc).channels t.schedout = s.channels t.schedout ∧
      (s.setChannel t.schedout cc).channels t.schedin = s.channels t.schedin :=
  ⟨Function.update_of_ne h.symm .., Function.update_of_ne h ..⟩

theorem ClientAt.processFor (h : ClientAt s t q i) (fuel : Nat) (l : Locals) :
    processFor fuel l s t.ownId = processLoop q fuel s l := by
  have hfind : (List.range s.queueSize).find? (fun j => (s.queue j).taskId = t.ownId) = some q := by
    rw [List.find?_range_eq_some]
    refine ⟨by simpa using h.task, List.mem_range.mpr h.inside, fun j hj => ?_⟩
    simpa using h.first j hj
  unfold Refk.processFor
  rw [hfind]

/-- Nothing to read. -/
theorem processLoop_idle (h : ClientAt s t q i) (hin : Backlog (s.channels t.schedin) [])
    (fuel : Nat) (l : Locals) : processLoop q (fuel + 1) s l = some s := by
  have hturn : processTurn s q l = some (s, l, false) := by
    simp only [processTurn, h.entry, h.sin, hin.empty, Option.bind_eq_bind, Option.bind_some]
    rw [if_pos (by decide)]
    have hself := setChannel_self s t.schedin
    unfold Sched.setChannel at hself
    rw [hself]
    rfl
  rw [processLoop, hturn]
  rfl

/-- A turn for a request: its effect, and the reply behind those that wait to be read. -/
theorem processTurn_serves (h : ClientAt s t q i)
    (hin : Backlog (s.channels t.schedin) (packet :: ps)) (hlen : packet.length ≤ 56)
    (hreq : (l.receive packet).request = r) (hid : (answered l packet ws).word 8 ≠ 0)
    (heffect : effect (s.setChannel t.schedin (commRead (s.channels t.schedin) inSize).1) q r =
      some (s₁, ws))
    (hkept : LeavesClient (s.setChannel t.schedin (commRead (s.channels t.schedin) inSize).1) s₁
      t q i) :
    ∃ l', processTurn s q l = some (s₁.setChannel t.schedout
      (commWrite (s₁.channels t.schedout) (load (answered l packet ws) 0 outSize)).1, l', true) := by
  obtain ⟨hread, -, -⟩ := hin.read (n := inSize) hlen
  have hhandle := handle_eq (s.setChannel t.schedin (commRead (s.channels t.schedin) inSize).1) q
    (l.receive packet).start (start_status_zero _)
  have hrequest : (l.receive packet).start.request = r := hreq
  rw [hrequest, heffect] at hhandle
  obtain ⟨⟨s', l'⟩, hrun, heq⟩ := Option.map_eq_some_iff.mp hhandle
  obtain ⟨rfl, hstatus⟩ := Prod.mk.inj heq
  have hreply : reply s' q l' = some (s'.setChannel t.schedout
      (commWrite (s'.channels t.schedout) (load (answered l packet ws) 0 outSize)).1) := by
    have hword : l'.status.word 8 ≠ 0 := by
      rw [hstatus]
      exact hid
    have hstatus' : l'.status = answered l packet ws := hstatus
    unfold reply
    rw [if_neg hword, hkept.place.entry, hstatus', Option.bind_eq_bind, Option.bind_some,
      hkept.place.sout]
    rfl
  refine ⟨l', ?_⟩
  unfold processTurn
  rw [h.entry, Option.bind_eq_bind, Option.bind_some]
  simp only [h.sin, hread]
  rw [if_neg (by decide)]
  change (handle (s.setChannel t.schedin _) q (l.receive packet).start).bind _ = _
  rw [hrun, Option.bind_some]
  simp only [hreply, Option.bind_eq_bind, Option.bind_some]
  rfl

/-- **A request is served.** -/
theorem processFor_serves (h : ClientAt s t q i) (hin : Backlog (s.channels t.schedin) [packet])
    (hlen : packet.length ≤ 56) (hreq : (l.receive packet).request = r)
    (hid : (answered l packet ws).word 8 ≠ 0)
    (heffect : effect (s.setChannel t.schedin (commRead (s.channels t.schedin) inSize).1) q r =
      some (s₁, ws))
    (hkept : LeavesClient (s.setChannel t.schedin (commRead (s.channels t.schedin) inSize).1) s₁
      t q i) (fuel : Nat) :
    processFor (fuel + 2) l s t.ownId = some (s₁.setChannel t.schedout
      (commWrite (s₁.channels t.schedout) (load (answered l packet ws) 0 outSize)).1) := by
  obtain ⟨-, hempty, -⟩ := hin.read (n := inSize) hlen
  obtain ⟨l', hturn⟩ := processTurn_serves h hin hlen hreq hid heffect hkept
  rw [h.processFor, processLoop, hturn]
  simp only [Option.bind_eq_bind, Option.bind_some, if_true]
  apply processLoop_idle (hkept.place.setChannel _ _)
  rw [(channels_setChannel_other h.apart _).2, hkept.schedin, channels_setChannel_self]
  exact hempty

end

/-! ## The wait for the reply -/

/-- The task has its place, and no request of its waits to be served. -/
def Idle (t : ClientTask) (s : Sched) : Prop :=
  (∃ q i, ClientAt s t q i) ∧ Backlog (s.channels t.schedin) []

/-- What is done while the task waits leaves its channels alone. -/
def Pauses (t : ClientTask) (pause : Nat → Sched → Option Sched) : Prop :=
  ∀ n s, Idle t s → ∃ s', pause n s = some s' ∧ Idle t s' ∧
    s'.channels t.schedout = s.channels t.schedout

/-- The other tasks leave a task's channels and its place in the queue alone. -/
structure Considerate (w : Around) (t : ClientTask) : Prop where
  turns : 2 ≤ w.fuel
  place : ∀ n s, (∃ q i, ClientAt s t q i) → ∃ q i, ClientAt (w.others n s) t q i
  schedin : ∀ n s, (w.others n s).channels t.schedin = s.channels t.schedin
  schedout : ∀ n s, (w.others n s).channels t.schedout = s.channels t.schedout

/-- A reply to some other request. -/
def StaleReply (reqId : Word) (packet : List Byte) : Prop :=
  ∃ b : Bytes, packet = load b 0 outSize ∧ b.word 8 ≠ reqId

/-- What happens while a task waits: it reads from its channel, and the others run. -/
inductive Waited (w : Around) (t : ClientTask) (s : Sched) : Sched → Prop
  | start : Waited w t s s
  | read {s' : Sched} : Waited w t s s' → Waited w t s (s'.setChannel t.schedout
      (commRead (s'.channels t.schedout) (BitVec.ofNat 64 outSize)).1)
  | others {s' : Sched} (n : Nat) : Waited w t s s' → Waited w t s (w.others n s')

section
variable {s s' : Sched} {t : ClientTask} {w : Around} {reqId : Word} {b out' : Bytes}
  {pause : Nat → Sched → Option Sched}

/-- What reads and the others keep is kept. -/
theorem Waited.keeps {K : Sched → Prop} (hread : ∀ s cc, K s → K (s.setChannel t.schedout cc))
    (hothers : ∀ n s, K s → K (w.others n s)) (h : Waited w t s s') (hs : K s) : K s' := by
  induction h with
  | start => exact hs
  | read _ ih => exact hread _ _ ih
  | others n _ ih => exact hothers n _ ih

theorem Considerate.idle (h : Considerate w t) (n : Nat) (hs : Idle t s) :
    Idle t (w.others n s) := by
  refine ⟨h.place n s hs.1, ?_⟩
  rw [h.schedin]
  exact hs.2

/-- Others run. -/
theorem Considerate.pauses (h : Considerate w t) : Pauses t fun n s => some (w.others n s) :=
  fun n s hs => ⟨w.others n s, rfl, h.idle n hs, h.schedout n s⟩

/-- The scheduler is asked again, and has nothing to do. -/
theorem Considerate.processQueued_idle (h : Considerate w t) (n : Nat) (hs : Idle t s) :
    w.processQueued t n s = some (w.others n s) := by
  obtain ⟨⟨q, i, hplace⟩, hin⟩ := hs
  obtain ⟨fuel, hfuel⟩ : ∃ fuel, w.fuel = fuel + 1 := ⟨w.fuel - 1, by have := h.turns; omega⟩
  rw [Around.processQueued, hfuel, hplace.processFor, processLoop_idle hplace hin, Option.map_some]

theorem Considerate.pauses_processQueued (h : Considerate w t) :
    Pauses t (w.processQueued t) :=
  fun n s hs => ⟨w.others n s, h.processQueued_idle n hs, h.idle n hs, h.schedout n s⟩

/-- A packet is read over `out`. -/
theorem store_reply (out b : Bytes) {i : Nat} (hi : i < outSize) :
    store out 0 (load b 0 outSize) i = b i := by
  have hlen : i < (load b 0 outSize).length := by
    rw [length_load]
    exact hi
  have hadd : store out 0 (load b 0 outSize) (0 + i) = (load b 0 outSize)[i] := store_add hlen
  rw [Nat.zero_add, getElem_load, Nat.zero_add] at hadd
  exact hadd

theorem store_reply_word (out b : Bytes) :
    Bytes.word (store out 0 (load b 0 outSize)) 8 = b.word 8 :=
  word_congr fun i _ hi => store_reply out b (by unfold outSize; omega)

/-- A reply is read. -/
theorem Idle.setReplies (h : Idle t s) (cc : Comm) : Idle t (s.setChannel t.schedout cc) := by
  obtain ⟨⟨q, i, hplace⟩, hin⟩ := h
  refine ⟨⟨q, i, hplace.setChannel _ _⟩, ?_⟩
  rw [(channels_setChannel_other hplace.apart cc).2]
  exact hin

/-- **The wait ends with the reply that has the request's number**, however many others are in front
    of it. -/
theorem awaitReply_reads (hpause : Pauses t pause) (hid : b.word 8 = reqId)
    (ps : List (List Byte)) : ∀ (fuel n : Nat) (s : Sched) (out : Bytes), Idle t s →
      Backlog (s.channels t.schedout) (ps ++ [load b 0 outSize]) →
      (∀ p ∈ ps, StaleReply reqId p) → ps.length < fuel →
      ∃ s' out', awaitReply t pause reqId fuel n s out = some (s', out') ∧
        (∀ i < outSize, out' i = b i) ∧ Idle t s' ∧ Backlog (s'.channels t.schedout) [] := by
  induction ps with
  | nil =>
    intro fuel n s out hs hout _ hfuel
    obtain ⟨fuel, rfl⟩ : ∃ f, fuel = f + 1 := ⟨fuel - 1, by omega⟩
    obtain ⟨hpeek, hrest, -⟩ := hout.read (n := BitVec.ofNat 64 outSize)
      (by rw [length_load]; decide)
    refine ⟨s.setChannel t.schedout (commRead (s.channels t.schedout) (BitVec.ofNat 64 outSize)).1,
      store out 0 (load b 0 outSize), ?_, fun i hi => store_reply out b hi, hs.setReplies _, ?_⟩
    · rw [awaitReply]
      simp only [hpeek, store_reply_word]
      rw [if_neg (by simp [hid])]
    · rw [channels_setChannel_self]
      exact hrest
  | cons p ps ih =>
    intro fuel n s out hs hout hstale hfuel
    obtain ⟨fuel, rfl⟩ : ∃ f, fuel = f + 1 := ⟨fuel - 1, by omega⟩
    obtain ⟨c, rfl, hc⟩ := hstale p List.mem_cons_self
    obtain ⟨hpeek, hrest, -⟩ := hout.read (n := BitVec.ofNat 64 outSize)
      (by rw [length_load]; decide)
    obtain ⟨s', hrun, hs', hchannel⟩ := hpause n _
      (hs.setReplies (commRead (s.channels t.schedout) (BitVec.ofNat 64 outSize)).1)
    rw [channels_setChannel_self] at hchannel
    rw [← hchannel] at hrest
    rw [List.length_cons] at hfuel
    obtain ⟨s'', out'', hrun', hdone⟩ := ih fuel (n + 1) s'
      (store out 0 (load c 0 outSize)) hs' hrest
      (fun p' hp' => hstale p' (List.mem_cons_of_mem _ hp')) (by omega)
    refine ⟨s'', out'', ?_, hdone⟩
    rw [awaitReply]
    simp only [hpeek, store_reply_word]
    rw [if_pos (.inr hc), hrun, Option.bind_eq_bind, Option.bind_some]
    exact hrun'

/-- What the pauses keep is kept by the wait. -/
theorem awaitReply_keeps {K : Sched → Prop}
    (hread : ∀ s, K s → K (s.setChannel t.schedout
      (commRead (s.channels t.schedout) (BitVec.ofNat 64 outSize)).1))
    (hpause : ∀ n s s', K s → pause n s = some s' → K s') (fuel : Nat) : ∀ (n : Nat) (s : Sched)
      (out : Bytes), K s → awaitReply t pause reqId fuel n s out = some (s', out') → K s' := by
  induction fuel with
  | zero => exact fun _ _ _ _ h => nomatch h
  | succ fuel ih =>
    intro n s out hs hrun
    have hs' := hread s hs
    rw [awaitReply] at hrun
    simp only [Option.bind_eq_bind] at hrun
    split at hrun
    · obtain ⟨s₁, hs₁, hrun⟩ := Option.bind_eq_some_iff.mp hrun
      exact ih (n + 1) s₁ _ (hpause n _ _ hs' hs₁) hrun
    · obtain ⟨rfl, -⟩ := Prod.mk.inj (Option.some.inj hrun)
      exact hs'

/-- Without such a reply it does not end. -/
theorem awaitReply_hangs (hpause : Pauses t pause) (fuel : Nat) : ∀ (n : Nat) (s : Sched)
    (out : Bytes) (ps : List (List Byte)), Idle t s → Backlog (s.channels t.schedout) ps →
      (∀ p ∈ ps, StaleReply reqId p) → awaitReply t pause reqId fuel n s out = none := by
  induction fuel with
  | zero => exact fun _ _ _ _ _ _ _ => rfl
  | succ fuel ih =>
    intro n s out ps hs hout hstale
    cases ps with
    | nil =>
      obtain ⟨s', hrun, hs', hchannel⟩ := hpause n s hs
      have hout' := hout
      rw [← hchannel] at hout'
      rw [awaitReply]
      simp only [hout.empty, setChannel_self]
      rw [if_pos (.inl (by decide)), hrun, Option.bind_eq_bind, Option.bind_some]
      exact ih (n + 1) s' _ [] hs' hout' hstale
    | cons p ps =>
      obtain ⟨c, rfl, hc⟩ := hstale p List.mem_cons_self
      obtain ⟨hpeek, hrest, -⟩ := hout.read (n := BitVec.ofNat 64 outSize)
        (by rw [length_load]; decide)
      obtain ⟨s', hrun, hs', hchannel⟩ := hpause n _
        (hs.setReplies (commRead (s.channels t.schedout) (BitVec.ofNat 64 outSize)).1)
      rw [channels_setChannel_self] at hchannel
      rw [← hchannel] at hrest
      rw [awaitReply]
      simp only [hpeek, store_reply_word]
      rw [if_pos (.inr hc), hrun, Option.bind_eq_bind, Option.bind_some]
      exact ih (n + 1) s' _ ps hs' hrest fun p' hp' => hstale p' (List.mem_cons_of_mem _ hp')

end

/-! ## Calls -/

/-- A task can send a request: it has its place, the others leave its channels alone, its requests
    have been served, and none of the replies that it has not read is to the next one. -/
structure CanSend (s : Sched) (w : Around) (t : ClientTask) (q : Nat) (i : TaskInfo)
    (stale : List (List Byte)) (reqId : Word) : Prop where
  place : ClientAt s t q i
  around : Considerate w t
  requests : Backlog (s.channels t.schedin) []
  replies : Backlog (s.channels t.schedout) stale
  others : ∀ p ∈ stale, StaleReply reqId p
  room : 60 ≤ (s.channels t.schedin).dataLength.toNat

/-- There is room for one more reply. -/
def ReplyFits (cc : Comm) (stale : List (List Byte)) : Prop :=
  (encodeAll stale).length + 44 ≤ cc.dataLength.toNat

section
variable {s s₁ : Sched} {w : Around} {t : ClientTask} {q : Nat} {i : TaskInfo}
  {stale : List (List Byte)} {reqId : Word} {r : Request} {type : Byte} {args : List (Nat × Word)}
  {stack : Bytes} {ws : List (Nat × Word)}

/-- The state when the request has been read: its channel is empty again. -/
def received (s : Sched) (t : ClientTask) (packet : List Byte) : Sched :=
  s.setChannel t.schedin (commRead (commWrite (s.channels t.schedin) packet).1 inSize).1

/-- The channel is written to, and read. -/
theorem received_eq (s : Sched) (t : ClientTask) (packet : List Byte) :
    (s.setChannel t.schedin (commWrite (s.channels t.schedin) packet).1).setChannel t.schedin
      (commRead ((s.setChannel t.schedin (commWrite (s.channels t.schedin) packet).1).channels
        t.schedin) inSize).1 = received s t packet := by
  rw [channels_setChannel_self]
  unfold received Sched.setChannel
  simp only [Function.update_idem]

theorem answered_reqId (l : Locals) (packet : List Byte) (hws : ∀ a ∈ ws, 16 ≤ a.1) :
    (answered l packet ws).word 8 = (l.receive packet).reqId := by
  rw [answered, fill_word_other fun a ha => ?_, start_status]
  · exact fill_word (by simp) (by simp)
  · have := hws a ha
    omega

/-- **A request is served.** -/
theorem sendRequest_serves (h : CanSend s w t q i stale reqId) (hid : reqId ≠ 0)
    (hwritten : r.written = some (type, args))
    (heffect : effect (received s t (inPacket stack type reqId args)) q r = some (s₁, ws))
    (hws : ∀ a ∈ ws, 16 ≤ a.1)
    (hkept : LeavesClient (received s t (inPacket stack type reqId args)) s₁ t q i) :
    ∃ status s₂ : _, status = answered (w.locals 0) (inPacket stack type reqId args) ws ∧
      status.word 8 = reqId ∧
      s₂ = w.others 0 (s₁.setChannel t.schedout
        (commWrite (s.channels t.schedout) (load status 0 outSize)).1) ∧
      sendRequest w t stack reqId type args s = some s₂ ∧ Idle t s₂ ∧
      s₂.channels t.schedout = (commWrite (s.channels t.schedout) (load status 0 outSize)).1 := by
  obtain ⟨fuel, hfuel⟩ : ∃ fuel, w.fuel = fuel + 2 :=
    ⟨w.fuel - 2, by have := h.around.turns; omega⟩
  obtain ⟨hsent, -⟩ := h.requests.write (inPacket stack type reqId args)
    (by rw [length_inPacket]; omega) (by rw [length_inPacket]; exact h.room)
  rw [List.nil_append] at hsent
  obtain ⟨hrequest, hreqId⟩ := request_written (w.locals 0) stack reqId hwritten
  have hanswer := (answered_reqId (w.locals 0) (inPacket stack type reqId args) hws).trans hreqId
  have hchannel := channels_setChannel_self s t.schedin
    (commWrite (s.channels t.schedin) (inPacket stack type reqId args)).1
  have hreceived := received_eq s t (inPacket stack type reqId args)
  have hserve := processFor_serves (l := w.locals 0) (h.place.setChannel t.schedin
    (commWrite (s.channels t.schedin) (inPacket stack type reqId args)).1)
    (by rw [hchannel]; exact hsent) (by rw [length_inPacket]) hrequest
    (by rw [hanswer]; exact hid) (by rw [hreceived]; exact heffect)
    (by rw [hreceived]; exact hkept) fuel
  have hempty := (hsent.read (n := inSize) (by rw [length_inPacket]; decide)).2.1
  have hschedin : s₁.channels t.schedin = (commRead
      (commWrite (s.channels t.schedin) (inPacket stack type reqId args)).1 inSize).1 := by
    rw [hkept.schedin]
    exact channels_setChannel_self ..
  have hschedout : s₁.channels t.schedout = s.channels t.schedout := by
    rw [hkept.schedout]
    exact (channels_setChannel_other h.place.apart _).1
  rw [hschedout] at hserve
  refine ⟨_, _, rfl, hanswer, rfl, ?_, ?_, ?_⟩
  · rw [sendRequest]
    simp only [Around.processQueued, hfuel, hserve, Option.map_some]
  · apply h.around.idle
    refine ⟨⟨q, i, hkept.place.setChannel _ _⟩, ?_⟩
    rw [(channels_setChannel_other h.place.apart _).2, hschedin]
    exact hempty
  · rw [h.around.schedout, channels_setChannel_self]

/-- The reply is put behind the others. -/
theorem CanSend.replied (h : CanSend s w t q i stale reqId)
    (hroom : ReplyFits (s.channels t.schedout) stale) (status : Bytes) :
    Backlog (commWrite (s.channels t.schedout) (load status 0 outSize)).1
      (stale ++ [load status 0 outSize]) :=
  (h.replies.write _ (by rw [length_load]; decide) (by rw [length_load]; exact hroom)).1

theorem length_encodeAll_stale {ps : List (List Byte)} (h : ∀ p ∈ ps, StaleReply reqId p) :
    (encodeAll ps).length = 44 * ps.length := by
  induction ps with
  | nil => rfl
  | cons p ps ih =>
    obtain ⟨b, hb, -⟩ := h p List.mem_cons_self
    have hlength : p.length = 40 := by rw [hb, length_load, outSize]
    have hrest := ih fun p' hp' => h p' (List.mem_cons_of_mem _ hp')
    rw [encodeAll_cons, List.length_append, List.length_append, length_toLe, List.length_cons]
    omega

/-- Replies alone do not fill a channel whose size is no multiple of theirs. -/
theorem CanSend.not_ringFull (h : CanSend s w t q i stale reqId)
    (hsize : ¬ 44 ∣ (s.channels t.schedout).dataLength.toNat) :
    ¬ RingFull (s.channels t.schedout) := by
  intro hfull
  have hfree := free_full h.replies.stores hfull
  have hfits := h.replies.stores.holding.fits
  have hlength := length_encodeAll_stale h.others
  unfold free at hfree
  apply hsize
  exact ⟨stale.length, by omega⟩

/-- The channels that `task_setup` makes, of half a page each, are of that kind. -/
example {cc cc' : Comm} (h : commInit cc 0x800 commSimple = some (cc', 0)) :
    ¬ 44 ∣ cc'.dataLength.toNat := by
  obtain rfl : _ = cc' := by simpa [commInit, commSimple] using h
  change ¬ 44 ∣ ((0x800 : Word) - commHeader).toNat
  decide

/-- The scheduler has mapped a range for the task, and nothing else. -/
theorem received_anonymous (h : CanSend s w t q i stale reqId) (packet : List Byte)
    (address size : Word) :
    effect (received s t packet) q (.mapAnonymous 0 address size) =
      some ({ received s t packet with mman := (mmanAnonymous s.mman i.rootId address size).1 },
        [(16, resultWord (mmanAnonymous s.mman i.rootId address size).2)]) ∧
    LeavesClient (received s t packet) { received s t packet with
      mman := (mmanAnonymous s.mman i.rootId address size).1 } t q i := by
  have hplace : ClientAt (received s t packet) t q i := h.place.setChannel _ _
  refine ⟨effect_anonymous hplace.entry address size, ⟨?_, rfl, rfl⟩⟩
  exact ⟨h.place.inside, h.place.task, h.place.first, h.place.entry, h.place.sin, h.place.sout,
    h.place.apart⟩

/-- **`rlib_create_task` gets the ids of the task that was made for it**, if one was. -/
theorem rlib_create_task_answered {seq root taskId rootId : Word}
    (h : CanSend s w t q i stale (rlibSequence seq))
    (hroom : ReplyFits (s.channels t.schedout) stale)
    (heffect : effect (received s t (inPacket stack 9 (rlibSequence seq) [(16, root)])) q
      (.spawn root) = some (s₁, [(32, rootId), (24, taskId)]))
    (hkept : LeavesClient (received s t (inPacket stack 9 (rlibSequence seq) [(16, root)])) s₁
      t q i) (out : Bytes) (fuel : Nat) (hfuel : stale.length < fuel) :
    ∃ s₂ out', rlibCreateTask w t stack out seq root fuel s = some (s₂, out') ∧
      out'.word 24 = taskId ∧ out'.word 32 = rootId := by
  obtain ⟨status, s₂, hstatus, hid, -, hsend, hidle, hchannel⟩ := sendRequest_serves h
    (rlibSequence_ne_zero seq) rfl heffect (by simp) hkept
  have hreplies := h.replied hroom status
  rw [← hchannel] at hreplies
  obtain ⟨s₃, out', hrun, hout, -, -⟩ := awaitReply_reads h.around.pauses hid stale fuel 1 s₂ out
    hidle hreplies h.others hfuel
  have hword : ∀ off v, off + 8 ≤ outSize → (off, v) ∈ [(32, rootId), (24, taskId)] →
      out'.word off = v := by
    intro off v hoff hv
    rw [word_congr fun k _ hk => hout k (by omega), hstatus, answered]
    exact fill_word (by simp) hv
  refine ⟨s₃, out', ?_, hword 24 taskId (by decide) (by simp),
    hword 32 rootId (by decide) (by simp)⟩
  rw [rlibCreateTask, hsend]
  exact hrun

/-- **`rlib_anonymous` gets the answer to its own request.** The scheduler has mapped the range in
    the root of the caller, and has changed nothing else but the two channels; from then on it
    serves nothing for the caller, who only reads replies, and whatever the others do in between,
    comes back with the one that has the number of its request and the result of that mapping,
    having read the replies that were there before. -/
theorem rlib_anonymous_answered {seq : Word} (h : CanSend s w t q i stale (rlibSequence seq))
    (hroom : ReplyFits (s.channels t.schedout) stale) (stack out : Bytes) (address size : Word)
    (fuel : Nat) (hfuel : stale.length < fuel) :
    ∃ s₁ s₂ out',
      sendRequest w t stack (rlibSequence seq) 3 [(16, 0), (24, address), (32, size)] s =
        some (w.others 0 s₁) ∧
      s₁.mman = (mmanAnonymous s.mman i.rootId address size).1 ∧
      s₁ = { s with mman := s₁.mman, channels := s₁.channels } ∧
      (∀ window, window ≠ t.schedin → window ≠ t.schedout →
        s₁.channels window = s.channels window) ∧
      rlibAnonymousCall w t stack out seq address size fuel s = some (s₂, out') ∧
      out'.word 8 = rlibSequence seq ∧
      out'.word 16 = resultWord (mmanAnonymous s.mman i.rootId address size).2 ∧
      Waited w t (w.others 0 s₁) s₂ ∧ Idle t s₂ ∧ Backlog (s₂.channels t.schedout) [] := by
  obtain ⟨heffect, hkept⟩ := received_anonymous h (inPacket stack 3 (rlibSequence seq)
    [(16, 0), (24, address), (32, size)]) address size
  obtain ⟨status, s₂, hstatus, hid, hothers, hsend, hidle, hchannel⟩ := sendRequest_serves h
    (rlibSequence_ne_zero seq) rfl heffect (by simp) hkept
  have hreplies := h.replied hroom status
  rw [← hchannel] at hreplies
  obtain ⟨s₃, out', hrun, hout, hidle', hempty⟩ := awaitReply_reads
    h.around.pauses_processQueued hid stale fuel 1 s₂ (out.setWord 8 0) hidle hreplies h.others
    hfuel
  have hwaited : Waited w t s₂ s₃ := by
    refine (awaitReply_keeps (K := fun s => Idle t s ∧ Waited w t s₂ s) ?_ ?_ fuel 1 s₂ _
      ⟨hidle, .start⟩ hrun).2
    · exact fun s hs => ⟨hs.1.setReplies _, hs.2.read⟩
    · intro n s s' hs hpause
      rw [h.around.processQueued_idle n hs.1] at hpause
      obtain rfl := Option.some.inj hpause
      exact ⟨h.around.idle n hs.1, hs.2.others n⟩
  rw [hothers] at hwaited
  refine ⟨_, s₃, out', hsend.trans (congrArg some hothers), rfl, rfl, fun window hin hout => ?_, ?_,
    ?_, ?_, hwaited, hidle', hempty⟩
  · change Function.update _ _ _ window = _
    rw [Function.update_of_ne hout]
    exact Function.update_of_ne hin ..
  · rw [rlibAnonymousCall, hsend]
    exact hrun
  · rw [← hid]
    exact word_congr fun k _ hk => hout k (by unfold outSize; omega)
  · have hresult : status.word 16 = resultWord (mmanAnonymous s.mman i.rootId address size).2 := by
      rw [hstatus, answered]
      exact fill_word (by simp) (by simp)
    rw [← hresult]
    exact word_congr fun k _ hk => hout k (by unfold outSize; omega)

/-- **A lost reply is waited for forever.** The replies that nobody reads stay in the channel, and
    where they leave no room the scheduler drops the next one: then `rlib_anonymous` never comes
    back, and otherwise it does. (A channel that replies of 44 bytes fill to the last byte would
    count as an empty one; one whose size is no multiple of 44 is never so full.) -/
theorem rlib_anonymous_returns_iff {seq : Word} (h : CanSend s w t q i stale (rlibSequence seq))
    (hfull : 44 ∣ (s.channels t.schedout).dataLength.toNat → ¬ RingFull (s.channels t.schedout))
    (stack out : Bytes) (address size : Word) :
    (∃ fuel s₂ out', rlibAnonymousCall w t stack out seq address size fuel s = some (s₂, out')) ↔
      ReplyFits (s.channels t.schedout) stale := by
  obtain ⟨heffect, hkept⟩ := received_anonymous h (inPacket stack 3 (rlibSequence seq)
    [(16, 0), (24, address), (32, size)]) address size
  obtain ⟨status, s₂, -, hid, -, hsend, hidle, hchannel⟩ := sendRequest_serves h
    (rlibSequence_ne_zero seq) rfl heffect (by simp) hkept
  constructor
  · intro ⟨fuel, s₃, out', hcall⟩
    by_contra hroom
    have hnot : ¬ RingFull (s.channels t.schedout) := by
      by_cases hsize : 44 ∣ (s.channels t.schedout).dataLength.toNat
      · exact hfull hsize
      · exact h.not_ringFull hsize
    have hrefused : commWrite (s.channels t.schedout) (load status 0 outSize) =
        (s.channels t.schedout, 1) := by
      rw [commWrite, if_pos h.replies.plain]
      apply commPut_refused (by rw [length_load]; decide)
      rw [commRemaining_eq h.replies.stores hnot, length_load]
      unfold ReplyFits at hroom
      unfold outSize
      omega
    have hsame : s₂.channels t.schedout = s.channels t.schedout :=
      hchannel.trans (congrArg Prod.fst hrefused)
    have hreplies := h.replies
    rw [← hsame] at hreplies
    rw [rlibAnonymousCall, hsend] at hcall
    have hnone := awaitReply_hangs h.around.pauses_processQueued fuel 1 s₂ (out.setWord 8 0) stale
      hidle hreplies h.others
    exact absurd (hcall.symm.trans hnone) (by simp)
  · intro hroom
    have hreplies := h.replied hroom status
    rw [← hchannel] at hreplies
    obtain ⟨s₃, out', hrun, -⟩ := awaitReply_reads h.around.pauses_processQueued hid stale
      (stale.length + 1) 1 s₂ (out.setWord 8 0) hidle hreplies h.others (Nat.lt_succ_self _)
    refine ⟨stale.length + 1, s₃, out', ?_⟩
    rw [rlibAnonymousCall, hsend]
    exact hrun

end

/-! ## An instance -/

theorem emptyChannel_backlog : Backlog emptyChannel [] where
  plain := by decide
  stores := by
    have hinit : commInit emptyChannel 0x1000 commSimple = some (emptyChannel, 0) := rfl
    exact (mailboxInv_init (by decide) hinit).stores
  small := by decide

/-- The client of the empty root, with a reply that it has not read. -/
def waitingClient : Sched :=
  let s := Sched.init twoRootsMman (fun _ _ => 0) .bump fun window =>
    if window = 2 then (commWrite emptyChannel (load (fun _ => 0) 0 outSize)).1 else emptyChannel
  let (s, info) := s.alloc (.info (some ⟨7, 2, 0x1000, 1, 2, 0⟩))
  { s with queue := fun _ => ⟨7, info⟩, queueSize := 1 }

/-- Nobody else runs. -/
def alone : Around := ⟨2, fun _ => ⟨fun _ => 0xff, fun _ => 0xff⟩, fun _ s => s⟩

theorem waitingClient_schedout : waitingClient.channels 2 =
    (commWrite emptyChannel (load (fun _ => 0) 0 outSize)).1 :=
  rfl

theorem waitingClient_canSend : CanSend waitingClient alone ⟨7, 1, 2⟩ 0 ⟨7, 2, 0x1000, 1, 2, 0⟩
    [load (fun _ => 0) 0 outSize] (rlibSequence 0) := by
  have hreply := emptyChannel_backlog.write (load (fun _ => 0) 0 outSize)
    (by rw [length_load]; decide) (by rw [length_load]; decide)
  refine ⟨⟨by decide, rfl, nofun, rfl, rfl, rfl, by decide⟩,
    ⟨le_rfl, fun _ _ h => h, fun _ _ => rfl, fun _ _ => rfl⟩, emptyChannel_backlog, ?_, ?_,
    by decide⟩
  · rw [waitingClient_schedout]
    exact hreply.1
  · intro p hp
    obtain rfl := List.mem_singleton.mp hp
    exact ⟨fun _ => 0, rfl, by decide⟩

/-- There is room for one more reply. -/
theorem waitingClient_fits :
    ReplyFits (waitingClient.channels 2) [load (fun _ => 0) 0 outSize] := by
  have hreply := emptyChannel_backlog.write (load (fun _ => 0) 0 outSize)
    (by rw [length_load]; decide) (by rw [length_load]; decide)
  unfold ReplyFits
  rw [waitingClient_schedout, hreply.2]
  decide

/-- One page, at an address of its own. -/
theorem rlib_anonymous_answered_of_waitingClient : ∃ s₂ out',
    rlibAnonymousCall alone ⟨7, 1, 2⟩ (fun _ => 0xff) (fun _ => 0xff) 0 0x5000 0x1000 2
      waitingClient = some (s₂, out') ∧
    s₂.mman = (mmanAnonymous twoRootsMman 0x1000 0x5000 0x1000).1 ∧
    out'.word 8 = rlibSequence 0 ∧
    out'.word 16 = resultWord (mmanAnonymous twoRootsMman 0x1000 0x5000 0x1000).2 := by
  obtain ⟨s₁, s₂, out', -, hmman, -, -, hrun, hid, hresult, hwaited, -⟩ :=
    rlib_anonymous_answered waitingClient_canSend waitingClient_fits (fun _ => 0xff)
      (fun _ => 0xff) 0x5000 0x1000 2 (by decide)
  -- nobody else runs, and reads leave the memory alone
  have hkept : s₂.mman = s₁.mman :=
    hwaited.keeps (K := fun s => s.mman = s₁.mman) (fun _ _ h => h) (fun _ _ h => h) rfl
  exact ⟨s₂, out', hrun, hkept.trans hmman, hid, hresult⟩

/-- The call comes back. -/
theorem rlib_anonymous_returns_iff_of_waitingClient : ∃ fuel s₂ out',
    rlibAnonymousCall alone ⟨7, 1, 2⟩ (fun _ => 0xff) (fun _ => 0xff) 0 0x5000 0x1000 fuel
      waitingClient = some (s₂, out') :=
  (rlib_anonymous_returns_iff waitingClient_canSend
    (fun hsize => absurd hsize (by rw [waitingClient_schedout, dataLength_commWrite]; decide))
    _ _ _ _).mpr waitingClient_fits

end Refk
