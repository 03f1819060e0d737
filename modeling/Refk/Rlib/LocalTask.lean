import Refk.Rlib.Scheduler

/-!
# `rlib_set_local_task` — several requests at once

A task may put several requests into its channel before it has them served. They are handled in
order, and answered in order behind the replies that have not been read
(`process_serves_all`). `rlib_set_local_task` relies on it: its first three requests wait in the
channel until its call of `rlib_anonymous` traps, which gets a reply that is behind theirs.
-/

namespace Refk

open Lib

/-! ## Sequence numbers -/

theorem toNat_rlibSequence (seq : Word) :
    (rlibSequence seq).toNat = seq.toNat % (2 ^ 64 - 1) + 1 := by
  have hlt := seq.isLt
  have hadd : (seq + 1).toNat = (seq.toNat + 1) % 2 ^ 64 := BitVec.toNat_add ..
  unfold rlibSequence
  split_ifs with h
  · have hzero : (seq + 1).toNat = 0 := congrArg BitVec.toNat h
    have hseq : seq.toNat = 2 ^ 64 - 1 := by omega
    rw [h, hseq]
    decide
  · have hne : (seq + 1).toNat ≠ 0 := fun hzero => h (BitVec.eq_of_toNat_eq hzero)
    omega

theorem toNat_rlibSequence_iterate (seq : Word) (k : Nat) :
    (rlibSequence^[k + 1] seq).toNat = (seq.toNat + k) % (2 ^ 64 - 1) + 1 := by
  induction k with
  | zero => exact toNat_rlibSequence seq
  | succ k ih =>
    rw [Function.iterate_succ_apply', toNat_rlibSequence, ih]
    omega

/-- **A number comes again after `2 ^ 64 - 1` requests, and not before.** -/
theorem rlibSequence_iterate_eq_iff (seq : Word) (k : Nat) :
    rlibSequence^[k + 1] seq = rlibSequence seq ↔ 2 ^ 64 - 1 ∣ k := by
  rw [← BitVec.toNat_inj, toNat_rlibSequence_iterate, toNat_rlibSequence]
  omega

/-! ## Requests that stay off the channels -/

/-- The same state with other channels. -/
def Sched.withChannels (s : Sched) (c : Word → Comm) : Sched := { s with channels := c }

/-- A packet, and what it is for: the number and the request in it, and the words that the answer
    is to have. -/
structure Asked where
  packet : List Byte
  reqId : Word
  request : Request
  words : List (Nat × Word)

/-- That is what the packet is read as, whatever it is read over. -/
structure Asked.Reads (a : Asked) : Prop where
  short : a.packet.length ≤ 56
  request : ∀ l : Locals, (l.receive a.packet).request = a.request
  reqId : ∀ l : Locals, (l.receive a.packet).reqId = a.reqId
  numbered : a.reqId ≠ 0
  stays : a.request ≠ .reap 0

/-- Whatever is in the channels, the request changes the rest of the state so. -/
def HandledAs (q : Nat) (s : Sched) (a : Asked) (s' : Sched) : Prop :=
  ∀ c, effect (s.withChannels c) q a.request = some (s'.withChannels c, a.words)

/-- Requests of one task, one after the other. -/
inductive HandlesAll (t : ClientTask) (q : Nat) (i : TaskInfo) :
    Sched → List Asked → Sched → Prop
  | nil {s : Sched} : ClientAt s t q i → HandlesAll t q i s [] s
  | cons {s s₁ s₂ : Sched} {a : Asked} {as : List Asked} :
    ClientAt s t q i → a.Reads → HandledAs q s a s₁ → HandlesAll t q i s₁ as s₂ →
    HandlesAll t q i s (a :: as) s₂

/-- A reply to a request: it has its number, and the words of the answer. -/
structure Asked.RepliedBy (a : Asked) (b : Bytes) : Prop where
  reqId : b.word 8 = a.reqId
  words : ∀ w ∈ a.words, b.word w.1 = w.2

section
variable {s s₁ s₂ : Sched} {t : ClientTask} {q : Nat} {i : TaskInfo} {a : Asked}
  {as : List Asked} {stale : List (List Byte)} {l : Locals} {c : Word → Comm}

theorem HandlesAll.place (h : HandlesAll t q i s as s₁) : ClientAt s t q i := by
  cases h with
  | nil h => exact h
  | cons h => exact h

theorem HandlesAll.place_end (h : HandlesAll t q i s as s₁) : ClientAt s₁ t q i := by
  induction h with
  | nil h => exact h
  | cons _ _ _ _ ih => exact ih

theorem ClientAt.withChannels (h : ClientAt s t q i) (c : Word → Comm) :
    ClientAt (s.withChannels c) t q i :=
  ⟨h.inside, h.task, h.first, h.entry, h.sin, h.sout, h.apart⟩

/-- The words of an answer are apart from each other and from the number. -/
theorem fills_apart {r : Request} (h : r ≠ .reap 0) :
    (∀ n ∈ r.fills, 16 ≤ n) ∧ r.fills.Pairwise fun n n' => n + 8 ≤ n' ∨ n' + 8 ≤ n := by
  cases r with
  | reap task =>
    have htask : task ≠ 0 := fun htask => h (congrArg _ htask)
    rw [Request.fills, if_neg htask]
    exact ⟨fun n hn => absurd hn List.not_mem_nil, .nil⟩
  | _ => simp [Request.fills]

theorem Asked.Reads.apart (h : a.Reads) {p : Sched}
    (heffect : effect s q a.request = some (p, a.words)) :
    (∀ w ∈ a.words, 16 ≤ w.1) ∧ a.words.Pairwise fun w w' => w.1 + 8 ≤ w'.1 ∨ w'.1 + 8 ≤ w.1 := by
  obtain ⟨hbehind, hapart⟩ := fills_apart h.stays
  have hfills := effect_fills heffect
  rw [← hfills] at hbehind hapart
  exact ⟨fun w hw => hbehind _ (List.mem_map_of_mem hw), List.pairwise_map.mp hapart⟩

theorem Asked.Reads.answered (h : a.Reads) (hhandled : HandledAs q s a s₁) (l : Locals) :
    a.RepliedBy (answered l a.packet a.words) := by
  obtain ⟨hbehind, hapart⟩ := h.apart (hhandled s.channels)
  refine ⟨(answered_reqId l a.packet hbehind).trans (h.reqId l), fun w hw => ?_⟩
  exact fill_word hapart hw

/-- **Requests that wait together are served together**: each of them once and in order, and the
    replies are behind those that have not been read, in the same order. -/
theorem processLoop_serves_all (h : HandlesAll t q i s as s₁) (fuel : Nat) : ∀ (c : Word → Comm)
    (stale : List (List Byte)) (l : Locals),
    Backlog (c t.schedin) (as.map Asked.packet) → Backlog (c t.schedout) stale →
    (encodeAll stale).length + 44 * as.length ≤ (c t.schedout).dataLength.toNat →
    ∃ c' replies, processLoop q (fuel + as.length + 1) (s.withChannels c) l =
        some (s₁.withChannels c') ∧
      List.Forall₂ Asked.RepliedBy as replies ∧
      Backlog (c' t.schedin) [] ∧
      Backlog (c' t.schedout) (stale ++ replies.map fun b => load b 0 outSize) ∧
      (c' t.schedin).dataLength = (c t.schedin).dataLength ∧
      (c' t.schedout).dataLength = (c t.schedout).dataLength ∧
      ∀ window, window ≠ t.schedin → window ≠ t.schedout → c' window = c window := by
  induction h with
  | @nil s hplace =>
    intro c stale l hin hout _
    refine ⟨c, [], processLoop_idle (hplace.withChannels c) hin fuel l, .nil, hin, ?_, rfl, rfl,
      fun _ _ _ => rfl⟩
    rw [List.map_nil, List.append_nil]
    exact hout
  | @cons s s₁ s₂ a as hplace hreads hhandled hrest ih =>
    intro c stale l hin hout hroom
    rw [List.map_cons] at hin
    rw [List.length_cons] at hroom
    obtain ⟨-, hinRest, hinLength⟩ := hin.read (n := inSize) hreads.short
    have hreply := hreads.answered hhandled l
    have hkept : LeavesClient (s.withChannels (Function.update c t.schedin
        (commRead (c t.schedin) inSize).1)) (s₁.withChannels (Function.update c t.schedin
          (commRead (c t.schedin) inSize).1)) t q i :=
      ⟨hrest.place.withChannels _, rfl, rfl⟩
    obtain ⟨l', hturn⟩ := processTurn_serves (l := l) (hplace.withChannels c) hin hreads.short
      (hreads.request l) (by rw [hreply.reqId]; exact hreads.numbered) (hhandled _) hkept
    have hschedout : Function.update c t.schedin (commRead (c t.schedin) inSize).1 t.schedout =
        c t.schedout := Function.update_of_ne hplace.apart.symm ..
    obtain ⟨hout', houtLength⟩ := hout.write (load (answered l a.packet a.words) 0 outSize)
      (by rw [length_load]; decide) (by rw [length_load]; unfold outSize; omega)
    -- the channels behind the turn
    obtain ⟨c₂, hc₂⟩ : ∃ c₂, c₂ = Function.update (Function.update c t.schedin
        (commRead (c t.schedin) inSize).1) t.schedout
        (commWrite (c t.schedout) (load (answered l a.packet a.words) 0 outSize)).1 := ⟨_, rfl⟩
    have hin₂ : c₂ t.schedin = (commRead (c t.schedin) inSize).1 := by
      rw [hc₂, Function.update_of_ne hplace.apart, Function.update_self]
    have hout₂ : c₂ t.schedout =
        (commWrite (c t.schedout) (load (answered l a.packet a.words) 0 outSize)).1 := by
      rw [hc₂, Function.update_self]
    have hturn' : processTurn (s.withChannels c) q l = some (s₁.withChannels c₂, l', true) := by
      rw [hturn, hc₂, ← hschedout]
      rfl
    have hlength : (encodeAll (stale ++ [load (answered l a.packet a.words) 0 outSize])).length =
        (encodeAll stale).length + 44 := by
      rw [encodeAll_snoc, List.length_append, List.length_append, length_toLe, length_load]
      unfold outSize
      omega
    obtain ⟨c', replies, hrun, hreplies, hin', hout'', hinLength', houtLength', hothers⟩ :=
      ih c₂ (stale ++ [load (answered l a.packet a.words) 0 outSize]) l'
        (by rw [hin₂]; exact hinRest) (by rw [hout₂]; exact hout')
        (by rw [hlength, hout₂, houtLength]; omega)
    refine ⟨c', answered l a.packet a.words :: replies, ?_, .cons hreply hreplies, hin', ?_, ?_, ?_,
      ?_⟩
    · rw [List.length_cons, ← Nat.add_assoc, processLoop, hturn']
      simp only [Option.bind_eq_bind, Option.bind_some, if_true]
      exact hrun
    · rw [List.map_cons, List.append_cons]
      exact hout''
    · rw [hinLength', hin₂, hinLength]
    · rw [houtLength', hout₂, houtLength]
    · intro window hne hne'
      rw [hothers window hne hne', hc₂, Function.update_of_ne hne', Function.update_of_ne hne]

/-- The whole call for the task. -/
theorem process_serves_all (h : HandlesAll t q i s as s₁)
    (hin : Backlog (s.channels t.schedin) (as.map Asked.packet))
    (hout : Backlog (s.channels t.schedout) stale)
    (hroom : (encodeAll stale).length + 44 * as.length ≤
      (s.channels t.schedout).dataLength.toNat) (fuel : Nat) (l : Locals) :
    ∃ c' replies, processFor (fuel + as.length + 1) l s t.ownId = some (s₁.withChannels c') ∧
      List.Forall₂ Asked.RepliedBy as replies ∧
      Backlog (c' t.schedin) [] ∧
      Backlog (c' t.schedout) (stale ++ replies.map fun b => load b 0 outSize) ∧
      (c' t.schedin).dataLength = (s.channels t.schedin).dataLength ∧
      (c' t.schedout).dataLength = (s.channels t.schedout).dataLength ∧
      ∀ window, window ≠ t.schedin → window ≠ t.schedout → c' window = s.channels window := by
  rw [h.place.processFor]
  exact processLoop_serves_all h fuel s.channels stale l hin hout hroom

end

/-! ## `rlib_set_local_task` -/

/-- `comm_write(schedin, &in, sizeof(in))` -/
def Sched.send (t : ClientTask) (s : Sched) (packet : List Byte) : Sched :=
  s.setChannel t.schedin (commWrite (s.channels t.schedin) packet).1

/-- `in`, for a `SCHED_SET_STATE`. -/
def setStatePacket (stack : Bytes) (reqId task index value : Word) : List Byte :=
  inPacket stack 10 reqId [(16, task), (24, index), (32, value)]

/-- `rlib_set_local_task`: `stack` and `out` are its `in` and its `out`, `stack'` and `out'` those
    of `rlib_anonymous`, and `wrapper` is the address of `rlib_local_task_wrapper`. Around the call
    of `rlib_anonymous` there is `w`, and `w'` around what is behind it. -/
def rlibSetLocalTask (w w' : Around) (t : ClientTask) (stack out stack' out' : Bytes)
    (seq mapStart wrapper : Word) (u : UserHeap) (task function data stackSize : Word) (fuel : Nat)
    (s : Sched) : Option (Sched × UserHeap) := do
  let reqId := rlibSequence seq
  let s := s.send t (setStatePacket stack reqId task 5 function)
  let reqId := rlibSequence reqId
  let s := s.send t (setStatePacket stack reqId task 4 data)
  let reqId := rlibSequence reqId
  let s := s.send t (setStatePacket stack reqId task 17 wrapper)
  let reqId := rlibSequence reqId
  let stackSize := roundUp stackSize
  let (u, address) := rlibGetMemoryAddress mapStart u stackSize
  let (s, _) ← rlibAnonymousCall w t stack' out' reqId address stackSize fuel s
  let s ← sendRequest w' t stack reqId 10 [(16, task), (24, 6), (32, address + stackSize)] s
  let (s, _) ← awaitReply t (fun n s => some (w'.others n s)) reqId fuel 1 s out
  return (s, u)

/-- The other tasks leave a task that does not run yet as it is, and keep `P` of the memory. -/
structure LeavesTask (w : Around) (task : Word) (P : Mman → Prop) : Prop where
  getInfo : ∀ n s, (w.others n s).getInfo task.toNat = s.getInfo task.toNat
  info : ∀ n s, (w.others n s).taskInfo task.toNat = s.taskInfo task.toNat
  words : ∀ n s j, s.taskInfo task.toNat = some j → (w.others n s).tasks j.state = s.tasks j.state
  memory : ∀ n s, P s.mman → P (w.others n s).mman

/-- While the task is being set up: its record is `j` and it has these words, the channels have the
    sizes that they had in `s₀`, and the memory satisfies `P`. -/
structure Prepared (s₀ : Sched) (t : ClientTask) (task : Word) (j : TaskInfo) (P : Mman → Prop)
    (words : Nat → Word) (s : Sched) : Prop where
  schedin : (s.channels t.schedin).dataLength = (s₀.channels t.schedin).dataLength
  schedout : (s.channels t.schedout).dataLength = (s₀.channels t.schedout).dataLength
  known : s.getInfo task.toNat ≠ 0
  info : s.taskInfo task.toNat = some j
  words : s.tasks j.state = words
  memory : P s.mman

section
variable {s s₀ s' : Sched} {w w' : Around} {t : ClientTask} {q : Nat} {i j : TaskInfo}
  {task : Word} {P : Mman → Prop} {words : Nat → Word} {as : List Asked}
  {stale ps packets : List (List Byte)} {out out' : Bytes} {fuel n : Nat}

theorem Prepared.others (h : Prepared s₀ t task j P words s) (hw : Considerate w t)
    (htask : LeavesTask w task P) (n : Nat) : Prepared s₀ t task j P words (w.others n s) where
  schedin := by
    rw [hw.schedin]
    exact h.schedin
  schedout := by
    rw [hw.schedout]
    exact h.schedout
  known := by
    rw [htask.getInfo]
    exact h.known
  info := (htask.info n s).trans h.info
  words := (htask.words n s j h.info).trans h.words
  memory := htask.memory n s h.memory

/-- A reply is read. -/
theorem Prepared.setReplies (h : Prepared s₀ t task j P words s) (hapart : t.schedin ≠ t.schedout)
    {cc : Comm} (hcc : cc.dataLength = (s.channels t.schedout).dataLength) :
    Prepared s₀ t task j P words (s.setChannel t.schedout cc) where
  schedin := by
    rw [(channels_setChannel_other hapart cc).2]
    exact h.schedin
  schedout := by
    rw [channels_setChannel_self]
    exact hcc.trans h.schedout
  known := h.known
  info := h.info
  words := h.words
  memory := h.memory

/-- Packets are put into the channel one after the other. -/
theorem sends_backlog (t : ClientTask) (hapart : t.schedin ≠ t.schedout)
    (packets : List (List Byte)) : ∀ (s : Sched) (ps : List (List Byte)),
      Backlog (s.channels t.schedin) ps → (∀ p ∈ packets, p.length = 56) →
      (encodeAll ps).length + 60 * packets.length ≤ (s.channels t.schedin).dataLength.toNat →
      ∃ c, packets.foldl (Sched.send t) s = s.withChannels c ∧
        Backlog (c t.schedin) (ps ++ packets) ∧
        (c t.schedin).dataLength = (s.channels t.schedin).dataLength ∧
        c t.schedout = s.channels t.schedout := by
  induction packets with
  | nil =>
    intro s ps hs _ _
    rw [List.append_nil]
    exact ⟨s.channels, rfl, hs, rfl, rfl⟩
  | cons p packets ih =>
    intro s ps hs hlengths hroom
    have hlength := hlengths p List.mem_cons_self
    rw [List.length_cons] at hroom
    obtain ⟨hsent, hsize⟩ := hs.write p (by omega) (by omega)
    have hchannel : (s.send t p).channels t.schedin =
        (commWrite (s.channels t.schedin) p).1 := channels_setChannel_self ..
    obtain ⟨c, hsends, hbacklog, hsize', hschedout⟩ := ih (s.send t p) (ps ++ [p])
      (by rw [hchannel]; exact hsent) (fun p' hp' => hlengths p' (List.mem_cons_of_mem _ hp'))
      (by
        rw [hchannel, hsize, encodeAll_snoc, List.length_append, List.length_append, length_toLe]
        omega)
    rw [List.append_assoc] at hbacklog
    refine ⟨c, hsends, hbacklog, ?_, ?_⟩
    · rw [hsize', hchannel, hsize]
    · exact hschedout.trans (channels_setChannel_other hapart _).1

theorem asked_reads {stack : Bytes} {type : Byte} {args : List (Nat × Word)} {reqId : Word}
    {r : Request} (h : r.written = some (type, args)) (hid : reqId ≠ 0) (hstays : r ≠ .reap 0)
    (ws : List (Nat × Word)) : Asked.Reads ⟨inPacket stack type reqId args, reqId, r, ws⟩ where
  short := by
    rw [length_inPacket]
  request l := (request_written l stack reqId h).1
  reqId l := (request_written l stack reqId h).2
  numbered := hid
  stays := hstays

theorem ClientAt.withTasks (h : ClientAt s t q i) (tasks : TaskTable) :
    ClientAt { s with tasks := tasks } t q i :=
  ⟨h.inside, h.task, h.first, h.entry, h.sin, h.sout, h.apart⟩

theorem ClientAt.withMman (h : ClientAt s t q i) (mman : Mman) :
    ClientAt { s with mman := mman } t q i :=
  ⟨h.inside, h.task, h.first, h.entry, h.sin, h.sout, h.apart⟩

/-- A word of a task is set. -/
theorem handledAs_setState (hknown : s.getInfo task.toNat ≠ 0)
    (hinfo : s.taskInfo task.toNat = some j) {index : Word} (hindex : index < 32) (value : Word)
    (packet : List Byte) (reqId : Word) :
    HandledAs q s ⟨packet, reqId, .setState task index value, []⟩
      { s with tasks := s.tasks.set j.state index.toNat value } := by
  intro c
  have hknown' : (s.withChannels c).getInfo task.toNat ≠ 0 := hknown
  have hinfo' : (s.withChannels c).info? ((s.withChannels c).getInfo task.toNat) = some j := hinfo
  simp only [effect, schedSetState]
  rw [if_pos ⟨hknown', hindex⟩, hinfo']
  rfl

/-- A range is mapped in the sender's root. -/
theorem handledAs_anonymous (hentry : s.entryInfo q = some i) (address size : Word)
    (packet : List Byte) (reqId : Word) :
    HandledAs q s ⟨packet, reqId, .mapAnonymous 0 address size,
        [(16, resultWord (mmanAnonymous s.mman i.rootId address size).2)]⟩
      { s with mman := (mmanAnonymous s.mman i.rootId address size).1 } := by
  intro c
  have hentry' : (s.withChannels c).entryInfo q = some i := hentry
  exact effect_anonymous hentry' address size

/-- The requests that `rlib_set_local_task` has made when it traps, with the words that they set. -/
theorem localTask_handlesAll (task : Word) (hplace : ClientAt s t q i)
    (hknown : s.getInfo task.toNat ≠ 0) (hinfo : s.taskInfo task.toNat = some j)
    (stack stack' : Bytes) (seq function data wrapper address size : Word) :
    HandlesAll t q i s
      [⟨setStatePacket stack (rlibSequence seq) task 5 function, rlibSequence seq,
          .setState task 5 function, []⟩,
        ⟨setStatePacket stack (rlibSequence^[2] seq) task 4 data, rlibSequence^[2] seq,
          .setState task 4 data, []⟩,
        ⟨setStatePacket stack (rlibSequence^[3] seq) task 17 wrapper, rlibSequence^[3] seq,
          .setState task 17 wrapper, []⟩,
        ⟨inPacket stack' 3 (rlibSequence^[5] seq) [(16, 0), (24, address), (32, size)],
          rlibSequence^[5] seq, .mapAnonymous 0 address size,
          [(16, resultWord (mmanAnonymous s.mman i.rootId address size).2)]⟩]
      { s with
        tasks := ((s.tasks.set j.state 5 function).set j.state 4 data).set j.state 17 wrapper
        mman := (mmanAnonymous s.mman i.rootId address size).1 } := by
  have hid : ∀ k, rlibSequence^[k + 1] seq ≠ 0 := by
    intro k
    rw [Function.iterate_succ_apply']
    exact rlibSequence_ne_zero _
  have hset : ∀ reqId index value, reqId ≠ 0 → Asked.Reads
      ⟨setStatePacket stack reqId task index value, reqId, .setState task index value, []⟩ := by
    intro reqId index value hne
    exact asked_reads (r := .setState task index value) rfl hne Request.noConfusion []
  have hhandled : ∀ tasks packet reqId index value, index < 32 → HandledAs q
      { s with tasks := tasks } ⟨packet, reqId, .setState task index value, []⟩
      { s with tasks := tasks.set j.state index.toNat value } := by
    intro tasks packet reqId index value hindex
    exact handledAs_setState (s := { s with tasks := tasks }) hknown hinfo hindex value packet reqId
  have hplace₁ := hplace.withTasks (s.tasks.set j.state 5 function)
  have hplace₂ := hplace.withTasks ((s.tasks.set j.state 5 function).set j.state 4 data)
  have hplace₃ := hplace.withTasks
    (((s.tasks.set j.state 5 function).set j.state 4 data).set j.state 17 wrapper)
  refine .cons hplace (hset _ 5 function (hid 0)) (hhandled _ _ _ _ _ (by decide)) ?_
  refine .cons hplace₁ (hset _ 4 data (hid 1)) (hhandled _ _ _ _ _ (by decide)) ?_
  refine .cons hplace₂ (hset _ 17 wrapper (hid 2)) (hhandled _ _ _ _ _ (by decide)) ?_
  refine .cons hplace₃ (asked_reads (r := .mapAnonymous 0 address size) rfl (hid 4)
    Request.noConfusion _) (handledAs_anonymous hplace₃.entry address size _ _) ?_
  exact .nil (hplace₃.withMman _)

/-- The words of a task after the first three requests. -/
def localWords (words : Nat → Word) (function data wrapper : Word) : Nat → Word :=
  Function.update (Function.update (Function.update words 5 function) 4 data) 17 wrapper

/-- The four requests that `rlib_set_local_task` makes before it waits are served, and the replies
    are there. -/
theorem localTask_sent (seq : Word) {address size : Word} (hplace : ClientAt s t q i)
    (hw : Considerate w t) (hturns : 5 ≤ w.fuel) (htask : LeavesTask w task P)
    (hin : Backlog (s.channels t.schedin) []) (hout : Backlog (s.channels t.schedout) stale)
    (hroom : 240 ≤ (s.channels t.schedin).dataLength.toNat)
    (hreplies : (encodeAll stale).length + 176 ≤ (s.channels t.schedout).dataLength.toNat)
    (hknown : s.getInfo task.toNat ≠ 0) (hinfo : s.taskInfo task.toNat = some j)
    (hmemory : P (mmanAnonymous s.mman i.rootId address size).1) (stack stack' : Bytes)
    (function data wrapper : Word) :
    ∃ (s₁ : Sched) (b₁ b₂ b₃ b₄ : Bytes), sendRequest w t stack' (rlibSequence^[5] seq) 3
        [(16, 0), (24, address), (32, size)]
        ([setStatePacket stack (rlibSequence seq) task 5 function,
          setStatePacket stack (rlibSequence^[2] seq) task 4 data,
          setStatePacket stack (rlibSequence^[3] seq) task 17 wrapper].foldl (Sched.send t) s) =
        some s₁ ∧
      Idle t s₁ ∧ Prepared s t task j P (localWords (s.tasks j.state) function data wrapper) s₁ ∧
      Backlog (s₁.channels t.schedout) (stale ++ [load b₁ 0 outSize, load b₂ 0 outSize,
        load b₃ 0 outSize, load b₄ 0 outSize]) ∧
      b₁.word 8 = rlibSequence seq ∧ b₂.word 8 = rlibSequence^[2] seq ∧
      b₃.word 8 = rlibSequence^[3] seq ∧ b₄.word 8 = rlibSequence^[5] seq := by
  have hall := localTask_handlesAll task hplace hknown hinfo stack stack' seq function data wrapper
    address size
  obtain ⟨c, hsends, hsent, hsize, hschedout⟩ := sends_backlog t hplace.apart
    [setStatePacket stack (rlibSequence seq) task 5 function,
      setStatePacket stack (rlibSequence^[2] seq) task 4 data,
      setStatePacket stack (rlibSequence^[3] seq) task 17 wrapper,
      inPacket stack' 3 (rlibSequence^[5] seq) [(16, 0), (24, address), (32, size)]] s [] hin
    (by simp [setStatePacket, length_inPacket]) (by simpa [encodeAll] using hroom)
  obtain ⟨f, hf⟩ : ∃ f, w.fuel = f + 4 + 1 := ⟨w.fuel - 5, by omega⟩
  obtain ⟨c', replies, hrun, hanswers, hin', hout', hsizeIn, hsizeOut, -⟩ :=
    processLoop_serves_all hall f c stale (w.locals 0) hsent (by rw [hschedout]; exact hout)
      (by rw [hschedout]; exact hreplies)
  have hend := hall.place_end
  have hprepared : Prepared s t task j P (localWords (s.tasks j.state) function data wrapper)
      (Sched.withChannels { s with
        tasks := ((s.tasks.set j.state 5 function).set j.state 4 data).set j.state 17 wrapper
        mman := (mmanAnonymous s.mman i.rootId address size).1 } c') := by
    refine ⟨hsizeIn.trans hsize, ?_, hknown, hinfo, ?_, hmemory⟩
    · rw [← hschedout]
      exact hsizeOut
    · simp only [Sched.withChannels, TaskTable.set, Function.update_self, localWords]
  revert hrun hend hprepared
  generalize hserved : ({ s with
    tasks := ((s.tasks.set j.state 5 function).set j.state 4 data).set j.state 17 wrapper
    mman := (mmanAnonymous s.mman i.rootId address size).1 } : Sched) = served
  intro hrun hend hprepared
  -- one reply for each
  cases hanswers with | cons h₁ hanswers =>
  cases hanswers with | cons h₂ hanswers =>
  cases hanswers with | cons h₃ hanswers =>
  cases hanswers with | cons h₄ hanswers =>
  cases hanswers
  have hid₁ := h₁.reqId
  have hid₂ := h₂.reqId
  have hid₃ := h₃.reqId
  have hid₄ := h₄.reqId
  dsimp only at hid₁ hid₂ hid₃ hid₄
  refine ⟨w.others 0 (served.withChannels c'), _, _, _, _, ?_,
    hw.idle 0 ⟨⟨q, i, hend.withChannels c'⟩, hin'⟩, hprepared.others hw htask 0, ?_, hid₁, hid₂,
    hid₃, hid₄⟩
  · change w.processQueued t 0 (([_, _, _, _] : List (List Byte)).foldl (Sched.send t) s) = _
    rw [hsends, Around.processQueued, (hplace.withChannels c).processFor, hf]
    exact congrArg (Option.map (w.others 0)) hrun
  · rw [hw.schedout]
    exact hout'

/-- The call of `rlib_anonymous` in `rlib_set_local_task`, with three requests in front of it. -/
theorem localTask_anonymous {seq address size : Word} (hplace : ClientAt s t q i)
    (hw : Considerate w t) (hturns : 5 ≤ w.fuel) (htask : LeavesTask w task P)
    (hin : Backlog (s.channels t.schedin) []) (hout : Backlog (s.channels t.schedout) stale)
    (hstale : ∀ p ∈ stale, StaleReply (rlibSequence^[5] seq) p)
    (hroom : 240 ≤ (s.channels t.schedin).dataLength.toNat)
    (hreplies : (encodeAll stale).length + 176 ≤ (s.channels t.schedout).dataLength.toNat)
    (hknown : s.getInfo task.toNat ≠ 0) (hinfo : s.taskInfo task.toNat = some j)
    (hmemory : P (mmanAnonymous s.mman i.rootId address size).1) (stack stack' out' : Bytes)
    (function data wrapper : Word) (hfuel : stale.length + 3 < fuel) :
    ∃ s' out'', rlibAnonymousCall w t stack' out' (rlibSequence^[4] seq) address size fuel
        ([setStatePacket stack (rlibSequence seq) task 5 function,
          setStatePacket stack (rlibSequence^[2] seq) task 4 data,
          setStatePacket stack (rlibSequence^[3] seq) task 17 wrapper].foldl (Sched.send t) s) =
        some (s', out'') ∧ Idle t s' ∧ Backlog (s'.channels t.schedout) [] ∧
      Prepared s t task j P (localWords (s.tasks j.state) function data wrapper) s' := by
  obtain ⟨s₁, b₁, b₂, b₃, b₄, hsend, hidle, hprepared, hbacklog, hid₁, hid₂, hid₃, hid₄⟩ :=
    localTask_sent seq hplace hw hturns htask hin hout hroom hreplies hknown hinfo hmemory
      stack stack' function data wrapper
  have hne : ∀ k, k < 3 → rlibSequence^[k + 1] seq ≠ rlibSequence^[4 + 1] seq := by
    intro k hk heq
    have hnat := congrArg BitVec.toNat heq
    rw [toNat_rlibSequence_iterate, toNat_rlibSequence_iterate] at hnat
    omega
  have hstale' : ∀ p ∈ stale ++ [load b₁ 0 outSize, load b₂ 0 outSize, load b₃ 0 outSize],
      StaleReply (rlibSequence^[5] seq) p := by
    intro p hp
    simp only [List.mem_append, List.mem_cons, List.not_mem_nil, or_false] at hp
    rcases hp with hp | rfl | rfl | rfl
    · exact hstale p hp
    · exact ⟨b₁, rfl, hid₁.trans_ne (hne 0 (by omega))⟩
    · exact ⟨b₂, rfl, hid₂.trans_ne (hne 1 (by omega))⟩
    · exact ⟨b₃, rfl, hid₃.trans_ne (hne 2 (by omega))⟩
  have hbacklog' : Backlog (s₁.channels t.schedout)
      ((stale ++ [load b₁ 0 outSize, load b₂ 0 outSize, load b₃ 0 outSize]) ++
        [load b₄ 0 outSize]) := by
    rw [List.append_assoc]
    exact hbacklog
  obtain ⟨s', out'', hwait, -, hidle', hempty⟩ := awaitReply_reads hw.pauses_processQueued hid₄ _
    fuel 1 s₁ (out'.setWord 8 0) hidle hbacklog' hstale' (by rw [List.length_append]; exact hfuel)
  refine ⟨s', out'', ?_, hidle', hempty, ?_⟩
  · have hid : rlibSequence (rlibSequence^[4] seq) = rlibSequence^[5] seq :=
      (Function.iterate_succ_apply' rlibSequence 4 seq).symm
    rw [rlibAnonymousCall, hid, hsend]
    exact hwait
  · refine (awaitReply_keeps (K := fun s' => Idle t s' ∧ Prepared s t task j P
      (localWords (s.tasks j.state) function data wrapper) s') ?_ ?_ fuel 1 _ _ ⟨hidle, hprepared⟩
      hwait).2
    · intro s₁ hs₁
      exact ⟨hs₁.1.setReplies _, hs₁.2.setReplies hplace.apart (dataLength_commRead _ _)⟩
    · intro n s₁ s₂ hs₁ hpause
      rw [hw.processQueued_idle n hs₁.1] at hpause
      obtain rfl := Option.some.inj hpause
      exact ⟨hw.idle n hs₁.1, hs₁.2.others hw htask n⟩

/-- The last request of `rlib_set_local_task`, and its reply. -/
theorem localTask_stack {reqId : Word} (value : Word) (fuel : Nat) (hs : Idle t s)
    (hreplies : Backlog (s.channels t.schedout) [])
    (hprepared : Prepared s₀ t task j P words s) (hw' : Considerate w' t)
    (htask : LeavesTask w' task P) (hid : reqId ≠ 0)
    (hroom : 60 ≤ (s₀.channels t.schedin).dataLength.toNat)
    (hroom' : 44 ≤ (s₀.channels t.schedout).dataLength.toNat) (stack out : Bytes) :
    ∃ s₁ s₂ out', sendRequest w' t stack reqId 10 [(16, task), (24, 6), (32, value)] s = some s₁ ∧
      awaitReply t (fun n s => some (w'.others n s)) reqId (fuel + 1) 1 s₁ out = some (s₂, out') ∧
      Idle t s₂ ∧ Backlog (s₂.channels t.schedout) [] ∧
      Prepared s₀ t task j P (Function.update words 6 value) s₂ := by
  obtain ⟨⟨q, i, hplace⟩, hin⟩ := hs
  have hcan : CanSend s w' t q i [] reqId :=
    ⟨hplace, hw', hin, hreplies, nofun, by rw [hprepared.schedin]; exact hroom⟩
  have heffect := handledAs_setState (q := q) (s := s) hprepared.known hprepared.info
    (show (6 : Word) < 32 by decide) value [] reqId
    (received s t (inPacket stack 10 reqId [(16, task), (24, 6), (32, value)])).channels
  obtain ⟨status, s₁, -, hanswer, hs₁, hsend, hidle, hchannel⟩ := sendRequest_serves hcan hid
    (r := .setState task 6 value) rfl heffect nofun
    ⟨(hplace.withTasks _).withChannels _, rfl, rfl⟩
  have hfits : ReplyFits (s.channels t.schedout) [] := by
    unfold ReplyFits
    rw [hprepared.schedout]
    exact hroom'
  have hreply := hcan.replied hfits status
  rw [← hchannel, List.nil_append] at hreply
  have hchannels : (received s t (inPacket stack 10 reqId
      [(16, task), (24, 6), (32, value)])).channels t.schedout = s.channels t.schedout :=
    (channels_setChannel_other hplace.apart _).1
  have hset : Prepared s₀ t task j P (Function.update words 6 value)
      (Sched.withChannels { s with tasks := s.tasks.set j.state 6 value }
        (received s t (inPacket stack 10 reqId [(16, task), (24, 6), (32, value)])).channels) := by
    refine ⟨?_, ?_, hprepared.known, hprepared.info, ?_, hprepared.memory⟩
    · change ((received s t _).channels t.schedin).dataLength = _
      rw [received, channels_setChannel_self, dataLength_commRead, dataLength_commWrite]
      exact hprepared.schedin
    · change ((received s t _).channels t.schedout).dataLength = _
      rw [hchannels]
      exact hprepared.schedout
    · change (s.tasks.set j.state 6 value) j.state = _
      rw [TaskTable.set, Function.update_self, hprepared.words]
  have hprepared₁ : Prepared s₀ t task j P (Function.update words 6 value) s₁ := by
    rw [hs₁]
    refine (hset.setReplies hplace.apart ?_).others hw' htask 0
    change _ = ((received s t _).channels t.schedout).dataLength
    rw [hchannels]
    exact dataLength_commWrite _ _
  obtain ⟨s₂, out', hwait, -, hidle₂, hempty⟩ := awaitReply_reads hw'.pauses hanswer [] (fuel + 1) 1
    s₁ out hidle hreply nofun (Nat.succ_pos _)
  refine ⟨s₁, s₂, out', hsend, hwait, hidle₂, hempty, ?_⟩
  apply awaitReply_keeps (K := Prepared s₀ t task j P (Function.update words 6 value)) _ _ _ _ _ _
    hprepared₁ hwait
  · exact fun s hs => hs.setReplies hplace.apart (dataLength_commRead _ _)
  · intro n s s' hs hpause
    obtain rfl := Option.some.inj hpause
    exact hs.others hw' htask n

/-- **`rlib_set_local_task` sets up a task**: it comes back, having read all its replies, and the
    task's words are what it takes to call `function` with `data` through the wrapper, on a stack
    whose pages the scheduler has mapped in the root of the caller; the task's other words are as
    they were. -/
theorem rlib_set_local_task_sets_up (seq mapStart wrapper : Word) (u : UserHeap)
    (task function data stackSize : Word) (fuel : Nat) (hplace : ClientAt s t q i)
    (hw : Considerate w t) (hturns : 5 ≤ w.fuel)
    (hw' : Considerate w' t) (htask : LeavesTask w task P) (htask' : LeavesTask w' task P)
    (hin : Backlog (s.channels t.schedin) []) (hout : Backlog (s.channels t.schedout) stale)
    (hstale : ∀ p ∈ stale, StaleReply (rlibSequence^[5] seq) p)
    (hroom : 240 ≤ (s.channels t.schedin).dataLength.toNat)
    (hreplies : (encodeAll stale).length + 176 ≤ (s.channels t.schedout).dataLength.toNat)
    (hknown : s.getInfo task.toNat ≠ 0) (hinfo : s.taskInfo task.toNat = some j)
    (hmemory : P (mmanAnonymous s.mman i.rootId
      (rlibGetMemoryAddress mapStart u (roundUp stackSize)).2 (roundUp stackSize)).1)
    (stack out stack' out' : Bytes) (hfuel : stale.length + 3 < fuel) :
    ∃ s', rlibSetLocalTask w w' t stack out stack' out' seq mapStart wrapper u task function data
        stackSize fuel s =
        some (s', (rlibGetMemoryAddress mapStart u (roundUp stackSize)).1) ∧
      (∀ index, s'.tasks j.state index =
        if index = 5 then function else if index = 4 then data else if index = 17 then wrapper
        else if index = 6 then
          (rlibGetMemoryAddress mapStart u (roundUp stackSize)).2 + roundUp stackSize
        else s.tasks j.state index) ∧
      P s'.mman ∧ Idle t s' ∧ Backlog (s'.channels t.schedout) [] := by
  obtain ⟨s₃, out₃, hcall, hidle, hempty, hprepared⟩ := localTask_anonymous hplace hw hturns htask
    hin hout hstale hroom hreplies hknown hinfo hmemory stack stack' out' function data wrapper
    hfuel
  obtain ⟨f, rfl⟩ : ∃ f, fuel = f + 1 := ⟨fuel - 1, by omega⟩
  have hid : rlibSequence^[4] seq ≠ 0 := by
    rw [Function.iterate_succ_apply']
    exact rlibSequence_ne_zero _
  obtain ⟨s₄, s', out'', hsend, hwait, hidle', hempty', hprepared'⟩ := localTask_stack
    ((rlibGetMemoryAddress mapStart u (roundUp stackSize)).2 + roundUp stackSize) f hidle hempty
    hprepared hw' htask' hid (by omega) (by omega) stack out
  refine ⟨s', ?_, fun index => ?_, hprepared'.memory, hidle', hempty'⟩
  · have hid₂ : rlibSequence^[2] seq = rlibSequence (rlibSequence seq) :=
      Function.iterate_succ_apply' rlibSequence 1 seq
    have hid₃ : rlibSequence^[3] seq = rlibSequence (rlibSequence^[2] seq) :=
      Function.iterate_succ_apply' rlibSequence 2 seq
    have hid₄ : rlibSequence^[4] seq = rlibSequence (rlibSequence^[3] seq) :=
      Function.iterate_succ_apply' rlibSequence 3 seq
    rw [List.foldl_cons, List.foldl_cons, List.foldl_cons, List.foldl_nil] at hcall
    simp only [rlibSetLocalTask]
    rw [← hid₂, ← hid₃, ← hid₄, hcall, Option.bind_eq_bind, Option.bind_some]
    simp only []
    rw [hsend, Option.bind_eq_bind, Option.bind_some, hwait]
    rfl
  · rw [hprepared'.words]
    simp only [localWords, Function.update_apply]
    split_ifs <;> simp_all

end

/-! ## An instance -/

/-- The client of the empty root, with a task 9 that it has made. -/
def creatingClient : Sched :=
  let (s, info) := waitingClient.alloc (.info (some ⟨9, 3, 0x1000, 3, 4, 0⟩))
  { s with taskMap := (s.taskMap.insert 9 info).1 }

theorem creatingClient_place : ClientAt creatingClient ⟨7, 1, 2⟩ 0 ⟨7, 2, 0x1000, 1, 2, 0⟩ :=
  ⟨by decide, rfl, nofun, rfl, rfl, rfl, by decide⟩

theorem creatingClient_replies :
    Backlog (creatingClient.channels 2) [load (fun _ => 0) 0 outSize] ∧
      (encodeAll [load (fun _ => 0) 0 outSize]).length + 176 ≤
        (creatingClient.channels 2).dataLength.toNat := by
  have hreplies := waitingClient_canSend.replies
  have hchannel : creatingClient.channels 2 = waitingClient.channels 2 := rfl
  refine ⟨hreplies, ?_⟩
  rw [hchannel, waitingClient_schedout, dataLength_commWrite]
  decide

/-- The client, when it has asked for three words and a page. -/
def askingClient : Sched :=
  [setStatePacket (fun _ => 0xff) (rlibSequence 0) 9 5 1,
    setStatePacket (fun _ => 0xff) (rlibSequence^[2] 0) 9 4 2,
    setStatePacket (fun _ => 0xff) (rlibSequence^[3] 0) 9 17 3,
    inPacket (fun _ => 0xff) 3 (rlibSequence^[5] 0) [(16, 0), (24, 0x5000), (32, 0x1000)]].foldl
      (Sched.send ⟨7, 1, 2⟩) creatingClient

/-- All four are served. -/
theorem process_serves_all_of_askingClient : ∃ s' : Sched,
    processFor 5 ⟨fun _ => 0xff, fun _ => 0xff⟩ askingClient 7 = some s' ∧
      s'.tasks 3 17 = 3 ∧ s'.mman = (mmanAnonymous twoRootsMman 0x1000 0x5000 0x1000).1 ∧
      Backlog (s'.channels 1) [] := by
  obtain ⟨c, hsends, hsent, -, hschedout⟩ := sends_backlog ⟨7, 1, 2⟩ (by decide)
    [setStatePacket (fun _ => 0xff) (rlibSequence 0) 9 5 1,
      setStatePacket (fun _ => 0xff) (rlibSequence^[2] 0) 9 4 2,
      setStatePacket (fun _ => 0xff) (rlibSequence^[3] 0) 9 17 3,
      inPacket (fun _ => 0xff) 3 (rlibSequence^[5] 0) [(16, 0), (24, 0x5000), (32, 0x1000)]]
    creatingClient [] emptyChannel_backlog (by simp [setStatePacket, length_inPacket]) (by decide)
  have hknown : creatingClient.getInfo 9 ≠ 0 := by decide
  have hall := localTask_handlesAll 9 (creatingClient_place.withChannels c) hknown
    (j := ⟨9, 3, 0x1000, 3, 4, 0⟩) rfl (fun _ => 0xff) (fun _ => 0xff) 0 1 2 3 0x5000 0x1000
  obtain ⟨hreplies, hroom⟩ := creatingClient_replies
  rw [← hschedout] at hreplies hroom
  obtain ⟨c', _, hrun, -, hempty, -⟩ := process_serves_all hall hsent hreplies hroom 0
    ⟨fun _ => 0xff, fun _ => 0xff⟩
  have hmman : creatingClient.mman = twoRootsMman := rfl
  have hcall := (congrArg (fun s => processFor 5 ⟨fun _ => 0xff, fun _ => 0xff⟩ s 7) hsends).trans
    hrun
  refine ⟨_, hcall, ?_, ?_, hempty⟩
  · simp only [Sched.withChannels, TaskTable.set, Function.update_self]
  · simp only [Sched.withChannels, hmman]

/-- The task is set up with a stack of one page, which the scheduler has mapped. -/
theorem rlib_set_local_task_sets_up_of_creatingClient : ∃ s' u',
    rlibSetLocalTask ⟨5, alone.locals, alone.others⟩ alone ⟨7, 1, 2⟩ (fun _ => 0xff)
        (fun _ => 0xff) (fun _ => 0xff) (fun _ => 0xff) 0 0x5000 3 ⟨0, 0, []⟩ 9 1 2 0x1000 5
        creatingClient = some (s', u') ∧
      s'.tasks 3 17 = 3 ∧ s'.tasks 3 6 = 0x6000 ∧
      s'.mman = (mmanAnonymous twoRootsMman 0x1000 0x5000 0x1000).1 := by
  have hask : Considerate ⟨5, alone.locals, alone.others⟩ ⟨7, 1, 2⟩ :=
    ⟨by decide, fun _ _ h => h, fun _ _ => rfl, fun _ _ => rfl⟩
  have halone : Considerate alone ⟨7, 1, 2⟩ :=
    ⟨le_rfl, fun _ _ h => h, fun _ _ => rfl, fun _ _ => rfl⟩
  obtain ⟨hreplies, hroom⟩ := creatingClient_replies
  obtain ⟨s', hrun, hwords, hmapped, -⟩ := rlib_set_local_task_sets_up
    (P := fun m => m = (mmanAnonymous twoRootsMman 0x1000 0x5000 0x1000).1)
    (j := ⟨9, 3, 0x1000, 3, 4, 0⟩) 0 0x5000 3 ⟨0, 0, []⟩ 9 1 2 0x1000 5 creatingClient_place hask
    (by decide) halone
    ⟨fun _ _ => rfl, fun _ _ => rfl, fun _ _ _ _ => rfl, fun _ _ h => h⟩
    ⟨fun _ _ => rfl, fun _ _ => rfl, fun _ _ _ _ => rfl, fun _ _ h => h⟩ emptyChannel_backlog
    hreplies (fun p hp => by
      obtain rfl := List.mem_singleton.mp hp
      exact ⟨fun _ => 0, rfl, by decide⟩) (by decide) hroom (by decide) rfl rfl
    (fun _ => 0xff) (fun _ => 0xff) (fun _ => 0xff) (fun _ => 0xff) (by decide)
  exact ⟨s', _, hrun, hwords 17, hwords 6, hmapped⟩

end Refk
