import Refk.Rlib.LocalTask
import Refk.Scheduler.Records
import Refk.Scheduler.Schedulable

/-!
# `rlib/scheduler.c` — calls that wait for no reply

`rlib_wait`, `rlib_wake` and `rlib_ready_task` come back as soon as their request has been served,
and the reply to it stays in the channel for the next call that waits. `rlib_reap_self` gets none:
its task is gone, and the scheduler's loop goes on at the place where its entry was.
-/

namespace Refk

open Lib

section
variable {s s₁ s' : Sched} {q object : Nat} {t : ClientTask} {i : TaskInfo} {ws : List (Nat × Word)}

/-! ## What a wait and a wake leave of the records -/

/-- A synch object is none of the records there are. -/
theorem info?_of_synchObject (s : Sched) (phy : Word) {p : Nat}
    (h : (synchObject s phy).1.info? p = some i) : s.info? p = some i := by
  simp only [synchObject] at h
  split at h
  · obtain ⟨ret, pobj, heap, -, -, -, -, hcells, heq⟩ := synchMake_spec s phy
    rw [heq, Sched.info?_eq_some] at h
    change heap.cells p = _ at h
    rw [hcells] at h
    have h' := of_update_eq_some h (by simp)
    exact Sched.info?_eq_some.mpr (of_update_eq_some h' (by simp))
  · exact h

/-- Nor is a wait record. -/
theorem info?_of_synchWait {taskId : Nat} {value : Word} {r : Int} {p : Nat}
    (hwait : synchWait s taskId object value = some (s', r)) (h : s'.info? p = some i) :
    s.info? p = some i := by
  obtain ⟨o, -, ⟨-, rfl, -⟩ | ⟨-, -, heap, info, hcells, -, heq⟩⟩ := synchWait_cases hwait
  · exact h
  · rw [heq, Sched.info?_eq_some] at h
    change heap.cells p = _ at h
    rw [hcells] at h
    have h' := of_update_eq_some h (by simp)
    exact Sched.info?_eq_some.mpr (of_update_eq_some h' (by simp))

theorem channels_synchWait {taskId : Nat} {value : Word} {r : Int}
    (hwait : synchWait s taskId object value = some (s', r)) : s'.channels = s.channels := by
  obtain ⟨o, -, ⟨-, rfl, -⟩ | ⟨-, -, heap, info, -, -, heq⟩⟩ := synchWait_cases hwait
  · rfl
  · rw [heq]
    rfl

theorem channels_synchObject (s : Sched) (phy : Word) :
    (synchObject s phy).1.channels = s.channels := by
  obtain ⟨_, _, _, heq⟩ := synchObject_frame s phy
  rw [heq]

/-- What a wake can do. -/
theorem effect_wake_released {address value count : Word}
    (h : effect s q (.wake address value count) = some (s₁, ws)) : Released s s₁ := by
  simp only [effect, Option.bind_eq_bind, Option.bind_eq_some_iff] at h
  obtain ⟨i, -, h⟩ := h
  split at h
  · cases h
    exact .refl s
  · simp only [Option.bind_eq_some_iff] at h
    obtain ⟨s₂, hwake, h⟩ := h
    cases h
    simp only [synchWake, Option.bind_eq_bind, Option.bind_eq_some_iff] at hwake
    obtain ⟨o, -, hwake⟩ := hwake
    split_ifs at hwake
    · exact wakeLoop_released hwake
    · obtain rfl := Option.some.inj hwake
      exact .refl _

/-- A request that keeps the records, and leaves the channels alone, leaves the sender alone. -/
theorem LeavesClient.of_kept (h : ClientAt s t q i) (hkept : RecordsKept s s₁)
    (hinfo : ∀ p i, s₁.info? p = some i → s.info? p = some i)
    (hchannels : s₁.channels = s.channels) : LeavesClient s s₁ t q i := by
  have hentry : s.info? (s.queue q).info = some i := h.entry
  obtain ⟨i', hi', -⟩ := hkept.record _ i hentry
  obtain rfl : i' = i := Option.some.inj ((hinfo _ i' hi').symm.trans hentry)
  refine ⟨⟨?_, ?_, ?_, ?_, h.sin, h.sout, h.apart⟩, by rw [hchannels], by rw [hchannels]⟩
  · rw [hkept.queueSize]
    exact h.inside
  · rw [hkept.queue]
    exact h.task
  · rw [hkept.queue]
    exact h.first
  · rw [Sched.entryInfo, hkept.queue]
    exact hi'

/-- A wait. -/
theorem LeavesClient.wait {address value : Word} (h : ClientAt s t q i) (hs : RecordsUnlisted s)
    (heffect : effect s q (.wait address value) = some (s₁, ws)) : LeavesClient s s₁ t q i := by
  have hkept := effect_kept (r := .wait address value) hs trivial heffect
  obtain ⟨phy, ⟨-, rfl⟩ | ⟨r, hwait⟩⟩ := effect_wait heffect
  · exact .of_kept h hkept (fun p i hi => info?_of_synchObject s phy hi)
      (channels_synchObject s phy)
  · refine .of_kept h hkept (fun p i hi => ?_) ?_
    · exact info?_of_synchObject s phy (info?_of_synchWait hwait hi)
    · exact (channels_synchWait hwait).trans (channels_synchObject s phy)

/-- A wake. -/
theorem LeavesClient.wake {address value count : Word} (h : ClientAt s t q i)
    (hs : RecordsUnlisted s)
    (heffect : effect s q (.wake address value count) = some (s₁, ws)) :
    LeavesClient s s₁ t q i := by
  have hkept := effect_kept (r := .wake address value count) hs trivial heffect
  have hreleased := effect_wake_released heffect
  exact .of_kept h hkept hreleased.info hreleased.channels

end

/-! ## The calls -/

/-- A call has come back: its request has been served, which led to `s₁` and the words `ws`, and
    `b` is the reply, which is the last one in the channel. -/
structure LeavesReply (w : Around) (t : ClientTask) (s s₁ : Sched) (stale : List (List Byte))
    (reqId : Word) (ws : List (Nat × Word)) (b : Bytes) (s₂ : Sched) : Prop where
  others : s₂ = w.others 0 (s₁.setChannel t.schedout
    (commWrite (s.channels t.schedout) (load b 0 outSize)).1)
  idle : Idle t s₂
  number : b.word 8 = reqId
  words : ∀ a ∈ ws, b.word a.1 = a.2
  last : Backlog (s₂.channels t.schedout) (stale ++ [load b 0 outSize])

section
variable {s s₁ : Sched} {q : Nat} {t : ClientTask} {i j : TaskInfo} {ws : List (Nat × Word)}
  {w : Around} {stale : List (List Byte)} {reqId seq : Word} {r : Request} {type : Byte}
  {args : List (Nat × Word)} {stack : Bytes}

/-- **A request is served, and its reply left.** -/
theorem sendRequest_leaves_reply (h : CanSend s w t q i stale reqId) (hid : reqId ≠ 0)
    (hroom : ReplyFits (s.channels t.schedout) stale) (hwritten : r.written = some (type, args))
    (hstays : r ≠ .reap 0)
    (heffect : effect (received s t (inPacket stack type reqId args)) q r = some (s₁, ws))
    (hkept : LeavesClient (received s t (inPacket stack type reqId args)) s₁ t q i) :
    ∃ s₂ b, sendRequest w t stack reqId type args s = some s₂ ∧
      LeavesReply w t s s₁ stale reqId ws b s₂ := by
  obtain ⟨hbehind, hapart⟩ := fills_apart hstays
  have hfills := effect_fills heffect
  rw [← hfills] at hbehind hapart
  obtain ⟨b, s₂, hb, hanswer, hs₂, hsend, hidle, hchannel⟩ := sendRequest_serves h hid hwritten
    heffect (fun a ha => hbehind _ (List.mem_map_of_mem ha)) hkept
  refine ⟨s₂, b, hsend, hs₂, hidle, hanswer, fun a ha => ?_, ?_⟩
  · rw [hb, answered]
    exact fill_word (List.pairwise_map.mp hapart) ha
  · rw [hchannel]
    exact h.replied hroom b

/-- **`rlib_wait`** comes back when the wait has been made or refused, and whether it was is in a
    reply that it leaves. -/
theorem rlib_wait_leaves_reply {pointer value : Word}
    (h : CanSend s w t q i stale (rlibSequence seq))
    (hroom : ReplyFits (s.channels t.schedout) stale) (hs : RecordsUnlisted s)
    (heffect : effect (received s t (inPacket stack 1 (rlibSequence seq)
      [(16, pointer), (24, value)])) q (.wait pointer value) = some (s₁, ws)) :
    ∃ s₂ b, rlibWait w t stack seq pointer value s = some s₂ ∧
      LeavesReply w t s s₁ stale (rlibSequence seq) ws b s₂ :=
  sendRequest_leaves_reply h (rlibSequence_ne_zero seq) hroom rfl Request.noConfusion heffect
    (.wait (h.place.setChannel _ _) (hs.of_heap rfl) heffect)

/-- **`rlib_wake`** likewise. -/
theorem rlib_wake_leaves_reply {pointer value count : Word}
    (h : CanSend s w t q i stale (rlibSequence seq))
    (hroom : ReplyFits (s.channels t.schedout) stale) (hs : RecordsUnlisted s)
    (heffect : effect (received s t (inPacket stack 2 (rlibSequence seq)
      [(16, pointer), (24, value), (32, count)])) q (.wake pointer value count) = some (s₁, ws)) :
    ∃ s₂ b, rlibWake w t stack seq pointer value count s = some s₂ ∧
      LeavesReply w t s s₁ stale (rlibSequence seq) ws b s₂ :=
  sendRequest_leaves_reply h (rlibSequence_ne_zero seq) hroom rfl Request.noConfusion heffect
    (.wake (h.place.setChannel _ _) (hs.of_heap rfl) heffect)

/-- **`rlib_ready_task`** lets a task run. -/
theorem rlib_ready_task_leaves_reply {task : Word} (h : CanSend s w t q i stale (rlibSequence seq))
    (hroom : ReplyFits (s.channels t.schedout) stale) (hknown : s.getInfo task.toNat ≠ 0)
    (hinfo : s.taskInfo task.toNat = some j) (stack : Bytes) :
    ∃ s₁ s₂ b, rlibReadyTask w t stack seq task s = some s₂ ∧
      s₁.tasks = s.tasks.set j.state 27 (taskStateValid ||| taskStateRunnable) ∧
      LeavesReply w t s s₁ stale (rlibSequence seq) [] b s₂ := by
  have heffect := handledAs_setState (q := q) (s := s) hknown hinfo
    (show (27 : Word) < 32 by decide) (taskStateValid ||| taskStateRunnable) [] 0
    (received s t (inPacket stack 10 (rlibSequence seq)
      [(16, task), (24, 27), (32, taskStateValid ||| taskStateRunnable)])).channels
  obtain ⟨s₂, b, hsend, hleaves⟩ := sendRequest_leaves_reply h (rlibSequence_ne_zero seq) hroom
    (r := .setState task 27 (taskStateValid ||| taskStateRunnable)) rfl Request.noConfusion heffect
    ⟨(h.place.withTasks _).withChannels _, rfl, rfl⟩
  exact ⟨_, s₂, b, hsend, rfl, hleaves⟩

/-- **`rlib_reap_self` gets no reply**: the task is reaped, and the loop goes on in the state that
    this has led to, with the entry that is now where the task's was. -/
theorem rlib_reap_self_reaps (h : CanSend s w t q i stale (rlibSequence seq))
    (heffect : effect (received s t (inPacket stack 11 (rlibSequence seq) [(16, 0)])) q (.reap 0) =
      some (s₁, ws)) :
    ∃ fuel l, w.fuel = fuel + 1 ∧
      rlibReapSelf w t stack seq s = (processLoop q fuel s₁ l).map (w.others 0) := by
  obtain ⟨fuel, hfuel⟩ : ∃ fuel, w.fuel = fuel + 1 :=
    ⟨w.fuel - 1, by have := h.around.turns; omega⟩
  obtain ⟨hrequest, -⟩ := request_written (r := .reap 0) (w.locals 0) stack (rlibSequence seq) rfl
  generalize hpacket : inPacket stack 11 (rlibSequence seq) [(16, 0)] = packet at heffect hrequest
  have hlength : packet.length = 56 := by rw [← hpacket, length_inPacket]
  obtain ⟨hsent, -⟩ := h.requests.write packet (by omega) (by rw [hlength]; exact h.room)
  obtain ⟨hread, -, -⟩ := hsent.read (n := inSize) (by rw [hlength]; decide)
  have hplace := h.place.setChannel t.schedin (commWrite (s.channels t.schedin) packet).1
  have hchannel := channels_setChannel_self s t.schedin (commWrite (s.channels t.schedin) packet).1
  -- the turn that reads the packet: its answer has no number
  have hturn : requestTurn (received s t packet) q packet (w.locals 0) = some (s₁, none) := by
    rw [requestTurn_eq, hrequest, heffect, Option.bind_some, effect_reap_self heffect]
    exact sendReply_silent word_setWord
  have hprocess := processTurn_eq _ q (w.locals 0) hplace.entry (by
    rw [h.place.sin, hchannel, hread])
  rw [h.place.sin, received_eq, hchannel, hread, hturn] at hprocess
  obtain ⟨⟨s₂, l, again⟩, hrun, heq⟩ := Option.map_eq_some_iff.mp hprocess
  obtain ⟨rfl, rfl⟩ := Prod.mk.inj heq
  refine ⟨fuel, l, hfuel, ?_⟩
  rw [rlibReapSelf, sendRequest, hpacket]
  simp only [Around.processQueued, hplace.processFor, hfuel, processLoop, hrun,
    Option.bind_eq_bind, Option.bind_some, if_true]

end

end Refk
