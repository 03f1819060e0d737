import Mathlib.Data.List.TakeWhile
import Refk.Scheduler.Listen

/-!
# What a request depends on

`process` keeps one `in` and one `status` for all the packets of a call. A packet covers the
front of `in`, and what is behind it is left over from an earlier packet, or from the stack; a
handler fills in the fields of `status` that it knows about, and the reply is all of it.

`Request` is a packet as its handler reads it, and `effect` what the handler does with that: it
changes the state and fills in words of `status`. `handle_eq` says that the handlers do not
depend on anything else. What is sent back does: `Unfilled` are the bytes of the reply that
nobody has written.
-/

namespace Refk

open Lib

/-- A packet as its handler reads it. Of a name that is the part before the terminator. -/
inductive Request
  | forward (task : Word) (data : List Byte)
  | wait (address value : Word)
  | wake (address value count : Word)
  | mapAnonymous (root address size : Word)
  | mapPhysical (root address phyAddr size : Word)
  | mapMirror (root address oroot oaddress size : Word)
  | unmap (root address size : Word)
  | setName (task : Word) (name : List Byte)
  | getNamed (name : List Byte)
  | spawn (root : Word)
  | setState (task index value : Word)
  | reap (task : Word)
  | unknown
  deriving DecidableEq

/-- The name at an offset, with its last byte cleared. -/
def Bytes.name (b : Bytes) (off : Nat) : List Byte :=
  let name := load (store b (off + 31) [0]) off 32
  name.take (strLen name)

namespace Locals

variable (l : Locals)

/-- A packet of `packet.length` bytes is read into `in`. -/
def receive (packet : List Byte) : Locals := { l with input := store l.input 0 packet }

/-- The length that `SCHED_FORWARD` passes on. -/
def forwardLength : Word :=
  let length := inSize - 32
  if l.arg 1 < length then l.arg 1 else length

/-- What `in` says. -/
def request : Request :=
  match SchedType.ofByte l.type with
  | some .forward => .forward (l.arg 0) (load l.input 32 l.forwardLength.toNat)
  | some .wait => .wait (l.arg 0) (l.arg 1)
  | some .wake => .wake (l.arg 0) (l.arg 1) (l.arg 2)
  | some .mapAnonymous => .mapAnonymous (l.arg 0) (l.arg 1) (l.arg 2)
  | some .mapPhysical => .mapPhysical (l.arg 0) (l.arg 1) (l.arg 2) (l.arg 3)
  | some .mapMirror => .mapMirror (l.arg 0) (l.arg 1) (l.arg 2) (l.arg 3) (l.arg 4)
  | some .unmap => .unmap (l.arg 0) (l.arg 1) (l.arg 2)
  | some .setName => .setName (l.arg 0) (l.input.name 24)
  | some .getNamed => .getNamed (l.input.name 16)
  | some .spawn => .spawn (l.arg 0)
  | some .setState => .setState (l.arg 0) (l.arg 1) (l.arg 2)
  | some .reap => .reap (l.arg 0)
  | none => .unknown

/-- The bytes handed to `comm_write`, if a reply is sent. -/
def sent : Option (List Byte) :=
  if l.status.word 8 = 0 then none else some (load l.status 0 outSize)

end Locals

/-- A turn of the loop from the read on: the state, and the reply. -/
def requestTurn (s : Sched) (q : Nat) (packet : List Byte) (l : Locals) :
    Option (Sched × Option (List Byte)) := do
  let (s, l) ← handle s q (l.receive packet).start
  let s ← reply s q l
  return (s, l.sent)

/-- A channel changes. -/
def Sched.setChannel (s : Sched) (window : Word) (cc : Comm) : Sched :=
  { s with channels := Function.update s.channels window cc }

/-- A turn of `process` is that, for the packet that it reads, and there is another turn. -/
theorem processTurn_eq (s : Sched) (q : Nat) (l : Locals) {i : TaskInfo}
    (hentry : s.entryInfo q = some i) (hread : (commRead (s.channels i.sin) inSize).2.ret = 0) :
    (processTurn s q l).map (fun p => (p.1, p.2.2)) =
      (requestTurn (s.setChannel i.sin (commRead (s.channels i.sin) inSize).1) q
        (commRead (s.channels i.sin) inSize).2.bytes l).map fun p => (p.1, true) := by
  have hback : ∀ r : Option (Sched × Locals),
      (r.bind fun p => (reply p.1 q p.2).bind fun s => some (s, p.2, true)).map
          (fun p => (p.1, p.2.2)) =
        (r.bind fun p => (reply p.1 q p.2).bind fun s => some (s, p.2.sent)).map
          fun p => (p.1, true) := by
    intro r
    cases r with
    | none => rfl
    | some p => cases h : reply p.1 q p.2 <;> simp [h]
  simp only [processTurn, requestTurn, hentry, hread, Option.bind_eq_bind, Option.bind_some,
    ne_eq, not_true_eq_false, if_false]
  exact hback _

/-! ## What a request does -/

/-- A mapping request. -/
def mapEffect (s : Sched) (q : Nat) (root : Word) (op : Nat → Mman × Int) :
    Option (Sched × List (Nat × Word)) := do
  let id ← rootArg s q root
  let (m, r) := op id
  let s ← s.setMman m
  return (s, [(16, resultWord r)])

/-- The state after a request, and the words it fills in: their offsets in `status`, and what
    they become. -/
def effect (s : Sched) (q : Nat) : Request → Option (Sched × List (Nat × Word))
  | .forward task data => do
    let tinfo := s.getInfo task.toNat
    if tinfo = 0 then return (s, [(16, -1)])
    else do
      let i ← s.info? tinfo
      let (cc, r) := commWrite (s.channels i.gin) data
      return ({ s with channels := Function.update s.channels i.gin cc }, [(16, resultWord r)])
  | .wait address value => do
    let i ← s.entryInfo q
    let (s, obj) := synchObject s (mmanGetPhy s.mman i.rootId address)
    if obj = 0 then return (s, [(16, -1)])
    else do
      let (s, r) ← synchWait s (s.queue q).taskId obj value
      return (s, [(16, resultWord r)])
  | .wake address value count => do
    let i ← s.entryInfo q
    let obj := synchFromPhy s (mmanGetPhy s.mman i.rootId address)
    if obj = 0 then return (s, [(16, 1)])
    else do
      let s ← synchWake s obj value count
      return (s, [(16, 0)])
  | .mapAnonymous root address size =>
    mapEffect s q root fun id => mmanAnonymous s.mman id address size
  | .mapPhysical root address phyAddr size =>
    mapEffect s q root fun id => mmanPhysical s.mman id address phyAddr size
  | .mapMirror root address oroot oaddress size =>
    mapEffect s q root fun id => mmanMirror s.mman id address oroot.toNat oaddress size
  | .unmap root address size => mapEffect s q root fun id => mmanUnmap s.mman id address size
  | .setName task name =>
    some (schedSetName s (if task = 0 then (s.queue q).taskId else task.toNat) name, [])
  | .getNamed name => some (s, [(24, BitVec.ofNat 64 (schedNamedTask s name))])
  | .spawn root => do
    let rootId ← rootArg s q root
    let (s, info) := s.alloc (.info none)
    let (s, taskId) ← schedTaskCreate s rootId info
    let s ← s.pushQueue ⟨taskId, info⟩
    return (s, [(32, BitVec.ofNat 64 rootId), (24, BitVec.ofNat 64 taskId)])
  | .setState task index value => do
    let s ← schedSetState s task.toNat index value
    return (s, [])
  | .reap task => do
    let id := if task = 0 then (s.queue q).taskId else task.toNat
    let info := (s.queue q).info
    let (s, _) ← schedTaskReap s id
    let s := removeFromQueue s id
    let s ← s.free info
    return (s, if task = 0 then [(8, 0)] else [])
  | .unknown => some (s, [])

/-- Fills in words of `status`. -/
def Bytes.fill (b : Bytes) (ws : List (Nat × Word)) : Bytes :=
  ws.foldl (fun b w => b.setWord w.1 w.2) b

/-- The offsets of the words that a request fills in. -/
def Request.fills : Request → List Nat
  | .forward _ _ => [16]
  | .wait _ _ => [16]
  | .wake _ _ _ => [16]
  | .mapAnonymous _ _ _ => [16]
  | .mapPhysical _ _ _ _ => [16]
  | .mapMirror _ _ _ _ _ => [16]
  | .unmap _ _ _ => [16]
  | .setName _ _ => []
  | .getNamed _ => [24]
  | .spawn _ => [32, 24]
  | .setState _ _ _ => []
  | .reap task => if task = 0 then [8] else []
  | .unknown => []

/-! ### Names -/

theorem take_strLen (name : List Byte) : name.take (strLen name) = name.takeWhile (· ≠ 0) :=
  (List.prefix_iff_eq_take.mp (List.takeWhile_prefix _)).symm

theorem cString_takeWhile (name : List Byte) : cString (name.takeWhile (· ≠ 0)) = cString name := by
  induction name with
  | nil => rfl
  | cons a as ih =>
    by_cases ha : a = 0
    · rw [ha, List.takeWhile_cons_of_neg (by simp)]
      rfl
    · rw [List.takeWhile_cons_of_pos (by simpa using ha), cString, cString, if_neg ha, if_neg ha, ih]

/-- A search reads a name as far as its terminator … -/
theorem schedNamedTask_take (s : Sched) (name : List Byte) :
    schedNamedTask s (name.take (strLen name)) = schedNamedTask s name := by
  have hcmp : strCmp (name.take (strLen name)) name = 0 := by
    rw [strCmp_eq, take_strLen, cString_takeWhile]
    exact avlPtrcmp_total.self _
  rw [schedNamedTask, schedNamedTask, AvlMap.search_eq, AvlMap.search_eq,
    Assoc.find_congr inferInstance hcmp]

/-- … and so does a copy. -/
theorem schedSetName_take (s : Sched) (task : Nat) (name : List Byte) :
    schedSetName s task (name.take (strLen name)) = schedSetName s task name := by
  rw [schedSetName, schedSetName, take_strLen (name.take (strLen name)), take_strLen,
    List.takeWhile_idem]

/-! ### Bytes -/

section
variable {b b' : Bytes} {off at_ i : Nat} {v : Word} {xs : List Byte} {ws : List (Nat × Word)}

theorem load_congr {n : Nat} (h : ∀ i, off ≤ i → i < off + n → b i = b' i) :
    load b off n = load b' off n :=
  List.map_congr_left fun i hi => h (off + i) (by omega) (by have := List.mem_range.mp hi; omega)

theorem word_congr (h : ∀ i, off ≤ i → i < off + 8 → b i = b' i) : b.word off = b'.word off := by
  rw [Bytes.word, Bytes.word, load_congr h]

theorem setWord_other (h : i < off ∨ off + 8 ≤ i) : b.setWord off v i = b i := by
  rcases h with h | h
  · exact store_of_lt h
  · exact store_of_le (by simpa using h)

theorem setWord_self (h : off ≤ i) (h' : i < off + 8) : b.setWord off v i = b'.setWord off v i := by
  have hi : i - off < (toLe 8 v.toNat).length := by
    rw [length_toLe]
    omega
  have heq : off + (i - off) = i := by omega
  rw [Bytes.setWord, Bytes.setWord, ← heq, store_add hi, store_add hi]

@[simp] theorem word_setWord : (b.setWord off v).word off = v := by
  have hload : load (b.setWord off v) off 8 = toLe 8 v.toNat := by
    apply List.ext_getElem
    · simp
    · intro i hi hi'
      rw [getElem_load, Bytes.setWord, store_add hi']
  rw [Bytes.word, hload, ofLe_toLe_of_lt (by simpa using v.isLt)]
  exact BitVec.ofNat_toNat 64 v

theorem word_setWord_other (h : at_ + 8 ≤ off ∨ off + 8 ≤ at_) :
    (b.setWord off v).word at_ = b.word at_ :=
  word_congr fun i hi hi' => setWord_other (by omega)

/-- The byte lies in one of the words. -/
def Fills (ws : List (Nat × Word)) (i : Nat) : Prop := ∃ w ∈ ws, w.1 ≤ i ∧ i < w.1 + 8

theorem fill_other (h : ¬ Fills ws i) : b.fill ws i = b i := by
  induction ws generalizing b with
  | nil => rfl
  | cons w ws ih =>
    have hw : i < w.1 ∨ w.1 + 8 ≤ i := by
      by_contra hin
      exact h ⟨w, List.mem_cons_self, by omega⟩
    have hws : ¬ Fills ws i := fun ⟨w', hw', hin⟩ => h ⟨w', List.mem_cons_of_mem _ hw', hin⟩
    exact (ih hws).trans (setWord_other hw)

theorem fill_congr (h : b i = b' i ∨ Fills ws i) : b.fill ws i = b'.fill ws i := by
  induction ws generalizing b b' with
  | nil =>
    rcases h with h | ⟨_, hmem, _⟩
    · exact h
    · simp at hmem
  | cons w ws ih =>
    apply ih
    by_cases hin : w.1 ≤ i ∧ i < w.1 + 8
    · exact .inl (setWord_self hin.1 hin.2)
    · rcases h with h | ⟨w', hmem, hin'⟩
      · have hout : i < w.1 ∨ w.1 + 8 ≤ i := by omega
        exact .inl ((setWord_other hout).trans (h.trans (setWord_other hout).symm))
      · rcases List.mem_cons.mp hmem with rfl | hmem
        · exact absurd hin' hin
        · exact .inr ⟨w', hmem, hin'⟩

end

/-! ### The handlers -/

section
variable (s : Sched) (q : Nat) (l : Locals)

/-- The state and `status` after a handler. -/
def outcome (r : Option (Sched × Locals)) : Option (Sched × Bytes) :=
  r.map fun p => (p.1, p.2.status)

/-- The state and `status` after a request. -/
def filled (status : Bytes) (r : Option (Sched × List (Nat × Word))) : Option (Sched × Bytes) :=
  r.map fun p => (p.1, status.fill p.2)

theorem handleForward_eq : outcome (handleForward s l) =
    filled l.status (effect s q (.forward (l.arg 0) (load l.input 32 l.forwardLength.toNat))) := by
  simp only [handleForward, effect, Locals.forwardLength]
  by_cases h : s.getInfo (l.arg 0).toNat = 0
  · simp only [h, if_true]
    rfl
  · cases hi : s.info? (s.getInfo (l.arg 0).toNat) with
    | none => simp [h, outcome, filled]
    | some i =>
      simp only [h, if_false]
      rfl

theorem handleWait_eq : outcome (handleWait s q l) =
    filled l.status (effect s q (.wait (l.arg 0) (l.arg 1))) := by
  simp only [handleWait, effect]
  cases hi : s.entryInfo q with
  | none => rfl
  | some i =>
    simp only [Option.bind_eq_bind, Option.bind_some]
    split
    · rfl
    · cases synchWait (synchObject s (mmanGetPhy s.mman i.rootId (l.arg 0))).1
          (Sched.queue _ q).taskId _ (l.arg 1) with
      | none => rfl
      | some waited => rfl

theorem handleWake_eq : outcome (handleWake s q l) =
    filled l.status (effect s q (.wake (l.arg 0) (l.arg 1) (l.arg 2))) := by
  simp only [handleWake, effect]
  cases hi : s.entryInfo q with
  | none => rfl
  | some i =>
    simp only [Option.bind_eq_bind, Option.bind_some]
    split
    · rfl
    · cases synchWake s (synchFromPhy s (mmanGetPhy s.mman i.rootId (l.arg 0))) (l.arg 1)
          (l.arg 2) with
      | none => rfl
      | some s' => rfl

theorem handleMap_eq (op : Nat → Mman × Int) : outcome (handleMap s q l op) =
    filled l.status (mapEffect s q (l.arg 0) op) := by
  unfold handleMap mapEffect
  cases rootArg s q (l.arg 0) with
  | none => rfl
  | some id =>
    simp only [Option.bind_eq_bind, Option.bind_some]
    cases s.setMman (op id).1 with
    | none => rfl
    | some s' => rfl

theorem handleSetName_eq : outcome (handleSetName s q l) =
    filled l.status (effect s q (.setName (l.arg 0) (l.input.name 24))) := by
  have harg : Bytes.word (store l.input (24 + 31) [0]) (16 + 8 * 0) = l.arg 0 :=
    word_congr fun i _ hi => store_of_lt (by omega)
  have hname := schedSetName_take s (if l.arg 0 = 0 then (s.queue q).taskId else (l.arg 0).toNat)
    (load (store l.input (24 + 31) [0]) 24 32)
  simp only [handleSetName, effect, Locals.arg, harg, Bytes.name, outcome, filled] at hname ⊢
  simp only [Option.map_some]
  rw [hname]
  rfl

theorem handleGetNamed_eq (h : l.status 0 = 8) : outcome (handleGetNamed s l) =
    filled l.status (effect s q (.getNamed (l.input.name 16))) := by
  have hname := schedNamedTask_take s (load (store l.input (16 + 31) [0]) 16 32)
  have hstatus : store l.status 0 [8] = l.status := by
    funext i
    cases i with
    | zero => exact h.symm
    | succ i => exact store_of_le (by simp)
  simp only [handleGetNamed, effect, Bytes.name, outcome, filled, Option.map_some, hstatus, hname]
  rfl

theorem handleSpawn_eq : outcome (handleSpawn s q l) =
    filled l.status (effect s q (.spawn (l.arg 0))) := by
  simp only [handleSpawn, effect]
  cases rootArg s q (l.arg 0) with
  | none => rfl
  | some rootId =>
    simp only [Option.bind_eq_bind, Option.bind_some]
    cases schedTaskCreate (s.alloc (.info none)).1 rootId (s.alloc (.info none)).2 with
    | none => rfl
    | some created =>
      simp only [Option.bind_some]
      cases created.1.pushQueue ⟨created.2, (s.alloc (.info none)).2⟩ with
      | none => rfl
      | some s' => rfl

theorem handleSetState_eq : outcome (handleSetState s l) =
    filled l.status (effect s q (.setState (l.arg 0) (l.arg 1) (l.arg 2))) := by
  simp only [handleSetState, effect]
  cases schedSetState s (l.arg 0).toNat (l.arg 1) (l.arg 2) with
  | none => rfl
  | some s' => rfl

theorem handleReap_eq : outcome (handleReap s q l) =
    filled l.status (effect s q (.reap (l.arg 0))) := by
  simp only [handleReap, effect]
  cases schedTaskReap s (if l.arg 0 = 0 then (s.queue q).taskId else (l.arg 0).toNat) with
  | none => rfl
  | some reaped =>
    simp only [Option.bind_eq_bind, Option.bind_some]
    cases (removeFromQueue reaped.1
        (if l.arg 0 = 0 then (s.queue q).taskId else (l.arg 0).toNat)).free (s.queue q).info with
    | none => rfl
    | some s' =>
      by_cases h : l.arg 0 = 0
      · simp only [h, if_true]
        rfl
      · simp only [h, if_false]
        rfl

theorem ofByte_getNamed {type : Byte} (h : SchedType.ofByte type = some .getNamed) : type = 8 := by
  revert h
  revert type
  decide

/-- **A handler does what its request does**, and nothing else. -/
theorem handle_eq (h : l.status 0 = l.type) :
    outcome (handle s q l) = filled l.status (effect s q l.request) := by
  unfold handle Locals.request
  cases htype : SchedType.ofByte l.type with
  | none => rfl
  | some type =>
    cases type with
    | forward => exact handleForward_eq s q l
    | wait => exact handleWait_eq s q l
    | wake => exact handleWake_eq s q l
    | mapAnonymous => exact handleMap_eq s q l _
    | mapPhysical => exact handleMap_eq s q l _
    | mapMirror => exact handleMap_eq s q l _
    | unmap => exact handleMap_eq s q l _
    | setName => exact handleSetName_eq s q l
    | getNamed => exact handleGetNamed_eq s q l (h.trans (ofByte_getNamed htype))
    | spawn => exact handleSpawn_eq s q l
    | setState => exact handleSetState_eq s q l
    | reap => exact handleReap_eq s q l

end

/-! ## Two runs -/

/-- The reply, given `status`. -/
def sendReply (s : Sched) (q : Nat) (status : Bytes) : Option (Sched × Option (List Byte)) :=
  (reply s q ⟨status, status⟩).map fun s => (s, Locals.sent ⟨status, status⟩)

section
variable {s : Sched} {q : Nat} {b b' : Bytes}

theorem sendReply_silent (h : b.word 8 = 0) : sendReply s q b = some (s, none) := by
  simp [sendReply, reply, Locals.sent, h]

/-- The reply depends on the bytes that are sent … -/
theorem sendReply_congr (h : ∀ i < outSize, b i = b' i) : sendReply s q b = sendReply s q b' := by
  have hload : load b 0 outSize = load b' 0 outSize := load_congr fun i _ hi => h i (by omega)
  have hword : b.word 8 = b'.word 8 := word_congr fun i _ hi => h i (by
    unfold outSize
    omega)
  unfold sendReply reply Locals.sent
  simp only [hload, hword]

/-- … and says which they were. -/
theorem sendReply_inj (h : b.word 8 ≠ 0) (hdef : (sendReply s q b).isSome)
    (heq : sendReply s q b = sendReply s q b') : ∀ i < outSize, b i = b' i := by
  obtain ⟨r, hr⟩ := Option.isSome_iff_exists.mp hdef
  rw [hr] at heq
  simp only [sendReply, Option.map_eq_some_iff] at hr
  obtain ⟨s₁, -, rfl⟩ := hr
  obtain ⟨s₂, -, hsent⟩ := Option.map_eq_some_iff.mp heq.symm
  have hsent := congrArg Prod.snd hsent
  simp only [Locals.sent, if_neg h] at hsent
  split at hsent
  · cases hsent
  · intro i hi
    have hget := congrArg (fun bs : List Byte => bs[i]?) (Option.some.inj hsent)
    simpa [load, hi] using hget.symm

end

section
variable {s : Sched} {q : Nat} {packet : List Byte} {l l₁ l₂ : Locals}

/-- The two runs read the same request: what its handler looks at is in the packet, or was left
    over alike. -/
structure SameRequest (packet : List Byte) (l₁ l₂ : Locals) : Prop where
  reqId : (l₁.receive packet).reqId = (l₂.receive packet).reqId
  type : (l₁.receive packet).type = (l₂.receive packet).type
  request : (l₁.receive packet).request = (l₂.receive packet).request

/-- The bytes of the reply that the loop and the handler leave as they were. -/
def Unfilled (r : Request) (i : Nat) : Prop :=
  i < outSize ∧ (1 ≤ i ∧ i < 8 ∨ 24 ≤ i) ∧ ∀ off ∈ r.fills, ¬ (off ≤ i ∧ i < off + 8)

instance (r : Request) : DecidablePred (Unfilled r) := fun _ => inferInstanceAs (Decidable (_ ∧ _))

/-- No reply is sent: the request has no id, or the task reaps itself. -/
def Silent (packet : List Byte) (l : Locals) : Prop :=
  (l.receive packet).reqId = 0 ∨ (l.receive packet).request = .reap 0

/-- `status` when the handler starts. -/
theorem start_status (l : Locals) :
    l.start.status = Bytes.fill (store l.status 0 [l.type]) [(8, l.reqId), (16, 0)] := rfl

theorem start_status_zero (l : Locals) : l.start.status 0 = l.start.type := by
  rw [start_status, fill_other]
  · rfl
  · intro ⟨w, hw, hin⟩
    simp only [List.mem_cons, List.not_mem_nil, or_false] at hw
    rcases hw with rfl | rfl
    · exact Nat.not_succ_le_zero _ hin.1
    · exact Nat.not_succ_le_zero _ hin.1

theorem bind_outcome (q : Nat) (r : Option (Sched × Locals)) :
    (r.bind fun p => (reply p.1 q p.2).bind fun s => some (s, p.2.sent)) =
      (outcome r).bind fun p => sendReply p.1 q p.2 := by
  cases r with
  | none => rfl
  | some p =>
    have hreply : reply p.1 q ⟨p.2.status, p.2.status⟩ = reply p.1 q p.2 := rfl
    simp only [outcome, Option.map_some, Option.bind_some, sendReply, hreply]
    cases reply p.1 q p.2 <;> rfl

theorem bind_filled (q : Nat) (status : Bytes) (r : Option (Sched × List (Nat × Word))) :
    (filled status r).bind (fun p => sendReply p.1 q p.2) =
      r.bind fun p => sendReply p.1 q (status.fill p.2) := by
  cases r <;> rfl

/-- **A turn is the request's effect and the reply**, which is the leftover `status` with the
    words filled in. -/
theorem requestTurn_eq (s : Sched) (q : Nat) (packet : List Byte) (l : Locals) :
    requestTurn s q packet l = (effect s q (l.receive packet).request).bind fun p =>
      sendReply p.1 q ((l.receive packet).start.status.fill p.2) := by
  have hturn : requestTurn s q packet l = _ := bind_outcome q (handle s q (l.receive packet).start)
  rw [hturn, handle_eq s q _ (start_status_zero _), bind_filled]
  rfl

theorem mapEffect_fills {root : Word} {op : Nat → Mman × Int} {p : Sched × List (Nat × Word)}
    (h : mapEffect s q root op = some p) : p.2.map Prod.fst = [16] := by
  simp only [mapEffect, Option.bind_eq_bind, Option.bind_eq_some_iff] at h
  obtain ⟨id, -, s', -, h⟩ := h
  cases h
  rfl

/-- The words that an effect fills in lie where its request says. -/
theorem effect_fills {r : Request} {p : Sched × List (Nat × Word)} (h : effect s q r = some p) :
    p.2.map Prod.fst = r.fills := by
  cases r with
  | forward task data =>
    simp only [effect] at h
    split at h
    · cases h
      rfl
    · simp only [Option.bind_eq_bind, Option.bind_eq_some_iff] at h
      obtain ⟨i, -, h⟩ := h
      cases h
      rfl
  | wait address value =>
    simp only [effect, Option.bind_eq_bind, Option.bind_eq_some_iff] at h
    obtain ⟨i, -, h⟩ := h
    split at h
    · cases h
      rfl
    · simp only [Option.bind_eq_some_iff] at h
      obtain ⟨waited, -, h⟩ := h
      cases h
      rfl
  | wake address value count =>
    simp only [effect, Option.bind_eq_bind, Option.bind_eq_some_iff] at h
    obtain ⟨i, -, h⟩ := h
    split at h
    · cases h
      rfl
    · simp only [Option.bind_eq_some_iff] at h
      obtain ⟨s', -, h⟩ := h
      cases h
      rfl
  | mapAnonymous => exact mapEffect_fills h
  | mapPhysical => exact mapEffect_fills h
  | mapMirror => exact mapEffect_fills h
  | unmap => exact mapEffect_fills h
  | setName =>
    cases h
    rfl
  | getNamed =>
    cases h
    rfl
  | spawn root =>
    simp only [effect, Option.bind_eq_bind, Option.bind_eq_some_iff] at h
    obtain ⟨rootId, -, created, -, s', -, h⟩ := h
    cases h
    rfl
  | setState =>
    simp only [effect, Option.bind_eq_bind, Option.bind_eq_some_iff] at h
    obtain ⟨s', -, h⟩ := h
    cases h
    rfl
  | reap task =>
    simp only [effect, Option.bind_eq_bind, Option.bind_eq_some_iff] at h
    obtain ⟨reaped, -, s', -, h⟩ := h
    cases h
    simp only [Request.fills]
    split <;> rfl
  | unknown =>
    cases h
    rfl

/-- A task that reaps itself gets no id back. -/
theorem effect_reap_self {p : Sched × List (Nat × Word)} (h : effect s q (.reap 0) = some p) :
    p.2 = [(8, 0)] := by
  simp only [effect, Option.bind_eq_bind, Option.bind_eq_some_iff] at h
  obtain ⟨reaped, -, s', -, h⟩ := h
  cases h
  rfl

/-- Where a byte of the final `status` comes from. -/
theorem fills_iff {r : Request} {p : Sched × List (Nat × Word)} {i : Nat}
    (h : effect s q r = some p) : Fills p.2 i ↔ ∃ off ∈ r.fills, off ≤ i ∧ i < off + 8 := by
  rw [← effect_fills h]
  simp only [Fills, List.mem_map]
  constructor
  · intro ⟨w, hw, hin⟩
    exact ⟨w.1, ⟨w, hw, rfl⟩, hin⟩
  · intro ⟨_, ⟨w, hw, rfl⟩, hin⟩
    exact ⟨w, hw, hin⟩

/-- The status that is sent, byte by byte: left over where nobody fills it in … -/
theorem status_unfilled {p : Sched × List (Nat × Word)} {i : Nat}
    (h : effect s q (l.receive packet).request = some p)
    (hi : Unfilled (l.receive packet).request i) :
    (l.receive packet).start.status.fill p.2 i = l.status i := by
  obtain ⟨hlt, hrange, hfills⟩ := hi
  have hnot : ¬ Fills p.2 i := by
    rw [fills_iff h]
    intro ⟨off, hoff, hin⟩
    exact hfills off hoff hin
  rw [fill_other hnot, start_status, fill_other]
  · exact store_of_le (by simp; omega)
  · intro ⟨w, hw, hin⟩
    simp only [List.mem_cons, List.not_mem_nil, or_false] at hw
    rcases hw with rfl | rfl
    · simp only [] at hin
      omega
    · simp only [] at hin
      omega

/-- … and the same in both runs elsewhere. -/
theorem status_filled {p : Sched × List (Nat × Word)} {i : Nat} (hreq : SameRequest packet l₁ l₂)
    (h : effect s q (l₁.receive packet).request = some p) (hlt : i < outSize)
    (hi : Unfilled (l₁.receive packet).request i → l₁.status i = l₂.status i) :
    (l₁.receive packet).start.status.fill p.2 i = (l₂.receive packet).start.status.fill p.2 i := by
  by_cases hunf : Unfilled (l₁.receive packet).request i
  · have h₂ := h
    rw [hreq.request] at h₂
    rw [status_unfilled h hunf, status_unfilled h₂ (hreq.request ▸ hunf), hi hunf]
  · apply fill_congr
    by_cases hfill : Fills p.2 i
    · exact .inr hfill
    · refine .inl ?_
      -- what is left are the words that the loop fills in
      have hstart : ¬ (1 ≤ i ∧ i < 8 ∨ 24 ≤ i) := by
        intro hrange
        rw [fills_iff h] at hfill
        exact hunf ⟨hlt, hrange, fun off hoff hin => hfill ⟨off, hoff, hin⟩⟩
      rw [start_status, start_status, ← hreq.reqId, ← hreq.type]
      apply fill_congr
      by_cases h₀ : i = 0
      · subst h₀
        exact .inl rfl
      · refine .inr ?_
        by_cases h₁ : i < 16
        · exact ⟨(8, _), List.mem_cons_self, by simp only []; omega⟩
        · exact ⟨(16, 0), by simp, by simp only []; omega⟩

/-- Only a task that reaps itself touches the id. -/
theorem fills_ge {r : Request} (h : r ≠ .reap 0) : ∀ off ∈ r.fills, 16 ≤ off := by
  cases r with
  | reap task =>
    have htask : task ≠ 0 := fun h₀ => h (congrArg Request.reap h₀)
    rw [Request.fills, if_neg htask]
    simp
  | _ => simp [Request.fills]

/-- The id that decides whether the reply is sent. -/
theorem status_reqId {p : Sched × List (Nat × Word)}
    (h : effect s q (l.receive packet).request = some p) :
    ((l.receive packet).start.status.fill p.2).word 8 = 0 ↔ Silent packet l := by
  have hid : (l.receive packet).start.status.word 8 = (l.receive packet).reqId := by
    rw [start_status]
    simp only [Bytes.fill, List.foldl_cons, List.foldl_nil]
    rw [word_setWord_other (.inl (by decide)), word_setWord]
  by_cases hself : (l.receive packet).request = .reap 0
  · rw [hself] at h
    rw [effect_reap_self h]
    exact iff_of_true word_setWord (.inr hself)
  · -- no other request touches the id
    have hsame : ((l.receive packet).start.status.fill p.2).word 8 =
        (l.receive packet).start.status.word 8 := by
      apply word_congr
      intro i hi hi'
      apply fill_other
      rw [fills_iff h]
      intro ⟨off, hoff, hin⟩
      have hge := fills_ge hself off hoff
      omega
    rw [hsame, hid]
    exact ⟨.inl, fun hs => hs.resolve_right hself⟩

end

/-! ### Packets that are long enough -/

/-- The end of the last byte that the handler of a packet reads. -/
def fieldsEnd : Option SchedType → Nat
  | some .forward => 56
  | some .wait => 32
  | some .wake => 40
  | some .mapAnonymous => 40
  | some .mapPhysical => 48
  | some .mapMirror => 56
  | some .unmap => 40
  | some .setName => 55
  | some .getNamed => 47
  | some .spawn => 24
  | some .setState => 40
  | some .reap => 24
  | none => 16

theorem le_fieldsEnd (type : Option SchedType) : 16 ≤ fieldsEnd type := by
  cases type with
  | none => decide
  | some type => cases type <;> decide

theorem name_congr {b b' : Bytes} {off : Nat} (h : ∀ i < off + 31, b i = b' i) :
    b.name off = b'.name off := by
  have hload : load (store b (off + 31) [0]) off 32 = load (store b' (off + 31) [0]) off 32 := by
    apply load_congr
    intro i hi hi'
    by_cases hlast : i < off + 31
    · rw [store_of_lt hlast, store_of_lt hlast, h i hlast]
    · obtain rfl : i = off + 31 := by omega
      have hlen : 0 < [(0 : Byte)].length := by simp
      have h₁ : store b (off + 31) [0] (off + 31 + 0) = 0 := store_add hlen
      have h₂ : store b' (off + 31) [0] (off + 31 + 0) = 0 := store_add hlen
      exact h₁.trans h₂.symm
  rw [Bytes.name, Bytes.name, hload]

theorem forwardLength_le (l : Locals) : l.forwardLength.toNat ≤ 24 := by
  have h24 : inSize - 32 = 24 := rfl
  simp only [Locals.forwardLength, h24]
  split
  · rename_i hlt
    exact (BitVec.lt_def.mp hlt).le
  · exact le_rfl

/-- **A packet that reaches to the end of its fields** says the same whatever was in `in`. -/
theorem sameRequest_of_long {packet : List Byte} {l₁ l₂ : Locals}
    (h : fieldsEnd (SchedType.ofByte (l₁.receive packet).type) ≤ packet.length) :
    SameRequest packet l₁ l₂ := by
  have hbyte : ∀ i < packet.length, (l₁.receive packet).input i = (l₂.receive packet).input i := by
    intro i hi
    have h₁ : store l₁.input 0 packet (0 + i) = packet[i] := store_add hi
    have h₂ : store l₂.input 0 packet (0 + i) = packet[i] := store_add hi
    rw [Nat.zero_add] at h₁ h₂
    exact h₁.trans h₂.symm
  have hle := (le_fieldsEnd _).trans h
  have htype : (l₁.receive packet).type = (l₂.receive packet).type := hbyte 0 (by omega)
  have hword : ∀ off, off + 8 ≤ packet.length →
      (l₁.receive packet).input.word off = (l₂.receive packet).input.word off :=
    fun off hoff => word_congr fun i _ hi => hbyte i (by omega)
  have harg : ∀ k, 24 + 8 * k ≤ packet.length →
      (l₁.receive packet).arg k = (l₂.receive packet).arg k :=
    fun k hk => hword _ (by omega)
  refine ⟨hword 8 (by omega), htype, ?_⟩
  unfold Locals.request
  rw [← htype]
  cases hcase : SchedType.ofByte (l₁.receive packet).type with
  | none => rfl
  | some type =>
    rw [hcase] at h
    cases type with
    | forward =>
      change 56 ≤ packet.length at h
      have hlen : (l₁.receive packet).forwardLength = (l₂.receive packet).forwardLength := by
        simp only [Locals.forwardLength, harg 1 (by omega)]
      have hle := forwardLength_le (l₂.receive packet)
      simp only [harg 0 (by omega), hlen]
      rw [load_congr fun i _ hi => hbyte i (by omega)]
    | wait =>
      change 32 ≤ packet.length at h
      simp only [harg 0 (by omega), harg 1 (by omega)]
    | wake =>
      change 40 ≤ packet.length at h
      simp only [harg 0 (by omega), harg 1 (by omega), harg 2 (by omega)]
    | mapAnonymous =>
      change 40 ≤ packet.length at h
      simp only [harg 0 (by omega), harg 1 (by omega), harg 2 (by omega)]
    | mapPhysical =>
      change 48 ≤ packet.length at h
      simp only [harg 0 (by omega), harg 1 (by omega), harg 2 (by omega), harg 3 (by omega)]
    | mapMirror =>
      change 56 ≤ packet.length at h
      simp only [harg 0 (by omega), harg 1 (by omega), harg 2 (by omega), harg 3 (by omega), harg 4 (by omega)]
    | unmap =>
      change 40 ≤ packet.length at h
      simp only [harg 0 (by omega), harg 1 (by omega), harg 2 (by omega)]
    | setName =>
      change 55 ≤ packet.length at h
      simp only [harg 0 (by omega)]
      rw [name_congr fun i hi => hbyte i (by omega)]
    | getNamed =>
      change 47 ≤ packet.length at h
      simp only []
      rw [name_congr fun i hi => hbyte i (by omega)]
    | spawn =>
      change 24 ≤ packet.length at h
      simp only [harg 0 (by omega)]
    | setState =>
      change 40 ≤ packet.length at h
      simp only [harg 0 (by omega), harg 1 (by omega), harg 2 (by omega)]
    | reap =>
      change 24 ≤ packet.length at h
      simp only [harg 0 (by omega)]

/-- **What a request does depends on its own bytes** exactly as far as its reply is filled in:
    two runs that read the same request reach the same state and send the same reply if and only
    if no reply is sent, or the bytes of it that nobody fills in were left over alike. -/
theorem request_effect {s : Sched} {q : Nat} {packet : List Byte} {l₁ l₂ : Locals}
    (hreq : SameRequest packet l₁ l₂) (hdef : (requestTurn s q packet l₁).isSome) :
    requestTurn s q packet l₁ = requestTurn s q packet l₂ ↔
      Silent packet l₁ ∨ ∀ i, Unfilled (l₁.receive packet).request i →
        l₁.status i = l₂.status i := by
  rw [requestTurn_eq] at hdef ⊢
  rw [requestTurn_eq, ← hreq.request]
  cases heffect : effect s q (l₁.receive packet).request with
  | none => simp [heffect] at hdef
  | some p =>
    rw [heffect, Option.bind_some] at hdef
    rw [Option.bind_some, Option.bind_some]
    have heffect₂ := heffect
    rw [hreq.request] at heffect₂
    by_cases hsilent : Silent packet l₁
    · have hsilent₂ : Silent packet l₂ := by
        unfold Silent at hsilent ⊢
        rwa [← hreq.reqId, ← hreq.request]
      refine iff_of_true ?_ (.inl hsilent)
      rw [sendReply_silent ((status_reqId heffect).mpr hsilent),
        sendReply_silent ((status_reqId heffect₂).mpr hsilent₂)]
    · have hne := mt (status_reqId heffect).mp hsilent
      constructor
      · intro heq
        refine .inr fun i hi => ?_
        have hbytes := sendReply_inj hne hdef heq i hi.1
        rw [status_unfilled heffect hi, status_unfilled heffect₂ (hreq.request ▸ hi)] at hbytes
        exact hbytes
      · intro hor
        have hleft := hor.resolve_left hsilent
        exact sendReply_congr fun i hlt => status_filled hreq heffect hlt (hleft i)

/-- A scheduler with one task, which is the entry `0` of the queue. -/
def oneClient : Sched :=
  let s := Sched.init ⟨⟨fun _ => 0, 0, []⟩, 0, .empty, .empty, .empty, 0x1008, 0x1000, []⟩
    (fun _ _ => 0) .bump fun _ => ⟨0, 0, 0, 0, 0, 0, 0, fun _ => 0⟩
  let (s, info) := s.alloc (.info (some ⟨7, 2, 0x1000, 0, 0, 0⟩))
  { s with taskMap := (s.taskMap.insert 7 info).1, queue := fun _ => ⟨7, info⟩, queueSize := 1 }

/-- An `in` and a `status` that hold the same byte everywhere. -/
def leftover (input status : Byte) : Locals := ⟨fun _ => input, fun _ => status⟩

/-- `SCHED_SET_NAME` for the task itself, without an id: nothing of what was left over counts. -/
def setNamePacket : List Byte := 7 :: List.replicate 23 0 ++ 65 :: List.replicate 31 0

theorem request_effect_of_setName :
    requestTurn oneClient 0 setNamePacket (leftover 0 0) =
      requestTurn oneClient 0 setNamePacket (leftover 1 1) := by
  have hreq : SameRequest setNamePacket (leftover 0 0) (leftover 1 1) :=
    sameRequest_of_long (by decide)
  exact (request_effect hreq (by decide)).mpr (.inl (.inl (by decide)))

/-- **What was left over is sent back, and acted on**: a packet of an unknown type is answered
    with bytes of the scheduler's stack, and one that is a single byte long sets the name that
    an earlier packet has left. -/
theorem leftovers_show :
    requestTurn oneClient 0 (12 :: List.replicate 7 0 ++ 1 :: List.replicate 7 0) (leftover 0 0) ≠
      requestTurn oneClient 0 (12 :: List.replicate 7 0 ++ 1 :: List.replicate 7 0)
        (leftover 0 255) ∧
    requestTurn oneClient 0 [7] (leftover 0 0) ≠ requestTurn oneClient 0 [7] (leftover 65 0) := by
  constructor
  · intro heq
    exact absurd (congrArg (Option.map Prod.snd) heq) (by decide)
  · intro heq
    have hnamed := congrArg (Option.map fun p => (p.1.namedTasks.search [], p.2)) heq
    exact absurd hnamed (by decide)

end Refk
