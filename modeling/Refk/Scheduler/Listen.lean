import Refk.Scheduler.Task

/-!
# `kernel/scheduler/listen.c` — the request loop

A queue entry `q` is an index into `queue`: the loop keeps it while a reap may move another
entry there, or leave it behind the end. The local variables `in` and `status` are areas of
bytes that live as long as the call of `process`; a short packet leaves the rest of `in` as it
was, and a handler that does not fill in `status` leaves it as it was.
-/

namespace Refk

open Lib

/-- The packet types, in the order of their numbers. -/
inductive SchedType
  | forward | wait | wake | mapAnonymous | mapPhysical | mapMirror | unmap | setName | getNamed
  | spawn | setState | reap
  deriving DecidableEq

def SchedType.ofByte (type : Byte) : Option SchedType :=
  [forward, wait, wake, mapAnonymous, mapPhysical, mapMirror, unmap, setName, getNamed, spawn,
    setState, reap][type.toNat]?

/-- A local variable. -/
abbrev Bytes := Nat → Byte

/-- The field at an offset. -/
def Bytes.word (b : Bytes) (off : Nat) : Word := BitVec.ofNat 64 (ofLe (load b off 8))

def Bytes.setWord (b : Bytes) (off : Nat) (value : Word) : Bytes := store b off (toLe 8 value.toNat)

/-- `sizeof(sched_in_packet_t)` -/
def inSize : Word := 56

/-- `sizeof(sched_out_packet_t)` -/
def outSize : Nat := 40

/-- The locals of `process`. -/
structure Locals where
  input : Bytes
  status : Bytes

namespace Locals

variable (l : Locals)

def type : Byte := l.input 0
def reqId : Word := l.input.word 8

/-- The union of `in`, as words. -/
def arg (i : Nat) : Word := l.input.word (16 + 8 * i)

/-- `status.type = in.type; status.req_id = in.req_id; status.result = 0;` -/
def start : Locals :=
  { l with status := (Bytes.setWord (store l.status 0 [l.type]) 8 l.reqId).setWord 16 0 }

/-- `status.result = result` -/
def result (result : Word) : Locals := { l with status := l.status.setWord 16 result }

end Locals

/-- An `int` result, as the `uint64_t` it is stored in. -/
def resultWord (r : Int) : Word := BitVec.ofInt 64 r

/-- `q->info` -/
def Sched.entryInfo (s : Sched) (q : Nat) : Option TaskInfo := s.info? (s.queue q).info

/-! ## The handlers

Each has the state, the entry and the locals, and answers the state and the locals. -/

/-- `if(id == 0) id = q->info->root_id` -/
def rootArg (s : Sched) (q : Nat) (id : Word) : Option Nat :=
  if id = 0 then (s.entryInfo q).map TaskInfo.rootId else some id.toNat

/-- `SCHED_FORWARD` -/
def handleForward (s : Sched) (l : Locals) : Option (Sched × Locals) := do
  let length := inSize - 32
  let length := if l.arg 1 < length then l.arg 1 else length
  let tinfo := s.getInfo (l.arg 0).toNat
  if tinfo = 0 then return (s, l.result (-1))
  else do
    let i ← s.info? tinfo
    let (cc, r) := commWrite (s.channels i.gin) (load l.input 32 length.toNat)
    return ({ s with channels := Function.update s.channels i.gin cc }, l.result (resultWord r))

/-- `synch_from_phy`, else `synch_make` -/
def synchObject (s : Sched) (phy : Word) : Sched × Nat :=
  let obj := synchFromPhy s phy
  if obj = 0 then synchMake s phy else (s, obj)

/-- `SCHED_WAIT` -/
def handleWait (s : Sched) (q : Nat) (l : Locals) : Option (Sched × Locals) := do
  let i ← s.entryInfo q
  let phy := mmanGetPhy s.mman i.rootId (l.arg 0)
  let (s, obj) := synchObject s phy
  if obj = 0 then return (s, l.result (-1))
  else do
    let (s, r) ← synchWait s (s.queue q).taskId obj (l.arg 1)
    return (s, l.result (resultWord r))

/-- `SCHED_WAKE` -/
def handleWake (s : Sched) (q : Nat) (l : Locals) : Option (Sched × Locals) := do
  let i ← s.entryInfo q
  let phy := mmanGetPhy s.mman i.rootId (l.arg 0)
  let obj := synchFromPhy s phy
  if obj = 0 then return (s, l.result 1)
  else do
    let s ← synchWake s obj (l.arg 1) (l.arg 2)
    return (s, l.result 0)

/-- A mapping request: the root it names, and the operation on it. -/
def handleMap (s : Sched) (q : Nat) (l : Locals) (op : Nat → Mman × Int) :
    Option (Sched × Locals) := do
  let id ← rootArg s q (l.arg 0)
  let (m, r) := op id
  let s ← s.setMman m
  return (s, l.result (resultWord r))

/-- `SCHED_MAP_ANONYMOUS` -/
def handleMapAnonymous (s : Sched) (q : Nat) (l : Locals) : Option (Sched × Locals) :=
  handleMap s q l fun id => mmanAnonymous s.mman id (l.arg 1) (l.arg 2)

/-- `SCHED_MAP_PHYSICAL` -/
def handleMapPhysical (s : Sched) (q : Nat) (l : Locals) : Option (Sched × Locals) :=
  handleMap s q l fun id => mmanPhysical s.mman id (l.arg 1) (l.arg 2) (l.arg 3)

/-- `SCHED_MAP_MIRROR`. The other root's id is taken as it is. -/
def handleMapMirror (s : Sched) (q : Nat) (l : Locals) : Option (Sched × Locals) :=
  handleMap s q l fun id => mmanMirror s.mman id (l.arg 1) (l.arg 2).toNat (l.arg 3) (l.arg 4)

/-- `SCHED_UNMAP` -/
def handleUnmap (s : Sched) (q : Nat) (l : Locals) : Option (Sched × Locals) :=
  handleMap s q l fun id => mmanUnmap s.mman id (l.arg 1) (l.arg 2)

/-- `SCHED_SET_NAME` -/
def handleSetName (s : Sched) (q : Nat) (l : Locals) : Option (Sched × Locals) :=
  let l := { l with input := store l.input (24 + 31) [0] }
  let id := if l.arg 0 = 0 then (s.queue q).taskId else (l.arg 0).toNat
  some (schedSetName s id (load l.input 24 32), l)

/-- `SCHED_GET_NAMED` -/
def handleGetNamed (s : Sched) (l : Locals) : Option (Sched × Locals) :=
  let l := { l with input := store l.input (16 + 31) [0] }
  let task := schedNamedTask s (load l.input 16 32)
  some (s, { l with status := Bytes.setWord (store l.status 0 [8]) 24 (BitVec.ofNat 64 task) })

/-- `queue[queue_size] = …; queue_size ++`, into the array's entries. -/
def Sched.pushQueue (s : Sched) (e : QueueEntry) : Option Sched :=
  if s.queueSize < queueLength then
    some { s with queue := Function.update s.queue s.queueSize e, queueSize := s.queueSize + 1 }
  else none

/-- `SCHED_SPAWN` -/
def handleSpawn (s : Sched) (q : Nat) (l : Locals) : Option (Sched × Locals) := do
  let rootId ← rootArg s q (l.arg 0)
  let (s, info) := s.alloc (.info none)
  let (s, taskId) ← schedTaskCreate s rootId info
  let s ← s.pushQueue ⟨taskId, info⟩
  return (s, { l with status :=
    (l.status.setWord 32 (BitVec.ofNat 64 rootId)).setWord 24 (BitVec.ofNat 64 taskId) })

/-- `SCHED_SET_STATE` -/
def handleSetState (s : Sched) (l : Locals) : Option (Sched × Locals) := do
  let s ← schedSetState s (l.arg 0).toNat (l.arg 1) (l.arg 2)
  return (s, l)

/-- `remove_from_queue`: the first entry of the task becomes the last one. -/
def removeFromQueue (s : Sched) (taskId : Nat) : Sched :=
  match (List.range s.queueSize).find? fun i => (s.queue i).taskId = taskId with
  | none => s
  | some i =>
    { s with
      queue := Function.update s.queue i (s.queue (s.queueSize - 1))
      queueSize := s.queueSize - 1 }

/-- `SCHED_REAP` -/
def handleReap (s : Sched) (q : Nat) (l : Locals) : Option (Sched × Locals) := do
  let self := l.arg 0 = 0
  let id := if self then (s.queue q).taskId else (l.arg 0).toNat
  let l := if self then { l with status := l.status.setWord 8 0 } else l
  let info := (s.queue q).info
  let (s, _) ← schedTaskReap s id
  let s := removeFromQueue s id
  let s ← s.free info
  return (s, l)

/-- The switch of `process`; an unknown type is printed, and that is all. -/
def handle (s : Sched) (q : Nat) (l : Locals) : Option (Sched × Locals) :=
  match SchedType.ofByte l.type with
  | some .forward => handleForward s l
  | some .wait => handleWait s q l
  | some .wake => handleWake s q l
  | some .mapAnonymous => handleMapAnonymous s q l
  | some .mapPhysical => handleMapPhysical s q l
  | some .mapMirror => handleMapMirror s q l
  | some .unmap => handleUnmap s q l
  | some .setName => handleSetName s q l
  | some .getNamed => handleGetNamed s l
  | some .spawn => handleSpawn s q l
  | some .setState => handleSetState s l
  | some .reap => handleReap s q l
  | none => some (s, l)

/-- `if(status.req_id != 0) comm_write(q->info->sout, &status, sizeof(status));` -/
def reply (s : Sched) (q : Nat) (l : Locals) : Option Sched := do
  if l.status.word 8 = 0 then return s
  else do
    let i ← s.entryInfo q
    let (cc, _) := commWrite (s.channels i.sout) (load l.status 0 outSize)
    return { s with channels := Function.update s.channels i.sout cc }

/-- One turn of the loop of `process`, and whether a packet was read. -/
def processTurn (s : Sched) (q : Nat) (l : Locals) : Option (Sched × Locals × Bool) := do
  let i ← s.entryInfo q
  let (cc, read) := commRead (s.channels i.sin) inSize
  let s := { s with channels := Function.update s.channels i.sin cc }
  if read.ret ≠ 0 then return (s, l, false)
  else do
    let l := { l with input := store l.input 0 read.bytes }
    let (s, l) ← handle s q l.start
    let s ← reply s q l
    return (s, l, true)

/-- `process`: turns until nothing is read, at most `fuel` of them. -/
def processLoop (q : Nat) : Nat → Sched → Locals → Option Sched
  | 0, _, _ => none
  | fuel + 1, s, l => do
    let (s, l, again) ← processTurn s q l
    if again then processLoop q fuel s l else return s

end Refk
