import Refk.Klib.Kmem
import Refk.Lib.Ring

/-!
# `clib/comm.c` — a channel in shared memory

A `comm_t` is a header of seven words and, right behind it, a ring of `data_length` bytes. A
packet is stored as its 32-bit length and its bytes, each of the two written with a wrap of
its own.

The two ends are the code's: `ring_begin` and `ring_end` are offsets into the ring, and
`packet_count` is counted separately. All arithmetic is the code's 64-bit arithmetic.
-/

namespace Refk

open Lib

/-- `comm_t`; `data` are the bytes from `data_begin` on. -/
structure Comm where
  totalLength : Word
  dataBegin : Word
  dataLength : Word
  flags : Word
  ringBegin : Word
  ringEnd : Word
  packetCount : Word
  data : Nat → Byte

/-- `COMM_SIMPLE` -/
def commSimple : Nat := 0

/-- `COMM_MULTI` -/
def commMulti : Nat := 1

/-- `COMM_TYPE_MASK` -/
def commTypeMask : Word := 0x01

/-- `offsetof(comm_t, simple.last)` -/
def commHeader : Word := 56

/-- `comm_init`, with its return value; `COMM_MULTI` does not return. -/
def commInit (cc : Comm) (length : Word) (type : Nat) : Option (Comm × Nat) :=
  let cc := { cc with totalLength := length, flags := 0, ringBegin := 0, ringEnd := 0 }
  if type = commSimple then
    let cc := { cc with packetCount := 0, flags := BitVec.ofNat 64 type, dataBegin := commHeader }
    some ({ cc with dataLength := length - cc.dataBegin }, 0)
  else if type = commMulti then
    none
  else
    some (cc, 1)

/-- `comm_remaining` -/
def commRemaining (cc : Comm) : Word :=
  if cc.ringBegin ≤ cc.ringEnd then
    let used := cc.ringEnd - cc.ringBegin
    cc.dataLength - used
  else
    cc.ringBegin - cc.ringEnd

/-- `mem_copy` to the ring's byte `at_` of the `n` first bytes of `data`. -/
def Comm.copyIn (cc : Comm) (at_ : Word) (data : List Byte) (n : Word) : Comm :=
  { cc with data := store cc.data at_.toNat (data.take n.toNat) }

/-- `comm_put_data` -/
def commPutData (cc : Comm) (data : List Byte) (dataSize : Word) : Comm :=
  if cc.ringEnd + dataSize ≥ cc.dataLength then
    let beforeWrap := cc.dataLength - cc.ringEnd
    let cc := { cc.copyIn cc.ringEnd data beforeWrap with ringEnd := 0 }
    let dataSize := dataSize - beforeWrap
    let cc := cc.copyIn cc.ringEnd (data.drop beforeWrap.toNat) dataSize
    { cc with ringEnd := cc.ringEnd + dataSize }
  else
    let cc := cc.copyIn cc.ringEnd data dataSize
    { cc with ringEnd := cc.ringEnd + dataSize }

/-- `comm_get_data`, with the bytes it stores through `data`. -/
def commGetData (cc : Comm) (dataSize : Word) : Comm × List Byte :=
  if cc.ringBegin + dataSize ≥ cc.dataLength then
    let beforeWrap := cc.dataLength - cc.ringBegin
    let first := load cc.data cc.ringBegin.toNat beforeWrap.toNat
    let cc := { cc with ringBegin := 0 }
    let dataSize := dataSize - beforeWrap
    let rest := load cc.data cc.ringBegin.toNat dataSize.toNat
    ({ cc with ringBegin := cc.ringBegin + dataSize }, first ++ rest)
  else
    let bytes := load cc.data cc.ringBegin.toNat dataSize.toNat
    ({ cc with ringBegin := cc.ringBegin + dataSize }, bytes)

/-- `comm_skip_data` -/
def commSkipData (cc : Comm) (dataSize : Word) : Comm :=
  let cc := if cc.ringBegin + dataSize ≥ cc.dataLength then { cc with ringBegin := 0 } else cc
  { cc with ringBegin := cc.ringBegin + dataSize }

/-- `comm_put`; `data` are the `data_size` bytes of the packet. -/
def commPut (cc : Comm) (data : List Byte) : Comm × Nat :=
  let dataSize := BitVec.ofNat 64 data.length
  let reqSize := dataSize + 4
  if commRemaining cc < reqSize then (cc, 1)
  else
    let dsize := dataSize.toNat % 2 ^ 32
    let cc := commPutData cc (toLe 4 dsize) 4
    let cc := commPutData cc data dataSize
    ({ cc with packetCount := cc.packetCount + 1 }, 0)

/-- What `comm_peek` answers: its return value, `*data_size` afterwards (if it was stored to),
    and the bytes stored through `data`. -/
structure Peeked where
  ret : Nat
  dataSize : Option Word
  bytes : List Byte
  deriving DecidableEq, Repr

/-- `comm_peek`, for a buffer of `dataSize` bytes. -/
def commPeek (cc : Comm) (dataSize : Word) : Comm × Peeked :=
  if cc.packetCount = 0 then (cc, ⟨1, none, []⟩)
  else
    let cc := { cc with packetCount := cc.packetCount - 1 }
    let (cc, bytes) := commGetData cc 4
    let dsize := BitVec.ofNat 64 (ofLe bytes)
    if dataSize < dsize then
      (commSkipData cc dsize, ⟨1, some dsize, []⟩)
    else
      let (cc, bytes) := commGetData cc dsize
      (cc, ⟨0, some dsize, bytes⟩)

/-- `comm_write` -/
def commWrite (cc : Comm) (data : List Byte) : Comm × Nat :=
  if cc.flags &&& commTypeMask = 0 then commPut cc data else (cc, 1)

/-- The scheduler's `comm_read`. -/
def commRead (cc : Comm) (dataSize : Word) : Comm × Peeked :=
  if cc.flags &&& commTypeMask = 0 then commPeek cc dataSize else (cc, ⟨1, none, []⟩)

end Refk
