import SinkFencing.Ascending
import SinkFencing.Placement
import SinkFencing.TxnId

namespace SinkFencing

structure SlotPool where
  stem : String
  placement : Placement
  leased : Ascending UInt64
  /-- One past the highest slot ever leased. -/
  size : UInt64

namespace SlotPool

def fresh (stem : String) (placement : Placement) : SlotPool :=
  ⟨stem, placement, .empty, 0⟩

def idOf (pool : SlotPool) (slot : UInt64) : TxnId := .compose pool.stem pool.placement.index slot

def leasedIds (pool : SlotPool) : List TxnId := pool.leased.elems.map pool.idOf

def mark (pool : SlotPool) (slot : UInt64) : SlotPool :=
  { pool with leased := pool.leased.insert slot, size := max pool.size (slot + 1) }

/-- Whether parts name a slot of this pool, leased or not. -/
def issues (pool : SlotPool) (parts : TxnId.Parts) : Bool :=
  parts.stem = pool.stem ∧ parts.owner = pool.placement.index

/-- Takes back the lease of an id that is still pending. The last slot has no size past it. -/
def reclaim (pool : SlotPool) (id : TxnId) : Except Fault SlotPool := do
  let parts ← id.parts
  if !pool.issues parts then
    throw (.refused (.foreignLease id.text pool.stem pool.placement.index))
  if parts.sequence.toNat + 1 = UInt64.size then
    throw (.refused (.slotRange id.text))
  return pool.mark parts.sequence

/-- The pool in which exactly the slots of `ids` are leased. -/
def restore (stem : String) (placement : Placement) (ids : List TxnId) : Except Fault SlotPool :=
  ids.foldlM reclaim (fresh stem placement)

/-- The first number from `candidate` on that an ascending list does not hold. -/
def firstGap (candidate : UInt64) : List UInt64 → UInt64
  | [] => candidate
  | slot :: rest => if slot = candidate then firstGap (candidate + 1) rest else candidate

def lowestFree (pool : SlotPool) : UInt64 := firstGap 0 pool.leased.elems

def acquire (pool : SlotPool) : TxnId × SlotPool :=
  (pool.idOf pool.lowestFree, pool.mark pool.lowestFree)

def release (pool : SlotPool) (id : TxnId) : Except Fault SlotPool := do
  let parts ← id.parts
  if pool.issues parts ∧ parts.sequence ∈ pool.leased then
    return { pool with leased := pool.leased.erase parts.sequence }
  throw (.refused (.notLeased id.text))

/-- The pool as a restart sees it, which knows only the leased ids. -/
def restart (pool : SlotPool) : Except Fault SlotPool :=
  restore pool.stem pool.placement pool.leasedIds

end SlotPool

/-- The id of the transaction that collects the records of a checkpoint. -/
def checkpointId (stem : String) (placement : Placement) (checkpoint : UInt64) : TxnId :=
  .compose stem placement.index checkpoint

end SinkFencing
