import SinkFencing.Epoch
import SinkFencing.TxnId

namespace SinkFencing

structure Client (σ : Type) where
  /-- Fences an id, whether or not it was ever used, and answers the epoch from before. -/
  abort : TxnId → σ → Except BrokerFault Epoch × σ
  /-- Names the open transactions that touch one of the topics. The names may be anyone's. -/
  list? : Option (List String → σ → Except BrokerFault (List String) × σ)

/-- A client's state beside the counts of its successful aborts. Fewer than `2 ^ 64` calls are made, so
that a count of 64 bits never overflows. -/
structure Counted (σ : Type) where
  inner : σ
  calls : Nat
  /-- The calls that were answered with a used epoch. -/
  fenced : Nat

variable {σ : Type}

namespace Counted

def start (s : σ) : Counted σ := ⟨s, 0, 0⟩

def add (c : Counted σ) : Except BrokerFault Epoch → Counted σ
  | .ok epoch =>
    { c with calls := c.calls + 1, fenced := if epoch.isUnused then c.fenced else c.fenced + 1 }
  | .error _ => c

end Counted

namespace Client

/-- The same client with another way to abort, which may also count. -/
def withAborter (client : Client σ)
    (abort : TxnId → Counted σ → Except BrokerFault Epoch × Counted σ) : Client (Counted σ) where
  abort
  list? := client.list?.map fun list topics s =>
    let (answer, inner) := list topics s.inner
    (answer, { s with inner })

def countingAborter (client : Client σ) (id : TxnId) (s : Counted σ) :
    Except BrokerFault Epoch × Counted σ :=
  let (answer, inner) := client.abort id s.inner
  (answer, { s with inner }.add answer)

def counted (client : Client σ) : Client (Counted σ) := client.withAborter client.countingAborter

/-- The same client of a broker that cannot tell which transactions are open. -/
def withoutListing (client : Client σ) : Client σ := { client with list? := none }

end Client

end SinkFencing
