import SinkFencing.Epoch
import SinkFencing.Placement
import SinkFencing.Strategy
import SinkFencing.Text.Quoted
import SinkFencing.TxnId

namespace SinkFencing

inductive Level
  | debug
  | info
  | warn
deriving DecidableEq

def Level.text : Level → String
  | .debug => "DEBUG"
  | .info => "INFO"
  | .warn => "WARN"

inductive Notice
  /-- A coordinated run begins; it names the scope of what follows and has no message. -/
  | began (strategy : Strategy) (placement : Placement)
  | probed (id : TxnId) (epoch : Epoch)
  /-- A walk over an owner's sequences ended after meeting `used` ids in use, fewer than `2 ^ 64`. -/
  | walked (stem : String) (owner : UInt32) (used : Nat) (placement : Placement)
  | found (ids : List TxnId) (placement : Placement)
  | spared (id : TxnId)
  | aborted (id : TxnId) (epoch : Epoch)
  /-- The counts of a report, which stay below `2 ^ 64`. -/
  | finished (aborts fenced : Nat)

namespace Notice

def level : Notice → Level
  | began _ _ => .info
  | probed _ _ => .debug
  | walked _ _ _ _ => .info
  | found _ _ => .warn
  | spared _ => .debug
  | aborted _ _ => .debug
  | finished _ _ => .info

def span? : Notice → Option String
  | began _ _ => some "run"
  | _ => none

def message? : Notice → Option String
  | began _ _ => none
  | probed _ _ => some "probed transactional id"
  | walked _ _ _ _ => some "fenced transactional ids of historical subtask"
  | found _ _ => some "found open transactions for subtask"
  | spared _ => some "skipping transaction that is pending commit"
  | aborted _ _ => some "aborted open transaction"
  | finished _ _ => some "stale transaction recovery finished"

def fields : Notice → List (String × String)
  | began strategy placement => [("strategy", strategy.name), ("subtask", placement.text)]
  | probed id epoch => [("transactional_id", id.text), ("epoch", epoch.text)]
  | walked stem owner used placement =>
    [("prefix", stem), ("owner", toString owner), ("fenced", toString used),
      ("subtask", placement.text)]
  | found ids placement =>
    [("count", toString ids.length), ("subtask", placement.text),
      ("transactions", Text.quoteList (ids.map TxnId.text))]
  | spared id => [("transactional_id", id.text)]
  | aborted id epoch => [("transactional_id", id.text), ("epoch", epoch.text)]
  | finished aborts fenced => [("abort_calls", toString aborts), ("fenced", toString fenced)]

end Notice

end SinkFencing
