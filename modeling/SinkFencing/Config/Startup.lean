import SinkFencing.Config.Settings
import SinkFencing.Recovery

namespace SinkFencing.Settings

variable {σ : Type}

def scope (s : Settings) (placement : Placement) (restored : Option UInt64)
    (pending : List TxnId) : Except Fault Scope :=
  Scope.make placement (s.naming.startSequence restored) s.knownStems.elems pending s.topics

def recover (s : Settings) (client : Client σ) (scope : Scope) : Pass σ Report :=
  Recovery.run s.effectiveStrategy client scope

end SinkFencing.Settings
