import SinkFencing.Listing
import SinkFencing.Probing

namespace SinkFencing

variable {σ : Type}

def Strategy.pass (strategy : Strategy) (client : Client σ) (scope : Scope) : Pass σ Unit :=
  match strategy with
  | .probing => Probing.run client scope
  | .listing => Listing.run client scope

/-- Counts stay below `2 ^ 64`, like those of a counting client. -/
structure Report where
  strategy : Strategy
  placement : Placement
  /-- The successful fencing calls, probes of unused ids included. -/
  abortCalls : Nat
  /-- The calls that met an epoch in use. -/
  fenced : Nat

/-- What a pass is given: a client, and what to clean up through it. -/
structure Context (σ : Type) where
  client : Client σ
  scope : Scope

/-- Only the way to abort is replaced. -/
def Context.withAborter (context : Context σ)
    (abort : TxnId → Counted σ → Except BrokerFault Epoch × Counted σ) : Context (Counted σ) :=
  { client := context.client.withAborter abort, scope := context.scope }

namespace Recovery

def coordinated (strategy : Strategy) (client : Client σ) (scope : Scope) :
    Pass (Counted σ) Report := do
  Pass.note (.began strategy scope.placement)
  let counting := Context.withAborter ⟨client, scope⟩ client.countingAborter
  strategy.pass counting.client counting.scope
  let counts ← Pass.state
  Pass.note (.finished counts.calls counts.fenced)
  return ⟨strategy, scope.placement, counts.calls, counts.fenced⟩

/-- Runs a pass through a counting client, and reports its counts. -/
def run (strategy : Strategy) (client : Client σ) (scope : Scope) : Pass σ Report := fun s =>
  let done := coordinated strategy client scope (.start s)
  ⟨done.answer, done.events, done.state.inner⟩

end Recovery

end SinkFencing
