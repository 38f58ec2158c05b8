import SinkFencing.Pass
import SinkFencing.Scope

namespace SinkFencing.Listing

variable {σ : Type}

/-- The ids among ascending names that belong to the scope, pending ones included. -/
def owned (scope : Scope) : List String → Except Fault (List TxnId)
  | [] => .ok []
  | name :: rest =>
    if scope.mayCarryStem name then do
      let parts ← TxnId.Parts.read name
      let ids ← owned scope rest
      return if scope.claims parts then ⟨name⟩ :: ids else ids
    else owned scope rest

def fence (client : Client σ) (id : TxnId) : Pass σ Unit := do
  let epoch ← Pass.abort client id
  Pass.note (.aborted id epoch)

/-- A name that starts like one of ours but cannot be read fails the pass before anything is aborted. The
batch of calls at the end is made by one worker (`Pass.each`). -/
def run (client : Client σ) (scope : Scope) : Pass σ Unit := do
  let names := (Ascending.ofList (← Pass.list client scope.topics)).elems
  if names.isEmpty then
    return
  let ids ← Pass.ofExcept (owned scope names)
  Pass.note (.found ids scope.placement)
  Pass.each (ids.filter (· ∈ scope.pending)) fun id => Pass.note (.spared id)
  Pass.each (ids.filter (· ∉ scope.pending)) (fence client)

end SinkFencing.Listing
