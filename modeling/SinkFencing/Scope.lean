import SinkFencing.Ascending
import SinkFencing.Placement
import SinkFencing.Text.Quoted
import SinkFencing.TxnId

namespace SinkFencing

structure Scope where
  placement : Placement
  start : UInt64
  stems : Ascending String
  /-- Ids handed to the committer, which a pass must leave alone. -/
  pending : Ascending TxnId
  topics : List String
  stems_ne_nil : stems.elems ≠ []
  stems_ne_empty : "" ∉ stems

namespace Scope

def make (placement : Placement) (start : UInt64) (stems : List String) (pending : List TxnId)
    (topics : List String) : Except Fault Scope :=
  let known := Ascending.ofList stems
  if h : known.elems = [] then .error (.refused .noStem)
  else if h' : "" ∈ known then .error (.refused .emptyStem)
  else .ok ⟨placement, start, known, Ascending.ofList pending, topics, h, h'⟩

/-- Whether a name starts with a known stem and a separator. -/
def mayCarryStem (scope : Scope) (name : String) : Bool :=
  scope.stems.elems.any fun stem => (stem.toList ++ [TxnId.separator]).isPrefixOf name.toList

/-- Whether an id with these parts belongs to this pass, pending or not. -/
def claims (scope : Scope) (parts : TxnId.Parts) : Bool :=
  parts.stem ∈ scope.stems ∧ scope.placement.owns parts.owner

/-- One line for diagnostics, which shows how many ids are pending but not which. -/
def describe (scope : Scope) (canList : Bool) : String :=
  let stems := ", ".intercalate (scope.stems.elems.map Text.quote)
  "RecoveryContext \x7b placement: SubtaskPlacement \x7b index: " ++ toString scope.placement.index
    ++ ", parallelism: " ++ toString scope.placement.parallelism ++ " \x7d, start_sequence: "
    ++ toString scope.start ++ ", prefixes: \x7b" ++ stems ++ "\x7d, precommitted: "
    ++ toString scope.pending.size ++ ", topics: " ++ Text.quoteList scope.topics ++ ", lister: "
    ++ toString canList ++ " \x7d"

end Scope

end SinkFencing
