namespace SinkFencing

inductive BrokerOperation
  | abort
  | listOpen
deriving DecidableEq

def BrokerOperation.text : BrokerOperation → String
  | .abort => "abort"
  | .listOpen => "list open transactions"

/-- A failure that the broker client reported, with the text of its own cause if there is one. -/
structure BrokerFault where
  operation : BrokerOperation
  target : String
  reason : String
  cause : Option String
deriving DecidableEq

namespace BrokerFault

def abort (target reason : String) : BrokerFault := ⟨.abort, target, reason, none⟩

/-- The target of a failed listing is its topics, joined by commas. -/
def listing (topics : List String) (reason : String) : BrokerFault :=
  ⟨.listOpen, ",".intercalate topics, reason, none⟩

def withCause (fault : BrokerFault) (cause : Option String) : BrokerFault := { fault with cause }

def message (fault : BrokerFault) : String :=
  s!"broker {fault.operation.text} failed for `{fault.target}`: {fault.reason}"

end BrokerFault

inductive IdNumber
  | owner
  | sequence
deriving DecidableEq

def IdNumber.text : IdNumber → String
  | .owner => "owner"
  | .sequence => "sequence"

inductive Malformation
  | tooFewParts
  | notNumeral (number : IdNumber) (token : String)
  | outOfRange (number : IdNumber) (token : String)
deriving DecidableEq

def Malformation.reason : Malformation → String
  | .tooFewParts => "expected `<prefix>-<owner>-<sequence>`"
  | .notNumeral number token => s!"{number.text} `{token}` is not a non-negative integer"
  | .outOfRange number token => s!"{number.text} `{token}` is out of range"

inductive Refusal
  | ownerRange (owner : Int)
  | negativeSequence (sequence : Int)
  | zeroParallelism
  | indexOutside (index parallelism : UInt32)
  | noStem
  | emptyStem
  | noLister
  | foreignLease (id stem : String) (index : UInt32)
  | slotRange (id : String)
  | notLeased (id : String)
  | unknownNaming (text : String)
  | unknownStrategy (text : String)
deriving DecidableEq

def Refusal.argument : Refusal → String
  | .ownerRange _ => "owner"
  | .negativeSequence _ => "sequence"
  | .zeroParallelism => "parallelism"
  | .indexOutside _ _ => "subtask_index"
  | .noStem => "prefixes"
  | .emptyStem => "prefixes"
  | .noLister => "lister"
  | .foreignLease _ _ _ => "leased"
  | .slotRange _ => "leased"
  | .notLeased _ => "transactional_id"
  | .unknownNaming _ => "naming_strategy"
  | .unknownStrategy _ => "abort_strategy"

def Refusal.reason : Refusal → String
  | .ownerRange owner => s!"{owner} is not a valid subtask index"
  | .negativeSequence sequence => s!"{sequence} must not be negative"
  | .zeroParallelism => "must be at least 1"
  | .indexOutside index parallelism => s!"{index} is outside parallelism {parallelism}"
  | .noStem => "at least one transactional id prefix is required"
  | .emptyStem => "transactional id prefix must not be empty"
  | .noLister => "listing strategy requires broker transaction introspection"
  | .foreignLease id stem index => s!"{id} was not issued by {stem}-{index}"
  | .slotRange id => s!"slot of {id} is out of range"
  | .notLeased id => s!"{id} is not leased from this pool"
  | .unknownNaming text => s!"unknown strategy `{text}`, expected `incrementing` or `pooling`"
  | .unknownStrategy text => s!"unknown strategy `{text}`, expected `probing` or `listing`"

inductive Fault
  | refused (refusal : Refusal)
  | malformed (raw : String) (why : Malformation)
  | broker (fault : BrokerFault)
deriving DecidableEq

namespace Fault

def message : Fault → String
  | refused r => s!"invalid argument `{r.argument}`: {r.reason}"
  | malformed raw why => s!"malformed transactional id `{raw}`: {why.reason}"
  | broker fault => fault.message

def isBrokerFailure : Fault → Bool
  | broker _ => true
  | _ => false

end Fault

end SinkFencing
