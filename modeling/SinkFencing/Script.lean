import SinkFencing.Assoc
import SinkFencing.Client

namespace SinkFencing

structure Script where
  /-- The epochs that successive aborts of a name answer. -/
  epochs : List (String × List Epoch)
  /-- The answer to every other abort. -/
  otherwise : Epoch
  /-- The names whose abort fails, with the reason; a failed abort takes no epoch. -/
  failing : List (String × String)
  /-- How many aborts may still be called before all fail. -/
  callsLeft : Nat
  /-- What a listing answers, if the client can list. -/
  names? : Option (Except String (List String))
  /-- The cause attached to every failure. -/
  cause : Option String

namespace Script

def take (s : Script) (name : String) : Epoch × Script :=
  match Assoc.find? name s.epochs with
  | some (epoch :: rest) => (epoch, { s with epochs := Assoc.set name rest s.epochs })
  | _ => (s.otherwise, s)

def abort (s : Script) (id : TxnId) : Except BrokerFault Epoch × Script :=
  match s.callsLeft with
  | 0 => (.error ((BrokerFault.abort id.text "call limit").withCause s.cause), s)
  | left + 1 =>
    let s := { s with callsLeft := left }
    match Assoc.find? id.text s.failing with
    | some reason => (.error ((BrokerFault.abort id.text reason).withCause s.cause), s)
    | none =>
      let (epoch, s) := s.take id.text
      (.ok epoch, s)

def list (s : Script) (topics : List String) :
    Except String (List String) → Except BrokerFault (List String)
  | .ok names => .ok names
  | .error reason => .error ((BrokerFault.listing topics reason).withCause s.cause)

def client (start : Script) : Client Script where
  abort id s := s.abort id
  list? := start.names?.map fun names topics s => (s.list topics names, s)

end Script

end SinkFencing
