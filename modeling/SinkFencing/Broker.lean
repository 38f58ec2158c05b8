import SinkFencing.Assoc
import SinkFencing.Client

namespace SinkFencing

structure Broker where
  epochs : List (String × Epoch)
  /-- The open names with the topic they wrote to; no topic touches every listing. -/
  opened : List (String × Option String)
  /-- Every name whose abort was let through, in call order. -/
  aborted : List String
  /-- The names whose open transaction an abort closed, in call order. -/
  fenced : List String
  /-- How many aborts are let through before all others fail, if any shall fail. -/
  abortsLeft : Option Nat
  listingFails : Bool

namespace Broker

def empty : Broker := ⟨[], [], [], [], none, false⟩

instance : Inhabited Broker := ⟨empty⟩

def epochOf (b : Broker) (name : String) : Epoch := (Assoc.find? name b.epochs).getD .unused

def isOpen (b : Broker) (name : String) : Bool := (Assoc.find? name b.opened).isSome

def bump (b : Broker) (name : String) : Broker :=
  { b with epochs := Assoc.set name (b.epochOf name).next b.epochs }

theorem epochOf_bump (b : Broker) (name x : String) :
    (b.bump name).epochOf x = if name = x then (b.epochOf name).next else b.epochOf x := by
  simp only [epochOf, bump, Assoc.find?_set]
  split <;> rfl

/-- Initialises a name and begins a transaction under it, replacing one that is open. -/
def begin (b : Broker) (name : String) (topic : Option String) : Broker :=
  let b := b.bump name
  { b with opened := Assoc.set name topic b.opened }

theorem epochOf_begin (b : Broker) (name x : String) (topic : Option String) :
    (b.begin name topic).epochOf x = if name = x then (b.epochOf name).next else b.epochOf x :=
  epochOf_bump b name x

theorem isOpen_begin (b : Broker) (name x : String) (topic : Option String) :
    (b.begin name topic).isOpen x = if name = x then true else b.isOpen x := by
  simp only [isOpen, begin, bump, Assoc.find?_set]
  split <;> rfl

/-- Completes a transaction; answers whether one was open. -/
def commit (b : Broker) (name : String) : Bool × Broker :=
  (b.isOpen name, { b with opened := Assoc.remove name b.opened })

theorem isOpen_commit (b : Broker) (name x : String) :
    (b.commit name).2.isOpen x = if name = x then false else b.isOpen x := by
  simp only [isOpen, commit, Assoc.find?_remove]
  split <;> rfl

def failAbortsAfter (b : Broker) (successes : Nat) : Broker :=
  { b with abortsLeft := some successes }

def failListing (b : Broker) (fails : Bool) : Broker := { b with listingFails := fails }

def clearHistory (b : Broker) : Broker := { b with aborted := [], fenced := [] }

/-- Fencing closes an open transaction and raises the epoch; it answers the one before. -/
def fence (b : Broker) (name : String) : Epoch × Broker :=
  let closed : Broker :=
    { b.bump name with
      opened := Assoc.remove name b.opened
      aborted := b.aborted ++ [name]
      fenced := if b.isOpen name then b.fenced ++ [name] else b.fenced }
  (b.epochOf name, closed)

theorem epochOf_fence (b : Broker) (name x : String) :
    (b.fence name).2.epochOf x = if name = x then (b.epochOf name).next else b.epochOf x :=
  epochOf_bump b name x

theorem isOpen_fence (b : Broker) (name x : String) :
    (b.fence name).2.isOpen x = if name = x then false else b.isOpen x := by
  simp only [isOpen, fence, bump, Assoc.find?_remove]
  split <;> rfl

def injected : String := "injected broker failure"

def abort (b : Broker) (id : TxnId) : Except BrokerFault Epoch × Broker :=
  match b.abortsLeft with
  | some 0 => (.error (.abort id.text injected), b)
  | left =>
    let (epoch, b) := { b with abortsLeft := left.map (· - 1) }.fence id.text
    (.ok epoch, b)

def touches (topics : List String) : Option String → Bool
  | some topic => topic ∈ topics
  | none => true

/-- The open names that touch one of the topics, ascending. -/
def listed (b : Broker) (topics : List String) : List String :=
  (b.opened.filter fun entry => touches topics entry.2).map Prod.fst

def list (b : Broker) (topics : List String) : Except BrokerFault (List String) :=
  if b.listingFails then .error (.listing topics injected) else .ok (b.listed topics)

def client : Client Broker where
  abort id b := b.abort id
  list? := some fun topics b => (b.list topics, b)

def readable (names : List String) : List TxnId := names.filterMap TxnId.parse?

/-- The open names that are transactional ids, ascending. -/
def openIds (b : Broker) : List TxnId := readable (b.opened.map Prod.fst)

end Broker

end SinkFencing
