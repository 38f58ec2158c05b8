import SinkFencing.Choice
import SinkFencing.Fault
import SinkFencing.Text.Blank

namespace SinkFencing

/-- Probing guesses ids upward from a start; listing asks the broker which are open. -/
inductive Strategy
  | probing
  | listing
deriving DecidableEq

/-- Incrementing gives every checkpoint an id of its own; pooling reuses a few slots. -/
inductive Naming
  | incrementing
  | pooling
deriving DecidableEq, Inhabited

instance : Choice Strategy := ⟨"AbortStrategy", [("probing", .probing), ("listing", .listing)]⟩

instance : Choice Naming :=
  ⟨"TransactionNamingStrategy", [("incrementing", .incrementing), ("pooling", .pooling)]⟩

/-- The form in which names are compared: without blanks at its ends, ASCII letters lowered. -/
def foldName (text : String) : String := String.ofList ((Text.trim text.toList).map Char.toLower)

namespace Strategy

def name (s : Strategy) : String := Choice.nameOf s

def read (text : String) : Except Fault Strategy :=
  match Choice.ofName? (foldName text) with
  | some s => .ok s
  | none => .error (.refused (.unknownStrategy (foldName text)))

end Strategy

namespace Naming

def name (n : Naming) : String := Choice.nameOf n

def read (text : String) : Except Fault Naming :=
  match Choice.ofName? (foldName text) with
  | some n => .ok n
  | none => .error (.refused (.unknownNaming (foldName text)))

/-- The strategy that finds the ids this naming produces. -/
def strategy : Naming → Strategy
  | incrementing => .probing
  | pooling => .listing

def firstCheckpoint : UInt64 := 1

/-- The first sequence a stale transaction can have. Ids up to the restored checkpoint are the
committer's; pooled slots are reused, so each of them is a candidate. -/
def startSequence (n : Naming) (restored : Option UInt64) : UInt64 :=
  match n, restored with
  | incrementing, none => firstCheckpoint
  | incrementing, some c => if c.toNat + 1 < UInt64.size then c + 1 else c
  | pooling, _ => 0

end Naming

theorem Strategy.read_name (s : Strategy) : Strategy.read s.name = .ok s := by
  cases s <;> rfl

theorem Naming.read_name (n : Naming) : Naming.read n.name = .ok n := by
  cases n <;> rfl

end SinkFencing
