namespace SinkFencing

class Choice (α : Type) where
  /-- The name of the option's type in messages. -/
  kind : String
  table : List (String × α)

namespace Choice

variable (α : Type) [Choice α]

def names : List String := (table (α := α)).map Prod.fst

variable {α}

def ofName? (name : String) : Option α := table.lookup name

def nameOf [DecidableEq α] (a : α) : String :=
  ((table.find? fun entry => entry.2 = a).map Prod.fst).getD ""

end Choice

end SinkFencing
