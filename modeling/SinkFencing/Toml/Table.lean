import SinkFencing.Assoc
import SinkFencing.Number.Binary64

namespace SinkFencing.Toml

inductive Value
  | text (s : String)
  | integer (n : Int)
  | float (x : Binary64)
  | flag (b : Bool)
  /-- A date, a time or both, as written. -/
  | moment (s : String)
  | list (items : List Value)
  | table (entries : List (String × Value))
deriving Inhabited

/-- How a table came about: by a header or as the root, as a step in the path of a header, or as
a step in a dotted key. -/
inductive Origin
  | headed
  | passed
  | dotted
deriving DecidableEq

inductive Node
  | value (v : Value)
  | table (origin : Origin) (entries : List (String × Node))
  /-- A list of tables, of which the last can still grow. -/
  | tables (items : List (List (String × Node)))
deriving Inhabited

abbrev Entries := List (String × Node)

/-- A change to the entries of a table, which may depend on how the table came about. -/
abbrev Edit := Origin → Entries → Option Entries

/-- Edits the table at the end of a path. Tables that are missing are made with the given origin,
and a dotted key does not enter a table that a header defined. -/
def Edit.at (edit : Edit) (made : Origin) : List String → Edit
  | [] => edit
  | key :: path => fun _ entries =>
    match Assoc.find? key entries with
    | none => do return Assoc.set key (.table made (← edit.at made path made [])) entries
    | some (.table origin inner) => do
      guard ¬(made = .dotted ∧ origin = .headed)
      return Assoc.set key (.table origin (← edit.at made path origin inner)) entries
    | some (.tables items) => do
      let inner ← edit.at made path .headed (← items.getLast?)
      return Assoc.set key (.tables (items.dropLast ++ [inner])) entries
    | some (.value _) => none

/-- Adds a value under a new key. A table takes plain keys or dotted ones, as it came about. -/
def put (byDots : Bool) (key : String) (v : Value) : Edit := fun origin entries => do
  guard (decide (origin = .dotted) = byDots)
  match Assoc.find? key entries with
  | some _ => none
  | none => return Assoc.set key (.value v) entries

/-- Adds a value under a dotted key, given as the path before the last part and that part. -/
def putAt (path : List String) (key : String) (v : Value) : Edit :=
  (put (!path.isEmpty) key v).at .dotted path

/-- Begins a table, which may have been a step in the path of earlier headers. -/
def beginTable (key : String) : Edit := fun _ entries =>
  match Assoc.find? key entries with
  | none => some (Assoc.set key (.table .headed []) entries)
  | some (.table .passed inner) => some (Assoc.set key (.table .headed inner) entries)
  | some _ => none

/-- Begins one more table of a list of tables. -/
def beginItem (key : String) : Edit := fun _ entries =>
  match Assoc.find? key entries with
  | none => some (Assoc.set key (.tables [[]]) entries)
  | some (.tables items) => some (Assoc.set key (.tables (items ++ [[]])) entries)
  | some _ => none

mutual

def Node.toValue : Node → Value
  | .value v => v
  | .table _ entries => .table (valuesOf entries)
  | .tables items => .list (tablesOf items)

def valuesOf : List (String × Node) → List (String × Value)
  | [] => []
  | (key, node) :: rest => (key, node.toValue) :: valuesOf rest

def tablesOf : List (List (String × Node)) → List Value
  | [] => []
  | item :: rest => .table (valuesOf item) :: tablesOf rest

end

end SinkFencing.Toml
