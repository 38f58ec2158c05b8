import SinkFencing.Assoc
import SinkFencing.Config.Source
import SinkFencing.Number.Binary64
import SinkFencing.Text.Quoted

namespace SinkFencing

inductive Value
  | text (layer : Layer) (s : String)
  | letter (layer : Layer) (c : Char)
  | flag (layer : Layer) (b : Bool)
  | signed (layer : Layer) (n : Int)
  | unsigned (layer : Layer) (n : Nat)
  | float (layer : Layer) (x : Binary64)
  /-- An option that is left open. -/
  | unset (layer : Layer)
  | list (layer : Layer) (items : List Value)
  | table (layer : Layer) (entries : List (String × Value))
deriving Inhabited

namespace Value

def layer : Value → Layer
  | text layer _ | letter layer _ | flag layer _ | signed layer _ | unsigned layer _
  | float layer _ | unset layer | list layer _ | table layer _ => layer

def isTable : Value → Bool
  | table _ _ => true
  | _ => false

def describe : Value → String
  | text _ s => "string " ++ Text.quote s
  | letter _ c => "string " ++ Text.quote (String.singleton c)
  | flag _ b => "bool " ++ toString b
  | signed _ n => s!"signed int `{n}`"
  | unsigned _ n => s!"unsigned int `{n}`"
  | float _ x => s!"float `{x.text}`"
  | unset _ => "unit"
  | list _ _ => "sequence"
  | table _ _ => "map"

mutual

/-- A value laid onto another. Only two tables are joined, key by key; all else is replaced. -/
def onto : Value → Value → Value
  | table layer upper, table _ lower => table layer (joined upper lower)
  | upper, _ => upper

def joined : List (String × Value) → List (String × Value) → List (String × Value)
  | [], lower => lower
  | (key, value) :: upper, lower =>
    joined upper (Assoc.set key (match Assoc.find? key lower with
      | some below => onto value below
      | none => value) lower)

end

theorem pairwise_joined {upper lower : List (String × Value)}
    (h : lower.Pairwise fun x y => x.1 < y.1) :
    (joined upper lower).Pairwise fun x y => x.1 < y.1 := by
  induction upper generalizing lower with
  | nil => rwa [joined]
  | cons entry upper ih =>
    rw [joined]
    exact ih (Assoc.pairwise_set _ _ h)

end Value

/-- The values of one layer, or of merged ones, under keys that go upward. -/
structure LayerTable where
  entries : List (String × Value)
  ascending : entries.Pairwise fun x y => x.1 < y.1

namespace LayerTable

def new : LayerTable := ⟨[], .nil⟩

def merge (lower upper : LayerTable) : LayerTable :=
  ⟨Value.joined upper.entries lower.entries, Value.pairwise_joined lower.ascending⟩

def ofList (entries : List (String × Value)) : LayerTable :=
  ⟨Value.joined entries [], Value.pairwise_joined .nil⟩

def find? (t : LayerTable) (key : String) : Option Value := Assoc.find? key t.entries

end LayerTable

end SinkFencing
