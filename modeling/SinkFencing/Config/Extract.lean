import SinkFencing.Config.Layers

namespace SinkFencing

inductive Complaint
  | mistyped (found : Value) (expected : String)
  | unknownName (found : String) (expected : List String)

structure Mistake where
  complaint : Complaint
  path : List String
  layer : Layer

def ticked (s : String) : String := "`" ++ s ++ "`"

def alternatives : List String → String
  | [a, b] => ticked a ++ " or " ++ ticked b
  | names => "one of " ++ ", ".intercalate (names.map ticked)

def Complaint.text : Complaint → String
  | mistyped found expected => s!"invalid type: found {found.describe}, expected {expected}"
  | unknownName found expected =>
    s!"unknown variant: found {ticked found}, expected {ticked (alternatives expected)}"

/-- A path as its layer writes it: after the name of the main table in a file, and in capitals in
the environment. -/
def Layer.showPath (layer : Layer) (path : List String) : String :=
  match layer with
  | environment => ".".intercalate (path.map fun key => key.map Char.toUpper)
  | _ => ".".intercalate ("default" :: path)

def Layer.text : Layer → String
  | defaults => "built-in defaults"
  | file path => path ++ " TOML file"
  | environment => ticked Environment.variableStart ++ " environment variable(s)"
  | overrides => "overrides"

def Mistake.text (m : Mistake) : String :=
  m.complaint.text ++ " for key " ++ Text.quote (m.layer.showPath m.path) ++ " in " ++ m.layer.text

abbrev Extracted := Except Mistake

namespace Value

def mistyped {α : Type} (v : Value) (path : List String) (expected : String) : Extracted α :=
  .error ⟨.mistyped v expected, path, v.layer⟩

def asText (path : List String) : Value → Extracted String
  | text _ s => .ok s
  | letter _ c => .ok (String.singleton c)
  | other => other.mistyped path "a string"

def asTextsFrom (path : List String) (n : Nat) : List Value → Extracted (List String)
  | [] => .ok []
  | v :: rest => do
    let s ← v.asText (path ++ [n.repr])
    return s :: (← asTextsFrom path (n + 1) rest)

def asTexts (path : List String) : Value → Extracted (List String)
  | list _ items => asTextsFrom path 0 items
  | other => other.mistyped path "a sequence"

def asName {α : Type} [Choice α] (path : List String) (layer : Layer) (name : String) :
    Extracted α :=
  match Choice.ofName? name with
  | some a => .ok a
  | none => .error ⟨.unknownName name (Choice.names α), path, layer⟩

/-- A choice is its name, or a table with the name as its first key and nothing under it. A name
that is a key is looked up where its value stands. -/
def asChoice {α : Type} [Choice α] (path : List String) : Value → Extracted α
  | text layer s => asName path layer s
  | table _ ((key, v) :: _) => do
    let a ← asName (path ++ [key]) v.layer key
    match v with
    | unset _ => return a
    | _ => v.mistyped (path ++ [key]) "unit"
  | table layer [] => (table layer []).mistyped path "enum"
  | other => other.mistyped path ("enum " ++ Choice.kind α)

def asOption {α : Type} (read : List String → Value → Extracted α) (path : List String) :
    Value → Extracted (Option α)
  | unset _ => .ok none
  | v => (read path v).map some

def asForm : {α : Type} → Form α → List String → Value → Extracted α
  | _, .text => asText
  | _, .texts => asTexts
  | _, @Form.choice _ _ _ => asChoice
  | _, .option inner => asOption (asForm inner)

end Value

namespace LayerTable

def field (t : LayerTable) (k : Setting) : Extracted k.Content :=
  match t.find? k.key with
  | some v => Value.asForm k.form [k.key] v
  | none => .ok (k.get {})

/-- The fields are looked at in alphabetical order, and other keys are passed over. -/
def extract (t : LayerTable) : Extracted Settings := do
  let strategy ← t.field .strategy
  let delivery ← t.field .delivery
  let naming ← t.field .naming
  let previousStems ← t.field .previousStems
  let topics ← t.field .topics
  let stem ← t.field .stem
  return { delivery, stem, naming, strategy, topics, previousStems }

end LayerTable

end SinkFencing
