import SinkFencing.Config.EnvValue
import SinkFencing.Config.Layering
import SinkFencing.Toml.Document

namespace SinkFencing

namespace Value

def texts (layer : Layer) (items : List String) : Value := list layer (items.map (text layer))

def ofForm (layer : Layer) : {α : Type} → Form α → α → Value
  | _, .text, s => text layer s
  | _, .texts, items => texts layer items
  | _, @Form.choice _ _ _, a => text layer (Choice.nameOf a)
  | _, .option _, none => unset layer
  | _, .option inner, some a => ofForm layer inner a

def momentKey : String := "$__toml_private_datetime"

/-- The reserved key of the value that a table stands for. -/
def standInKey : String := "___figment_value_value"

/-- A table below the root: the value that it stands for if it has one, and else itself. A marked
table is refused. -/
def ofEntries (layer : Layer) (entries : List (String × Value)) : Option Value :=
  if (Assoc.find? Layering.markKey entries).isSome then none
  else some ((Assoc.find? standInKey entries).getD (table layer entries))

mutual

def ofToml (layer : Layer) : Toml.Value → Option Value
  | .text s => some (text layer s)
  | .integer n => some (signed layer n)
  | .float x => some (float layer x)
  | .flag b => some (flag layer b)
  | .moment s => some (table layer [(momentKey, text layer s)])
  | .list items => (ofTomlItems layer items).map (list layer)
  | .table entries => do ofEntries layer (← ofTomlEntries layer entries)

def ofTomlItems (layer : Layer) : List Toml.Value → Option (List Value)
  | [] => some []
  | item :: rest => return (← ofToml layer item) :: (← ofTomlItems layer rest)

def ofTomlEntries (layer : Layer) : List (String × Toml.Value) → Option (List (String × Value))
  | [] => some []
  | (key, v) :: rest => return (key, ← ofToml layer v) :: (← ofTomlEntries layer rest)

end

end Value

namespace Environment

def splitAt (c : Char) : List Char → List (List Char)
  | [] => [[]]
  | x :: rest =>
    if x = c then [] :: splitAt c rest
    else match splitAt c rest with
      | part :: parts => (x :: part) :: parts
      | [] => [[x]]

/-- The path that a variable sets, if its name begins so: letter case does not matter, and points
lead into tables. -/
def path? (start name : String) : Option (List String) :=
  let folded := lower (Text.trim name.toList)
  let start := lower start.toList
  if start.isPrefixOf folded then
    let parts := splitAt '.' (Text.trim (folded.drop start.length))
    if [] ∈ parts then none else some (parts.map String.ofList)
  else none

def nested (v : Value) : List String → Value
  | [] => v
  | key :: path => .table .environment [(key, nested v path)]

/-- What one variable sets. The text of a variable with another name is not read. -/
def entriesOf (start name text : String) : Except TornVariable LayerTable :=
  match path? start name with
  | some (key :: path) =>
    match EnvValue.read text with
    | some v => .ok (.ofList [(key, nested v path)])
    | none => .error ⟨name⟩
  | _ => .ok .new

/-- What the variables set; of two for the same key the later one counts. -/
def entries (start : String) (env : Environment) : Except TornVariable LayerTable :=
  env.foldlM (fun below v => return below.merge (← entriesOf start v.1 v.2)) .new

end Environment

end SinkFencing
