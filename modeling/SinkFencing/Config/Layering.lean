import SinkFencing.Config.Settings
import SinkFencing.Config.Source
import SinkFencing.Toml.Table

namespace SinkFencing

/-- How the values of a type are written in a layer. -/
inductive Form : Type → Type 1
  | text : Form String
  | texts : Form (List String)
  /-- One of a few values, by name. -/
  | choice {α : Type} [Choice α] [DecidableEq α] : Form α
  | option {α : Type} (inner : Form α) : Form (Option α)

/-- The fields of the settings, in the alphabetical order of their keys. -/
inductive Setting
  | strategy
  | delivery
  | naming
  | previousStems
  | topics
  | stem
deriving DecidableEq

namespace Setting

def key : Setting → String
  | strategy => "abort_strategy"
  | delivery => "delivery_guarantee"
  | naming => "naming_strategy"
  | previousStems => "previous_prefixes"
  | topics => "topics"
  | stem => "transactional_id_prefix"

abbrev Content : Setting → Type
  | strategy => Option Strategy
  | delivery => Delivery
  | naming => Naming
  | previousStems => List String
  | topics => List String
  | stem => Option String

def form : (k : Setting) → Form k.Content
  | strategy => .option .choice
  | delivery => .choice
  | naming => .choice
  | previousStems => .texts
  | topics => .texts
  | stem => .option .text

def get (s : Settings) : (k : Setting) → k.Content
  | strategy => s.strategy
  | delivery => s.delivery
  | naming => s.naming
  | previousStems => s.previousStems
  | topics => s.topics
  | stem => s.stem

/-- What an override makes of a field. It cannot leave a field open again. -/
def given (o : Overrides) : (k : Setting) → Option k.Content
  | strategy => o.strategy.map some
  | delivery => o.delivery
  | naming => o.naming
  | previousStems => o.previousStems
  | topics => o.topics
  | stem => o.stem.map some

def all : List Setting := [strategy, delivery, naming, previousStems, topics, stem]

end Setting

/-- A library that lays the layers of a configuration onto each other. -/
structure Layering where
  Value : Type
  /-- Values under keys. -/
  Table : Type
  Error : Type
  find? (t : Table) (key : String) : Option Value
  isTable (v : Value) : Bool
  /-- A value laid onto another. -/
  onto (upper lower : Value) : Value
  new : Table
  merge (lower upper : Table) : Table
  encode {α : Type} (layer : Layer) (form : Form α) (a : α) : Value
  /-- A table from values that were encoded. -/
  written (entries : List (String × Value)) : Table
  decode {α : Type} (form : Form α) (key : String) (v : Value) : Except Error α
  /-- The value that the text of a variable stands for, unless the reader breaks down on it. -/
  read (text : String) : Option Value
  /-- What the variables whose names begin so set. -/
  environment (start : String) (env : Environment) : Except TornVariable Table
  /-- The entries of a TOML document. -/
  document? (text : String) : Option (List (String × Toml.Value))
  ofToml (path : String) (v : Toml.Value) : Value
  file (found : ConfigFile) : Except Error Table
  extract (t : Table) : Except Error Settings

inductive LoadError (ε : Type)
  | torn (culprit : TornVariable)
  | failed (error : ε)
  | rejected (rejection : Rejection)

namespace Layering

variable (L : Layering)

/-- The reserved key of a mark that no file can give. -/
def markKey : String := "___figment_value_id"

/-- A table of the fields that are set. -/
def keyed (value? : Setting → Option L.Value) : L.Table :=
  L.written (Setting.all.filterMap fun k => (value? k).map fun v => (k.key, v))

def defaults : L.Table := L.keyed fun k => some (L.encode .defaults k.form (k.get {}))

def overrides (o : Overrides) : L.Table :=
  L.keyed fun k => (k.given o).map (L.encode .overrides k.form)

def ofEnv (env : Environment) : Except TornVariable L.Table :=
  L.environment Environment.variableStart env

/-- All layers merged, the lowest first: defaults, a file if there is one, the environment and the
overrides. The reader of variables may break down before an unreadable file is complained about. -/
def layered (file : Option ConfigFile) (env : Environment) (o : Overrides) :
    Except (LoadError L.Error) L.Table := do
  let upper ← (L.ofEnv env).mapError .torn
  let lower ← (file.mapM L.file).mapError .failed
  let layers := L.defaults :: (lower.toList ++ [upper, L.overrides o])
  return layers.foldl L.merge L.new

def load (file : Option ConfigFile) (env : Environment) (o : Overrides) :
    Except (LoadError L.Error) Settings := do
  let s ← (L.extract (← L.layered file env o)).mapError .failed
  s.check.mapError .rejected
  return s

end Layering

end SinkFencing
