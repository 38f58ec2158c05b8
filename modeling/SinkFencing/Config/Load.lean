import SinkFencing.Config.Extract

namespace SinkFencing

inductive LayerFault
  | unread (path : String) (fault : ReadFault)
  | malformed (path : String)
  | mistaken (mistake : Mistake)

def ConfigFile.entries (found : ConfigFile) : Except LayerFault LayerTable := do
  let text ← found.text.mapError (.unread found.path)
  match Toml.read? text >>= Value.ofTomlEntries (.file found.path) with
  | some entries => return .ofList entries
  | none => throw (.malformed found.path)

/-- The layering in use, in which every value remembers its layer. -/
def Layering.tracked : Layering where
  Value := SinkFencing.Value
  Table := LayerTable
  Error := LayerFault
  find? := LayerTable.find?
  isTable := SinkFencing.Value.isTable
  onto := SinkFencing.Value.onto
  new := .new
  merge := LayerTable.merge
  encode layer form a := SinkFencing.Value.ofForm layer form a
  written := LayerTable.ofList
  decode form key v := (SinkFencing.Value.asForm form [key] v).mapError .mistaken
  read := EnvValue.read
  environment := Environment.entries
  document? := Toml.read?
  ofToml path v := (SinkFencing.Value.ofToml (.file path) v).getD (.unset (.file path))
  file := ConfigFile.entries
  extract t := t.extract.mapError .mistaken

inductive LoadFault
  | torn (culprit : TornVariable)
  | unread (path : String) (fault : ReadFault)
  | malformed (path : String)
  | mistaken (mistake : Mistake)
  | rejected (rejection : Rejection)

namespace LoadFault

def ofError : LoadError LayerFault → LoadFault
  | .torn culprit => .torn culprit
  | .failed (.unread path fault) => .unread path fault
  | .failed (.malformed path) => .malformed path
  | .failed (.mistaken mistake) => .mistaken mistake
  | .rejected rejection => .rejected rejection

def reason : LoadFault → String
  | torn culprit => s!"the text of {culprit.name} is cut inside a character"
  | unread path fault => fault.reason ++ "\n in " ++ (Layer.file path).text
  | malformed path => s!"{path} does not hold settings in TOML"
  | mistaken mistake => mistake.text
  | rejected rejection => rejection.reason

def message (fault : LoadFault) : String := "configuration error: " ++ fault.reason

/-- A rejection is a verdict of its own; the other faults were caused by what was read. -/
def cause? : LoadFault → Option String
  | rejected _ => none
  | fault => some fault.reason

end LoadFault

/-- A torn variable counts before all other faults. -/
def Settings.load (file : Option ConfigFile) (env : Environment) (overrides : Overrides) :
    Except LoadFault Settings :=
  (Layering.tracked.load file env overrides).mapError .ofError

end SinkFencing
