import SinkFencing.Config.Location

namespace SinkFencing

inductive Layer
  | defaults
  /-- A file, with its path as shown to the user. -/
  | file (path : String)
  | environment
  | overrides
deriving DecidableEq, Inhabited

inductive ReadFault
  | notText
  /-- The system does not give its bytes. -/
  | refused (what : String) (code : UInt32)

def ReadFault.reason : ReadFault → String
  | notText => "stream did not contain valid UTF-8"
  | refused what code => s!"{what} (os error {code})"

abbrev FileText := Except ReadFault String

structure ConfigFile where
  path : String
  text : FileText

def ConfigFile.find {m : Type → Type} [Monad m] (read : String → m (Option FileText))
    (directory : String) (path : Option String) : m (Option ConfigFile) := do
  let places := (path.map (Location.places directory)).getD []
  return (← Location.findFirst read places).map fun (place, text) =>
    ⟨Location.shown directory place, text⟩

abbrev Environment : Type := List (String × String)

/-- A variable with a text on which its reader breaks down. -/
structure TornVariable where
  name : String

namespace Environment

def variableStart : String := "TXN_RECOVERY_"

def lower (cs : List Char) : List Char := cs.map Char.toLower

end Environment

end SinkFencing
