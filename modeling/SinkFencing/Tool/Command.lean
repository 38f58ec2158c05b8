import SinkFencing.Config.Layers
import SinkFencing.Number.Integer

namespace SinkFencing.Tool

inductive Command
  | help
  | build (stem : String) (owner sequence : Int)
  | parse (raw : String)
  | owner (raw : String) (parallelism : UInt32)
  | inherit (subtask parallelism previous : UInt32)
  | config (overrides : Overrides) (path : Option String)

inductive UsageFault
  | unknownCommand
  | missingFlag (flag : String)
  | missingId (command : String)
  | integer (fault : IntegerFault)
  | name (fault : Fault)

def UsageFault.message : UsageFault → String
  | unknownCommand => "unknown or missing command"
  | missingFlag flag => flag ++ " is required"
  | missingId command => command ++ " requires an id"
  | integer fault => fault.message
  | name fault => fault.message

namespace Command

def valueOf? (flag : String) : List String → Option String
  | [] => none
  | arg :: rest => if arg = flag then rest.head? else valueOf? flag rest

def required (flag : String) (args : List String) : Except UsageFault String :=
  match valueOf? flag args with
  | some value => .ok value
  | none => .error (.missingFlag flag)

def requiredNumber {α : Type} (read : String → Except IntegerFault α) (flag : String)
    (args : List String) : Except UsageFault α := do
  (read (← required flag args)).mapError .integer

/-- The id after the command, which does not begin like a flag. -/
def idArgument (command : String) : List String → Except UsageFault String
  | _ :: raw :: _ => if raw.startsWith "-" then .error (.missingId command) else .ok raw
  | _ => .error (.missingId command)

/-- The parts between commas that are not empty. -/
def splitList (text : String) : List String := (text.splitOn ",").filter (· ≠ "")

/-- A stem that is given asks for exactly-once delivery too. -/
def overridesOf (args : List String) : Except UsageFault Overrides := do
  let stem := valueOf? "--prefix" args
  let naming ← (valueOf? "--naming" args).mapM fun s => (Naming.read s).mapError .name
  let strategy ← (valueOf? "--abort" args).mapM fun s => (Strategy.read s).mapError .name
  return {
    stem, naming, strategy
    delivery := stem.map fun _ => .exactlyOnce
    topics := (valueOf? "--topics" args).map splitList
    previousStems := (valueOf? "--previous-prefixes" args).map splitList }

def pathVariable : String := "TXN_RECOVERY_CONFIG"

def configPath (args : List String) (env : Environment) : Option String :=
  valueOf? "--config" args <|> valueOf? "-c" args <|> env.lookup pathVariable

def ofArgs (args : List String) (env : Environment) :
    Except UsageFault Command :=
  if "-h" ∈ args ∨ "--help" ∈ args then .ok .help
  else match args.head? with
  | some "build" => do
    let stem ← required "--prefix" args
    let owner ← requiredNumber Integer.readInt64 "--owner" args
    let sequence ← requiredNumber Integer.readInt64 "--sequence" args
    return .build stem owner sequence
  | some "parse" => do return .parse (← idArgument "parse" args)
  | some "owner" => do
    let raw ← idArgument "owner" args
    return .owner raw (← requiredNumber Integer.readUInt32 "--parallelism" args)
  | some "inherit" => do
    let subtask ← requiredNumber Integer.readUInt32 "--subtask" args
    let parallelism ← requiredNumber Integer.readUInt32 "--parallelism" args
    let previous ← requiredNumber Integer.readUInt32 "--previous-parallelism" args
    return .inherit subtask parallelism previous
  | some "config" => do return .config (← overridesOf args) (configPath args env)
  | _ => .error .unknownCommand

end Command

end SinkFencing.Tool
