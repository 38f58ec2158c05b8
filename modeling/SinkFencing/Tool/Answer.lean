import SinkFencing.Config.Load
import SinkFencing.Placement
import SinkFencing.Tool.Command
import SinkFencing.TxnId

namespace SinkFencing.Tool

inductive Failure
  | usage (fault : UsageFault)
  | refused (fault : Fault)
  | noPlacement
  | load (fault : LoadFault)

namespace Failure

def message : Failure → String
  | usage fault => fault.message
  | refused fault => fault.message
  | noPlacement => "--parallelism must be at least 1"
  | load fault => fault.message

def cause? : Failure → Option String
  | load fault => fault.cause?
  | _ => none

end Failure

def partsJson (parts : TxnId.Parts) : Json :=
  .object
    [("owner", .ofNat parts.owner.toNat), ("prefix", .text parts.stem),
      ("sequence", .ofNat parts.sequence.toNat)]

def buildAnswer (stem : String) (owner sequence : Int) : Except Failure String := do
  let id ← (TxnId.ofInts stem owner sequence).mapError .refused
  return id.text

def parseAnswer (raw : String) : Except Failure String := do
  let id ← (TxnId.parse raw).mapError .refused
  let parts ← id.parts.mapError .refused
  return (partsJson parts).compact

def ownerAnswer (raw : String) (parallelism : UInt32) : Except Failure String := do
  let parts ← (TxnId.Parts.read raw).mapError .refused
  match Placement.seek parallelism parts.owner with
  | some placement => return placement.text
  | none => throw .noPlacement

def inheritAnswer (subtask parallelism previous : UInt32) : Except Failure String := do
  let placement ← (Placement.make subtask parallelism).mapError .refused
  let owners := (placement.inherited previous).map fun o => Json.ofNat o.toNat
  return (Json.list owners).compact

structure Host where
  env : Environment
  /-- The current directory. -/
  directory : String

def configAnswer {m : Type → Type} [Monad m] (read : String → m (Option FileText))
    (host : Host) (overrides : Overrides) (path : Option String) :
    m (Except Failure String) := do
  let file ← ConfigFile.find read host.directory path
  return do
    let s ← (Settings.load file host.env overrides).mapError .load
    return s.toJson.pretty

inductive Answer
  | help
  | text (s : String)

/-- The answer to a command; only `config` reads a file. -/
def Command.answer {m : Type → Type} [Monad m] (read : String → m (Option FileText)) (host : Host) :
    Command → m (Except Failure Answer)
  | help => return .ok .help
  | build stem o s => return (buildAnswer stem o s).map .text
  | parse raw => return (parseAnswer raw).map .text
  | owner raw parallelism => return (ownerAnswer raw parallelism).map .text
  | inherit subtask parallelism previous =>
    return (inheritAnswer subtask parallelism previous).map .text
  | config overrides path => return (← configAnswer read host overrides path).map .text

def invoke {m : Type → Type} [Monad m] (read : String → m (Option FileText)) (host : Host)
    (args : List String) : m (Except Failure Answer) :=
  match Command.ofArgs args host.env with
  | .error fault => return .error (.usage fault)
  | .ok command => command.answer read host

end SinkFencing.Tool
