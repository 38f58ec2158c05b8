import SinkFencing.Tool.Answer

namespace SinkFencing.Tool

def help : String :=
  "txn_recovery_tool - inspect transactional ids and sink recovery settings

USAGE:
    txn_recovery_tool <COMMAND> [OPTIONS]

COMMANDS:
    build     --prefix <P> --owner <N> --sequence <N>
              Print the transactional id for the given fields
    parse     <ID>
              Print prefix, owner and sequence of an id
    owner     <ID> --parallelism <N>
              Print the current subtask responsible for an id
    inherit   --subtask <N> --parallelism <N> --previous-parallelism <N>
              Print the historical subtask indices a subtask cleans up
    config    [-c <FILE>] [--prefix <P>] [--naming <S>] [--abort <S>] [--topics <T,..>]
              [--previous-prefixes <P,..>]
              Print the resolved sink configuration as JSON

ENVIRONMENT:
    TXN_RECOVERY_CONFIG     Path to config file
    TXN_RECOVERY_*          Any sink option, e.g. TXN_RECOVERY_NAMING_STRATEGY=pooling
    RUST_LOG                Log filter

"

def indented (cause : String) : String :=
  "\n".intercalate ((cause.splitOn "\n").map fun line => "    " ++ line)

def Failure.render (failure : Failure) : String :=
  let cause := match failure.cause? with
    | some cause => "\n\nCaused by:\n" ++ indented cause
    | none => ""
  "Error: " ++ failure.message ++ cause ++ "\n"

/-- What stands before the failure; a command that is not known calls for the help. -/
def Failure.preface : Failure → String
  | usage .unknownCommand => help
  | _ => ""

/-- A torn text has a code of its own. -/
def Failure.code : Failure → UInt32
  | load (.torn _) => 101
  | _ => 1

structure Outcome where
  code : UInt32
  output : String
  errors : String

/-- The two output streams without log records: what `config` notes of the settings at the info level before it
prints them is left out. -/
def Outcome.ofAnswer : Except Failure Answer → Outcome
  | .ok .help => ⟨0, "", help⟩
  | .ok (.text s) => ⟨0, s ++ "\n", ""⟩
  | .error failure => ⟨failure.code, "", failure.preface ++ failure.render⟩

end SinkFencing.Tool
