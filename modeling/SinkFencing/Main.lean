import SinkFencing.Tool.Outcome

namespace SinkFencing.Tool

def processEnvironment : IO Environment := do
  let text := match ← (IO.FS.readBinFile "/proc/self/environ").toBaseIO with
    | .ok bytes => (String.fromUTF8? bytes).getD ""
    | .error _ => ""
  return (text.splitOn "\x00").filterMap fun entry =>
    match entry.splitOn "=" with
    | name :: value@(_ :: _) => some (name, "=".intercalate value)
    | _ => none

/-- What a failure says of a file that is there. Failures to look a file up have negative codes, and
these like all others mean that there is none. -/
def readFault? : IO.Error → Option ReadFault
  | .permissionDenied _ code what | .invalidArgument _ code what | .hardwareFault code what
  | .unsupportedOperation code what =>
    if 0 < code.toInt32 then some (.refused what code) else none
  | _ => none

def readFile (path : String) : IO (Option FileText) := do
  match ← (IO.FS.readBinFile path).toBaseIO with
  | .ok bytes =>
    match String.fromUTF8? bytes with
    | some text => return some (.ok text)
    | none => return some (.error .notText)
  | .error failure => return (readFault? failure).map .error

end SinkFencing.Tool

open SinkFencing

def main (args : List String) : IO UInt32 := do
  let host : Tool.Host := ⟨← Tool.processEnvironment, (← IO.currentDir).toString⟩
  let outcome := Tool.Outcome.ofAnswer (← Tool.invoke Tool.readFile host args)
  (← IO.getStdout).putStr outcome.output
  (← IO.getStderr).putStr outcome.errors
  return outcome.code
