import DeepLink.CommandLine.Program
import DeepLink.Url.Reading

/-!
# Entry point

Reads the configuration file that the arguments name, prints what the program prints, and
ends with its status.
-/
open DeepLink CommandLine

/-- The bytes of a file, or why there are none. -/
def readContent (file : Text) : IO (Except ReadFailure (List UInt8)) := do
  try
    return .ok (← IO.FS.readBinFile (String.ofList file)).toList
  catch
    | .noFileOrDirectory .. => return .error .notFound
    | error => return .error (.refused (toString error).toList)

def main (arguments : List String) : IO UInt32 := do
  let arguments := arguments.map String.toList
  let content ←
    match (CommandLine.read arguments).toOption.bind (·.config) with
    | some file => readContent file
    | none => pure (.error .notFound)
  let outcome := run Url.parse? (fun _ => content) arguments
  IO.print (String.ofList outcome.printed)
  IO.eprint (String.ofList outcome.reported)
  return outcome.status.toUInt32
