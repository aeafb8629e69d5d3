import SearchSync.Cli.Basic

/-!
The program. It reads the file that the command line names; databases are reached through the
scripts that it prints, not by itself.
-/

namespace SearchSync.Cli

def readText (path : String) : IO (Except FileError String) := do
  try
    return .ok (← IO.FS.readFile path)
  catch
    | .noFileOrDirectory .. => return .error .missing
    | .inappropriateType .. => return .error .isDirectory
    | e => return .error (.other (toString e))

def perform (args : List String) : IO UInt32 := do
  let file ←
    match Invocation.read args with
    | .ok i => readText i.config
    | .error _ => pure (.error .missing)
  let environment : Environment Unit := ⟨fun _ => file, fun _ _ => none⟩
  let (outcome, _) := environment.run args ()
  match outcome with
  | .done text => IO.print text
  | .refused .helpWanted => IO.print usage
  | .refused .misused => IO.eprint usage
  | .failed f => IO.eprint f.report
  return outcome.exitCode.toUInt32

end SearchSync.Cli

def main (args : List String) : IO UInt32 := SearchSync.Cli.perform args
