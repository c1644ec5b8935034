import PropTable.CommandLine.Run

/-!
# The program

Reads the formula file, if the arguments name one, and writes what the run amounts to. All that is
decided is decided by `PropTable.CommandLine.report`.
-/

namespace PropTable.CommandLine

/-- What the system says about a file name. -/
def readFile (path : String) : IO Contents := do
  if let some failure := nameFailure? path then return .error failure
  try
    return .ok (← IO.FS.readBinFile path).toList
  catch
    | .noFileOrDirectory .. => return .error .notFound
    | .inappropriateType .. => return .error .isDirectory
    | err => return .error (.other (toString err))

end PropTable.CommandLine

open PropTable.CommandLine in
/-- Refused arguments end the program with the number 2 and a message on standard error. -/
def main (arguments : List String) : IO UInt32 := do
  match parse arguments with
  | .error err =>
    IO.eprintln usage
    IO.eprintln ("proptable: error: " ++ err.message)
    return 2
  | .ok settings =>
    let contents ←
      match settings.formulaFile with
      | some name => readFile (normalizePath name)
      | none => pure (.error .notFound)
    let r := report settings fun _ => contents
    IO.print r.output
    return UInt32.ofNat r.exitCode
