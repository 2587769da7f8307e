import ClockedC.CommandLine.Session

/-!
# The program

Runs the command line over the files and streams of the machine.
-/

namespace ClockedC.CommandLine

/-- The fault with a number of the system. Some calls give the number negated. -/
def FileFault.ofNumber? (number : UInt32) : Option FileFault :=
  [(2, missing), (20, notDirectory), (21, isDirectory), (36, nameTooLong)].lookup (min number (0 - number))

/-- An error of the machine as a run words it. -/
def FileFault.ofError (error : IO.Error) : FileFault :=
  let fault := match error with
    | .noFileOrDirectory _ number _ => ofNumber? number
    | .inappropriateType _ number _ => ofNumber? number
    | .invalidArgument _ number _ => ofNumber? number
    | _ => none
  fault.getD (.other (toString error))

/-- The outcome of an action that may fail. -/
def attempt {α : Type} (action : IO α) : IO (Except FileFault α) := do
  match ← action.toBaseIO with
  | .ok a => return .ok a
  | .error error => return .error (FileFault.ofError error)

/-- The machine serves a run. -/
def machine : Host IO where
  read path := do
    match ← attempt (IO.FS.readBinFile path) with
    | .error fault => return .error fault
    | .ok content =>
      match String.fromUTF8? content with
      | some text => return .ok text
      | none => return .error .notText
  write path text := attempt (IO.FS.writeFile path text)
  print text := attempt do
    let out ← IO.getStdout
    out.putStr text
    out.flush
  report text := do (← IO.getStderr).putStr text

end ClockedC.CommandLine

open ClockedC ClockedC.CommandLine in
/-- Compiles a file. The variable `COMPI_LOG` holds a log level that replaces the one the arguments ask for. -/
def main (arguments : List String) : IO UInt32 := do
  let level := (← IO.getEnv "COMPI_LOG").bind fun text => LogLevel.ofLabel? text.toLower
  let terminal ← (← IO.getStderr).isTty
  let status ← run machine level terminal arguments
  return status.code.toUInt32
