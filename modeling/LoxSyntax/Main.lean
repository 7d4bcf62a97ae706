import LoxSyntax.CommandLine.Run

/-!
# The program

The command line in the working directory of the process.
-/

namespace LoxSyntax.CommandLine

/-- The reason for which the system could not read a path. A directory can be
opened, and only then fails to be read, so that the failure names no file. -/
def readErrorOf : IO.Error → ReadError
  | .noFileOrDirectory .. => .notFound
  | .inappropriateType (some _) _ _ => .notDirectory
  | .inappropriateType none _ _ => .isDirectory
  | .invalidArgument _ 36 _ => .nameTooLong
  | .permissionDenied .. => .refused 13 "Permission denied"
  | e => .refused 5 (toString e)

/-- The bytes of the file at a path, or the reason that there are none. -/
def readBytes (path : String) : IO (Except ReadError (List UInt8)) := do
  try
    let bytes ← IO.FS.readBinFile path
    return .ok bytes.toList
  catch e =>
    return .error (readErrorOf e)

end LoxSyntax.CommandLine

open LoxSyntax.CommandLine in
/-- Runs the command line and writes its report, or why the run cannot start. -/
def main (arguments : List String) : IO UInt32 := do
  let report ←
    match plan arguments with
    | .error e => pure { status := 1, stderr := lines [e.message] }
    | .ok (.inl report) => pure report
    | .ok (.inr o) => pure (process o (← readBytes o.source))
  (← IO.getStdout).putStr report.stdout
  (← IO.getStderr).putStr report.stderr
  return UInt32.ofNat report.status
