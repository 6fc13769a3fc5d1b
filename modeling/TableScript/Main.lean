import TableScript.CommandLine

/-!
The program: reads its arguments and its script, runs it and writes what it reports.
-/

namespace TableScript.CommandLine

/-- The bytes of a stream up to its end. -/
partial def readAll (stream : IO.FS.Stream) (bytes : ByteArray) : IO ByteArray := do
  let more ← stream.read 65536
  if more.isEmpty then return bytes else readAll stream (bytes ++ more)

/-- The bytes that the script of an invocation is read from. -/
def readBytes (invocation : Invocation) : IO ByteArray := do
  match invocation.path with
  | some path => IO.FS.readBinFile path
  | none => readAll (← IO.getStdin) .empty

/-- The script of an invocation. -/
def readSource (invocation : Invocation) : IO (Except ReadError String) := do
  try
    return decode (← readBytes invocation)
  catch
    | .noFileOrDirectory .. => return .error .notFound
    | e => return .error (.other (toString e))

end TableScript.CommandLine

open TableScript TableScript.CommandLine in
def main (args : List String) : IO UInt32 := do
  let report ← match Invocation.ofArgs args with
    | .error e => pure (Report.ofUsageError e)
    | .ok invocation => do pure (invocation.run ampleFuel (← readSource invocation))
  (← IO.getStdout).putStr report.stdout
  (← IO.getStderr).putStr report.stderr
  return UInt32.ofNat report.exitCode
