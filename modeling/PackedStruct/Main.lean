import PackedStruct.CommandLine.Run
/-!
The program: reads the files that its arguments name and prints the answer.
-/

open PackedStruct

/-- The reason of a failure to read, in the words of the operating system. -/
def readFailure (e : IO.Error) : String :=
  match e with
  | .noFileOrDirectory _ code _ => "No such file or directory (os error " ++ toString code ++ ")"
  | .permissionDenied _ code _ => "Permission denied (os error " ++ toString code ++ ")"
  | .inappropriateType _ code _ => "Is a directory (os error " ++ toString code ++ ")"
  | e => toString e

def readContents (read : IO ByteArray) : IO CommandLine.Contents := do
  try
    return .ok (← read).toList
  catch e =>
    return .error (readFailure e)

/-- The files that a run may read. -/
def namedFiles (args : List String) : List String :=
  match CommandLine.parse args with
  | .ok a => a.schemas ++ (a.input.filter (· != "-")).toList
  | .error _ => []

/-- Whether a run reads standard input. -/
def readsStandard (args : List String) : Bool :=
  match CommandLine.parse args with
  | .ok a => a.input = some "-"
  | .error _ => false

/-- The status of a run that breaks off. -/
def brokenOff : UInt32 := 101

def main (args : List String) : IO UInt32 := do
  let files ← (namedFiles args).mapM fun (path : String) => do
    return (path, ← readContents (IO.FS.readBinFile path))
  let standard ←
    if readsStandard args then readContents do (← IO.getStdin).readBinToEnd else pure (.ok [])
  let inputs : CommandLine.Inputs :=
    { file := fun path => (files.lookup path).getD (.error "No such file or directory (os error 2)"), standard }
  match CommandLine.run inputs args with
  | none => return brokenOff
  | some outcome =>
    (← IO.getStdout).putStr outcome.output
    (← IO.getStderr).putStr outcome.errors
    return UInt32.ofNat outcome.status
