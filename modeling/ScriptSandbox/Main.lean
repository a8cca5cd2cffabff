import ScriptSandbox.CommandLine.Launch

/-!
The command line program.
-/

namespace ScriptSandbox.CommandLine

/-- The cause of a failed read. -/
def faultOf : IO.Error → FileFault
  | .noFileOrDirectory .. => .missing
  | .inappropriateType _ 21 _ => .isDirectory
  | .inappropriateType .. => .belowFile
  | .invalidArgument .. => .nameTooLong
  | _ => .notText

def readText (path : String) : IO (Except FileFault String) := do
  try
    return .ok (← IO.FS.readFile path)
  catch error =>
    return .error (faultOf error)

/-- What stands at a path of the file system. -/
def findPlace (path : String) : IO Place := do
  match ← readText path with
  | .ok text => return .present text
  | .error .missing =>
      match ← readText (Path.directoryText path) with
      | .error .isDirectory =>
          return if (Path.ofText path).endsInSlash then .uncreatable .isDirectory else .absent
      | _ => return .uncreatable .missing
  | .error fault => return .unreadable fault

def readScript (options : Options) : IO (Except FileFault String) := do
  match options.file with
  | none => return sourceOfBytes (← (← IO.getStdin).readBinToEnd)
  | some path => readText path

def finish (completion : Completion) : IO UInt32 := do
  (← IO.getStdout).putStr completion.output
  (← IO.getStderr).putStr completion.errors
  return completion.status.toUInt32

/-- Reads the arguments, the script and the store file, runs the script, and writes what it
leaves. -/
def start (arguments : List String) : IO UInt32 := do
  match readOptions arguments with
  | .error refused => finish (refusedCompletion refused)
  | .ok options =>
      let source ← readScript options
      let place ← findPlace options.store
      let seed ← IO.rand 0 ampleFuel
      match launch ampleFuel options source place seed with
      | none => return 1
      | some completion =>
          match completion.storeText with
          | some text => IO.FS.writeFile options.store text
          | none => pure ()
          finish completion

end ScriptSandbox.CommandLine

def main (arguments : List String) : IO UInt32 :=
  ScriptSandbox.CommandLine.start arguments
