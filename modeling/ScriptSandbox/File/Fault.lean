/-!
Why a file could not be read or written.
-/

namespace ScriptSandbox

inductive FileFault where
  | missing
  | isDirectory
  | belowFile
  | nameTooLong
  | notText
deriving DecidableEq

/-- The report of a fault, with the number the system gives it. -/
def FileFault.message : FileFault → String
  | .missing => "No such file or directory (os error 2)"
  | .isDirectory => "Is a directory (os error 21)"
  | .belowFile => "Not a directory (os error 20)"
  | .nameTooLong => "File name too long (os error 36)"
  | .notText => "stream did not contain valid UTF-8"

end ScriptSandbox
