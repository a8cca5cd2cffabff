import ScriptSandbox.File.Fault

/-!
What stands at a path, as far as reading and writing a whole text there can tell.
-/

namespace ScriptSandbox

/-- A text, nothing, nothing where writing meets a fault, or something that reading and writing
both stumble over. -/
inductive Place where
  | present (text : String)
  | absent
  | uncreatable (fault : FileFault)
  | unreadable (fault : FileFault)
deriving DecidableEq

namespace Place

def read : Place → Except FileFault String
  | .present text => .ok text
  | .absent => .error .missing
  | .uncreatable _ => .error .missing
  | .unreadable fault => .error fault

/-- The place after a text was written to it. -/
def write (text : String) : Place → Except FileFault Place
  | .present _ => .ok (.present text)
  | .absent => .ok (.present text)
  | .uncreatable fault => .error fault
  | .unreadable fault => .error fault

end Place

end ScriptSandbox
