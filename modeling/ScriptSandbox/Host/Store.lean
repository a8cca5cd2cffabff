import ScriptSandbox.Fault
import ScriptSandbox.File.Place
import ScriptSandbox.Json.Print
import ScriptSandbox.Json.Read

/-!
The durable store of a script: a table in memory, or a file that holds one JSON object. The file is
read anew at every access and written as a whole; a file that does not exist is an empty store.
-/

namespace ScriptSandbox

inductive Store where
  | memory (entries : Table Json)
  | file (path : String) (place : Place)

namespace Store

/-- An empty store that lasts as long as its host. -/
def empty : Store := .memory []

instance : Inhabited Store := ⟨empty⟩

/-- The entries a file holds. -/
def readFile (path : String) (place : Place) : Except StoreFault (Table Json) :=
  match place.read with
  | .error .missing => .ok []
  | .error fault => .error (.file fault)
  | .ok text =>
      match Json.parse text with
      | .error fault => .error (.unreadable fault)
      | .ok (.object fields) => .ok fields
      | .ok _ => .error (.notObject path)

/-- All entries of a store. -/
def entries : Store → Except StoreFault (Table Json)
  | .memory entries => .ok entries
  | .file path place => readFile path place

/-- What stands at a path after entries are written to it. -/
def writeFile (entries : Table Json) (place : Place) : Except StoreFault Place :=
  match place.write (Json.object entries).toIndentedText with
  | .error fault => .error (.file fault)
  | .ok written => .ok written

def get? (store : Store) (key : String) : Except StoreFault (Option Json) :=
  match store.entries with
  | .error fault => .error fault
  | .ok entries => .ok (entries.get? key)

/-- The store with an entry set; a store that cannot take it is left alone. -/
def put (store : Store) (key : String) (value : Json) : Except StoreFault Store :=
  match store with
  | .memory entries => .ok (.memory (entries.set key value))
  | .file path place =>
      match readFile path place with
      | .error fault => .error fault
      | .ok entries =>
          match writeFile (entries.set key value) place with
          | .error fault => .error fault
          | .ok written => .ok (.file path written)

/-- The text of the store file, if there is one. -/
def fileText? : Store → Option String
  | .file _ (.present text) => some text
  | _ => none

end Store

end ScriptSandbox
