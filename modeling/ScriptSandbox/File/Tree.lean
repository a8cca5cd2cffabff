import ScriptSandbox.File.Path
import ScriptSandbox.File.Place

/-!
A tree of directories with text files in it, and what stands at a path of it. The tree is seen from
a working directory; of the directories above that one, only their being there is known.
-/

namespace ScriptSandbox

inductive Entry where
  | file (text : String)
  | directory

structure FileTree where
  files : List (Location × String)

namespace FileTree

/-- The directories that every system has below its root. -/
def systemDirectories : List String :=
  ["bin", "boot", "dev", "etc", "home", "lib", "media", "mnt", "opt", "proc", "root", "run", "sbin",
    "srv", "sys", "tmp", "usr", "var"]

def isSystemDirectory : Location → Bool
  | ⟨.root, [name]⟩ => systemDirectories.contains name
  | _ => false

/-- The standard input as a file. -/
def standardInput : Location := ⟨.root, ["dev", "stdin"]⟩

/-- The files that every system has: one without text, and the standard input after it was read. -/
def systemFiles : List (Location × String) :=
  [(⟨.root, ["dev", "null"]⟩, ""), (standardInput, "")]

def isDirectory (tree : FileTree) (location : Location) : Bool :=
  location.names.isEmpty || isSystemDirectory location ||
    tree.files.any fun file => location.isAbove file.1

def entry? (tree : FileTree) (location : Location) : Option Entry :=
  match tree.files.find? fun file => file.1 == location with
  | some file => some (.file file.2)
  | none => if tree.isDirectory location then some .directory else none

/-- The tree with a file written; the file takes the place of one that was there. -/
def write (tree : FileTree) (location : Location) (text : String) : FileTree :=
  ⟨tree.files.filter (fun file => file.1 != location) ++ [(location, text)]⟩

/-- The tree after files were written in order, with the directories above them. -/
def ofFiles (files : List (String × String)) : FileTree :=
  files.foldl (fun tree file => tree.write (Path.ofText file.1).location file.2) ⟨systemFiles⟩

/-- The length in bytes that a name may have. -/
def nameLimit : Nat := 255

/-- The length in bytes that a path may have. -/
def pathLimit : Nat := 4095

/-- Follows a name from a location, which has to be a directory. -/
def step (tree : FileTree) (location : Location) (name : String) : Except FileFault Location :=
  match tree.entry? location with
  | none => .error .missing
  | some (.file _) => .error .belowFile
  | some .directory =>
      if nameLimit < name.utf8ByteSize then .error .nameTooLong else .ok (location.follow name)

/-- Follows names one after the other. What the last one leads to may be missing. -/
def walk (tree : FileTree) (location : Location) : List String → Except FileFault Location
  | [] => .ok location
  | name :: names =>
      match tree.step location name with
      | .error fault => .error fault
      | .ok next => tree.walk next names

/-- What stands at a path. A slash at its end asks for a directory, so that no file can be made
there. -/
def place (tree : FileTree) (text : String) : Place :=
  let path := Path.ofText text
  if text.isEmpty then .uncreatable .missing
  else if pathLimit < text.utf8ByteSize then .unreadable .nameTooLong
  else
    match tree.walk path.start path.names with
    | .error .missing => .uncreatable .missing
    | .error fault => .unreadable fault
    | .ok location =>
        match tree.entry? location with
        | some (.file text) => if path.endsInSlash then .unreadable .belowFile else .present text
        | some .directory => .unreadable .isDirectory
        | none => if path.endsInSlash then .uncreatable .isDirectory else .absent

/-- The tree with a text written at a path. -/
def writeAt (tree : FileTree) (path text : String) : FileTree :=
  tree.write (Path.ofText path).location text

end FileTree

end ScriptSandbox
