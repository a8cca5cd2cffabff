/-!
Paths and the locations they lead to. A path is a text of names between slashes; a location is where
its names end up once the single and double dots among them are followed.
-/

namespace ScriptSandbox

/-- Where names start from: the root, or the directory so many levels above the working one. -/
inductive Origin where
  | root
  | above (levels : Nat)
deriving DecidableEq

structure Location where
  origin : Origin
  /-- The names from the origin downward. -/
  names : List String
deriving DecidableEq

namespace Location

def root : Location := ⟨.root, []⟩

def working : Location := ⟨.above 0, []⟩

def child (location : Location) (name : String) : Location :=
  { location with names := location.names ++ [name] }

/-- The directory around a location; the root is its own. -/
def parent : Location → Location
  | ⟨.above levels, []⟩ => ⟨.above (levels + 1), []⟩
  | ⟨origin, names⟩ => ⟨origin, names.dropLast⟩

/-- Where a name leads: one dot stays, two go up. -/
def follow (location : Location) (name : String) : Location :=
  if name = "." then location
  else if name = ".." then location.parent
  else location.child name

/-- Whether a location lies on the way to another one. -/
def isAbove (location other : Location) : Bool :=
  location.origin == other.origin && location.names.length < other.names.length &&
    location.names.isPrefixOf other.names

end Location

structure Path where
  start : Location
  names : List String
  endsInSlash : Bool

namespace Path

/-- The path a text spells; slashes in a row count as one. -/
def ofText (text : String) : Path where
  start := if text.toList.head? = some '/' then .root else .working
  names := (text.splitOn "/").filter fun name => !name.isEmpty
  endsInSlash := text.toList.getLast? = some '/'

def location (path : Path) : Location :=
  path.names.foldl Location.follow path.start

/-- The text of the directory that holds the last name of a path. -/
def directoryText (text : String) : String :=
  let afterName := text.toList.reverse.dropWhile (· == '/')
  String.ofList (afterName.dropWhile (· != '/')).reverse ++ "."

end Path

end ScriptSandbox
