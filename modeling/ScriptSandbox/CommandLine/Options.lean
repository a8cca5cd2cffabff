import ScriptSandbox.Control
import ScriptSandbox.Number.Literal

/-!
The arguments of the command line. An option's value is the argument after it or the text after its
equals sign; a value given as an argument of its own is only taken in when the next argument that is
understood arrives, so a fault in it can come after a later argument that is not understood.
-/

namespace ScriptSandbox.CommandLine

structure Options where
  file : Option String
  store : String
  width : Number
  height : Number
  maxDepth : Nat
  verbose : Bool

def Options.default : Options where
  file := none
  store := ".fnl_store.json"
  width := Number.ofNat 800
  height := Number.ofNat 600
  maxDepth := Control.defaultLimit
  verbose := false

/-- Why arguments lead to no run. -/
inductive Refused where
  | unknownArgument
  | missingValue
  | invalidValue
  | repeatedOption
  | surplusValue
  | helpWanted
  | versionWanted
deriving DecidableEq

/-- The settings that take a value. -/
inductive Setting where
  | file
  | store
  | width
  | height
  | maxDepth
deriving DecidableEq

inductive Flag where
  | verbose
  | help
  | version
deriving DecidableEq

def longSetting? : String → Option Setting
  | "store" => some .store
  | "width" => some .width
  | "height" => some .height
  | "max-depth" => some .maxDepth
  | _ => none

def longFlag? : String → Option Flag
  | "verbose" => some .verbose
  | "help" => some .help
  | "version" => some .version
  | _ => none

def shortFlag? : Char → Option Flag
  | 'v' => some .verbose
  | 'h' => some .help
  | 'V' => some .version
  | _ => none

/-- The words for infinity and NaN, in small letters. -/
def specialNumber? (negative : Bool) (letters : List Char) : Option Number :=
  match String.ofList letters with
  | "inf" => some (.infinite negative)
  | "infinity" => some (.infinite negative)
  | "nan" => some .nan
  | _ => none

/-- A size: a decimal literal, or infinity or NaN in letters of either case. -/
def readSize? (text : String) : Option Number :=
  let (negative, unsigned) := Number.takeSign text.toList
  match specialNumber? negative (unsigned.map Char.toLower) with
  | some number => some number
  | none =>
      match Number.takeLiteral? text.toList with
      | some (number, []) => some number
      | _ => none

/-- A count of 64 bits in decimal digits; a plus sign may come before them. -/
def readCount? (text : String) : Option Nat :=
  let digits :=
    match text.toList with
    | '+' :: rest => rest
    | other => other
  if !digits.isEmpty && digits.all Char.isDigit && Number.digitsValue digits < twoTo 64 then
    some (Number.digitsValue digits)
  else none

structure Reading where
  options : Options
  given : List Setting
  /-- The setting last named, and its value once that has come. -/
  pending : Option (Setting × Option String)
  /-- Whether every further argument is a file. -/
  onlyFiles : Bool

namespace Reading

def start : Reading := ⟨Options.default, [], none, false⟩

def assign (reading : Reading) (setting : Setting) (value : String) : Except Refused Reading :=
  if reading.given.contains setting then .error .repeatedOption
  else
    let kept (options : Options) : Except Refused Reading :=
      .ok { reading with options, given := setting :: reading.given }
    match setting with
    | .file =>
        if value.isEmpty then .error .missingValue
        else kept { reading.options with file := some value }
    | .store =>
        if value.isEmpty then .error .missingValue
        else kept { reading.options with store := value }
    | .width =>
        match readSize? value with
        | some width => kept { reading.options with width }
        | none => .error .invalidValue
    | .height =>
        match readSize? value with
        | some height => kept { reading.options with height }
        | none => .error .invalidValue
    | .maxDepth =>
        match readCount? value with
        | some maxDepth => kept { reading.options with maxDepth }
        | none => .error .invalidValue

def settle (reading : Reading) : Except Refused Reading :=
  let settled := { reading with pending := none }
  match reading.pending with
  | none => .ok settled
  | some (_, none) => .error .missingValue
  | some (setting, some value) => settled.assign setting value

def raise (reading : Reading) (flag : Flag) : Except Refused Reading :=
  match reading.settle with
  | .error refused => .error refused
  | .ok settled =>
      match flag with
      | .help => .error .helpWanted
      | .version => .error .versionWanted
      | .verbose =>
          if settled.options.verbose then .error .repeatedOption
          else .ok { settled with options := { settled.options with verbose := true } }

/-- Takes in the flags of one argument, letter by letter. -/
def raiseAll (reading : Reading) : List Char → Except Refused Reading
  | [] => .ok reading
  | letter :: letters =>
      match shortFlag? letter with
      | none => .error .unknownArgument
      | some flag =>
          match reading.raise flag with
          | .error refused => .error refused
          | .ok raised => raiseAll raised letters

/-- Takes in an argument that is no option: the value that is due, or else the file. -/
def plain (reading : Reading) (value : String) : Except Refused Reading :=
  match reading.pending, reading.onlyFiles with
  | some (setting, none), false => .ok { reading with pending := some (setting, some value) }
  | pending, _ =>
      if reading.given.contains .file || pending.any (fun named => named.1 == .file) then
        .error .unknownArgument
      else
        match reading.settle with
        | .error refused => .error refused
        | .ok settled => .ok { settled with pending := some (.file, some value) }

/-- Takes in an option by its long name, with the text after its equals sign if it has one. -/
def long (reading : Reading) (name : String) (attached : Option String) : Except Refused Reading :=
  match longSetting? name, longFlag? name with
  | some setting, _ =>
      match reading.settle with
      | .error refused => .error refused
      | .ok settled =>
          match attached with
          | some value => settled.assign setting value
          | none => .ok { settled with pending := some (setting, none) }
  | none, some flag =>
      if attached.isSome then .error .surplusValue else reading.raise flag
  | none, none => .error .unknownArgument

/-- The name of a long option, and the text after its equals sign if it has one. -/
def atEquals (text : List Char) : String × Option String :=
  let name := String.ofList (text.takeWhile (· != '='))
  match text.dropWhile (· != '=') with
  | [] => (name, none)
  | _ :: value => (name, some (String.ofList value))

def next (reading : Reading) (argument : String) : Except Refused Reading :=
  if reading.onlyFiles then reading.plain argument
  else
    match argument.toList with
    | ['-', '-'] => .ok { reading with onlyFiles := true }
    | '-' :: '-' :: text =>
        let (name, attached) := atEquals text
        reading.long name attached
    | '-' :: letter :: letters => reading.raiseAll (letter :: letters)
    | _ => reading.plain argument

def all (reading : Reading) : List String → Except Refused Options
  | [] =>
      match reading.settle with
      | .error refused => .error refused
      | .ok settled => .ok settled.options
  | argument :: rest =>
      match reading.next argument with
      | .error refused => .error refused
      | .ok read => all read rest

end Reading

def readOptions (arguments : List String) : Except Refused Options :=
  Reading.start.all arguments

end ScriptSandbox.CommandLine
