import ScriptSandbox.CommandLine.Options
import ScriptSandbox.File.Tree
import ScriptSandbox.Host.Standalone
import ScriptSandbox.Run

/-!
One launch of the command line: the settings, the script and the store file go in, and the texts of
both streams, the process status and the store file come out.
-/

namespace ScriptSandbox.CommandLine

/-- The script in bytes from the standard input. -/
def sourceOfBytes (bytes : ByteArray) : Except FileFault String :=
  match String.fromUTF8? bytes with
  | some text => .ok text
  | none => .error .notText

/-- The script: the standard input, unless a file is named. -/
def findSource (tree : FileTree) (input : ByteArray) : Option String → Except FileFault String
  | none => sourceOfBytes input
  | some path =>
      if (Path.ofText path).location = FileTree.standardInput then sourceOfBytes input
      else (tree.place path).read

structure Completion where
  output : String
  errors : String
  status : Nat
  /-- The text of the store file, when the run wrote or found one. -/
  storeText : Option String

def version : String := "fnl 0.1.0\n"

def help : String :=
  "FNL sandbox language runtime\n\nUsage: fnl [OPTIONS] [FILE]\n\nArguments:\n" ++
    "  [FILE]  Script to run; read from stdin when omitted\n\nOptions:\n" ++
    "      --store <PATH>   JSON file backing `fnl:idbSet` / `fnl:idbGet` " ++
    "[default: .fnl_store.json]\n" ++
    "      --width <PX>     [default: 800]\n      --height <PX>    [default: 600]\n" ++
    "      --max-depth <N>  [default: 5000]\n  -v, --verbose        \n" ++
    "  -h, --help           Print help\n  -V, --version        Print version\n"

def Refused.message : Refused → String
  | .unknownArgument => "error: unexpected argument found\n"
  | .missingValue => "error: a value is required but none was supplied\n"
  | .invalidValue => "error: invalid value\n"
  | .repeatedOption => "error: an argument cannot be used multiple times\n"
  | .surplusValue => "error: unexpected value for a flag\n"
  | .helpWanted => ""
  | .versionWanted => ""

def refusedCompletion : Refused → Completion
  | .helpWanted => ⟨help, "", 0, none⟩
  | .versionWanted => ⟨version, "", 0, none⟩
  | refused => ⟨"", refused.message, 2, none⟩

def unreadCompletion (file : Option String) (fault : FileFault) : Completion :=
  let subject :=
    match file with
    | some path => "'" ++ path ++ "'"
    | none => "stdin"
  ⟨"", "Error reading " ++ subject ++ ": " ++ fault.message ++ "\n", 1, none⟩

def joinLines (lines : List String) : String :=
  String.join (lines.map fun line => line ++ "\n")

/-- The process status of an exit code. -/
def statusOf (code : Int) : Nat :=
  (code % 256).toNat

def runScript (fuel : Nat) (options : Options) (source : String) (place : Place) (seed : Nat) :
    Option Completion :=
  let host := Host.standalone options.width options.height (.file options.store place) seed
  match run fuel options.maxDepth source host with
  | none => none
  | some (report, final) =>
      let lines := final.outputLines
      let logs := (lines.filter fun line => !line.1).map Prod.snd
      let errors := (lines.filter fun line => line.1).map Prod.snd
      some
        { output := joinLines (logs ++ [exitBanner report.exitCode])
          errors := joinLines errors
          status := statusOf report.exitCode
          storeText := final.store.fileText? }

/-- One launch, once the script and the place of the store file are known. -/
def launch (fuel : Nat) (options : Options) (source : Except FileFault String) (place : Place)
    (seed : Nat) : Option Completion :=
  match source with
  | .error fault => some (unreadCompletion options.file fault)
  | .ok text => runScript fuel options text place seed

end ScriptSandbox.CommandLine
