import ScriptSandbox.Host.Standalone
import ScriptSandbox.Run

/-!
The sandbox as seen by a program that embeds it: the script comes in a byte buffer, and everything
it wrote goes out in one frame, four bytes of length, the lowest first, and the text in UTF-8.
-/

namespace ScriptSandbox.Embedding

/-- A buffer of some bytes; there is none of no bytes. -/
def allocate (size : Nat) : Option ByteArray :=
  if size = 0 then none else some ⟨Array.replicate size 0⟩

/-- The script in a buffer. No buffer, and bytes that are no UTF-8, hold the empty script. -/
def sourceOf : Option ByteArray → String
  | none => ""
  | some bytes => (String.fromUTF8? bytes).getD ""

/-- The host of an embedded script: an empty store in memory and no network. -/
def host (seed : Nat) : Host :=
  .standalone (Number.ofNat 800) (Number.ofNat 600) .empty seed

/-- All that a script writes, errors marked, with the closing line. -/
def capture (fuel : Nat) (source : String) (seed : Nat) : Option String :=
  match run fuel Control.defaultLimit source (host seed) with
  | none => none
  | some (report, final) =>
      let lines := final.outputLines.map fun line =>
        if line.1 then "[error] " ++ line.2 else line.2
      some ("\n".intercalate (lines ++ [exitBanner report.exitCode]))

/-- The four bytes of a length, the lowest first. -/
def lengthBytes (length : Nat) : List UInt8 :=
  [length.toUInt8, (length / twoTo 8).toUInt8, (length / twoTo 16).toUInt8, (length / twoTo 24).toUInt8]

def encodeFrame (text : String) : ByteArray :=
  ⟨(lengthBytes text.utf8ByteSize).toArray⟩ ++ text.toUTF8

def frameLength (frame : ByteArray) : Nat :=
  (frame.extract 0 4).toList.foldr (fun byte value => byte.toNat + 256 * value) 0

def decodeFrame? (frame : ByteArray) : Option String :=
  String.fromUTF8? (frame.extract 4 (4 + frameLength frame))

/-- Runs the script in a buffer and frames what it wrote. -/
def runBuffer (fuel : Nat) (buffer : Option ByteArray) (seed : Nat) : Option ByteArray :=
  (capture fuel (sourceOf buffer) seed).map encodeFrame

end ScriptSandbox.Embedding
