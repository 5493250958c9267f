import Chip8.Program
import Chip8.Session.Clock

/-!
# The command

The outer layer of the program.  A terminal stands in for the window: each line
of the input names the keys that are held in one frame, the end of the input
closes the window, and every new picture is written to the output.
-/

namespace Chip8.Terminal

/-- A failure of the system, with its number as the system counts it and its
text as a sentence. -/
def failureOf (code : UInt32) (text : String) : SystemError :=
  ⟨code.toInt32.toInt.natAbs, text.capitalize⟩

/-- The failure that the system reported when a file was read. -/
def systemError : IO.Error → SystemError
  | .noFileOrDirectory _ code text | .inappropriateType _ code text
  | .permissionDenied _ code text | .invalidArgument _ code text
  | .resourceExhausted _ code text | .otherError code text => failureOf code text
  | e => ⟨0, toString e⟩

/-- Random bytes that differ from one start of the program to the next. -/
def freshGenerator : IO Generator := do
  let bytes ← IO.getRandomBytes 32
  let wordAt (i : Nat) : UInt32 :=
    (List.range 4).foldl (fun w k => w <<< 8 ||| (bytes.data.getD (4 * i + k) 0).toUInt32) 0
  return { key := Vector.ofFn fun i => wordAt i.val }

/-- The keys that a line names. -/
def keysOfLine (line : String) : List HostKey :=
  ((line.trimAscii.toString.splitOn " ").filter (· != "")).map HostKey.ofName

/-- Play frames as the lines come in. -/
partial def playLines (options : Options) (program : Array UInt8) (s : Session) (c : Clock) :
    IO (Option SessionError) := do
  let line ← (← IO.getStdin).getLine
  if line.isEmpty then return none
  let (f, c) := c.frame s (keysOfLine line) (← IO.monoNanosNow)
  if Session.ends f then return none
  match s.advance options program f with
  | (_, some e) => return some e
  | (s', none) =>
      if s'.picture != s.picture then
        IO.print s'.machine.raster.text
      IO.sleep 17
      playLines options program s' c

/-- Load the program and play it. -/
def runSession (options : Options) (program : Array UInt8) : IO (Option SessionError) := do
  match (Machine.forOptions options (← freshGenerator)).load program with
  | .error e => return some (.machine e)
  | .ok machine =>
      playLines options program (.start options machine) (.start options (← IO.monoNanosNow))

/-- Write what the program leaves behind, and give its exit code. -/
def finish (o : Outcome) : IO UInt32 := do
  IO.print o.output
  IO.eprint o.errors
  return o.code

end Chip8.Terminal

open Chip8 Chip8.Terminal in
/-- The program: run the command line and give the exit code. -/
def main (arguments : List String) : IO UInt32 := do
  match CommandLine.parse arguments with
  | .error refusal => finish (.ofRefusal refusal)
  | .ok invocation =>
      match ← (IO.FS.readBinFile invocation.rom).toBaseIO with
      | .error e => finish (.ofUnreadable invocation.rom (systemError e))
      | .ok bytes =>
          finish (.ofSession invocation.rom (← runSession invocation.options bytes.data))
