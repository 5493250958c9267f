import Chip8.Trace
import Chip8.Window

/-!
# How a session can fail

A session passes on what the machine and the window system report.  A fault and
an error of the machine speak for themselves; a failure of the window is named
as such.
-/

namespace Chip8

/-- The failures of a session. -/
inductive SessionError where
  /-- A step of the program failed. -/
  | fault (f : Fault)
  /-- The machine refused a program or a key. -/
  | machine (e : MachineError)
  /-- The window system failed. -/
  | window (e : WindowError)
  /-- There is nothing to play the tone on. -/
  | noAudioDevice
  /-- The audio device wants samples of an unknown kind. -/
  | unsupportedSampleFormat (name : String)
  deriving DecidableEq, Repr

namespace SessionError

/-- The text of a failure. -/
def message : SessionError → String
  | .fault f => f.message
  | .machine e => e.message
  | .window e => s!"window error: {e.message}"
  | .noAudioDevice => "no audio output device available"
  | .unsupportedSampleFormat name => s!"unsupported sample format '{name}'"

/-- The text of the cause behind a failure, if there is one. -/
def cause? : SessionError → Option String
  | .fault f => some f.cause.message
  | .window e => some e.message
  | .machine _ | .noAudioDevice | .unsupportedSampleFormat _ => none

/-- The text of a failure and of the cause behind it. -/
def chain (e : SessionError) : List String :=
  e.message :: e.cause?.toList

end SessionError

end Chip8
