import Chip8.Pacer
import Chip8.Session

/-!
# The clock of a session

Two pacers turn time into what a frame is granted: one hands out instructions
at the chosen speed, one hands out sixty timer ticks a second.  Both begin anew
when the pause or the reset key goes down, and neither is asked while the
session is paused.
-/

namespace Chip8

/-- The pacers of a session. -/
structure Clock where
  instructions : Pacer
  timers : Pacer
  deriving DecidableEq, Repr

namespace Clock

/-- Timer ticks per second. -/
def timerRate : UInt32 := 60

/-- The clock of a session that begins at `now`, in nanoseconds. -/
def start (options : Options) (now : Nat) : Clock where
  instructions := .start options.instructionsPerSecond now
  timers := .start timerRate now

/-- Begin anew at `now`. -/
def restart (c : Clock) (now : Nat) : Clock :=
  ⟨c.instructions.restart now, c.timers.restart now⟩

/-- The frame in which `keys` are held at `now`, with what the clock grants it. -/
def frame (c : Clock) (s : Session) (keys : List HostKey) (now : Nat) : Frame × Clock :=
  let f : Frame := { keys := keys, steps := 0, ticks := 0 }
  let c := if s.goesDown f .p || s.goesDown f .backspace then c.restart now else c
  if (s.togglePause f).paused then (f, c)
  else
    let (steps, instructions) := c.instructions.due now
    let (ticks, timers) := c.timers.due now
    ({ f with steps := steps, ticks := ticks }, ⟨instructions, timers⟩)

end Clock

end Chip8
