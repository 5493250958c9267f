/-!
# Timers

Two byte counters, one that programs read and one that sounds while it is not
zero.  A tick takes one from each and stops at zero.
-/

namespace Chip8

/-- A byte that counts down to zero. -/
structure Timer where
  count : UInt8 := 0
  deriving DecidableEq, Repr

namespace Timer

/-- Whether the timer has not run out. -/
def running (t : Timer) : Bool :=
  t.count != 0

/-- Take one from a timer that has not run out. -/
def tick (t : Timer) : Timer :=
  if t.running then ⟨t.count - 1⟩ else t

end Timer

/-- The delay timer and the sound timer. -/
structure Timers where
  delay : Timer := {}
  sound : Timer := {}
  deriving DecidableEq, Repr

/-- Tick both timers. -/
def Timers.tick (t : Timers) : Timers :=
  ⟨t.delay.tick, t.sound.tick⟩

end Chip8
