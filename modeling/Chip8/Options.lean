/-!
# Options of a session

What the user can choose: the speed, the size and colours of the window,
whether to sound the tone, and a seed that makes random bytes repeat.
-/

namespace Chip8

/-- A colour as one number, eight bits each of red, green and blue. -/
abbrev Color := UInt32

/-- The colour with the given parts. -/
def Color.ofRgb (red green blue : UInt8) : Color :=
  (red.toUInt32 <<< 16) ||| (green.toUInt32 <<< 8) ||| blue.toUInt32

/-- The choices for a session, with their defaults. -/
structure Options where
  instructionsPerSecond : UInt32 := 700
  /-- Window pixels per pixel of the machine, in each direction. -/
  scale : UInt8 := 16
  foreground : Color := 0x007FFF
  background : Color := 0x000000
  mute : Bool := false
  seed : Option UInt64 := none
  deriving DecidableEq, Repr

end Chip8
