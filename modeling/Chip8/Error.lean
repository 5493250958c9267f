import Chip8.Register

/-!
# What can go wrong in the machine

Each failure names its cause; the wording is in one place, `MachineError.message`.
Addresses and sizes are plain numbers, since a failing access may lie anywhere.
-/

namespace Chip8

/-- The causes for which an operation of the machine is refused. -/
inductive MachineError where
  /-- A byte outside memory was named. -/
  | outOfBounds (address : Nat)
  /-- A write would have hit the font. -/
  | reservedWrite (address : Nat)
  /-- A call with no free place on the call stack. -/
  | stackOverflow
  /-- A return with nothing to return to. -/
  | stackUnderflow
  /-- A word that is no instruction. -/
  | unknownOpcode (word : UInt16)
  /-- A program that does not fit behind its start address. -/
  | programTooLarge (size capacity : Nat)
  /-- A key code that the keypad does not have. -/
  | notAKey (code : UInt8)
  deriving DecidableEq, Repr

/-- The text of an error. -/
def MachineError.message : MachineError → String
  | .outOfBounds address => s!"memory access out of bounds at address {hex0x 4 address}"
  | .reservedWrite address =>
      s!"write into the reserved font region at address {hex0x 4 address}"
  | .stackOverflow => "stack overflow: more than 16 nested calls"
  | .stackUnderflow => "stack underflow: return with an empty call stack"
  | .unknownOpcode word => s!"unknown opcode {hex0x 4 word.toNat}"
  | .programTooLarge size capacity =>
      s!"rom is too large ({size} bytes), at most {capacity} bytes fit"
  | .notAKey code => s!"key code {hex0x 2 code.toNat} is not on the keypad"

end Chip8
