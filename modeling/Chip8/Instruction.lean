import Chip8.Opcode

/-!
# Instructions

The thirty-five instructions of the base set.  The fields are kept as they are
given: an address may have more than twelve bits and a height more than four,
and only the opcode (`Instruction.encode`) drops what does not fit its digits.
-/

namespace Chip8

/-- One instruction with its operands. -/
inductive Instruction where
  /-- Opcode `0NNN`: call a routine of the hardware; nothing happens here. -/
  | sys (address : Address)
  /-- Opcode `00E0`: turn all pixels off. -/
  | clear
  /-- Opcode `00EE`: return from a subroutine. -/
  | ret
  /-- Opcode `1NNN`: go to an address. -/
  | jump (address : Address)
  /-- Opcode `2NNN`: call a subroutine. -/
  | call (address : Address)
  /-- Opcode `3XNN`: skip the next instruction if VX is NN. -/
  | skipIfByte (x : Reg) (byte : UInt8)
  /-- Opcode `4XNN`: skip the next instruction unless VX is NN. -/
  | skipUnlessByte (x : Reg) (byte : UInt8)
  /-- Opcode `5XY0`: skip the next instruction if VX and VY are equal. -/
  | skipIfSame (x y : Reg)
  /-- Opcode `6XNN`: set VX to NN. -/
  | setByte (x : Reg) (byte : UInt8)
  /-- Opcode `7XNN`: add NN to VX without a carry. -/
  | addByte (x : Reg) (byte : UInt8)
  /-- Opcode `8XY0`: copy VY to VX. -/
  | copy (x y : Reg)
  /-- Opcode `8XY1`: bitwise or. -/
  | or (x y : Reg)
  /-- Opcode `8XY2`: bitwise and. -/
  | and (x y : Reg)
  /-- Opcode `8XY3`: bitwise exclusive or. -/
  | xor (x y : Reg)
  /-- Opcode `8XY4`: add VY to VX; the flag is the carry. -/
  | add (x y : Reg)
  /-- Opcode `8XY5`: take VY from VX; the flag is set if VX was the larger. -/
  | sub (x y : Reg)
  /-- Opcode `8XY6`: halve VX; the flag is the bit shifted out.  VY is not used. -/
  | shiftRight (x y : Reg)
  /-- Opcode `8XY7`: set VX to VY less VX; the flag is set if VY was the larger. -/
  | subFrom (x y : Reg)
  /-- Opcode `8XYE`: double VX; the flag is the bit shifted out.  VY is not used. -/
  | shiftLeft (x y : Reg)
  /-- Opcode `9XY0`: skip the next instruction unless VX and VY are equal. -/
  | skipUnlessSame (x y : Reg)
  /-- Opcode `ANNN`: set the index register. -/
  | setIndex (address : Address)
  /-- Opcode `BNNN`: go to an address plus V0. -/
  | jumpOffset (address : Address)
  /-- Opcode `CXNN`: set VX to a random byte masked by NN. -/
  | random (x : Reg) (mask : UInt8)
  /-- Opcode `DXYN`: draw a sprite of N rows at (VX, VY); the flag tells whether a
  lit pixel was turned off. -/
  | draw (x y : Reg) (height : UInt8)
  /-- Opcode `EX9E`: skip the next instruction if the key in VX is held. -/
  | skipIfHeld (x : Reg)
  /-- Opcode `EXA1`: skip the next instruction unless the key in VX is held. -/
  | skipUnlessHeld (x : Reg)
  /-- Opcode `FX07`: copy the delay timer to VX. -/
  | readDelay (x : Reg)
  /-- Opcode `FX0A`: wait for a key to go down and store its code in VX. -/
  | awaitKey (x : Reg)
  /-- Opcode `FX15`: set the delay timer to VX. -/
  | setDelay (x : Reg)
  /-- Opcode `FX18`: set the sound timer to VX. -/
  | setSound (x : Reg)
  /-- Opcode `FX1E`: add VX to the index register. -/
  | addIndex (x : Reg)
  /-- Opcode `FX29`: point the index register to the glyph for the digit in VX. -/
  | pointGlyph (x : Reg)
  /-- Opcode `FX33`: store the three decimal digits of VX. -/
  | storeDecimal (x : Reg)
  /-- Opcode `FX55`: store V0 to VX. -/
  | store (x : Reg)
  /-- Opcode `FX65`: load V0 to VX. -/
  | load (x : Reg)
  deriving DecidableEq, Repr

namespace Instruction

/-- The opcode of an instruction.  Addresses keep their low twelve bits and
heights their low four. -/
def encode : Instruction → Opcode
  | .sys a => .ofNNN 0x0 a
  | .clear => 0x00E0
  | .ret => 0x00EE
  | .jump a => .ofNNN 0x1 a
  | .call a => .ofNNN 0x2 a
  | .skipIfByte x b => .ofXNN 0x3 x b
  | .skipUnlessByte x b => .ofXNN 0x4 x b
  | .skipIfSame x y => .ofXYN 0x5 x y 0x0
  | .setByte x b => .ofXNN 0x6 x b
  | .addByte x b => .ofXNN 0x7 x b
  | .copy x y => .ofXYN 0x8 x y 0x0
  | .or x y => .ofXYN 0x8 x y 0x1
  | .and x y => .ofXYN 0x8 x y 0x2
  | .xor x y => .ofXYN 0x8 x y 0x3
  | .add x y => .ofXYN 0x8 x y 0x4
  | .sub x y => .ofXYN 0x8 x y 0x5
  | .shiftRight x y => .ofXYN 0x8 x y 0x6
  | .subFrom x y => .ofXYN 0x8 x y 0x7
  | .shiftLeft x y => .ofXYN 0x8 x y 0xE
  | .skipUnlessSame x y => .ofXYN 0x9 x y 0x0
  | .setIndex a => .ofNNN 0xA a
  | .jumpOffset a => .ofNNN 0xB a
  | .random x b => .ofXNN 0xC x b
  | .draw x y n => .ofXYN 0xD x y n
  | .skipIfHeld x => .ofXNN 0xE x 0x9E
  | .skipUnlessHeld x => .ofXNN 0xE x 0xA1
  | .readDelay x => .ofXNN 0xF x 0x07
  | .awaitKey x => .ofXNN 0xF x 0x0A
  | .setDelay x => .ofXNN 0xF x 0x15
  | .setSound x => .ofXNN 0xF x 0x18
  | .addIndex x => .ofXNN 0xF x 0x1E
  | .pointGlyph x => .ofXNN 0xF x 0x29
  | .storeDecimal x => .ofXNN 0xF x 0x33
  | .store x => .ofXNN 0xF x 0x55
  | .load x => .ofXNN 0xF x 0x65

/-- The two bytes of an instruction in a program, the higher one first. -/
def bytes (i : Instruction) : List UInt8 :=
  [(i.encode >>> 8).toUInt8, i.encode.toUInt8]

end Instruction

end Chip8
