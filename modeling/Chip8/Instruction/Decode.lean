import Chip8.Error
import Chip8.Instruction

/-!
# Decoding

`Instruction.decode?` reads a word digit by digit: the first digit selects the
kind, the kinds 8, E and F are told apart by their last digits, and a word that
fits nothing is no instruction.
-/

namespace Chip8.Instruction

/-- The instruction of the kinds `8XY0` to `8XYE`, by the last digit. -/
def arithmetic? (word : Opcode) : Option Instruction :=
  match word.digits 4 1 with
  | 0x0 => some (.copy word.x word.y)
  | 0x1 => some (.or word.x word.y)
  | 0x2 => some (.and word.x word.y)
  | 0x3 => some (.xor word.x word.y)
  | 0x4 => some (.add word.x word.y)
  | 0x5 => some (.sub word.x word.y)
  | 0x6 => some (.shiftRight word.x word.y)
  | 0x7 => some (.subFrom word.x word.y)
  | 0xE => some (.shiftLeft word.x word.y)
  | _ => none

/-- The instruction of the kinds `EX9E` and `EXA1`, by the last two digits. -/
def keySkip? (word : Opcode) : Option Instruction :=
  match word.digits 3 2 with
  | 0x9E => some (.skipIfHeld word.x)
  | 0xA1 => some (.skipUnlessHeld word.x)
  | _ => none

/-- The instruction of the kinds `FX07` to `FX65`, by the last two digits. -/
def transfer? (word : Opcode) : Option Instruction :=
  match word.digits 3 2 with
  | 0x07 => some (.readDelay word.x)
  | 0x0A => some (.awaitKey word.x)
  | 0x15 => some (.setDelay word.x)
  | 0x18 => some (.setSound word.x)
  | 0x1E => some (.addIndex word.x)
  | 0x29 => some (.pointGlyph word.x)
  | 0x33 => some (.storeDecimal word.x)
  | 0x55 => some (.store word.x)
  | 0x65 => some (.load word.x)
  | _ => none

/-- The instruction that a word stands for, if any. -/
def decode? (word : Opcode) : Option Instruction :=
  match word.kind with
  | 0x0 =>
      if word = 0x00E0 then some .clear
      else if word = 0x00EE then some .ret
      else some (.sys word.nnn)
  | 0x1 => some (.jump word.nnn)
  | 0x2 => some (.call word.nnn)
  | 0x3 => some (.skipIfByte word.x word.nn)
  | 0x4 => some (.skipUnlessByte word.x word.nn)
  | 0x5 => if word.digits 4 1 = 0 then some (.skipIfSame word.x word.y) else none
  | 0x6 => some (.setByte word.x word.nn)
  | 0x7 => some (.addByte word.x word.nn)
  | 0x8 => arithmetic? word
  | 0x9 => if word.digits 4 1 = 0 then some (.skipUnlessSame word.x word.y) else none
  | 0xA => some (.setIndex word.nnn)
  | 0xB => some (.jumpOffset word.nnn)
  | 0xC => some (.random word.x word.nn)
  | 0xD => some (.draw word.x word.y word.n)
  | 0xE => keySkip? word
  | 0xF => transfer? word
  | _ => none

/-- The instruction that a word stands for; a word without one is reported. -/
def decode (word : Opcode) : Except MachineError Instruction :=
  match decode? word with
  | some i => .ok i
  | none => .error (.unknownOpcode word)

end Chip8.Instruction
