import Chip8.Instruction

/-!
# The opcode table

Beside the decoder stands a table of the instruction set.  A form has a name, a
bit pattern under a mask, and the bit fields of its operands.  A word belongs
to the first form of `opcodeTable` whose pattern it fits; the two fixed words
`00E0` and `00EE` stand ahead of `0NNN`, which fits them too.
-/

namespace Chip8

/-- One operand of a form: the bits under `mask`, shifted down by `shift`. -/
structure OperandField where
  mask : UInt16
  shift : UInt16
  deriving DecidableEq, Repr

namespace OperandField

/-- The operand of a word. -/
def extract (f : OperandField) (word : Opcode) : UInt16 :=
  (word &&& f.mask) >>> f.shift

/-- The register in the second digit. -/
def x : OperandField := ⟨0x0F00, 8⟩

/-- The register in the third digit. -/
def y : OperandField := ⟨0x00F0, 4⟩

/-- The last digit. -/
def n : OperandField := ⟨0x000F, 0⟩

/-- The last two digits. -/
def nn : OperandField := ⟨0x00FF, 0⟩

/-- The last three digits. -/
def nnn : OperandField := ⟨0x0FFF, 0⟩

end OperandField

/-- One line of the opcode table. -/
structure OpcodeForm where
  mnemonic : String
  mask : UInt16
  pattern : UInt16
  operands : List OperandField
  deriving DecidableEq, Repr

namespace OpcodeForm

/-- Whether a word has the pattern of the form. -/
def fits (f : OpcodeForm) (word : Opcode) : Bool :=
  word &&& f.mask == f.pattern

/-- The operands of a word, in the order of the mnemonic. -/
def extract (f : OpcodeForm) (word : Opcode) : List UInt16 :=
  f.operands.map (·.extract word)

/-! The thirty-five forms, each with its assembler name. -/

def cls : OpcodeForm := ⟨"CLS", 0xFFFF, 0x00E0, []⟩
def ret : OpcodeForm := ⟨"RET", 0xFFFF, 0x00EE, []⟩
def sys : OpcodeForm := ⟨"SYS addr", 0xF000, 0x0000, [.nnn]⟩
def jp : OpcodeForm := ⟨"JP addr", 0xF000, 0x1000, [.nnn]⟩
def call : OpcodeForm := ⟨"CALL addr", 0xF000, 0x2000, [.nnn]⟩
def seByte : OpcodeForm := ⟨"SE Vx, byte", 0xF000, 0x3000, [.x, .nn]⟩
def sneByte : OpcodeForm := ⟨"SNE Vx, byte", 0xF000, 0x4000, [.x, .nn]⟩
def seReg : OpcodeForm := ⟨"SE Vx, Vy", 0xF00F, 0x5000, [.x, .y]⟩
def ldByte : OpcodeForm := ⟨"LD Vx, byte", 0xF000, 0x6000, [.x, .nn]⟩
def addByte : OpcodeForm := ⟨"ADD Vx, byte", 0xF000, 0x7000, [.x, .nn]⟩
def ldReg : OpcodeForm := ⟨"LD Vx, Vy", 0xF00F, 0x8000, [.x, .y]⟩
def or : OpcodeForm := ⟨"OR Vx, Vy", 0xF00F, 0x8001, [.x, .y]⟩
def and : OpcodeForm := ⟨"AND Vx, Vy", 0xF00F, 0x8002, [.x, .y]⟩
def xor : OpcodeForm := ⟨"XOR Vx, Vy", 0xF00F, 0x8003, [.x, .y]⟩
def addReg : OpcodeForm := ⟨"ADD Vx, Vy", 0xF00F, 0x8004, [.x, .y]⟩
def sub : OpcodeForm := ⟨"SUB Vx, Vy", 0xF00F, 0x8005, [.x, .y]⟩
def shr : OpcodeForm := ⟨"SHR Vx \x7b, Vy\x7d", 0xF00F, 0x8006, [.x, .y]⟩
def subn : OpcodeForm := ⟨"SUBN Vx, Vy", 0xF00F, 0x8007, [.x, .y]⟩
def shl : OpcodeForm := ⟨"SHL Vx \x7b, Vy\x7d", 0xF00F, 0x800E, [.x, .y]⟩
def sneReg : OpcodeForm := ⟨"SNE Vx, Vy", 0xF00F, 0x9000, [.x, .y]⟩
def ldIndex : OpcodeForm := ⟨"LD I, addr", 0xF000, 0xA000, [.nnn]⟩
def jpV0 : OpcodeForm := ⟨"JP V0, addr", 0xF000, 0xB000, [.nnn]⟩
def rnd : OpcodeForm := ⟨"RND Vx, byte", 0xF000, 0xC000, [.x, .nn]⟩
def drw : OpcodeForm := ⟨"DRW Vx, Vy, nibble", 0xF000, 0xD000, [.x, .y, .n]⟩
def skp : OpcodeForm := ⟨"SKP Vx", 0xF0FF, 0xE09E, [.x]⟩
def sknp : OpcodeForm := ⟨"SKNP Vx", 0xF0FF, 0xE0A1, [.x]⟩
def ldFromDelay : OpcodeForm := ⟨"LD Vx, DT", 0xF0FF, 0xF007, [.x]⟩
def ldKey : OpcodeForm := ⟨"LD Vx, K", 0xF0FF, 0xF00A, [.x]⟩
def ldDelay : OpcodeForm := ⟨"LD DT, Vx", 0xF0FF, 0xF015, [.x]⟩
def ldSound : OpcodeForm := ⟨"LD ST, Vx", 0xF0FF, 0xF018, [.x]⟩
def addIndex : OpcodeForm := ⟨"ADD I, Vx", 0xF0FF, 0xF01E, [.x]⟩
def ldGlyph : OpcodeForm := ⟨"LD F, Vx", 0xF0FF, 0xF029, [.x]⟩
def ldDecimal : OpcodeForm := ⟨"LD B, Vx", 0xF0FF, 0xF033, [.x]⟩
def ldStore : OpcodeForm := ⟨"LD [I], Vx", 0xF0FF, 0xF055, [.x]⟩
def ldLoad : OpcodeForm := ⟨"LD Vx, [I]", 0xF0FF, 0xF065, [.x]⟩

end OpcodeForm

open OpcodeForm in
/-- The instruction set in the order in which words are compared with it. -/
def opcodeTable : List OpcodeForm :=
  [cls, ret, sys, jp, call, seByte, sneByte, seReg, ldByte, addByte, ldReg,
   .or, .and, .xor, addReg, sub, shr, subn, shl, sneReg, ldIndex, jpV0, rnd, drw,
   skp, sknp, ldFromDelay, ldKey, ldDelay, ldSound, .addIndex, ldGlyph, ldDecimal, ldStore,
   ldLoad]

/-- The first form that a word fits. -/
def OpcodeForm.lookup (word : Opcode) : Option OpcodeForm :=
  opcodeTable.find? (·.fits word)

namespace Instruction

/-- The line of the opcode table that describes an instruction. -/
def form : Instruction → OpcodeForm
  | .sys _ => .sys
  | .clear => .cls
  | .ret => .ret
  | .jump _ => .jp
  | .call _ => .call
  | .skipIfByte .. => .seByte
  | .skipUnlessByte .. => .sneByte
  | .skipIfSame .. => .seReg
  | .setByte .. => .ldByte
  | .addByte .. => .addByte
  | .copy .. => .ldReg
  | .or .. => .or
  | .and .. => .and
  | .xor .. => .xor
  | .add .. => .addReg
  | .sub .. => .sub
  | .shiftRight .. => .shr
  | .subFrom .. => .subn
  | .shiftLeft .. => .shl
  | .skipUnlessSame .. => .sneReg
  | .setIndex _ => .ldIndex
  | .jumpOffset _ => .jpV0
  | .random .. => .rnd
  | .draw .. => .drw
  | .skipIfHeld _ => .skp
  | .skipUnlessHeld _ => .sknp
  | .readDelay _ => .ldFromDelay
  | .awaitKey _ => .ldKey
  | .setDelay _ => .ldDelay
  | .setSound _ => .ldSound
  | .addIndex _ => .addIndex
  | .pointGlyph _ => .ldGlyph
  | .storeDecimal _ => .ldDecimal
  | .store _ => .ldStore
  | .load _ => .ldLoad

/-- The operands as the table cuts them out of the opcode. -/
def operands (i : Instruction) : List UInt16 :=
  i.form.extract i.encode

end Instruction

end Chip8
