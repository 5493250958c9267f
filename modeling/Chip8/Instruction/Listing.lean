import Chip8.Instruction

/-!
# Listings

The assembler text of an instruction, such as `LD VA, 0x07` or `DRW V0, V1, 5`.
Addresses have at least three hexadecimal digits, bytes at least two, and the
height of a sprite is decimal.  The shifts name only the register they change.
-/

namespace Chip8.Instruction

/-- An address in a listing. -/
def addressText (a : Address) : String :=
  hex0x 3 a.toNat

/-- A byte in a listing. -/
def byteText (b : UInt8) : String :=
  hex0x 2 b.toNat

/-- The assembler text of an instruction, with its fields as held. -/
def text : Instruction → String
  | .sys a => s!"SYS {addressText a}"
  | .clear => "CLS"
  | .ret => "RET"
  | .jump a => s!"JP {addressText a}"
  | .call a => s!"CALL {addressText a}"
  | .skipIfByte x b => s!"SE {x.name}, {byteText b}"
  | .skipUnlessByte x b => s!"SNE {x.name}, {byteText b}"
  | .skipIfSame x y => s!"SE {x.name}, {y.name}"
  | .skipUnlessSame x y => s!"SNE {x.name}, {y.name}"
  | .setByte x b => s!"LD {x.name}, {byteText b}"
  | .addByte x b => s!"ADD {x.name}, {byteText b}"
  | .copy x y => s!"LD {x.name}, {y.name}"
  | .or x y => s!"OR {x.name}, {y.name}"
  | .and x y => s!"AND {x.name}, {y.name}"
  | .xor x y => s!"XOR {x.name}, {y.name}"
  | .add x y => s!"ADD {x.name}, {y.name}"
  | .sub x y => s!"SUB {x.name}, {y.name}"
  | .shiftRight x _ => s!"SHR {x.name}"
  | .subFrom x y => s!"SUBN {x.name}, {y.name}"
  | .shiftLeft x _ => s!"SHL {x.name}"
  | .setIndex a => s!"LD I, {addressText a}"
  | .jumpOffset a => s!"JP V0, {addressText a}"
  | .random x b => s!"RND {x.name}, {byteText b}"
  | .draw x y n => s!"DRW {x.name}, {y.name}, {n.toNat}"
  | .skipIfHeld x => s!"SKP {x.name}"
  | .skipUnlessHeld x => s!"SKNP {x.name}"
  | .readDelay x => s!"LD {x.name}, DT"
  | .awaitKey x => s!"LD {x.name}, K"
  | .setDelay x => s!"LD DT, {x.name}"
  | .setSound x => s!"LD ST, {x.name}"
  | .addIndex x => s!"ADD I, {x.name}"
  | .pointGlyph x => s!"LD F, {x.name}"
  | .storeDecimal x => s!"LD B, {x.name}"
  | .store x => s!"LD [I], {x.name}"
  | .load x => s!"LD {x.name}, [I]"

end Chip8.Instruction
