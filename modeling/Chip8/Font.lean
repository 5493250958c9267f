import Chip8.Register

/-!
# The font

A glyph for each hexadecimal digit, four pixels wide and five rows high, one
byte a row.  The glyphs fill the first eighty bytes of memory.
-/

namespace Chip8.Font

/-- The number of rows of a glyph. -/
def glyphHeight : Nat := 5

/-- The rows of the sixteen glyphs, one glyph after the other. -/
def bytes : Vector UInt8 80 :=
  #v[0xF0, 0x90, 0x90, 0x90, 0xF0,
     0x20, 0x60, 0x20, 0x20, 0x70,
     0xF0, 0x10, 0xF0, 0x80, 0xF0,
     0xF0, 0x10, 0xF0, 0x10, 0xF0,
     0x90, 0x90, 0xF0, 0x10, 0x10,
     0xF0, 0x80, 0xF0, 0x10, 0xF0,
     0xF0, 0x80, 0xF0, 0x90, 0xF0,
     0xF0, 0x10, 0x20, 0x40, 0x40,
     0xF0, 0x90, 0xF0, 0x90, 0xF0,
     0xF0, 0x90, 0xF0, 0x10, 0xF0,
     0xF0, 0x90, 0xF0, 0x90, 0x90,
     0xE0, 0x90, 0xE0, 0x90, 0xE0,
     0xF0, 0x80, 0x80, 0x80, 0xF0,
     0xE0, 0x90, 0x90, 0x90, 0xE0,
     0xF0, 0x80, 0xF0, 0x80, 0xF0,
     0xF0, 0x80, 0xF0, 0x80, 0x80]

/-- Where the glyph for the low four bits of a byte starts. -/
def glyphAddress (digit : UInt8) : Address :=
  (glyphHeight * (digit.toNat % 16)).toUInt16

/-- The five rows of the glyph for the low four bits of a byte. -/
def glyph (digit : UInt8) : List UInt8 :=
  (bytes.toList.drop (glyphHeight * (digit.toNat % 16))).take glyphHeight

end Chip8.Font
