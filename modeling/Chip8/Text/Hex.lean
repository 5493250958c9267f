/-!
# Hexadecimal text

Numbers appear in reports and listings as upper-case hexadecimal digits, with
zeros in front up to a least width.  A number that needs more digits than the
width is written in full, so no digit is ever lost.
-/

namespace Chip8

/-- The hexadecimal digits of `n` in upper case, most significant first, with
zeros in front where there are fewer than `width` of them. -/
def hexDigits (width n : Nat) : List Char :=
  ((Nat.toDigits 16 n).map Char.toUpper).leftpad width '0'

/-- The number `n` in hexadecimal, at least `width` digits. -/
def hex (width n : Nat) : String :=
  String.ofList (hexDigits width n)

/-- The number `n` in hexadecimal behind `0x`, at least `width` digits. -/
def hex0x (width n : Nat) : String :=
  "0x" ++ hex width n

end Chip8
