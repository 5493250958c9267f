/-!
# Host keys

The keypad lies on the left-hand block of a keyboard:

    1 2 3 C      1 2 3 4
    4 5 6 D  on  Q W E R
    7 8 9 E      A S D F
    A 0 B F      Z X C V

Three more keys steer the session: `P` pauses, `Backspace` resets and `Escape`
ends it.
-/

namespace Chip8

/-- A key of the host's keyboard. -/
inductive HostKey where
  | one | two | three | four
  | q | w | e | r
  | a | s | d | f
  | z | x | c | v
  | p | backspace | escape
  /-- A key without a meaning here, by its name. -/
  | other (name : String)
  deriving DecidableEq, Repr

namespace HostKey

/-- The key with a name, as the window system calls it. -/
def ofName : String → HostKey
  | "Key1" => .one
  | "Key2" => .two
  | "Key3" => .three
  | "Key4" => .four
  | "Q" => .q
  | "W" => .w
  | "E" => .e
  | "R" => .r
  | "A" => .a
  | "S" => .s
  | "D" => .d
  | "F" => .f
  | "Z" => .z
  | "X" => .x
  | "C" => .c
  | "V" => .v
  | "P" => .p
  | "Backspace" => .backspace
  | "Escape" => .escape
  | name => .other name

/-- The code of the keypad key that a host key stands for, if any. -/
def code? : HostKey → Option UInt8
  | .one => some 0x1
  | .two => some 0x2
  | .three => some 0x3
  | .four => some 0xC
  | .q => some 0x4
  | .w => some 0x5
  | .e => some 0x6
  | .r => some 0xD
  | .a => some 0x7
  | .s => some 0x8
  | .d => some 0x9
  | .f => some 0xE
  | .z => some 0xA
  | .x => some 0x0
  | .c => some 0xB
  | .v => some 0xF
  | .p | .backspace | .escape | .other _ => none

end HostKey

end Chip8
