import Chip8.Register

/-!
# Opcode words

An instruction is stored as one 16-bit word, read as four hexadecimal digits.
The first digit is the kind of the instruction; of the others, `X` and `Y` name
registers, `N` is a four-bit number, `NN` a byte and `NNN` an address.

The word is cut into its parts here (`Opcode.digits` and what follows) and put
together from its parts (`Opcode.ofXNN` and its neighbours).
-/

namespace Chip8

/-- The 16-bit form of an instruction. -/
abbrev Opcode := UInt16

namespace Opcode

/-- The number that `count` digits of the word make, from the digit number
`first` on.  Digits are counted from 1, the most significant one. -/
def digits (word : Opcode) (first count : Nat) : Nat :=
  word.toNat / Nat.pow 16 (5 - first - count) % Nat.pow 16 count

/-- The first digit, which tells the kind of the instruction. -/
def kind (word : Opcode) : Nat :=
  word.digits 1 1

/-- The register named by the second digit. -/
def x (word : Opcode) : Reg :=
  ⟨word.digits 2 1, Nat.mod_lt _ (by decide)⟩

/-- The register named by the third digit. -/
def y (word : Opcode) : Reg :=
  ⟨word.digits 3 1, Nat.mod_lt _ (by decide)⟩

/-- The last digit. -/
def n (word : Opcode) : UInt8 :=
  (word.digits 4 1).toUInt8

/-- The last two digits. -/
def nn (word : Opcode) : UInt8 :=
  (word.digits 3 2).toUInt8

/-- The last three digits. -/
def nnn (word : Opcode) : Address :=
  (word.digits 2 3).toUInt16

/-- The word with the given first digit and last three digits; of the address
the low twelve bits are kept. -/
def ofNNN (kind : Nat) (address : Address) : Opcode :=
  (kind * 4096 + address.toNat % 4096).toUInt16

/-- The word with the given first digit, register and last two digits. -/
def ofXNN (kind : Nat) (x : Reg) (nn : UInt8) : Opcode :=
  (kind * 4096 + x.val * 256 + nn.toNat).toUInt16

/-- The word with the given first digit, registers and last digit; of `n` the
low four bits are kept. -/
def ofXYN (kind : Nat) (x y : Reg) (n : UInt8) : Opcode :=
  (kind * 4096 + x.val * 256 + y.val * 16 + n.toNat % 16).toUInt16

end Opcode

end Chip8
