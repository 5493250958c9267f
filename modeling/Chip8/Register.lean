import Chip8.Text.Hex

/-!
# Registers and addresses

The machine has sixteen byte registers, V0 to VF.  VF doubles as the flag of
carries, borrows and collisions.  An address is a 16-bit number of which the
memory uses the lower twelve bits; arithmetic on it wraps.
-/

namespace Chip8

/-- The number of a register. -/
abbrev Reg := Fin 16

namespace Reg

/-- The register that the jump with offset adds. -/
def v0 : Reg := ⟨0, by decide⟩

/-- The flag register. -/
def vf : Reg := ⟨15, by decide⟩

/-- The register that the low four bits of a byte name. -/
def ofByte (b : UInt8) : Reg :=
  ⟨b.toNat % 16, Nat.mod_lt _ (by decide)⟩

/-- The letter `V` and one hexadecimal digit. -/
def name (x : Reg) : String :=
  "V" ++ hex 1 x.val

/-- The registers V0 to `x`, both included, in ascending order. -/
def upTo (x : Reg) : List Reg :=
  (List.finRange 16).take (x.val + 1)

end Reg

/-- The contents of the sixteen registers. -/
structure Registers where
  bytes : Vector UInt8 16
  deriving DecidableEq, Repr

namespace Registers

/-- All registers zero. -/
def zero : Registers :=
  ⟨Vector.replicate 16 0⟩

/-- The contents of one register. -/
def get (r : Registers) (x : Reg) : UInt8 :=
  r.bytes[x]

/-- Write one register. -/
def set (r : Registers) (x : Reg) (b : UInt8) : Registers :=
  ⟨r.bytes.set x b⟩

/-- Add to one register modulo 256.  No flag is written. -/
def add (r : Registers) (x : Reg) (b : UInt8) : Registers :=
  r.set x (r.get x + b)

/-- Write a flag to VF and then a result to `x`, so that the result is what
stays when `x` is VF. -/
def setFlagged (r : Registers) (x : Reg) (flag : Bool) (b : UInt8) : Registers :=
  (r.set .vf flag.toUInt8).set x b

/-- A register that was written is read back. -/
@[simp] theorem get_set_self (r : Registers) (x : Reg) (b : UInt8) :
    (r.set x b).get x = b := by
  simp [get, set]

/-- Writing one register leaves the others as they were. -/
theorem get_set (r : Registers) (x y : Reg) (b : UInt8) :
    (r.set x b).get y = if x = y then b else r.get y := by
  simp [get, set, Vector.getElem_set, Fin.ext_iff]

/-- Of two writes to one register the second counts. -/
theorem set_set (r : Registers) (x : Reg) (b b' : UInt8) :
    (r.set x b).set x b' = r.set x b' := by
  simp [set]

end Registers

/-- A place in memory, as the program counter, the index register and the call
stack hold it. -/
abbrev Address := UInt16

namespace Address

/-- The instruction after the one at `a`. -/
def next (a : Address) : Address :=
  a + 2

/-- The address `b` bytes further on, modulo 2^16. -/
def plus (a : Address) (b : UInt8) : Address :=
  a + b.toUInt16

end Address

end Chip8
