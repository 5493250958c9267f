import Chip8.Machine.Execute
import Chip8.Proofs.Encoding

/-!
# Arithmetic with a flag

Five instructions give a result and a flag, and have two registers to put them in: the
flag goes to VF and the result to VX.  Both come from the operands as they were before
the instruction, also when one of these lies in VF.  VF is written first, so that the
result stays and the flag is lost when VX is VF.

* `FlagOp` — the five operations, with what they compute of integers;
* `FlagOp.decode_instruction`, `Machine.exists_execute_flagOp` — their opcodes, and what
  they compute of bytes, which is the same;
* `Machine.get_setFlagged` — where the flag and the result go;
* `Machine.flag_arithmetic` — both together, for every choice of registers.
-/

namespace Chip8

/-- The operations that give a flag beside their result. -/
inductive FlagOp where
  | add
  | sub
  | shiftRight
  | subFrom
  | shiftLeft
  deriving DecidableEq, Repr

namespace FlagOp

/-- The last digit of the opcode, behind `8XY`. -/
def digit : FlagOp → UInt8
  | .add => 0x4
  | .sub => 0x5
  | .shiftRight => 0x6
  | .subFrom => 0x7
  | .shiftLeft => 0xE

/-- The instruction with its registers. -/
def instruction (x y : Reg) : FlagOp → Instruction
  | .add => .add x y
  | .sub => .sub x y
  | .shiftRight => .shiftRight x y
  | .subFrom => .subFrom x y
  | .shiftLeft => .shiftLeft x y

/-- The result, from the contents `a` of VX and `b` of VY. -/
def result (a b : Int) : FlagOp → Int
  | .add => (a + b) % 256
  | .sub => (a - b) % 256
  | .shiftRight => a / 2
  | .subFrom => (b - a) % 256
  | .shiftLeft => 2 * a % 256

/-- Whether the flag is set, from the contents `a` of VX and `b` of VY. -/
def flag (a b : Int) : FlagOp → Bool
  | .add => a + b > 255
  | .sub => a > b
  | .shiftRight => a % 2 = 1
  | .subFrom => b > a
  | .shiftLeft => a ≥ 128

/-- The words of the five operations decode to them. -/
theorem decode_instruction (op : FlagOp) (x y : Reg) :
    Instruction.decode (.ofXYN 0x8 x y op.digit) = .ok (op.instruction x y) := by
  rw [Instruction.decode_eq_ok_iff]
  cases op with
  | add => exact Instruction.decodes_ofXY (by decide) .add x y
  | sub => exact Instruction.decodes_ofXY (by decide) .sub x y
  | shiftRight => exact Instruction.decodes_ofXY (by decide) .shiftRight x y
  | subFrom => exact Instruction.decodes_ofXY (by decide) .subFrom x y
  | shiftLeft => exact Instruction.decodes_ofXY (by decide) .shiftLeft x y

end FlagOp

section Bytes

variable (a b : UInt8)

/-- Bytes are added modulo 256. -/
theorem toNat_byte_add : ((a + b).toNat : Int) = (a.toNat + b.toNat : Int) % 256 := by
  rw [UInt8.toNat_add]
  omega

/-- Bytes are subtracted modulo 256, on the integers. -/
theorem toNat_byte_sub : ((a - b).toNat : Int) = (a.toNat - b.toNat : Int) % 256 := by
  have ha := a.toNat_lt
  have hb := b.toNat_lt
  rw [UInt8.toNat_sub]
  omega

/-- A shift to the right halves a byte. -/
theorem toNat_half : (a >>> 1).toNat = a.toNat / 2 := by
  rw [UInt8.toNat_shiftRight, Nat.shiftRight_eq_div_pow]
  rfl

/-- A shift to the left doubles a byte modulo 256. -/
theorem toNat_double : (a <<< 1).toNat = 2 * a.toNat % 256 := by
  rw [UInt8.toNat_shiftLeft, Nat.shiftLeft_eq, Nat.mul_comm]
  rfl

/-- The bit that leaves on the right is the parity. -/
theorem lowBit_iff : (a &&& 1 == 1) = true ↔ a.toNat % 2 = 1 := by
  rw [beq_iff_eq, ← UInt8.toNat_inj, UInt8.toNat_and]
  change a.toNat &&& 1 = 1 ↔ _
  rw [Nat.and_one_is_mod]

/-- The bit that leaves on the left tells whether the double is too large. -/
theorem highBit_iff : (a >>> 7 &&& 1 == 1) = true ↔ 128 ≤ a.toNat := by
  have ha := a.toNat_lt
  rw [lowBit_iff, UInt8.toNat_shiftRight, Nat.shiftRight_eq_div_pow]
  change a.toNat / 128 % 2 = 1 ↔ _
  omega

end Bytes

namespace Machine

variable (m : Machine) (op : FlagOp) (x y z : Reg)

/-- The result is what its register holds in the end, whatever register that is. -/
theorem get_setFlagged (flag : Bool) (b : UInt8) :
    (m.setFlagged x flag b).reg z =
      if z = x then b else if z = .vf then flag.toUInt8 else m.reg z := by
  change ((m.registers.set .vf flag.toUInt8).set x b).get z = _
  rw [Registers.get_set, Registers.get_set]
  simp only [eq_comm]
  rfl

/-- Each operation computes of bytes what it computes of integers, and of those that the
registers hold before.  It tests bytes for its flag, and in each case that test is the one of
integers. -/
theorem exists_execute_flagOp :
    ∃ b : UInt8, (b.toNat : Int) = op.result (m.reg x).toNat (m.reg y).toNat ∧
      m.execute (op.instruction x y) =
        (m.setFlagged x (op.flag (m.reg x).toNat (m.reg y).toNat) b, none) := by
  cases op with
  | add =>
      have hflag : FlagOp.add.flag (m.reg x).toNat (m.reg y).toNat =
          decide (255 < (m.reg x).toNat + (m.reg y).toNat) :=
        decide_eq_decide.2 (by omega)
      rw [hflag]
      exact ⟨m.reg x + m.reg y, toNat_byte_add _ _, rfl⟩
  | sub =>
      have hflag : FlagOp.sub.flag (m.reg x).toNat (m.reg y).toNat = decide (m.reg y < m.reg x) :=
        decide_eq_decide.2 (by rw [UInt8.lt_iff_toNat_lt]; omega)
      rw [hflag]
      exact ⟨m.reg x - m.reg y, toNat_byte_sub _ _, rfl⟩
  | shiftRight =>
      have hflag : FlagOp.shiftRight.flag (m.reg x).toNat (m.reg y).toNat =
          (m.reg x &&& 1 == 1) := by
        rw [Bool.eq_iff_iff, lowBit_iff]
        simp only [FlagOp.flag, decide_eq_true_eq]
        omega
      rw [hflag]
      exact ⟨m.reg x >>> 1, congrArg Nat.cast (toNat_half _), rfl⟩
  | subFrom =>
      have hflag : FlagOp.subFrom.flag (m.reg x).toNat (m.reg y).toNat =
          decide (m.reg x < m.reg y) :=
        decide_eq_decide.2 (by rw [UInt8.lt_iff_toNat_lt]; omega)
      rw [hflag]
      exact ⟨m.reg y - m.reg x, toNat_byte_sub _ _, rfl⟩
  | shiftLeft =>
      have hflag : FlagOp.shiftLeft.flag (m.reg x).toNat (m.reg y).toNat =
          (m.reg x >>> 7 &&& 1 == 1) := by
        rw [Bool.eq_iff_iff, highBit_iff]
        simp only [FlagOp.flag, decide_eq_true_eq]
        omega
      rw [hflag]
      exact ⟨m.reg x <<< 1, congrArg Nat.cast (toNat_double _), rfl⟩

/-- **Arithmetic with a flag.**  Take any of the five operations and any two registers,
which may be the same one or VF.  The opcode `8XY_` decodes to the instruction, and the
instruction is never stopped.  With what the registers hold before it, as integers, VX
holds the result afterwards; VF holds the flag, unless it is VX; and nothing else of the
machine has changed. -/
theorem flag_arithmetic :
    Instruction.decode (.ofXYN 0x8 x y op.digit) = .ok (op.instruction x y) ∧
    ∃ m', m.execute (op.instruction x y) = (m', none) ∧
      (∀ z, ((m'.reg z).toNat : Int) =
        if z = x then op.result (m.reg x).toNat (m.reg y).toNat
        else if z = .vf then (if op.flag (m.reg x).toNat (m.reg y).toNat then 1 else 0)
        else (m.reg z).toNat) ∧
      m' = { m with registers := m'.registers } := by
  refine ⟨op.decode_instruction x y, ?_⟩
  obtain ⟨b, hresult, hexecute⟩ := m.exists_execute_flagOp op x y
  refine ⟨_, hexecute, ?_, rfl⟩
  intro z
  rw [get_setFlagged]
  by_cases hx : z = x
  · rw [if_pos hx, if_pos hx, hresult]
  · rw [if_neg hx, if_neg hx]
    by_cases hvf : z = .vf
    · rw [if_pos hvf, if_pos hvf]
      cases op.flag (m.reg x).toNat (m.reg y).toNat with
      | false => rfl
      | true => rfl
    · rw [if_neg hvf, if_neg hvf]

end Machine

end Chip8
