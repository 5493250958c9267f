import Chip8.Machine

/-!
# Executing an instruction

`Machine.execute` carries out one instruction, whatever state the machine is
in.  It gives the machine afterwards and the error that stopped it, if any.  An
instruction that moves several bytes stops at the first that is refused, and
the bytes before it stay moved.
-/

namespace Chip8.Machine

/-- The machine and no error. -/
def done (m : Machine) : Machine × Option MachineError :=
  (m, none)

/-- Pass over the next instruction if `condition` holds. -/
def skipIf (m : Machine) (condition : Bool) : Machine :=
  if condition then { m with pc := m.pc.next } else m

/-- Write a flag to VF and then a result to a register. -/
def setFlagged (m : Machine) (x : Reg) (flag : Bool) (b : UInt8) : Machine :=
  { m with registers := m.registers.setFlagged x flag b }

/-- Enter a subroutine. -/
def enter (m : Machine) (a : Address) : Machine × Option MachineError :=
  match m.stack.push m.pc with
  | .ok stack => ({ m with stack := stack, pc := a }, none)
  | .error e => (m, some e)

/-- Return from a subroutine. -/
def leave (m : Machine) : Machine × Option MachineError :=
  match m.stack.pop with
  | .ok (a, stack) => ({ m with stack := stack, pc := a }, none)
  | .error e => (m, some e)

/-- Draw the sprite that the index register points to.  The flag is cleared
before the sprite is read, and tells about a collision afterwards. -/
def drawSprite (m : Machine) (x y : Reg) (height : UInt8) : Machine × Option MachineError :=
  let (left, top) := (m.reg x, m.reg y)
  let m := m.setReg .vf 0
  match m.memory.slice m.index.toNat height.toNat with
  | .ok sprite =>
      let (raster, hit) := m.raster.paint left top sprite
      ({ m with raster := raster }.setReg .vf hit.toUInt8, none)
  | .error e => (m, some e)

/-- Store bytes from the index register on. -/
def storeBytes (m : Machine) (bs : List UInt8) : Machine × Option MachineError :=
  let (memory, failure) := m.memory.writeAll m.index.toNat bs
  ({ m with memory := memory }, failure)

/-- Fill registers from the bytes at `a` on, one after the other, and stop at
the first byte that is not in memory. -/
def fillRegisters (memory : Memory) (a : Nat) :
    List Reg → Registers → Registers × Option MachineError
  | [], r => (r, none)
  | x :: xs, r =>
      match memory.read a with
      | .ok b => fillRegisters memory (a + 1) xs (r.set x b)
      | .error e => (r, some e)

/-- Load registers from the index register on. -/
def loadRegisters (m : Machine) (xs : List Reg) : Machine × Option MachineError :=
  let (registers, failure) := fillRegisters m.memory m.index.toNat xs m.registers
  ({ m with registers := registers }, failure)

/-- The decimal digits of a byte: hundreds, tens and ones. -/
def decimalDigits (b : UInt8) : List UInt8 :=
  [b / 100, b / 10 % 10, b % 10]

/-- Carry out one instruction: the machine afterwards, and what stopped it. -/
def execute (m : Machine) : Instruction → Machine × Option MachineError
  | .sys _ => m.done
  | .clear => done { m with raster := m.raster.clear }
  | .ret => m.leave
  | .jump a => done { m with pc := a }
  | .call a => m.enter a
  | .skipIfByte x b => (m.skipIf (m.reg x == b)).done
  | .skipUnlessByte x b => (m.skipIf (m.reg x != b)).done
  | .skipIfSame x y => (m.skipIf (m.reg x == m.reg y)).done
  | .setByte x b => (m.setReg x b).done
  | .addByte x b => done { m with registers := m.registers.add x b }
  | .copy x y => (m.setReg x (m.reg y)).done
  | .or x y => (m.setReg x (m.reg x ||| m.reg y)).done
  | .and x y => (m.setReg x (m.reg x &&& m.reg y)).done
  | .xor x y => (m.setReg x (m.reg x ^^^ m.reg y)).done
  | .add x y =>
      let (a, b) := (m.reg x, m.reg y)
      (m.setFlagged x (255 < a.toNat + b.toNat) (a + b)).done
  | .sub x y =>
      let (a, b) := (m.reg x, m.reg y)
      (m.setFlagged x (b < a) (a - b)).done
  | .shiftRight x _ =>
      let a := m.reg x
      (m.setFlagged x (a &&& 1 == 1) (a >>> 1)).done
  | .subFrom x y =>
      let (a, b) := (m.reg x, m.reg y)
      (m.setFlagged x (a < b) (b - a)).done
  | .shiftLeft x _ =>
      let a := m.reg x
      (m.setFlagged x ((a >>> 7) &&& 1 == 1) (a <<< 1)).done
  | .skipUnlessSame x y => (m.skipIf (m.reg x != m.reg y)).done
  | .setIndex a => done { m with index := a }
  | .jumpOffset a => done { m with pc := a.plus (m.reg .v0) }
  | .random x mask =>
      let (b, random) := m.random.next
      ({ m with random := random }.setReg x (mask &&& b)).done
  | .draw x y height => m.drawSprite x y height
  | .skipIfHeld x => (m.skipIf (m.keypad.isHeld (m.reg x))).done
  | .skipUnlessHeld x => (m.skipIf (!m.keypad.isHeld (m.reg x))).done
  | .readDelay x => (m.setReg x m.timers.delay.count).done
  | .awaitKey x => done { m with state := .awaitingKey x }
  | .setDelay x => done { m with timers := { m.timers with delay := ⟨m.reg x⟩ } }
  | .setSound x => done { m with timers := { m.timers with sound := ⟨m.reg x⟩ } }
  | .addIndex x => done { m with index := m.index.plus (m.reg x) }
  | .pointGlyph x => done { m with index := Font.glyphAddress (m.reg x) }
  | .storeDecimal x => m.storeBytes (decimalDigits (m.reg x))
  | .store x => m.storeBytes (x.upTo.map m.reg)
  | .load x => m.loadRegisters x.upTo

end Chip8.Machine
