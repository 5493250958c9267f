import Chip8.CallStack
import Chip8.Generator
import Chip8.Keypad
import Chip8.Memory
import Chip8.Raster
import Chip8.Timers
import Chip8.Trace

/-!
# The machine

All that a running program can reach, and what the host sees of it: memory,
registers, program counter, index register, call stack, timers, picture,
keypad, source of random bytes, the state of the run, and the trace of the last
step.

* `Machine.boot` — a fresh machine around a source of random bytes;
* `Machine.load` — start over with a program;
* `Machine.keyDown`, `Machine.keyUp`, `Machine.tick`, `Machine.takeFrame` —
  what the host does to the machine between instructions.
-/

namespace Chip8

/-- Whether and how the machine runs. -/
inductive RunState where
  /-- Instructions are executed. -/
  | running
  /-- The next key that goes down is stored in a register. -/
  | awaitingKey (x : Reg)
  /-- A step failed. -/
  | halted (fault : Fault)
  deriving DecidableEq, Repr

/-- The whole machine. -/
structure Machine where
  memory : Memory
  registers : Registers
  pc : Address
  index : Address
  stack : CallStack
  timers : Timers
  raster : Raster
  keypad : Keypad
  state : RunState
  lastTrace : Option Trace
  random : Generator
  deriving DecidableEq, Repr

namespace Machine

/-- A fresh machine with a given memory and source of random bytes. -/
def start (memory : Memory) (random : Generator) : Machine where
  memory := memory
  registers := .zero
  pc := Memory.programStart
  index := 0
  stack := .empty
  timers := {}
  raster := .blank
  keypad := .idle
  state := .running
  lastTrace := none
  random := random

/-- A fresh machine without a program. -/
def boot (random : Generator) : Machine :=
  start .blank random

/-- Set everything back around a given memory.  Random bytes go on from where
they are. -/
def reset (m : Machine) (memory : Memory) : Machine :=
  { m with
    memory := memory
    registers := .zero
    pc := Memory.programStart
    index := 0
    stack := .empty
    timers := {}
    raster := m.raster.clear
    keypad := .idle
    state := .running
    lastTrace := none }

/-- Start over with a program, if it fits. -/
def load (m : Machine) (program : Array UInt8) : Except MachineError Machine :=
  (Memory.load program).map m.reset

/-- Whether the machine waits for a key. -/
def isWaiting (m : Machine) : Bool :=
  match m.state with
  | .awaitingKey _ => true
  | _ => false

/-- Whether a step has failed. -/
def isHalted (m : Machine) : Bool :=
  match m.state with
  | .halted _ => true
  | _ => false

/-- Whether the sound timer has not run out. -/
def soundActive (m : Machine) : Bool :=
  m.timers.sound.running

/-- The contents of a register. -/
def reg (m : Machine) (x : Reg) : UInt8 :=
  m.registers.get x

/-- Write a register. -/
def setReg (m : Machine) (x : Reg) (b : UInt8) : Machine :=
  { m with registers := m.registers.set x b }

/-- Tick both timers once. -/
def tick (m : Machine) : Machine :=
  { m with timers := m.timers.tick }

/-- Tick both timers `n` times. -/
def tickBy : Nat → Machine → Machine
  | 0, m => m
  | n + 1, m => tickBy n m.tick

/-- A key goes down.  A machine that waits for a key takes it and runs on. -/
def keyDown (m : Machine) (code : UInt8) : Except MachineError Machine :=
  (m.keypad.press code).map fun keypad =>
    match m.state with
    | .awaitingKey x =>
        { m with keypad := keypad, registers := m.registers.set x code, state := .running }
    | _ => { m with keypad := keypad }

/-- A key goes up. -/
def keyUp (m : Machine) (code : UInt8) : Except MachineError Machine :=
  (m.keypad.release code).map fun keypad => { m with keypad := keypad }

/-- The picture, if it may have changed since it was last taken. -/
def takeFrame (m : Machine) : Option Raster × Machine :=
  let (frame, raster) := m.raster.take
  (frame, { m with raster := raster })

/-- Setting back leaves nothing of the machine but its source of random bytes. -/
theorem reset_eq_start (m : Machine) (memory : Memory) : m.reset memory = start memory m.random :=
  rfl

end Machine

end Chip8
