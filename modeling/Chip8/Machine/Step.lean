import Chip8.Instruction.Decode
import Chip8.Machine.Execute

/-!
# Steps and frames

A step fetches the word at the program counter, decodes it and executes the
instruction.  How far it came is kept as the trace.  A step that fails halts
the machine with the fault, and a halted machine gives that fault to every
later step.

* `Machine.step` — one instruction;
* `Machine.run` — up to a number of instructions, counted;
* `Machine.runFrame` — the instructions and the timer ticks of one frame.
-/

namespace Chip8

/-- What a step that did not fail has done. -/
inductive Status where
  /-- An instruction was executed. -/
  | executed (i : Instruction)
  /-- The machine waits for a key. -/
  | waiting
  deriving DecidableEq, Repr

/-- Why a counted run ended. -/
inductive RunEnd where
  /-- All instructions asked for were executed. -/
  | limit
  /-- The machine waits for a key. -/
  | waiting
  /-- A step failed. -/
  | fault (f : Fault)
  deriving DecidableEq, Repr

namespace Machine

/-- The word at the program counter, and the machine with the counter behind
it. -/
def fetch (m : Machine) : Except MachineError (Opcode × Machine) :=
  (m.memory.word m.pc).map fun word => (word, { m with pc := m.pc.next })

/-- What one fetch, decoding and execution leads to: the machine, the trace,
and the instruction or the error that came in between. -/
structure Cycle where
  machine : Machine
  trace : Trace
  outcome : Except MachineError Instruction

/-- Fetch, decode and execute one instruction. -/
def cycle (m : Machine) : Cycle :=
  match m.fetch with
  | .error e => ⟨m, { address := m.pc }, .error e⟩
  | .ok (word, fetched) =>
      match Instruction.decode word with
      | .error e => ⟨fetched, { address := m.pc, opcode := some word }, .error e⟩
      | .ok i =>
          let trace := { address := m.pc, opcode := some word, instruction := some i }
          match fetched.execute i with
          | (executed, none) => ⟨executed, trace, .ok i⟩
          | (stopped, some e) => ⟨stopped, trace, .error e⟩

/-- One step.  A machine that waits stays as it is, and so does a halted one. -/
def step (m : Machine) : Machine × Except Fault Status :=
  match m.state with
  | .halted fault => (m, .error fault)
  | .awaitingKey _ => (m, .ok .waiting)
  | .running =>
      let c := m.cycle
      let traced := { c.machine with lastTrace := some c.trace }
      match c.outcome with
      | .ok i => (traced, .ok (.executed i))
      | .error cause =>
          let fault := ⟨c.trace, cause⟩
          ({ traced with state := .halted fault }, .error fault)

/-- Step until `n` instructions have been executed, the machine waits, or a step
fails: the machine, the number of instructions executed, and why it ended. -/
def run : Nat → Machine → Machine × Nat × RunEnd
  | 0, m => (m, 0, .limit)
  | n + 1, m =>
      match m.step with
      | (m', .error fault) => (m', 0, .fault fault)
      | (m', .ok .waiting) => (m', 0, .waiting)
      | (m', .ok (.executed _)) =>
          let (last, count, reason) := run n m'
          (last, count + 1, reason)

/-- Up to `n` steps.  They end early when the machine waits for a key, and with
the fault of a step that fails. -/
def runSteps : Nat → Machine → Machine × Option Fault
  | 0, m => (m, none)
  | n + 1, m =>
      match m.step with
      | (m', .error fault) => (m', some fault)
      | (m', .ok .waiting) => (m', none)
      | (m', .ok (.executed _)) => if m'.isWaiting then (m', none) else runSteps n m'

/-- One frame: up to `steps` steps, and then, unless one failed, `ticks` ticks
of the timers. -/
def runFrame (m : Machine) (steps ticks : Nat) : Machine × Option Fault :=
  match m.runSteps steps with
  | (m', some fault) => (m', some fault)
  | (m', none) => (m'.tickBy ticks, none)

end Machine

end Chip8
