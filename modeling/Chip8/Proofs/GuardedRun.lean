import Chip8.Proofs.GuardedExecution
import Chip8.Proofs.Operation

/-!
# No operation goes wrong

Steps, frames and all that a host does to a machine, with guarded acts.  Whatever the
machine has come to, and whatever is asked of it, no access misses its array, no range
is ill formed, and no sum, difference or shift leaves its word: the guarded operations
give `some`, and in it what the plain ones give.

* `Guarded.step_eq`, `Guarded.runFrame_eq` — steps and frames;
* `Guarded.perform_eq`, `Guarded.performAll_eq` — an operation and a sequence of them;
* `Guarded.no_operation_goes_wrong` — all that can be done to a machine from its start.
-/

namespace Chip8.Guarded

section Steps

def fetch (m : Machine) : Option (Except MachineError (Opcode × Machine)) := do
  let result ← word m.memory m.pc
  some (result.map fun word => (word, { m with pc := m.pc.next }))

def cycle (m : Machine) : Option Machine.Cycle := do
  match ← fetch m with
  | .error e => some ⟨m, { address := m.pc }, .error e⟩
  | .ok (word, fetched) => do
      match ← decode word with
      | .error e => some ⟨fetched, { address := m.pc, opcode := some word }, .error e⟩
      | .ok i => do
          let trace := { address := m.pc, opcode := some word, instruction := some i }
          match ← execute fetched i with
          | (executed, none) => some ⟨executed, trace, .ok i⟩
          | (stopped, some e) => some ⟨stopped, trace, .error e⟩

/-- The operands that the line of a trace lists. -/
def traceOperands (t : Trace) : Option (List UInt16) :=
  match t.instruction with
  | some i => operands i
  | none => some []

/-- One step.  The trace is written out on the way. -/
def step (m : Machine) : Option (Machine × Except Fault Status) :=
  match m.state with
  | .halted fault => some (m, .error fault)
  | .awaitingKey _ => some (m, .ok .waiting)
  | .running => do
      let c ← cycle m
      let _ ← traceOperands c.trace
      let traced := { c.machine with lastTrace := some c.trace }
      match c.outcome with
      | .ok i => some (traced, .ok (.executed i))
      | .error cause =>
          let fault := ⟨c.trace, cause⟩
          some ({ traced with state := .halted fault }, .error fault)

def runSteps : Nat → Machine → Option (Machine × Option Fault)
  | 0, m => some (m, none)
  | n + 1, m => do
      match ← step m with
      | (m', .error fault) => some (m', some fault)
      | (m', .ok .waiting) => some (m', none)
      | (m', .ok (.executed _)) => if m'.isWaiting then some (m', none) else runSteps n m'

def tickTimers (m : Machine) : Option Machine := do
  let delay ← tick m.timers.delay
  let sound ← tick m.timers.sound
  some { m with timers := ⟨delay, sound⟩ }

def tickBy : Nat → Machine → Option Machine
  | 0, m => some m
  | n + 1, m => do
      let m' ← tickTimers m
      tickBy n m'

def runFrame (m : Machine) (steps ticks : Nat) : Option (Machine × Option Fault) := do
  match ← runSteps steps m with
  | (m', some fault) => some (m', some fault)
  | (m', none) => do
      let m'' ← tickBy ticks m'
      some (m'', none)

/-- A word is fetched without going wrong, from whatever program counter. -/
theorem fetch_eq (m : Machine) : fetch m = some m.fetch := by
  rw [fetch, word_eq]
  rfl

/-- One round of fetching, decoding and executing cannot go wrong. -/
theorem cycle_eq (m : Machine) : cycle m = some m.cycle := by
  unfold cycle Machine.cycle
  rw [fetch_eq]
  simp only [Option.bind_eq_bind, Option.bind_some]
  rcases m.fetch with e | ⟨word, fetched⟩
  · rfl
  · simp only [decode_eq, Option.bind_some]
    cases Instruction.decode word with
    | error e => rfl
    | ok i =>
        simp only [execute_eq, Option.bind_some]
        rcases fetched.execute i with ⟨executed, _ | e⟩
        · rfl
        · rfl

/-- Any trace can be shown. -/
theorem traceOperands_eq (t : Trace) : traceOperands t = some t.operands := by
  unfold traceOperands Trace.operands
  cases t.instruction with
  | none => rfl
  | some i => exact operands_eq i

/-- A step cannot go wrong. -/
theorem step_eq (m : Machine) : step m = some m.step := by
  unfold step Machine.step
  cases m.state with
  | halted fault => rfl
  | awaitingKey x => rfl
  | running =>
      simp only [cycle_eq, traceOperands_eq, Option.bind_eq_bind, Option.bind_some]
      cases m.cycle.outcome with
      | ok i => rfl
      | error cause => rfl

/-- Any number of steps comes through. -/
theorem runSteps_eq (n : Nat) (m : Machine) : runSteps n m = some (m.runSteps n) := by
  induction n generalizing m with
  | zero => rfl
  | succ n ih =>
      unfold runSteps Machine.runSteps
      rw [step_eq]
      simp only [Option.bind_eq_bind, Option.bind_some]
      rcases m.step with ⟨m', fault | i | _⟩
      · rfl
      · cases hwaiting : m'.isWaiting with
        | true => simp [hwaiting]
        | false => simp [hwaiting, ih]
      · rfl

/-- Both timers can be ticked at any time. -/
theorem tickTimers_eq (m : Machine) : tickTimers m = some m.tick := by
  simp only [tickTimers, tick_eq, Option.bind_eq_bind, Option.bind_some]
  rfl

/-- Any number of ticks comes through. -/
theorem tickBy_eq (n : Nat) (m : Machine) : tickBy n m = some (m.tickBy n) := by
  induction n generalizing m with
  | zero => rfl
  | succ n ih =>
      unfold tickBy
      rw [tickTimers_eq]
      exact ih m.tick

/-- A frame cannot go wrong, whatever it is granted. -/
theorem runFrame_eq (m : Machine) (steps ticks : Nat) :
    runFrame m steps ticks = some (m.runFrame steps ticks) := by
  unfold runFrame Machine.runFrame
  rw [runSteps_eq]
  simp only [Option.bind_eq_bind, Option.bind_some]
  rcases m.runSteps steps with ⟨m', _ | fault⟩
  · simp only [tickBy_eq, Option.bind_some]
  · rfl

end Steps

section Operations

/-- A fresh machine without a program. -/
def boot (random : Generator) : Option Machine := do
  let memory ← blank
  some (.start memory random)

def keyDown (m : Machine) (code : UInt8) : Option (Except MachineError Machine) := do
  match ← setKey m.keypad code true with
  | .error e => some (.error e)
  | .ok keypad =>
      match m.state with
      | .awaitingKey x => do
          let registers ← setRegister m.registers x code
          some (.ok { m with keypad := keypad, registers := registers, state := .running })
      | _ => some (.ok { m with keypad := keypad })

def keyUp (m : Machine) (code : UInt8) : Option (Except MachineError Machine) := do
  let result ← setKey m.keypad code false
  some (result.map fun keypad => { m with keypad := keypad })

def perform (m : Machine) : Operation → Option (Machine × Reply)
  | .load program => do
      let result ← load program
      some (m.proceed (result.map m.reset) fun m' => (m', .done))
  | .step => do
      let (m', answer) ← step m
      some (m', .ofStep answer)
  | .runFrame steps ticks => do
      let (m', failure) ← runFrame m steps ticks
      some (m', .ofFault? failure)
  | .execute i => do
      let (m', failure) ← execute m i
      some (m', .ofError? failure)
  | .fetch => do
      let result ← fetch m
      some (m.proceed result fun (word, m') => (m', .word word))
  | .tick => do
      let m' ← tickTimers m
      some (m', .done)
  | .keyDown code => do
      let result ← keyDown m code
      some (m.proceed result fun m' => (m', .done))
  | .keyUp code => do
      let result ← keyUp m code
      some (m.proceed result fun m' => (m', .done))
  | .takeFrame => some (m.takeFrame.2, .frame m.takeFrame.1)
  | .write a b => do
      let result ← write m.memory a b
      some (m.proceed result fun memory => ({ m with memory := memory }, .done))
  | .push a => do
      let result ← push m.stack a
      some (m.proceed result fun stack => ({ m with stack := stack }, .done))
  | .pop => do
      let result ← pop m.stack
      some (m.proceed result fun (a, stack) => ({ m with stack := stack }, .address a))
  | .setPc a => some ({ m with pc := a }, .done)
  | .setIndex a => some ({ m with index := a }, .done)
  | .setReg x b => do
      let registers ← setRegister m.registers x b
      some ({ m with registers := registers }, .done)
  | .setDelay b => some ({ m with timers := { m.timers with delay := ⟨b⟩ } }, .done)
  | .setSound b => some ({ m with timers := { m.timers with sound := ⟨b⟩ } }, .done)

def performAll (m : Machine) : List Operation → Option (Machine × List Reply)
  | [] => some (m, [])
  | op :: ops => do
      let (m', reply) ← perform m op
      let (last, replies) ← performAll m' ops
      some (last, reply :: replies)

/-- A machine can be made from any source of random bytes. -/
theorem boot_eq (random : Generator) : boot random = some (.boot random) := by
  rw [boot, blank_eq]
  rfl

/-- A key of any code can be reported down. -/
theorem keyDown_eq (m : Machine) (code : UInt8) : keyDown m code = some (m.keyDown code) := by
  unfold keyDown Machine.keyDown Keypad.press
  rw [setKey_eq]
  simp only [Option.bind_eq_bind, Option.bind_some]
  cases m.keypad.setKey code true with
  | error e => rfl
  | ok keypad =>
      cases m.state with
      | awaitingKey x => simp [Except.map]
      | running | halted => simp [Except.map]

/-- A key of any code can be reported up. -/
theorem keyUp_eq (m : Machine) (code : UInt8) : keyUp m code = some (m.keyUp code) := by
  rw [keyUp, setKey_eq]
  rfl

/-- An operation, whatever the machine and its operands are. -/
theorem perform_eq (m : Machine) (op : Operation) : perform m op = some (m.perform op) := by
  cases op with
  | _ =>
      simp only [perform, load_eq, step_eq, runFrame_eq, execute_eq, fetch_eq, tickTimers_eq,
        keyDown_eq, keyUp_eq, write_eq, push_eq, pop_eq, setRegister_eq, Option.bind_eq_bind,
        Option.bind_some]
      rfl

/-- No sequence of operations goes wrong. -/
theorem performAll_eq (m : Machine) (ops : List Operation) :
    performAll m ops = some (m.performAll ops) := by
  induction ops generalizing m with
  | nil => rfl
  | cons op ops ih =>
      simp only [performAll, perform_eq, ih, Option.bind_eq_bind, Option.bind_some]
      rfl

/-- **No operation goes wrong.**  From a fresh machine, with whatever source of random
bytes, every sequence of loads, steps, frames, fetches, instructions with any operands,
writes to memory, pushes and pops, ticks and key reports, with the program counter, the
index register, the registers and the timers set to anything in between, comes through
with guarded acts: every array is accessed inside its bounds, every range that is copied
or cut out is well formed, and no plain sum, product, difference or shift leaves its
word.  What comes of it is what the machine gives, and a look at any address and at any
place of the picture comes through as well. -/
theorem no_operation_goes_wrong (random : Generator) (ops : List Operation) :
    ((boot random).bind fun m => performAll m ops) = some ((Machine.boot random).performAll ops) ∧
    (∀ a, read ((Machine.boot random).performAll ops).1.memory a =
      some (((Machine.boot random).performAll ops).1.memory.read a)) ∧
    ∀ x y, pixel ((Machine.boot random).performAll ops).1.raster x y =
      some (((Machine.boot random).performAll ops).1.raster.pixel x y) := by
  refine ⟨?_, fun a => read_eq _ a, fun x y => pixel_eq _ x y⟩
  rw [boot_eq]
  exact performAll_eq _ ops

end Operations

end Chip8.Guarded
