import Chip8.Machine.Step

/-!
# Operations

All that a host can do to a machine, as data: load a program, let it step or run
for a frame, execute a single instruction, fetch, tick, report keys, take the
picture, and write its memory, registers, timers and call stack.  A sequence of
operations is a list, so a statement about all lists is one about every state
that the machine passes through.

* `Machine.perform`, `Machine.performAll` — one operation and a sequence of
  them, each with its reply;
* `Machine.performAll_preserves` — what each operation preserves, a sequence
  preserves.
-/

namespace Chip8

/-- One thing that a host can do to a machine. -/
inductive Operation where
  | load (program : Array UInt8)
  | step
  | runFrame (steps ticks : Nat)
  | execute (i : Instruction)
  | fetch
  | tick
  | keyDown (code : UInt8)
  | keyUp (code : UInt8)
  | takeFrame
  | write (a : Nat) (b : UInt8)
  | push (a : Address)
  | pop
  | setPc (a : Address)
  | setIndex (a : Address)
  | setReg (x : Reg) (b : UInt8)
  | setDelay (b : UInt8)
  | setSound (b : UInt8)
  deriving DecidableEq, Repr

/-- What an operation answers. -/
inductive Reply where
  | done
  | refused (e : MachineError)
  | faulted (f : Fault)
  | status (s : Status)
  | word (word : Opcode)
  | address (a : Address)
  | frame (r : Option Raster)
  deriving DecidableEq, Repr

namespace Reply

/-- The answer of an operation that is refused with an error, if at all. -/
def ofError? : Option MachineError → Reply
  | none => .done
  | some e => .refused e

/-- The answer of an operation that ends with a fault, if at all. -/
def ofFault? : Option Fault → Reply
  | none => .done
  | some f => .faulted f

/-- The answer of a step. -/
def ofStep : Except Fault Status → Reply
  | .ok s => .status s
  | .error f => .faulted f

end Reply

namespace Machine

/-- Go on with a result.  An operation that is refused leaves the machine as it
is. -/
def proceed {α : Type} (m : Machine) (result : Except MachineError α)
    (next : α → Machine × Reply) : Machine × Reply :=
  match result with
  | .ok a => next a
  | .error e => (m, .refused e)

/-- Perform one operation. -/
def perform (m : Machine) : Operation → Machine × Reply
  | .load program => m.proceed (m.load program) fun m' => (m', .done)
  | .step => (m.step.1, .ofStep m.step.2)
  | .runFrame steps ticks =>
      ((m.runFrame steps ticks).1, .ofFault? (m.runFrame steps ticks).2)
  | .execute i => ((m.execute i).1, .ofError? (m.execute i).2)
  | .fetch => m.proceed m.fetch fun (word, m') => (m', .word word)
  | .tick => (m.tick, .done)
  | .keyDown code => m.proceed (m.keyDown code) fun m' => (m', .done)
  | .keyUp code => m.proceed (m.keyUp code) fun m' => (m', .done)
  | .takeFrame => (m.takeFrame.2, .frame m.takeFrame.1)
  | .write a b =>
      m.proceed (m.memory.write a b) fun memory => ({ m with memory := memory }, .done)
  | .push a => m.proceed (m.stack.push a) fun stack => ({ m with stack := stack }, .done)
  | .pop => m.proceed m.stack.pop fun (a, stack) => ({ m with stack := stack }, .address a)
  | .setPc a => ({ m with pc := a }, .done)
  | .setIndex a => ({ m with index := a }, .done)
  | .setReg x b => (m.setReg x b, .done)
  | .setDelay b => ({ m with timers := { m.timers with delay := ⟨b⟩ } }, .done)
  | .setSound b => ({ m with timers := { m.timers with sound := ⟨b⟩ } }, .done)

/-- Perform operations one after the other: the machine afterwards, and the
answers in order. -/
def performAll (m : Machine) : List Operation → Machine × List Reply
  | [] => (m, [])
  | op :: ops =>
      let (m', reply) := m.perform op
      let (last, replies) := m'.performAll ops
      (last, reply :: replies)

/-- What every operation preserves holds after all of them. -/
theorem performAll_preserves {P : Machine → Prop} {ops : List Operation}
    (hop : ∀ op ∈ ops, ∀ m, P m → P (m.perform op).1) {m : Machine} (hm : P m) :
    P (m.performAll ops).1 := by
  induction ops generalizing m with
  | nil => exact hm
  | cons op ops ih =>
      have hnext : P (m.perform op).1 := hop op List.mem_cons_self m hm
      exact ih (fun op' h => hop op' (List.mem_cons_of_mem op h)) hnext

/-- What holds before a step that can be refused, and after it where it goes through, holds
behind it. -/
theorem proceed_preserves {α : Type} {P : Machine → Prop} {m : Machine}
    {result : Except MachineError α} {next : α → Machine × Reply} (hm : P m)
    (hnext : ∀ a, result = .ok a → P (next a).1) : P (m.proceed result next).1 := by
  cases result with
  | error e => exact hm
  | ok a => exact hnext a rfl

section Effects

variable {m m' : Machine}

/-- A program that is not too large is loaded by starting afresh with the same random
bytes. -/
theorem load_of_fits {program : Array UInt8} (m : Machine)
    (hfits : program.size ≤ Memory.programCapacity) :
    m.load program = .ok (start (.fresh program) m.random) := by
  simp [load, Memory.load, Nat.not_lt.2 hfits, Except.map, reset_eq_start]

/-- A program that is too large is refused with its size. -/
theorem load_of_large {program : Array UInt8} (m : Machine)
    (hlarge : Memory.programCapacity < program.size) :
    m.load program = .error (.programTooLarge program.size Memory.programCapacity) := by
  simp [load, Memory.load, hlarge, Except.map]

theorem perform_load_of_fits {program : Array UInt8} (m : Machine)
    (hfits : program.size ≤ Memory.programCapacity) :
    m.perform (.load program) = (start (.fresh program) m.random, .done) := by
  simp only [perform, m.load_of_fits hfits, proceed]

/-- A load starts the machine over, or leaves it as it is. -/
theorem perform_load (m : Machine) (program : Array UInt8) :
    (m.perform (.load program)).1 = start (.fresh program) m.random ∨
      (m.perform (.load program)).1 = m := by
  by_cases hfits : program.size ≤ Memory.programCapacity
  · rw [m.perform_load_of_fits hfits]
    exact Or.inl rfl
  · right
    simp only [perform, m.load_of_large (Nat.lt_of_not_le hfits), proceed]

/-- What is known of a load that went through. -/
theorem load_eq_ok {program : Array UInt8} (h : m.load program = .ok m') :
    program.size ≤ Memory.programCapacity ∧ m' = start (.fresh program) m.random := by
  by_cases hlarge : Memory.programCapacity < program.size
  · rw [m.load_of_large hlarge] at h
    cases h
  · have hfits := Nat.not_lt.1 hlarge
    rw [m.load_of_fits hfits] at h
    exact ⟨hfits, (Except.ok.inj h).symm⟩

/-- What is known of a fetch that went through. -/
theorem fetch_eq_ok {word : Opcode} (h : m.fetch = .ok (word, m')) :
    m.memory.word m.pc = .ok word ∧ m' = { m with pc := m.pc.next } := by
  unfold fetch at h
  cases hword : m.memory.word m.pc with
  | error e => simp [hword, Except.map] at h
  | ok w =>
      simp only [hword, Except.map, Except.ok.injEq, Prod.mk.injEq] at h
      exact ⟨congrArg _ h.1, h.2.symm⟩

/-- A key that goes down changes the keypad and, if the machine waits for a key,
the awaited register and the state. -/
theorem keyDown_eq_ok {code : UInt8} (h : m.keyDown code = .ok m') :
    ∃ keypad, m.keypad.press code = .ok keypad ∧
      ((∃ x, m.state = .awaitingKey x ∧ m' = { m with
        keypad := keypad, registers := m.registers.set x code, state := .running }) ∨
      (∀ x, m.state ≠ .awaitingKey x) ∧ m' = { m with keypad := keypad }) := by
  unfold keyDown at h
  cases hpress : m.keypad.press code with
  | error e => simp [hpress, Except.map] at h
  | ok keypad =>
      refine ⟨keypad, rfl, ?_⟩
      simp only [hpress, Except.map, Except.ok.injEq] at h
      split at h
      · next x hstate => exact Or.inl ⟨x, hstate, h.symm⟩
      · next hstate => exact Or.inr ⟨hstate, h.symm⟩

/-- What is known of a key report that went through: the keypad alone has changed. -/
theorem keyUp_eq_ok {code : UInt8} (h : m.keyUp code = .ok m') :
    ∃ keypad, m.keypad.release code = .ok keypad ∧ m' = { m with keypad := keypad } := by
  unfold keyUp at h
  cases hrelease : m.keypad.release code with
  | error e => simp [hrelease, Except.map] at h
  | ok keypad =>
      simp only [hrelease, Except.map, Except.ok.injEq] at h
      exact ⟨keypad, rfl, h.symm⟩

end Effects

end Machine

end Chip8
