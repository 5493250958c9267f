import Chip8.Machine.Step
import Chip8.Proofs.PartialTransfer

/-!
# What stops an instruction, and what a step does

`Machine.refusal` says for each instruction what stops it, from the call stack
and the index register alone.  With it a step of a running machine is one of
four equations:

* `Machine.step_of_unfetched` — there is no word at the program counter;
* `Machine.step_of_undecoded` — the word is no instruction;
* `Machine.step_of_refused` — the instruction is stopped;
* `Machine.step_of_executed` — the instruction is carried out.

`Machine.FetchesAt` reads off the trace where the next step fetches.
-/

namespace Chip8.Machine

/-- What stops an instruction, if anything does. -/
def refusal (m : Machine) : Instruction → Option MachineError
  | .call _ => if m.stack.depth = 16 then some .stackOverflow else none
  | .ret => if m.stack.depth = 0 then some .stackUnderflow else none
  | .draw _ _ height => Memory.readRefusal m.index.toNat height.toNat
  | .storeDecimal _ => Memory.writeRefusal m.index.toNat 3
  | .store x => Memory.writeRefusal m.index.toNat (x.val + 1)
  | .load x => Memory.readRefusal m.index.toNat (x.val + 1)
  | _ => none

theorem refusal_call (m : Machine) (a : Address) :
    m.refusal (.call a) = if m.stack.depth = 16 then some .stackOverflow else none :=
  rfl

theorem refusal_ret (m : Machine) :
    m.refusal .ret = if m.stack.depth = 0 then some .stackUnderflow else none :=
  rfl

theorem refusal_draw (m : Machine) (x y : Reg) (height : UInt8) :
    m.refusal (.draw x y height) = Memory.readRefusal m.index.toNat height.toNat :=
  rfl

/-- A call fails as its refusal foretells. -/
theorem enter_refusal (m : Machine) (a : Address) :
    (m.enter a).2 = m.refusal (.call a) := by
  have hdepth := m.stack.depth_le
  rw [refusal_call]
  unfold enter CallStack.push
  by_cases h : m.stack.depth < 16
  · simp [h, Nat.ne_of_lt h]
  · simp [Nat.le_antisymm hdepth (Nat.le_of_not_lt h)]

/-- A return fails as its refusal foretells. -/
theorem leave_refusal (m : Machine) : m.leave.2 = m.refusal .ret := by
  rw [refusal_ret]
  unfold leave CallStack.pop
  split
  · next heq => split at heq <;> simp_all
  · next heq => split at heq <;> simp_all

/-- A draw fails as its refusal foretells. -/
theorem drawSprite_refusal (m : Machine) (x y : Reg) (height : UInt8) :
    (m.drawSprite x y height).2 = m.refusal (.draw x y height) := by
  have herror := @Memory.slice_eq_error_iff m.memory m.index.toNat height.toNat
  simp only [drawSprite, setReg, refusal_draw]
  cases hslice : m.memory.slice m.index.toNat height.toNat with
  | ok sprite =>
      cases hread : Memory.readRefusal m.index.toNat height.toNat with
      | none => rfl
      | some e =>
          rw [herror.2 hread] at hslice
          cases hslice
  | error e => exact (herror.1 hslice).symm

/-- **Refusal of an instruction.**  Executing an instruction fails exactly as
`refusal` says. -/
theorem execute_refusal (m : Machine) (i : Instruction) : (m.execute i).2 = m.refusal i := by
  cases i with
  | call a => exact enter_refusal m a
  | ret => exact leave_refusal m
  | draw x y height => exact drawSprite_refusal m x y height
  | storeDecimal x => exact m.storeBytes_refusal _
  | store x =>
      have hlength : (x.upTo.map m.reg).length = x.val + 1 := by
        rw [List.length_map, Reg.length_upTo]
      exact (m.storeBytes_refusal _).trans (congrArg _ hlength)
  | load x => exact m.loadRegisters_refusal x
  | _ => rfl

/-- An instruction that is stopped leaves the program counter and the call stack as they
are. -/
theorem execute_control_of_refusal {m : Machine} {i : Instruction} {e : MachineError}
    (h : m.refusal i = some e) :
    (m.execute i).1.pc = m.pc ∧ (m.execute i).1.stack = m.stack := by
  have hstopped : (m.execute i).2 ≠ none := by
    rw [execute_refusal, h]
    exact Option.some_ne_none e
  have hsame := m.sameOutside_execute i
  cases i with
  | call a =>
      rw [m.execute_of_stopped (Or.inr ⟨a, rfl⟩) hstopped]
      exact ⟨rfl, rfl⟩
  | ret =>
      rw [m.execute_of_stopped (Or.inl rfl) hstopped]
      exact ⟨rfl, rfl⟩
  | draw | storeDecimal | store | load =>
      exact ⟨hsame .pc (by simp [Instruction.footprint]),
        hsame .stack (by simp [Instruction.footprint])⟩
  | _ => cases h

/-- The machine behind the word that it has just fetched. -/
def fetched (m : Machine) : Machine :=
  { m with pc := m.pc.next }

/-- Whether an instruction is refused does not depend on the program counter. -/
@[simp] theorem refusal_fetched (m : Machine) (i : Instruction) :
    m.fetched.refusal i = m.refusal i := by
  cases i <;> rfl

/-- An instruction that has been fetched fails as its refusal foretells. -/
theorem execute_fetched_refusal (m : Machine) (i : Instruction) :
    (m.fetched.execute i).2 = m.refusal i := by
  rw [execute_refusal, refusal_fetched]

/-- What a step comes to that got as far as `t` and failed. -/
def haltAt (m : Machine) (t : Trace) (e : MachineError) : Machine × Except Fault Status :=
  ({ m with lastTrace := some t, state := .halted ⟨t, e⟩ }, .error ⟨t, e⟩)

/-- What a step comes to that got as far as `t` and carried out `i`. -/
def passAt (m : Machine) (t : Trace) (i : Instruction) : Machine × Except Fault Status :=
  ({ m with lastTrace := some t }, .ok (.executed i))

section Step

variable {m : Machine} {word : Opcode} {i : Instruction} {e : MachineError}

/-- A halted machine gives its fault again. -/
theorem step_of_halted {f : Fault} (hstate : m.state = .halted f) : m.step = (m, .error f) := by
  simp [step, hstate]

/-- A machine that awaits a key goes on waiting. -/
theorem step_of_awaitingKey {x : Reg} (hstate : m.state = .awaitingKey x) :
    m.step = (m, .ok .waiting) := by
  simp [step, hstate]

/-- Where no word can be fetched, the step halts with the address alone in its trace. -/
theorem step_of_unfetched (hrun : m.state = .running) (hword : m.memory.word m.pc = .error e) :
    m.step = m.haltAt { address := m.pc } e := by
  simp [step, hrun, cycle, fetch, hword, haltAt, Except.map]

/-- Where the word is no instruction, the step halts with the word in its trace. -/
theorem step_of_undecoded (hrun : m.state = .running) (hword : m.memory.word m.pc = .ok word)
    (hdecode : Instruction.decode? word = none) :
    m.step = m.fetched.haltAt { address := m.pc, opcode := some word } (.unknownOpcode word) := by
  simp [step, hrun, cycle, fetch, hword, Instruction.decode, hdecode, haltAt, fetched, Except.map]

/-- A step that decodes an instruction goes on to execute it. -/
theorem cycle_of_decoded (hword : m.memory.word m.pc = .ok word)
    (hdecode : Instruction.decode? word = some i) :
    m.cycle = ⟨(m.fetched.execute i).1,
      { address := m.pc, opcode := some word, instruction := some i },
      (m.refusal i).elim (.ok i) .error⟩ := by
  rw [← execute_fetched_refusal]
  simp only [cycle, fetch, hword, Except.map, Instruction.decode, hdecode]
  cases hexecute : m.fetched.execute i with
  | mk executed failure =>
      unfold fetched at hexecute
      rw [hexecute]
      cases failure <;> rfl

/-- Where the instruction is refused, the step halts with the instruction in its trace. -/
theorem step_of_refused (hrun : m.state = .running) (hword : m.memory.word m.pc = .ok word)
    (hdecode : Instruction.decode? word = some i) (hrefusal : m.refusal i = some e) :
    m.step = (m.fetched.execute i).1.haltAt
      { address := m.pc, opcode := some word, instruction := some i } e := by
  simp [step, hrun, cycle_of_decoded hword hdecode, hrefusal, haltAt]

/-- Where nothing fails, the step carries out the instruction and records it. -/
theorem step_of_executed (hrun : m.state = .running) (hword : m.memory.word m.pc = .ok word)
    (hdecode : Instruction.decode? word = some i) (hrefusal : m.refusal i = none) :
    m.step = (m.fetched.execute i).1.passAt
      { address := m.pc, opcode := some word, instruction := some i } i := by
  simp [step, hrun, cycle_of_decoded hword hdecode, hrefusal, passAt]

/-- **What a step can do.**  A step of a running machine finds no word, or no
instruction in it, or is stopped while executing it, or carries it out. -/
theorem step_cases (hrun : m.state = .running) :
    (∃ e, m.memory.word m.pc = .error e ∧ m.step = m.haltAt { address := m.pc } e) ∨
    (∃ word, m.memory.word m.pc = .ok word ∧ Instruction.decode? word = none ∧
      m.step = m.fetched.haltAt { address := m.pc, opcode := some word } (.unknownOpcode word)) ∨
    (∃ word i e, m.memory.word m.pc = .ok word ∧ Instruction.decode? word = some i ∧
      m.refusal i = some e ∧
      m.step = (m.fetched.execute i).1.haltAt
        { address := m.pc, opcode := some word, instruction := some i } e) ∨
    (∃ word i, m.memory.word m.pc = .ok word ∧ Instruction.decode? word = some i ∧
      m.refusal i = none ∧
      m.step = (m.fetched.execute i).1.passAt
        { address := m.pc, opcode := some word, instruction := some i } i) := by
  cases hword : m.memory.word m.pc with
  | error e => exact Or.inl ⟨e, rfl, step_of_unfetched hrun hword⟩
  | ok word =>
      right
      cases hdecode : Instruction.decode? word with
      | none => exact Or.inl ⟨word, rfl, hdecode, step_of_undecoded hrun hword hdecode⟩
      | some i =>
          right
          cases hrefusal : m.refusal i with
          | some e =>
              exact Or.inl ⟨word, i, e, rfl, hdecode, hrefusal,
                step_of_refused hrun hword hdecode hrefusal⟩
          | none =>
              exact Or.inr ⟨word, i, rfl, hdecode, hrefusal,
                step_of_executed hrun hword hdecode hrefusal⟩

/-- What there was to a step that carried out `i`. -/
theorem step_eq_of_status (h : m.step.2 = .ok (.executed i)) :
    ∃ word, m.memory.word m.pc = .ok word ∧ Instruction.decode? word = some i ∧
      m.refusal i = none ∧ m.step = (m.fetched.execute i).1.passAt
        { address := m.pc, opcode := some word, instruction := some i } i := by
  cases hstate : m.state with
  | halted f =>
      rw [step_of_halted hstate] at h
      cases h
  | awaitingKey x =>
      rw [step_of_awaitingKey hstate] at h
      cases h
  | running =>
      rcases step_cases hstate with ⟨e, -, hstep⟩ | ⟨word, -, -, hstep⟩ |
        ⟨word, j, e, -, -, -, hstep⟩ | ⟨word, j, hword, hdecode, hrefusal, hstep⟩
      · rw [hstep] at h
        cases h
      · rw [hstep] at h
        cases h
      · rw [hstep] at h
        cases h
      · have hij : j = i := by
          rw [hstep] at h
          cases h
          rfl
        subst hij
        exact ⟨word, hword, hdecode, hrefusal, hstep⟩

/-- The next step of a machine fetches at `a`. -/
def FetchesAt (m : Machine) (a : Address) : Prop :=
  m.step.2 ≠ .ok .waiting ∧
    ∃ t, m.step.1.lastTrace = some t ∧ t.address = a ∧ t.opcode = (m.memory.word a).toOption

/-- A running machine fetches at its program counter. -/
theorem fetchesAt_pc (hrun : m.state = .running) : m.FetchesAt m.pc := by
  unfold FetchesAt
  rcases step_cases hrun with ⟨e, hword, hstep⟩ | ⟨word, hword, -, hstep⟩ |
    ⟨word, i, e, hword, -, -, hstep⟩ | ⟨word, i, hword, -, -, hstep⟩
  · rw [hstep, hword]
    exact ⟨by simp [haltAt], _, rfl, rfl, rfl⟩
  · rw [hstep, hword]
    exact ⟨by simp [haltAt], _, rfl, rfl, rfl⟩
  · rw [hstep, hword]
    exact ⟨by simp [haltAt], _, rfl, rfl, rfl⟩
  · rw [hstep, hword]
    exact ⟨by simp [passAt], _, rfl, rfl, rfl⟩

end Step

end Chip8.Machine
