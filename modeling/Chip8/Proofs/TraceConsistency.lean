import Chip8.Proofs.Decoding
import Chip8.Proofs.Halted
import Chip8.Proofs.KeyWait

/-!
# What traces and faults tell

A step fills in its trace piece by piece and may be stopped after each piece, and the
trace is kept before it is known how the step ends.  In every state that a run reaches
the pieces still fit together: the trace tells the word that was fetched and the
instruction that was decoded from it, and the fault of a halted machine is the error
that belongs to a trace of its shape.

* `Instruction.StoppedBy` — which errors stop which instructions;
* `Machine.step_traced` — the trace that a step leaves, and how it fits the outcome;
* `Machine.Traced` — what is kept from one move to the next;
* `Machine.exists_halting_step` — a halt comes from a step earlier in the run;
* `Machine.trace_tells_fault` — traces and faults at every moment of a run.
-/

namespace Chip8

/-- A trace without a word has no instruction, and one with a word has the instruction
that the word stands for, if it stands for one. -/
structure Trace.Consistent (t : Trace) : Prop where
  unfetched : t.opcode = none → t.instruction = none
  fetched : ∀ word, t.opcode = some word → t.instruction = (Instruction.decode word).toOption

namespace Instruction

theorem toOption_decode (word : Opcode) : (decode word).toOption = decode? word := by
  unfold decode
  split
  · next h => exact h.symm
  · next h => exact h.symm

/-- The errors that can stop an instruction. -/
inductive StoppedBy : Instruction → MachineError → Prop
  | call (target : Address) : StoppedBy (.call target) .stackOverflow
  | ret : StoppedBy .ret .stackUnderflow
  | storeDecimalReserved (x : Reg) (a : Nat) : StoppedBy (.storeDecimal x) (.reservedWrite a)
  | storeReserved (x : Reg) (a : Nat) : StoppedBy (.store x) (.reservedWrite a)
  | storeDecimalBeyond (x : Reg) (a : Nat) : StoppedBy (.storeDecimal x) (.outOfBounds a)
  | storeBeyond (x : Reg) (a : Nat) : StoppedBy (.store x) (.outOfBounds a)
  | loadBeyond (x : Reg) (a : Nat) : StoppedBy (.load x) (.outOfBounds a)
  | drawBeyond (x y : Reg) (height : UInt8) (a : Nat) :
      StoppedBy (.draw x y height) (.outOfBounds a)

/-- Whether an instruction writes to memory. -/
def isStore : Instruction → Bool
  | .storeDecimal _ | .store _ => true
  | _ => false

/-- Whether an instruction reads bytes from memory. -/
def isRead : Instruction → Bool
  | .load _ | .draw .. => true
  | _ => false

namespace StoppedBy

variable {i : Instruction} {e : MachineError}

/-- The stack overflows with a call, and with nothing else. -/
theorem overflow_iff (h : i.StoppedBy e) : e = .stackOverflow ↔ ∃ target, i = .call target := by
  cases h <;> simp

/-- The stack underflows with a return, and with nothing else. -/
theorem underflow_iff (h : i.StoppedBy e) : e = .stackUnderflow ↔ i = .ret := by
  cases h <;> simp

/-- Only the two stores are kept from the font. -/
theorem isStore_of_reserved {a : Nat} (h : i.StoppedBy (.reservedWrite a)) :
    i.isStore = true := by
  cases h <;> rfl

/-- Only the two stores, the load and the draw reach beyond memory. -/
theorem isStore_or_isRead_of_beyond {a : Nat} (h : i.StoppedBy (.outOfBounds a)) :
    i.isStore = true ∨ i.isRead = true := by
  cases h with
  | storeDecimalBeyond | storeBeyond => exact Or.inl rfl
  | loadBeyond | drawBeyond => exact Or.inr rfl

end StoppedBy

end Instruction

/-- The error with which an instruction is refused is one of those that can stop it. -/
theorem Machine.stoppedBy_of_refusal {m : Machine} {i : Instruction} {e : MachineError}
    (h : m.refusal i = some e) : i.StoppedBy e := by
  cases i with
  | call target =>
      simp only [refusal_call, Option.ite_none_right_eq_some, Option.some.injEq] at h
      rw [← h.2]
      exact .call target
  | ret =>
      simp only [refusal_ret, Option.ite_none_right_eq_some, Option.some.injEq] at h
      rw [← h.2]
      exact .ret
  | storeDecimal x =>
      obtain ⟨-, ⟨-, rfl⟩ | ⟨-, -, rfl⟩⟩ := Memory.writeRefusal_eq_some_iff.1 h
      · exact .storeDecimalReserved x _
      · exact .storeDecimalBeyond x _
  | store x =>
      obtain ⟨-, ⟨-, rfl⟩ | ⟨-, -, rfl⟩⟩ := Memory.writeRefusal_eq_some_iff.1 h
      · exact .storeReserved x _
      · exact .storeBeyond x _
  | load x =>
      obtain ⟨-, -, rfl⟩ := Memory.readRefusal_eq_some_iff.1 h
      exact .loadBeyond x _
  | draw x y height =>
      obtain ⟨-, -, rfl⟩ := Memory.readRefusal_eq_some_iff.1 h
      exact .drawBeyond x y height _
  | _ => cases h

/-- The error of a fault belongs to the shape of its trace. -/
structure Fault.FitsTrace (f : Fault) : Prop where
  /-- Without a word the trace starts where there is none. -/
  unfetched : f.trace.opcode = none → 4095 ≤ f.trace.address.toNat ∧
    f.cause = .outOfBounds (max f.trace.address.toNat 4096)
  /-- A word without an instruction is the one that is reported as unknown. -/
  undecoded : ∀ word, f.trace.opcode = some word ∧ f.trace.instruction = none ↔
    f.cause = .unknownOpcode word
  overflow : ∀ i, f.trace.instruction = some i →
    (f.cause = .stackOverflow ↔ ∃ target, i = .call target)
  underflow : ∀ i, f.trace.instruction = some i → (f.cause = .stackUnderflow ↔ i = .ret)
  reserved : ∀ i a, f.trace.instruction = some i → f.cause = .reservedWrite a → i.isStore = true
  beyond : ∀ i a, f.trace.instruction = some i → f.cause = .outOfBounds a →
    i.isStore = true ∨ i.isRead = true
  fits : ∀ size capacity, f.cause ≠ .programTooLarge size capacity
  isKey : ∀ code, f.cause ≠ .notAKey code

section Shapes

variable {a : Address} {word : Opcode} {i : Instruction} {e : MachineError}

/-- A trace of an address alone is consistent. -/
theorem Trace.consistent_unfetched (a : Address) : Trace.Consistent { address := a } where
  unfetched _ := rfl
  fetched _ h := by cases h

/-- A trace of a word and what it decodes to is consistent. -/
theorem Trace.consistent_fetched (a : Address) (word : Opcode) :
    Trace.Consistent
      { address := a, opcode := some word, instruction := Instruction.decode? word } where
  unfetched h := by cases h
  fetched w h := by
    cases h
    exact (Instruction.toOption_decode word).symm

/-- Where no word could be fetched, the fault is beyond memory. -/
theorem Fault.fitsTrace_unfetched (ha : 4095 ≤ a.toNat) :
    Fault.FitsTrace ⟨{ address := a }, .outOfBounds (max a.toNat 4096)⟩ := by
  constructor
  case unfetched => exact fun _ => ⟨ha, rfl⟩
  all_goals simp

/-- Where the word is no instruction, the fault names it. -/
theorem Fault.fitsTrace_undecoded (a : Address) (word : Opcode) :
    Fault.FitsTrace ⟨{ address := a, opcode := some word }, .unknownOpcode word⟩ := by
  constructor <;> simp

/-- Where the instruction was refused, the fault is one that can stop it. -/
theorem Fault.fitsTrace_stopped (h : i.StoppedBy e) :
    Fault.FitsTrace ⟨{ address := a, opcode := some word, instruction := some i }, e⟩ := by
  constructor
  case unfetched => simp
  case undecoded =>
    rintro w
    cases h <;> simp
  case overflow =>
    rintro j ⟨⟩
    exact h.overflow_iff
  case underflow =>
    rintro j ⟨⟩
    exact h.underflow_iff
  case reserved =>
    rintro j b ⟨⟩ rfl
    exact h.isStore_of_reserved
  case beyond =>
    rintro j b ⟨⟩ rfl
    exact h.isStore_or_isRead_of_beyond
  case fits => cases h <;> simp
  case isKey => cases h <;> simp

end Shapes

namespace Machine

section Step

variable {m s : Machine} {t : Trace} {i : Instruction} {e : MachineError}

/-- A fetch fails as the read of its word does. -/
theorem fetch_eq_error_iff : m.fetch = .error e ↔ m.memory.word m.pc = .error e := by
  unfold fetch
  cases m.memory.word m.pc <;> simp [Except.map]

/-- How the trace of a step fits the machine before it and its outcome. -/
structure StepTrace (m : Machine) (t : Trace) : Prop where
  kept : m.step.1.lastTrace = some t
  address : t.address = m.pc
  consistent : t.Consistent
  unfetched_iff : t.opcode = none ↔ ∃ e, m.fetch = .error e
  executed : ∀ i, m.step.2 = .ok (.executed i) → t.instruction = some i
  halted : ∀ f, m.step.2 = .error f → f.trace = t ∧ f.FitsTrace

/-- What a step that halts leaves in its trace. -/
theorem stepTrace_of_haltAt (hstep : m.step = s.haltAt t e) (haddress : t.address = m.pc)
    (hconsistent : t.Consistent) (hfetch : t.opcode = none ↔ ∃ e, m.fetch = .error e)
    (hfits : Fault.FitsTrace ⟨t, e⟩) : m.StepTrace t := by
  refine ⟨?_, haddress, hconsistent, hfetch, ?_, ?_⟩
  · rw [hstep]
    rfl
  · intro i h
    rw [hstep] at h
    cases h
  · intro f h
    rw [hstep] at h
    cases h
    exact ⟨rfl, hfits⟩

/-- The step of a running machine leaves a trace that fits it. -/
theorem step_traced (hrun : m.state = .running) : ∃ t, m.StepTrace t := by
  have hfetched : ∀ {word : Opcode}, m.memory.word m.pc = .ok word →
      (some word = none ↔ ∃ e, m.fetch = .error e) := by
    intro word hword
    simp [fetch_eq_error_iff, hword]
  rcases step_cases hrun with ⟨e, hword, hstep⟩ | ⟨word, hword, hdecode, hstep⟩ |
    ⟨word, i, e, hword, hdecode, hrefusal, hstep⟩ | ⟨word, i, hword, hdecode, -, hstep⟩
  · obtain ⟨hpc, rfl⟩ := Memory.word_eq_error_iff.1 hword
    refine ⟨_, stepTrace_of_haltAt hstep rfl (Trace.consistent_unfetched _) ?_
      (Fault.fitsTrace_unfetched hpc)⟩
    exact ⟨fun _ => ⟨_, fetch_eq_error_iff.2 hword⟩, fun _ => rfl⟩
  · have hconsistent := Trace.consistent_fetched m.pc word
    rw [hdecode] at hconsistent
    exact ⟨_, stepTrace_of_haltAt hstep rfl hconsistent (hfetched hword)
      (Fault.fitsTrace_undecoded _ _)⟩
  · have hconsistent := Trace.consistent_fetched m.pc word
    rw [hdecode] at hconsistent
    exact ⟨_, stepTrace_of_haltAt hstep rfl hconsistent (hfetched hword)
      (Fault.fitsTrace_stopped (stoppedBy_of_refusal hrefusal))⟩
  · have hconsistent := Trace.consistent_fetched m.pc word
    rw [hdecode] at hconsistent
    refine ⟨{ address := m.pc, opcode := some word, instruction := some i }, ?_, rfl,
      hconsistent, hfetched hword, ?_, ?_⟩
    · rw [hstep]
      rfl
    · intro j h
      rw [hstep] at h
      cases h
      rfl
    · intro f h
      rw [hstep] at h
      cases h

end Step

section Run

variable {m : Machine} {op : Operation} {ops : List Operation} {n : Nat} {f : Fault}

/-- The last trace fits the state of the run. -/
structure Traced (m : Machine) : Prop where
  consistent : ∀ t, m.lastTrace = some t → t.Consistent
  halted : ∀ f, m.state = .halted f → m.lastTrace = some f.trace
  waiting : ∀ x, m.state = .awaitingKey x →
    ∃ t, m.lastTrace = some t ∧ t.instruction = some (.awaitKey x) ∧ m.pc = t.address.next

/-- A machine that has just been set back has no trace and no fault. -/
theorem traced_start (memory : Memory) (random : Generator) : (start memory random).Traced where
  consistent t h := by cases h
  halted f h := by cases h
  waiting x h := by cases h

/-- A running machine is traced as soon as its last trace is consistent. -/
theorem traced_of_running (hrun : m.state = .running)
    (htrace : ∀ t, m.lastTrace = some t → t.Consistent) : m.Traced where
  consistent := htrace
  halted f h := by
    rw [hrun] at h
    cases h
  waiting x h := by
    rw [hrun] at h
    cases h

/-- A step keeps trace and fault fitting together: it leaves its own, or changes nothing. -/
theorem Traced.step (hm : m.Traced) : m.step.1.Traced := by
  cases hstate : m.state with
  | halted f =>
      rw [step_of_halted hstate]
      exact hm
  | awaitingKey x =>
      rw [step_of_awaitingKey hstate]
      exact hm
  | running =>
      obtain ⟨t, ht⟩ := step_traced hstate
      have hconsistent : ∀ t', m.step.1.lastTrace = some t' → t'.Consistent := by
        intro t' h
        rw [ht.kept] at h
        cases h
        exact ht.consistent
      rcases step_state hstate with hrun | ⟨f, hfault, hhalt⟩ | ⟨x, hexecuted, hwait⟩
      · exact traced_of_running hrun hconsistent
      · refine ⟨hconsistent, ?_, ?_⟩
        · intro f' h
          rw [hhalt] at h
          cases h
          rw [(ht.halted f hfault).1]
          exact ht.kept
        · intro x h
          rw [hhalt] at h
          cases h
      · refine ⟨hconsistent, ?_, ?_⟩
        · intro f h
          rw [hwait] at h
          cases h
        · intro y h
          rw [hwait] at h
          cases h
          refine ⟨t, ht.kept, ht.executed _ hexecuted, ?_⟩
          rw [step_awaitKey hexecuted, ht.address]

/-- A change of the keypad alone does not touch the trace. -/
theorem Traced.keypad (hm : m.Traced) (keypad : Keypad) : { m with keypad := keypad }.Traced :=
  ⟨hm.consistent, hm.halted, hm.waiting⟩

/-- An ordinary move keeps trace and fault fitting together. -/
theorem Traced.move (hm : m.Traced) (hordinary : op.isOrdinary = true)
    (hframe : op.isFrame = false) : (m.perform op).1.Traced := by
  cases op with
  | step => exact hm.step
  | load program =>
      rcases m.perform_load program with hload | hload
      · rw [hload]
        exact traced_start _ _
      · rwa [hload]
  | tick => exact ⟨hm.consistent, hm.halted, hm.waiting⟩
  | takeFrame => exact ⟨hm.consistent, hm.halted, hm.waiting⟩
  | keyUp code =>
      obtain ⟨keypad, hkeypad⟩ := m.perform_keyUp code
      rw [hkeypad]
      exact hm.keypad keypad
  | keyDown code =>
      rcases m.perform_keyDown code with ⟨keypad, hdown⟩ | ⟨x, keypad, registers, -, hdown⟩
      · rw [hdown]
        exact hm.keypad keypad
      · rw [hdown]
        exact traced_of_running rfl hm.consistent
  | runFrame => cases hframe
  | _ => cases hordinary

/-- A machine halts only in a step that fails. -/
theorem halted_or_step_of_perform (hordinary : op.isOrdinary = true) (hframe : op.isFrame = false)
    (h : (m.perform op).1.state = .halted f) :
    m.state = .halted f ∨ op = .step ∧ m.state = .running ∧ m.step.2 = .error f := by
  cases op with
  | step =>
      change m.step.1.state = .halted f at h
      cases hstate : m.state with
      | halted g =>
          rw [step_of_halted hstate, hstate] at h
          exact Or.inl h
      | awaitingKey x =>
          rw [step_of_awaitingKey hstate, hstate] at h
          cases h
      | running =>
          rcases step_state hstate with hrun | ⟨g, hfault, hhalt⟩ | ⟨x, -, hwait⟩
          · rw [hrun] at h
            cases h
          · rw [hhalt] at h
            cases h
            exact Or.inr ⟨rfl, rfl, hfault⟩
          · rw [hwait] at h
            cases h
  | load program =>
      rcases m.perform_load program with hload | hload
      · rw [hload] at h
        cases h
      · rw [hload] at h
        exact Or.inl h
  | tick => exact Or.inl h
  | takeFrame => exact Or.inl h
  | keyUp code =>
      obtain ⟨keypad, hkeypad⟩ := m.perform_keyUp code
      rw [hkeypad] at h
      exact Or.inl h
  | keyDown code =>
      rcases m.perform_keyDown code with ⟨keypad, hdown⟩ | ⟨x, keypad, registers, -, hdown⟩
      · rw [hdown] at h
        exact Or.inl h
      · rw [hdown] at h
        cases h
  | runFrame => cases hframe
  | _ => cases hordinary

/-- The halt of a machine that has not halted at first comes from a step on the way. -/
theorem exists_halting_step (hops : ∀ op ∈ ops, op.isOrdinary = true)
    (hstart : m.state = .running) (h : (m.moment ops n).state = .halted f) :
    ∃ k < n, (m.moves ops)[k]? = some .step ∧ (m.moment ops k).state = .running ∧
      (m.moment ops k).step.2 = .error f := by
  induction n with
  | zero =>
      rw [moment_zero, hstart] at h
      cases h
  | succ n ih =>
      have hearlier : (m.moment ops n).state = .halted f → ∃ k < n + 1,
          (m.moves ops)[k]? = some .step ∧ (m.moment ops k).state = .running ∧
          (m.moment ops k).step.2 = .error f := by
        intro hn
        obtain ⟨k, hk, hstep⟩ := ih hn
        exact ⟨k, Nat.lt_succ_of_lt hk, hstep⟩
      cases hmove : (m.moves ops)[n]? with
      | none =>
          rw [moment_of_no_move hmove] at h
          exact hearlier h
      | some op =>
          rw [moment_of_move hmove] at h
          obtain ⟨hordinary, hframe⟩ := isOrdinary_of_mem_moves hops (List.mem_of_getElem? hmove)
          rcases halted_or_step_of_perform hordinary hframe h with hn | ⟨rfl, hrun, hfault⟩
          · exact hearlier hn
          · exact ⟨n, Nat.lt_succ_self n, hmove, hrun, hfault⟩

/-- Trace and fault fit together at every moment of a run. -/
theorem traced_moment (hops : ∀ op ∈ ops, op.isOrdinary = true) (hm : m.Traced) (n : Nat) :
    (m.moment ops n).Traced := by
  refine moment_preserves ?_ hm n
  intro move hmove m' hm'
  obtain ⟨hordinary, hframe⟩ := isOrdinary_of_mem_moves hops hmove
  exact hm'.move hordinary hframe

/-- **Traces and faults fit together.**  Look at the machine at any moment of any
ordinary operations on a fresh machine, the machine after each operation among them.  The
last trace tells the word that was fetched and the instruction that the word stands for.
The fault of a halted machine carries this trace, its error belongs to the shape of the
trace, and it is the fault of a step on the way, which found no word exactly if the trace
has none.  Where a key is awaited, the trace is that of the instruction `FX0A` before the
program counter. -/
theorem trace_tells_fault (random : Generator) (hops : ∀ op ∈ ops, op.isOrdinary = true)
    (n : Nat) :
    (∀ t, ((boot random).moment ops n).lastTrace = some t → t.Consistent) ∧
    (∀ f, ((boot random).moment ops n).state = .halted f →
      ((boot random).moment ops n).lastTrace = some f.trace ∧ f.FitsTrace ∧
      ∃ k < n, ((boot random).moves ops)[k]? = some .step ∧
        ((boot random).moment ops k).step.2 = .error f ∧
        f.trace.address = ((boot random).moment ops k).pc ∧
        (f.trace.opcode = none ↔ ∃ e, ((boot random).moment ops k).fetch = .error e)) ∧
    (∀ x, ((boot random).moment ops n).state = .awaitingKey x →
      ∃ t, ((boot random).moment ops n).lastTrace = some t ∧
        t.instruction = some (.awaitKey x) ∧
        ((boot random).moment ops n).pc = t.address.next) ∧
    ∀ k, (boot random).moment ops ((boot random).movesBefore ops k) =
      (boot random).after (ops.take k) := by
  have hboot : (boot random).Traced := traced_start _ _
  have htraced := traced_moment hops hboot n
  refine ⟨htraced.consistent, ?_, htraced.waiting, (boot random).moment_movesBefore ops⟩
  intro f hhalt
  obtain ⟨k, hk, hmove, hrun, hfault⟩ := exists_halting_step hops rfl hhalt
  obtain ⟨t, ht⟩ := step_traced hrun
  obtain ⟨rfl, hfits⟩ := ht.halted f hfault
  exact ⟨htraced.halted f hhalt, hfits, k, hk, hmove, hfault, ht.address, ht.unfetched_iff⟩

/-- A machine at the jump `1FFF` to the last byte of memory. -/
def atLastByteJump : Machine :=
  start (.fresh #[0x1F, 0xFF]) (.ofSeed 7)

/-- The fault of fetching a word at the last byte of memory. -/
def lastByteFault : Fault where
  trace := { address := 0x0FFF }
  cause := .outOfBounds 4096

/-- Behind the jump the step finds no word, and halts. -/
theorem atLastByteJump_halts :
    (atLastByteJump.step.1.tick).step.1.state = .halted lastByteFault := by
  have hword : atLastByteJump.memory.word atLastByteJump.pc = .ok 0x1FFF :=
    Memory.word_fresh (by decide) rfl
  rw [step_of_executed rfl hword rfl rfl]
  have hbehind : (atLastByteJump.fetched.execute (.jump 0x0FFF)).1.memory.word 0x0FFF =
      .error (.outOfBounds 4096) := Memory.word_eq_error_iff.2 ⟨by decide, rfl⟩
  exact congrArg (fun result => result.1.state) (step_of_unfetched rfl hbehind)

/-- After a jump to the last byte of memory the next step finds no word there. -/
theorem lastByteFault_told :
    let ops : List Operation := [.load #[0x1F, 0xFF], .step, .tick, .step]
    (∀ op ∈ ops, op.isOrdinary = true) ∧
    ((boot (.ofSeed 7)).moment ops 4).state = .halted lastByteFault ∧
    ((boot (.ofSeed 7)).moment ops 4).lastTrace = some lastByteFault.trace ∧
    lastByteFault.cause = .outOfBounds (max 0x0FFF 4096) ∧
    ∃ k < 4, ∃ e, ((boot (.ofSeed 7)).moment ops k).fetch = .error e := by
  intro ops
  have hops : ∀ op ∈ ops, op.isOrdinary = true := by decide
  have hfits : (#[0x1F, 0xFF] : Array UInt8).size ≤ Memory.programCapacity := by decide
  have hload : ((boot (.ofSeed 7)).perform (.load #[0x1F, 0xFF])).1 = atLastByteJump := by
    rw [perform_load_of_fits _ hfits]
    rfl
  have hhalt : ((boot (.ofSeed 7)).moment ops 4).state = .halted lastByteFault := by
    have hmoment (m : Machine) (program : Array UInt8) :
        m.moment [.load program, .step, .tick, .step] 4 =
          ((m.perform (.load program)).1.step.1.tick).step.1 := rfl
    rw [hmoment, hload]
    exact atLastByteJump_halts
  obtain ⟨-, hfaults, -⟩ := trace_tells_fault (.ofSeed 7) hops 4
  obtain ⟨htrace, hfits, k, hk, -, -, -, hfetch⟩ := hfaults _ hhalt
  exact ⟨hops, hhalt, htrace, (hfits.unfetched rfl).2, k, hk, hfetch.1 rfl⟩

end Run

end Machine

end Chip8
