import Chip8.Proofs.Standstill

/-!
# A halted machine

A step that fails halts the machine with its fault.  To a host that steps it, runs
frames, ticks, reports keys and takes the picture it is frozen: nothing that the
program has computed changes any more, and every step gives the same fault again.
The state of the run is kept by more than these.  Fetching, writing parts of the
machine and executing single instructions keep it as well, with one exception: the
instruction `FX0A`, executed by itself, puts its wait in the place of the fault.

* `Machine.halted_is_frozen` — what a host that only runs the machine sees of it;
* `Machine.execute_state` — no instruction but `FX0A` changes the state of the run;
* `Machine.stays_halted_iff` — what keeps a halted machine halted, short of a load;
* `Machine.not_forall_stays_halted` — not all that is called on it does.
-/

namespace Chip8

namespace Operation

/-- What has the machine take a step, if it runs. -/
def takesStep : Operation → Bool
  | .step => true
  | .runFrame steps _ => 0 < steps
  | _ => false

/-- A call on the machine other than a load; a frame is many calls, and what writes
parts of the machine is none. -/
def isCall : Operation → Bool
  | .step | .fetch | .execute _ | .tick | .keyDown _ | .keyUp _ | .takeFrame => true
  | _ => false

end Operation

namespace Machine

variable {m : Machine} {f : Fault} {op : Operation} {ops : List Operation}

section Frozen

/-- What would step a halted machine gives its fault and nothing else. -/
theorem perform_takesStep (hhalt : m.state = .halted f) (hop : op.takesStep = true) :
    m.perform op = (m, .faulted f) := by
  cases op with
  | step => simp only [perform, step_of_halted hhalt, Reply.ofStep]
  | runFrame steps ticks =>
      have hpos : 0 < steps := of_decide_eq_true hop
      obtain ⟨n, rfl⟩ := Nat.exists_eq_add_one_of_ne_zero (Nat.ne_of_gt hpos)
      simp only [perform, runFrame_of_halted hhalt, Reply.ofFault?]
  | _ => cases hop

/-- What a host does to a halted machine, short of a load, does not wake it. -/
theorem still_perform_of_halted (hhalt : m.state = .halted f) (hop : op.isOrdinary = true)
    (hload : op.isLoad = false) : m.Still (m.perform op).1 := by
  have hstopped : m.state ≠ .running := by simp [hhalt]
  have hwait : ∀ x, m.state ≠ .awaitingKey x := by simp [hhalt]
  by_cases hkey : op.isKeyReport = true
  · exact still_perform_keyReport hwait hkey
  · cases op with
    | load program => cases hload
    | keyDown code | keyUp code => exact absurd rfl hkey
    | step | runFrame | tick | takeFrame => exact still_perform hstopped rfl
    | _ => cases hop

/-- However much a host does, a halted machine stands still until a load. -/
theorem still_after_of_halted (hhalt : m.state = .halted f)
    (hops : ∀ op ∈ ops, op.isOrdinary = true ∧ op.isLoad = false) : m.Still (m.after ops) := by
  apply still_after
  intro op hop m' hm'
  exact still_perform_of_halted (hm'.trans hhalt) (hops op hop).1 (hops op hop).2

/-- **A halted machine is frozen.**  Whatever a host does to a halted machine other
than loading a program, short of writing parts of it or executing an instruction by
itself, the machine stays halted with its fault.  Only held keys, the mark of the
raster and the timers may change, and the timers only count down.  Every step and
every frame with a step in it gives the fault and does nothing, so that such a frame
does not tick.  A program that fits can still be loaded, and then the machine runs. -/
theorem halted_is_frozen (hhalt : m.state = .halted f)
    (hops : ∀ op ∈ ops, op.isOrdinary = true ∧ op.isLoad = false) :
    (m.after ops).state = .halted f ∧
    m.Still (m.after ops) ∧
    (∀ (k : Nat) (op : Operation), ops[k]? = some op → op.takesStep = true →
      (m.performAll ops).2[k]? = some (.faulted f) ∧
      m.after (ops.take (k + 1)) = m.after (ops.take k)) ∧
    ∀ program : Array UInt8,
      (program.size ≤ Memory.programCapacity → ∃ m', (m.after ops).load program = .ok m') ∧
      ∀ m', (m.after ops).load program = .ok m' → m'.state = .running := by
  have hstill := still_after_of_halted hhalt hops
  refine ⟨hstill.state.trans hhalt, hstill, ?_, ?_⟩
  · intro k op hk hop
    obtain ⟨hlt, rfl⟩ := List.getElem?_eq_some_iff.1 hk
    have hbefore : m.Still (m.after (ops.take k)) :=
      still_after_of_halted hhalt fun op hmem => hops op (List.mem_of_mem_take hmem)
    have hperform := perform_takesStep (hbefore.state.trans hhalt) hop
    constructor
    · rw [reply_getElem?, hk, Option.map_some, hperform]
    · rw [after_take_succ m hlt, hperform]
  · intro program
    constructor
    · intro hfits
      exact ⟨_, load_of_fits _ hfits⟩
    · intro m' hload
      obtain ⟨-, rfl⟩ := load_eq_ok hload
      rfl

/-- The fault of a program that returns from no call. -/
def emptyReturn : Fault where
  trace := { address := 0x200, opcode := some 0x00EE, instruction := some .ret }
  cause := .stackUnderflow

/-- A machine at the return `00EE` with no call under way. -/
def atEmptyReturn : Machine :=
  start (.fresh #[0x00, 0xEE]) (.ofSeed 7)

/-- A return without a call halts the machine. -/
theorem atEmptyReturn_halts : atEmptyReturn.step.1.state = .halted emptyReturn := by
  have hword : atEmptyReturn.memory.word atEmptyReturn.pc = .ok 0x00EE :=
    Memory.word_fresh (by decide) rfl
  have hrun : atEmptyReturn.state = .running := rfl
  rw [step_of_refused hrun hword rfl rfl]
  rfl

/-- The key is not taken and the frame does not tick. -/
theorem emptyReturn_frozen :
    let ops : List Operation := [.keyDown 3, .tick, .runFrame 2 5, .step, .takeFrame]
    atEmptyReturn.step.1.state = .halted emptyReturn ∧
    (∀ op ∈ ops, op.isOrdinary = true ∧ op.isLoad = false) ∧
    (atEmptyReturn.step.1.after ops).state = .halted emptyReturn ∧
    (atEmptyReturn.step.1.after ops).registers = atEmptyReturn.step.1.registers ∧
    atEmptyReturn.step.1.after (ops.take 3) = atEmptyReturn.step.1.after (ops.take 2) ∧
    (atEmptyReturn.step.1.performAll ops).2[3]? = some (.faulted emptyReturn) ∧
    ∃ m', (atEmptyReturn.step.1.after ops).load #[0x12, 0x00] = .ok m' ∧ m'.state = .running := by
  intro ops
  have hops : ∀ op ∈ ops, op.isOrdinary = true ∧ op.isLoad = false := by decide
  obtain ⟨hstate, hstill, hsteps, hload⟩ := halted_is_frozen atEmptyReturn_halts hops
  obtain ⟨m', hm'⟩ := (hload #[0x12, 0x00]).1 (by decide)
  exact ⟨atEmptyReturn_halts, hops, hstate, hstill.registers, (hsteps 2 _ rfl rfl).2,
    (hsteps 3 _ rfl rfl).1, m', hm', (hload _).2 m' hm'⟩

end Frozen

section Leaving

/-- No instruction but the wait for a key changes the state of the run. -/
theorem execute_state {i : Instruction} (hi : ∀ x, i ≠ .awaitKey x) :
    (m.execute i).1.state = m.state := by
  apply m.sameOutside_execute i .state
  cases i with
  | awaitKey x => exact absurd rfl (hi x)
  | _ => simp [Instruction.footprint]

/-- A step leaves the machine running unless it fails or executes `FX0A`. -/
theorem step_state (hrun : m.state = .running) :
    m.step.1.state = .running ∨ (∃ f, m.step.2 = .error f ∧ m.step.1.state = .halted f) ∨
      ∃ x, m.step.2 = .ok (.executed (.awaitKey x)) ∧ m.step.1.state = .awaitingKey x := by
  rcases step_cases hrun with ⟨e, -, hstep⟩ | ⟨word, -, -, hstep⟩ | ⟨word, i, e, -, -, -, hstep⟩ |
    ⟨word, i, -, -, -, hstep⟩
  · rw [hstep]
    exact Or.inr (Or.inl ⟨_, rfl, rfl⟩)
  · rw [hstep]
    exact Or.inr (Or.inl ⟨_, rfl, rfl⟩)
  · rw [hstep]
    exact Or.inr (Or.inl ⟨_, rfl, rfl⟩)
  · rw [hstep]
    by_cases hi : ∃ x, i = .awaitKey x
    · obtain ⟨x, rfl⟩ := hi
      exact Or.inr (Or.inr ⟨x, rfl, rfl⟩)
    · have hother : ∀ x, i ≠ .awaitKey x := fun x h => hi ⟨x, h⟩
      exact Or.inl ((execute_state hother).trans hrun)

/-- No operation but a load and the instruction `FX0A` ends a halt. -/
theorem perform_state_of_halted (hhalt : m.state = .halted f) (hload : op.isLoad = false)
    (hop : ∀ x, op ≠ .execute (.awaitKey x)) : (m.perform op).1.state = .halted f := by
  by_cases hordinary : op.isOrdinary = true
  · exact (still_perform_of_halted hhalt hordinary hload).state.trans hhalt
  · cases op with
    | load | step | runFrame | tick | keyDown | keyUp | takeFrame => exact absurd rfl hordinary
    | execute i =>
        have hi : ∀ x, i ≠ .awaitKey x := fun x h => hop x (congrArg Operation.execute h)
        exact (execute_state hi).trans hhalt
    | fetch =>
        refine proceed_preserves (P := fun m' => m'.state = .halted f) hhalt ?_
        rintro ⟨word, m'⟩ h
        obtain ⟨-, rfl⟩ := fetch_eq_ok h
        exact hhalt
    | write | push | pop =>
        exact proceed_preserves (P := fun m' => m'.state = .halted f) hhalt fun _ _ => hhalt
    | setPc | setIndex | setReg | setDelay | setSound => exact hhalt

/-- Without a load, and without a wait for a key that the host executes, a machine stays
halted. -/
theorem after_state_of_halted (hhalt : m.state = .halted f)
    (hops : ∀ op ∈ ops, op.isLoad = false) (hawait : ∀ x, .execute (.awaitKey x) ∉ ops) :
    (m.after ops).state = .halted f :=
  performAll_preserves (P := fun m' => m'.state = .halted f)
    (fun op hop _ hm' => perform_state_of_halted hm' (hops op hop)
      fun x h => hawait x (h ▸ hop)) hhalt

/-- A host that executes the wait for a key makes the machine wait, whatever its state. -/
theorem after_awaitKey {k : Nat} {x : Reg} (hk : ops[k]? = some (.execute (.awaitKey x))) :
    (m.after (ops.take (k + 1))).state = .awaitingKey x := by
  obtain ⟨hlt, hop⟩ := List.getElem?_eq_some_iff.1 hk
  rw [after_take_succ m hlt, hop]
  rfl

/-- **What ends a halt.**  As long as no program is loaded, a halted machine stays
halted and its steps give its fault, whatever a host does to it and in whatever order,
exactly if the host does not execute the instruction `FX0A`.  After that instruction
a step answers that the machine waits for a key. -/
theorem stays_halted_iff (hhalt : m.state = .halted f) (hops : ∀ op ∈ ops, op.isLoad = false) :
    ((∀ n, (m.after (ops.take n)).state = .halted f ∧
        (m.after (ops.take n)).step = (m.after (ops.take n), .error f)) ↔
      ∀ x, .execute (.awaitKey x) ∉ ops) ∧
    ∀ (k : Nat) (x : Reg), ops[k]? = some (.execute (.awaitKey x)) →
      (m.after (ops.take (k + 1))).step = (m.after (ops.take (k + 1)), .ok .waiting) := by
  refine ⟨⟨?_, ?_⟩, fun k x hk => step_of_awaitingKey (after_awaitKey hk)⟩
  · intro hstays x hmem
    obtain ⟨k, hk⟩ := List.getElem?_of_mem hmem
    have hstate := (hstays (k + 1)).1
    rw [after_awaitKey hk] at hstate
    cases hstate
  · intro hawait n
    have hstate : (m.after (ops.take n)).state = .halted f := after_state_of_halted hhalt
      (fun op hop => hops op (List.mem_of_mem_take hop))
      (fun x hop => hawait x (List.mem_of_mem_take hop))
    exact ⟨hstate, step_of_halted hstate⟩

/-- Instructions executed by themselves, even a return that is stopped again, leave
the machine halted. -/
theorem emptyReturn_stays :
    let ops : List Operation := [.execute (.setByte 4 9), .execute .ret, .fetch, .keyDown 5]
    atEmptyReturn.step.1.state = .halted emptyReturn ∧
    (∀ op ∈ ops, op.isLoad = false) ∧
    (atEmptyReturn.step.1.after ops).state = .halted emptyReturn ∧
    (atEmptyReturn.step.1.after ops).step.2 = .error emptyReturn := by
  intro ops
  have hops : ∀ op ∈ ops, op.isLoad = false := by decide
  have hawait : ∀ x, .execute (.awaitKey x) ∉ ops := by simp [ops]
  obtain ⟨hstate, hstep⟩ := (stays_halted_iff atEmptyReturn_halts hops).1.2 hawait 4
  exact ⟨atEmptyReturn_halts, hops, hstate, congrArg Prod.snd hstep⟩

/-- There is a call other than a load that ends a halt. -/
theorem not_forall_stays_halted :
    ¬ ∀ (m : Machine) (f : Fault) (ops : List Operation), m.state = .halted f →
      (∀ op ∈ ops, op.isCall = true) →
      (m.after ops).state = .halted f ∧ (m.after ops).step.2 = .error f := by
  intro h
  have hstays := h atEmptyReturn.step.1 emptyReturn [.execute (.awaitKey 3)]
    atEmptyReturn_halts (by decide)
  have hwaits : (atEmptyReturn.step.1.after [.execute (.awaitKey 3)]).state = .awaitingKey 3 := rfl
  rw [hwaits] at hstays
  cases hstays.1

end Leaving

end Machine

end Chip8
