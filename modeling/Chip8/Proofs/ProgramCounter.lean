import Chip8.Proofs.ControlFlow
import Chip8.Proofs.Decoding

/-!
# The program counter never wraps

The program counter has sixteen bits and memory only twelve, and nothing masks
it.  It is fed by addresses of instructions, by such an address plus a register,
by return addresses and by counting on from a word that was fetched.  Together
with a bound on the return addresses it stays far below the end of its range
(`Machine.ControlBounded`), unless the host writes it itself.

* `Machine.destination_le` — no destination is beyond the bound;
* `Machine.ControlBounded.step`, `Machine.ControlBounded.move` — a step, and any
  move, keeps the bounds;
* `Machine.pc_never_wraps` — the bounds hold at every moment of an ordinary run,
  and nothing that is added to the program counter wraps.
-/

namespace Chip8.Machine

/-- Bounds on the program counter and the return addresses. -/
structure ControlBounded (m : Machine) : Prop where
  pc_le : m.pc.toNat ≤ 0x10FE
  calls : ∀ a ∈ m.stack.toList, 2 ≤ a.toNat ∧ a.toNat ≤ 0x1000

variable {m : Machine} {i : Instruction}

/-- A machine that has just been set back is within the bounds. -/
theorem controlBounded_start (memory : Memory) (random : Generator) :
    (start memory random).ControlBounded where
  pc_le := by
    change Memory.programStart.toNat ≤ 0x10FE
    decide
  calls a ha := by
    change a ∈ CallStack.empty.toList at ha
    rw [CallStack.toList_empty] at ha
    cases ha

namespace ControlBounded

/-- An instruction inside memory leads no further than the bound. -/
theorem destination_le (hm : m.ControlBounded) (hpc : m.pc.toNat ≤ 4094)
    (hfields : i.FitsDigits) : m.destination i ≤ 0x10FE := by
  have hahead : m.pc.toNat + (if m.skips i then 4 else 2) ≤ 0x10FE := by
    split <;> omega
  cases i with
  | jump a =>
      have ha : a.toNat < 4096 := hfields
      rw [destination_jump]
      omega
  | call a =>
      have ha : a.toNat < 4096 := hfields
      rw [destination_call]
      omega
  | jumpOffset a =>
      have ha : a.toNat < 4096 := hfields
      have hoffset : (m.reg .v0).toNat < 256 := (m.reg .v0).toNat_lt
      rw [destination_jumpOffset]
      omega
  | ret =>
      rw [destination_ret]
      cases hcalls : m.stack.toList with
      | nil => decide
      | cons a rest =>
          have ha := (hm.calls a (by rw [hcalls]; exact List.mem_cons_self)).2
          simp only [List.headD_cons]
          omega
  | _ => exact hahead

/-- Within the bounds, a return address that an instruction leaves on the stack is within
them. -/
theorem callsAfter (hm : m.ControlBounded) {word : Opcode} (hword : m.memory.word m.pc = .ok word)
    {a : Address} (ha : a ∈ m.callsAfter i) : 2 ≤ a.toNat ∧ a.toNat ≤ 0x1000 := by
  cases i with
  | call target =>
      obtain ⟨hpc, hnext⟩ := toNat_pc_next_of_word hword
      rcases List.mem_cons.1 ha with rfl | ha
      · omega
      · exact hm.calls a ha
  | ret => exact hm.calls a (List.mem_of_mem_tail ha)
  | _ => exact hm.calls a ha

/-- The step of an instruction goes to its destination, with nothing lost. -/
theorem step_pc (hm : m.ControlBounded) (h : m.step.2 = .ok (.executed i)) :
    m.pc.toNat ≤ 4094 ∧ m.step.1.pc.toNat = m.destination i := by
  obtain ⟨word, hword, hdecode, -, hpc, -⟩ := control_of_executed h
  have hinside := (toNat_pc_next_of_word hword).1
  have hle := hm.destination_le hinside (Instruction.decodes_of_decode? hdecode).fitsDigits
  rw [hpc]
  omega

/-- A step keeps the bounds. -/
theorem step (hm : m.ControlBounded) : m.step.1.ControlBounded := by
  rcases m.step_control with ⟨word, i, hword, hdecode, -, hresult, -, hcalls⟩ |
    ⟨-, hstack, hpc⟩
  · obtain ⟨hinside, hdestination⟩ := hm.step_pc hresult
    have hle := hm.destination_le hinside (Instruction.decodes_of_decode? hdecode).fitsDigits
    constructor
    · omega
    · intro a ha
      rw [hcalls] at ha
      exact hm.callsAfter hword ha
  · constructor
    · have hbefore := hm.pc_le
      rcases hpc with hpc | ⟨word, hword, hpc⟩
      · rw [hpc]
        exact hbefore
      · obtain ⟨hinside, hnext⟩ := toNat_pc_next_of_word hword
        rw [hpc]
        omega
    · rw [hstack]
      exact hm.calls

/-- An ordinary move keeps the bounds. -/
theorem move (hm : m.ControlBounded) {op : Operation} (hordinary : op.isOrdinary = true)
    (hframe : op.isFrame = false) : (m.perform op).1.ControlBounded := by
  rcases m.perform_control hordinary hframe with rfl | hload | ⟨hpc, hstack⟩
  · exact hm.step
  · cases op with
    | load program =>
        refine proceed_preserves hm ?_
        intro m' h
        rw [(load_eq_ok h).2]
        exact controlBounded_start _ _
    | _ => cases hload
  · constructor
    · rw [hpc]
      exact hm.pc_le
    · rw [hstack]
      exact hm.calls

end ControlBounded

/-- **The program counter never wraps.**  Look at the machine at any moment of any
ordinary operations after a program has been loaded, further loads among them, so after
each of the operations and at each step inside a frame.
The program counter is at most `10FE` and every return address lies from 2 to
`1000`.  A word is fetched from `0FFE` at most, and the counter is two further on
behind it.  An instruction that is carried out takes the counter exactly to its
destination, which was computed with plain numbers. -/
theorem pc_never_wraps {m₀ : Machine} {program : Array UInt8} (hload : m.load program = .ok m₀)
    {ops : List Operation} (hops : ∀ op ∈ ops, op.isOrdinary = true) (n : Nat) :
    (m₀.moment ops n).pc.toNat ≤ 0x10FE ∧
    (∀ a ∈ (m₀.moment ops n).stack.toList, 2 ≤ a.toNat ∧ a.toNat ≤ 0x1000) ∧
    (∀ word fetched, (m₀.moment ops n).fetch = .ok (word, fetched) →
      (m₀.moment ops n).pc.toNat ≤ 0xFFE ∧
      fetched.pc.toNat = (m₀.moment ops n).pc.toNat + 2) ∧
    (∀ i, (m₀.moment ops n).step.2 = .ok (.executed i) →
      (m₀.moment ops n).pc.toNat ≤ 0xFFE ∧
      (m₀.moment ops n).step.1.pc.toNat = (m₀.moment ops n).destination i) ∧
    ∀ k, m₀.moment ops (m₀.movesBefore ops k) = m₀.after (ops.take k) := by
  have hstart : m₀.ControlBounded := by
    rw [(load_eq_ok hload).2]
    exact controlBounded_start _ _
  have hmoment : (m₀.moment ops n).ControlBounded := by
    refine moment_preserves ?_ hstart n
    intro move hmove m' hm'
    obtain ⟨hordinary, hframe⟩ := isOrdinary_of_mem_moves hops hmove
    exact hm'.move hordinary hframe
  refine ⟨hmoment.pc_le, hmoment.calls, ?_, fun i hi => hmoment.step_pc hi,
    m₀.moment_movesBefore ops⟩
  intro word fetched hfetch
  obtain ⟨hword, rfl⟩ := fetch_eq_ok hfetch
  exact toNat_pc_next_of_word hword

/-- A machine that is about to set V0 to `FF` and to jump to `0FFF` plus V0. -/
def beforeFarJump : Machine :=
  start (.fresh #[0x60, 0xFF, 0xBF, 0xFF]) (.ofSeed 7)

/-- The first step sets V0. -/
theorem beforeFarJump_step : beforeFarJump.step =
    (beforeFarJump.fetched.execute (.setByte .v0 0xFF)).1.passAt
      { address := 0x0200, opcode := some 0x60FF, instruction := some (.setByte .v0 0xFF) }
      (.setByte .v0 0xFF) := by
  have hword : beforeFarJump.memory.word beforeFarJump.pc = .ok 0x60FF :=
    Memory.word_fresh (by decide) rfl
  exact step_of_executed rfl hword rfl rfl

/-- The second step jumps as far as a program can. -/
theorem pc_farJump : beforeFarJump.step.1.step.1.pc = 0x10FE := by
  rw [beforeFarJump_step]
  have hword : ((beforeFarJump.fetched.execute (.setByte .v0 0xFF)).1.passAt
      { address := 0x0200, opcode := some 0x60FF, instruction := some (.setByte .v0 0xFF) }
      (.setByte .v0 0xFF)).1.memory.word 0x0202 = .ok 0xBFFF := Memory.word_fresh (by decide) rfl
  rw [step_of_executed rfl hword rfl rfl]
  rfl

theorem moment_steps (s : Machine) : s.moment [.step, .step] 2 = s.step.1.step.1 :=
  rfl

/-- The jump reaches the bound. -/
theorem farJump_reaches_bound :
    (boot (.ofSeed 7)).load #[0x60, 0xFF, 0xBF, 0xFF] = .ok beforeFarJump ∧
    (∀ op ∈ [Operation.step, .step], op.isOrdinary = true) ∧
    (beforeFarJump.moment [.step, .step] 2).pc.toNat = 0x10FE ∧
    (beforeFarJump.moment [.step, .step] 2).pc.toNat ≤ 0x10FE := by
  have hload : (boot (.ofSeed 7)).load #[0x60, 0xFF, 0xBF, 0xFF] = .ok beforeFarJump :=
    load_of_fits _ (by decide)
  have hops : ∀ op ∈ [Operation.step, .step], op.isOrdinary = true := by decide
  have hbound := (pc_never_wraps hload hops 2).1
  have hreached : (beforeFarJump.moment [.step, .step] 2).pc.toNat = 0x10FE := by
    rw [moment_steps, pc_farJump]
    rfl
  exact ⟨hload, hops, hreached, hbound⟩

end Chip8.Machine
