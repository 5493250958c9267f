import Chip8.Proofs.Standstill

/-!
# Waiting for a key

The instruction `FX0A` suspends the machine until a key goes down.  Steps, frames,
ticks, releases and reports of keys that do not exist leave it waiting, in whatever
order they come, and so do keys that were held before.  The first key that goes down
is stored in the awaited register, and the machine goes on behind the instruction
(`Machine.TakesKey`).

* `Machine.step_awaitKey` — the step of `FX0A`;
* `Machine.still_after_of_awaitingKey` — what does not end the wait;
* `Machine.perform_awaited_key` — the key that ends the wait;
* `Machine.after_keyReports` — no further key is stored;
* `Machine.wait_ends_with_key` — what happens from one to the other.
-/

namespace Chip8.Machine

/-- A machine that waited for a key in the register `x` has taken the one with this
code and runs. -/
structure TakesKey (m : Machine) (x : Reg) (code : UInt8) (m' : Machine) : Prop where
  awaited : m'.reg x = code
  others : ∀ y, y ≠ x → m'.reg y = m.reg y
  held : ∀ c, m'.keypad.isHeld c = true ↔ c = code ∨ m.keypad.isHeld c = true
  running : m'.state = .running
  rest : m' = { m with registers := m'.registers, keypad := m'.keypad, state := m'.state }

variable {m : Machine} {x : Reg}

/-- The step of `FX0A` leaves the registers and the held keys as they are. -/
theorem step_awaitKey (h : m.step.2 = .ok (.executed (.awaitKey x))) :
    m.step.1 = { m with
      pc := m.pc.next, state := .awaitingKey x, lastTrace := m.step.1.lastTrace } := by
  obtain ⟨word, -, -, -, hstep⟩ := step_eq_of_status h
  rw [hstep]
  rfl

/-- A machine that awaits a key stands still until one is reported. -/
theorem still_after_of_awaitingKey (hwait : m.state = .awaitingKey x) {ops : List Operation}
    (hops : ∀ op ∈ ops, op.isQuiet = true) : m.Still (m.after ops) := by
  apply still_after
  intro op hop m' hm'
  have hstopped : m'.state ≠ .running := by simp [hm', hwait]
  exact still_perform hstopped (hops op hop)

/-- The key that a waiting machine is given ends the wait. -/
theorem perform_awaited_key (hwait : m.state = .awaitingKey x) {code : UInt8}
    (hcode : code.toNat < 16) :
    ∃ m', m.perform (.keyDown code) = (m', .done) ∧ m.TakesKey x code m' := by
  obtain ⟨keypad, hpress⟩ : ∃ keypad, m.keypad.press code = .ok keypad := ⟨_, dif_pos hcode⟩
  have hdown : m.keyDown code = .ok { m with
      keypad := keypad, registers := m.registers.set x code, state := .running } := by
    simp only [keyDown, hpress, hwait, Except.map]
  refine ⟨{ m with
    keypad := keypad, registers := m.registers.set x code, state := .running }, ?_, ?_⟩
  · simp only [perform, hdown, proceed]
  · constructor
    case awaited => exact m.registers.get_set_self x code
    case others =>
      intro y hy
      exact (m.registers.get_set x y code).trans (if_neg (Ne.symm hy))
    case held =>
      intro c
      have hheld : keypad.isHeld c = if c = code then true else m.keypad.isHeld c :=
        Keypad.isHeld_setKey hpress
      rw [hheld]
      by_cases hc : c = code
      · simp [hc]
      · simp [hc]
    case running => rfl
    case rest => rfl

/-- Key reports change nothing but the keypad of a machine that runs. -/
theorem after_keyReports (hrun : m.state = .running) {reports : List Operation}
    (hreports : ∀ op ∈ reports, op.isKeyReport = true) :
    ∃ keypad, m.after reports = { m with keypad := keypad } := by
  refine performAll_preserves (P := fun m' => ∃ keypad, m' = { m with keypad := keypad })
    ?_ ⟨m.keypad, rfl⟩
  rintro op hop m' ⟨keypad, rfl⟩
  have hstate : ∀ y, { m with keypad := keypad }.state ≠ .awaitingKey y := by
    intro y hwait
    rw [hrun] at hwait
    cases hwait
  obtain ⟨keypad', h⟩ := perform_keyReport hstate (hreports op hop)
  exact ⟨keypad', h⟩

/-- **A wait ends with a key.**  While a machine waits for a key, nothing that a host
does without giving it one changes what the program has computed, and every step
answers that the machine waits.  The first key that goes down then is stored in the
awaited register, and in no other, is held, and lets the machine run: its next step
fetches where the wait has left the program counter, and whatever other keys are
reported before that step change the keypad alone.  A wait begins with the
registers and the held keys as they are, so that a key held before does not end it.
A report of a key that does not exist is refused in every state and changes
nothing. -/
theorem wait_ends_with_key (hwait : m.state = .awaitingKey x) {ops : List Operation}
    (hops : ∀ op ∈ ops, op.isQuiet = true) :
    m.Still (m.after ops) ∧
    (∀ k : Nat, ops[k]? = some .step → (m.performAll ops).2[k]? = some (.status .waiting)) ∧
    (∀ code : UInt8, code.toNat < 16 →
      ∃ m', (m.after ops).perform (.keyDown code) = (m', .done) ∧
        (m.after ops).TakesKey x code m' ∧
        ∀ reports, (∀ op ∈ reports, op.isKeyReport = true) →
          (∃ keypad, m'.after reports = { m' with keypad := keypad }) ∧
          (m'.after reports).FetchesAt m.pc) ∧
    (∀ s : Machine, s.step.2 = .ok (.executed (.awaitKey x)) →
      s.step.1.state = .awaitingKey x ∧ s.step.1.registers = s.registers ∧
      s.step.1.keypad = s.keypad ∧ s.step.1.Still (s.step.1.after ops)) ∧
    ∀ (s : Machine) (code : UInt8), 16 ≤ code.toNat →
      s.perform (.keyDown code) = (s, .refused (.notAKey code)) ∧
      s.perform (.keyUp code) = (s, .refused (.notAKey code)) := by
  have hafter := still_after_of_awaitingKey hwait hops
  refine ⟨hafter, ?_, ?_, ?_, fun s code hcode => s.perform_notAKey hcode⟩
  · intro k hk
    have hbefore : m.Still (m.after (ops.take k)) :=
      still_after_of_awaitingKey hwait fun op hop => hops op (List.mem_of_mem_take hop)
    have hstep : (m.after (ops.take k)).step = (m.after (ops.take k), .ok .waiting) :=
      step_of_awaitingKey (hbefore.state.trans hwait)
    rw [reply_getElem?, hk, Option.map_some]
    simp only [perform, hstep, Reply.ofStep]
  · intro code hcode
    obtain ⟨m', hperform, htakes⟩ := perform_awaited_key (hafter.state.trans hwait) hcode
    refine ⟨m', hperform, htakes, ?_⟩
    intro reports hreports
    obtain ⟨keypad, hkeypad⟩ := after_keyReports htakes.running hreports
    have hpc : m'.pc = m.pc := by
      rw [htakes.rest]
      exact hafter.pc
    refine ⟨⟨keypad, hkeypad⟩, ?_⟩
    rw [hkeypad, ← hpc]
    exact fetchesAt_pc htakes.running
  · intro s hs
    have hstep := step_awaitKey hs
    have hstate : s.step.1.state = .awaitingKey x := by rw [hstep]
    refine ⟨hstate, ?_, ?_, still_after_of_awaitingKey hstate hops⟩
    · rw [hstep]
    · rw [hstep]

/-- A machine at the instruction `F20A`, with every key held. -/
def atKeyWait : Machine :=
  { start (.fresh #[0xF2, 0x0A]) (.ofSeed 7) with keypad := ⟨Vector.replicate 16 true⟩ }

/-- The first step begins the wait. -/
theorem atKeyWait_step : atKeyWait.step.2 = .ok (.executed (.awaitKey 2)) := by
  have hword : atKeyWait.memory.word atKeyWait.pc = .ok 0xF20A :=
    Memory.word_fresh (by decide) rfl
  rw [step_of_executed rfl hword rfl rfl]
  rfl

/-- The keys that are held do not end the wait, nor does a release of one of them, a
key that does not exist, or a frame.  Key 5 does. -/
theorem waiting_takes_key_five :
    let ops : List Operation :=
      [.tick, .keyDown 0x20, .step, .keyUp 3, .runFrame 5 2, .takeFrame]
    atKeyWait.step.1.state = .awaitingKey 2 ∧
    (∀ op ∈ ops, op.isQuiet = true) ∧
    (atKeyWait.step.1.after ops).state = .awaitingKey 2 ∧
    (atKeyWait.step.1.performAll ops).2[2]? = some (.status .waiting) ∧
    ∃ m', (atKeyWait.step.1.after ops).perform (.keyDown 5) = (m', .done) ∧
      m'.reg 2 = 5 ∧ m'.state = .running ∧ m'.FetchesAt 0x202 := by
  intro ops
  have hstep := step_awaitKey atKeyWait_step
  have hwait : atKeyWait.step.1.state = .awaitingKey 2 := by rw [hstep]
  have hpc : atKeyWait.step.1.pc = 0x202 := by
    rw [hstep]
    rfl
  have hops : ∀ op ∈ ops, op.isQuiet = true := by decide
  obtain ⟨hstill, hsteps, hkey, -, -⟩ := wait_ends_with_key hwait hops
  obtain ⟨m', hperform, htakes, hnext⟩ := hkey 5 (by decide)
  obtain ⟨-, hfetches⟩ := hnext [] (by simp)
  refine ⟨hwait, hops, hstill.state.trans hwait, hsteps 2 rfl, m', hperform, ?_⟩
  refine ⟨htakes.awaited, htakes.running, ?_⟩
  rw [← hpc]
  exact hfetches

end Chip8.Machine
