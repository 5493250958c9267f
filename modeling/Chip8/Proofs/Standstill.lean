import Chip8.Proofs.Execution
import Chip8.Proofs.Moves

/-!
# A machine at a standstill

A machine that waits for a key or has halted executes nothing.  The host goes on
with it all the same: its steps and frames come to nothing, the timers count down,
keys are noted, the picture is taken.  None of that touches what a program has
computed or where it stands (`Machine.Still`).

* `Timers.CountedDown` — what ticks do to the timers;
* `Machine.runFrame_of_awaitingKey`, `Machine.runFrame_of_halted` — what a frame
  comes to;
* `Machine.still_perform` — a machine that does not run keeps still, unless it is
  given a key;
* `Machine.perform_keyReport` — a report of a key changes the keypad alone, unless
  the machine waits for it;
* `Machine.still_after` — what keeps still under each operation does so under a
  sequence of them.
-/

namespace Chip8

/-- A tick takes one from a timer, and leaves zero alone. -/
theorem Timer.toNat_tick (t : Timer) : t.tick.count.toNat = t.count.toNat - 1 := by
  unfold tick running
  by_cases hzero : t.count = 0
  · simp [hzero]
  · have hpos : t.count.toNat ≠ 0 := fun h => hzero (UInt8.toNat_inj.1 h)
    have hone : (1 : UInt8) ≤ t.count := UInt8.le_iff_toNat_le.2 (Nat.pos_of_ne_zero hpos)
    simp [hzero, UInt8.toNat_sub_of_le _ _ hone]

/-- Both timers have counted down by `n`, or to zero. -/
structure Timers.CountedDown (n : Nat) (t t' : Timers) : Prop where
  delay : t'.delay.count.toNat = t.delay.count.toNat - n
  sound : t'.sound.count.toNat = t.sound.count.toNat - n

namespace Timers.CountedDown

variable {n k : Nat} {t t' t'' : Timers}

theorem zero (t : Timers) : CountedDown 0 t t :=
  ⟨rfl, rfl⟩

/-- A tick counts both timers down by one. -/
theorem tick (t : Timers) : CountedDown 1 t t.tick :=
  ⟨t.delay.toNat_tick, t.sound.toNat_tick⟩

/-- Counting down by one number and then by another counts down by both. -/
theorem trans (h : CountedDown n t t') (h' : CountedDown k t' t'') :
    CountedDown (n + k) t t'' where
  delay := by rw [h'.delay, h.delay, Nat.sub_sub]
  sound := by rw [h'.sound, h.sound, Nat.sub_sub]

end Timers.CountedDown

namespace Operation

/-- What a host does that gives no key to the machine. -/
def isQuiet : Operation → Bool
  | .step | .runFrame .. | .tick | .takeFrame | .keyUp _ => true
  | .keyDown code => 16 ≤ code.toNat
  | _ => false

/-- A report that a key goes down or up. -/
def isKeyReport : Operation → Bool
  | .keyDown _ | .keyUp _ => true
  | _ => false

end Operation

namespace Machine

/-- From one machine to another nothing has been executed.  Only held keys, the
mark of the raster and the timers may have changed, and the timers have only counted
down. -/
structure Still (m m' : Machine) : Prop where
  memory : m'.memory = m.memory
  registers : m'.registers = m.registers
  pc : m'.pc = m.pc
  index : m'.index = m.index
  stack : m'.stack = m.stack
  pixels : m'.raster.pixels = m.raster.pixels
  random : m'.random = m.random
  lastTrace : m'.lastTrace = m.lastTrace
  state : m'.state = m.state
  timers : ∃ n, m.timers.CountedDown n m'.timers

namespace Still

variable {a b c : Machine}

theorem refl (m : Machine) : m.Still m :=
  ⟨rfl, rfl, rfl, rfl, rfl, rfl, rfl, rfl, rfl, 0, .zero _⟩

/-- A machine that stands still, and then again, stands still over both. -/
theorem trans (hab : a.Still b) (hbc : b.Still c) : a.Still c where
  memory := hbc.memory.trans hab.memory
  registers := hbc.registers.trans hab.registers
  pc := hbc.pc.trans hab.pc
  index := hbc.index.trans hab.index
  stack := hbc.stack.trans hab.stack
  pixels := hbc.pixels.trans hab.pixels
  random := hbc.random.trans hab.random
  lastTrace := hbc.lastTrace.trans hab.lastTrace
  state := hbc.state.trans hab.state
  timers := by
    obtain ⟨n, hn⟩ := hab.timers
    obtain ⟨k, hk⟩ := hbc.timers
    exact ⟨n + k, hn.trans hk⟩

/-- A machine of which the keypad alone has changed stands still. -/
theorem keypad (m : Machine) (keypad : Keypad) : m.Still { m with keypad := keypad } :=
  ⟨rfl, rfl, rfl, rfl, rfl, rfl, rfl, rfl, rfl, 0, .zero _⟩

/-- A machine that hands out its picture stands still. -/
theorem takeFrame (m : Machine) : m.Still m.takeFrame.2 :=
  ⟨rfl, rfl, rfl, rfl, rfl, rfl, rfl, rfl, rfl, 0, .zero _⟩

/-- A machine that is ticked stands still, its timers apart. -/
theorem tick (m : Machine) : m.Still m.tick :=
  ⟨rfl, rfl, rfl, rfl, rfl, rfl, rfl, rfl, rfl, 1, .tick _⟩

/-- However often it is ticked, a machine stands still, its timers apart. -/
theorem tickBy (n : Nat) (m : Machine) : m.Still (m.tickBy n) := by
  induction n generalizing m with
  | zero => exact refl m
  | succ n ih => exact (tick m).trans (ih m.tick)

end Still

section Frames

variable {m : Machine} {x : Reg} {f : Fault}

/-- A machine that awaits a key takes no steps of a frame. -/
theorem runSteps_of_awaitingKey (hwait : m.state = .awaitingKey x) (n : Nat) :
    m.runSteps n = (m, none) := by
  cases n with
  | zero => rfl
  | succ n => simp only [runSteps, step_of_awaitingKey hwait]

/-- A halted machine gives its fault with the first step of a frame. -/
theorem runSteps_of_halted (hhalt : m.state = .halted f) (n : Nat) :
    m.runSteps (n + 1) = (m, some f) := by
  simp only [runSteps, step_of_halted hhalt]

/-- The frame of a machine that waits is its ticks. -/
theorem runFrame_of_awaitingKey (hwait : m.state = .awaitingKey x) (steps ticks : Nat) :
    m.runFrame steps ticks = (m.tickBy ticks, none) := by
  simp only [runFrame, runSteps_of_awaitingKey hwait]

/-- The frame of a halted machine is nothing, as soon as there is a step in it. -/
theorem runFrame_of_halted (hhalt : m.state = .halted f) (steps ticks : Nat) :
    m.runFrame (steps + 1) ticks = (m, some f) := by
  simp only [runFrame, runSteps_of_halted hhalt]

/-- Over a frame a machine that is not running stands still. -/
theorem still_runFrame (hstate : m.state ≠ .running) (steps ticks : Nat) :
    m.Still (m.runFrame steps ticks).1 := by
  cases hcase : m.state with
  | running => exact absurd hcase hstate
  | awaitingKey x =>
      rw [runFrame_of_awaitingKey hcase]
      exact Still.tickBy ticks m
  | halted f =>
      cases steps with
      | zero => exact Still.tickBy ticks m
      | succ steps =>
          rw [runFrame_of_halted hcase]
          exact Still.refl m

/-- Over a step a machine that is not running stands still. -/
theorem still_step (hstate : m.state ≠ .running) : m.Still m.step.1 := by
  cases hcase : m.state with
  | running => exact absurd hcase hstate
  | awaitingKey x =>
      rw [step_of_awaitingKey hcase]
      exact Still.refl m
  | halted f =>
      rw [step_of_halted hcase]
      exact Still.refl m

end Frames

section Keys

variable (m : Machine) {code : UInt8}

/-- A report of a key that does not exist is refused. -/
theorem perform_notAKey (hcode : 16 ≤ code.toNat) :
    m.perform (.keyDown code) = (m, .refused (.notAKey code)) ∧
      m.perform (.keyUp code) = (m, .refused (.notAKey code)) := by
  have hset (held : Bool) : m.keypad.setKey code held = .error (.notAKey code) :=
    dif_neg (Nat.not_lt.2 hcode)
  have hpress : m.keypad.press code = .error (.notAKey code) := hset true
  have hrelease : m.keypad.release code = .error (.notAKey code) := hset false
  simp only [perform, keyDown, keyUp, hpress, hrelease, Except.map, proceed, and_self]

/-- A key that goes up changes the keypad alone. -/
theorem perform_keyUp (code : UInt8) :
    ∃ keypad, (m.perform (.keyUp code)).1 = { m with keypad := keypad } := by
  refine proceed_preserves (P := fun m' => ∃ keypad, m' = { m with keypad := keypad })
    ⟨m.keypad, rfl⟩ ?_
  intro m' h
  obtain ⟨keypad, -, rfl⟩ := keyUp_eq_ok h
  exact ⟨keypad, rfl⟩

/-- A key that goes down changes the keypad alone, or ends the wait for it. -/
theorem perform_keyDown (code : UInt8) :
    (∃ keypad, (m.perform (.keyDown code)).1 = { m with keypad := keypad }) ∨
      ∃ x keypad registers, m.state = .awaitingKey x ∧ (m.perform (.keyDown code)).1 =
        { m with keypad := keypad, registers := registers, state := .running } := by
  simp only [perform]
  cases h : m.keyDown code with
  | error e => exact Or.inl ⟨m.keypad, rfl⟩
  | ok m' =>
      obtain ⟨keypad, -, ⟨x, hwait, rfl⟩ | ⟨-, rfl⟩⟩ := keyDown_eq_ok h
      · exact Or.inr ⟨x, keypad, _, hwait, rfl⟩
      · exact Or.inl ⟨keypad, rfl⟩

variable {m}

/-- Where no key is awaited, a key report changes the keypad alone. -/
theorem perform_keyReport (hstate : ∀ x, m.state ≠ .awaitingKey x) {op : Operation}
    (hop : op.isKeyReport = true) :
    ∃ keypad, (m.perform op).1 = { m with keypad := keypad } := by
  cases op with
  | keyDown code =>
      rcases m.perform_keyDown code with hdown | ⟨x, -, -, hwait, -⟩
      · exact hdown
      · exact absurd hwait (hstate x)
  | keyUp code => exact m.perform_keyUp code
  | _ => cases hop

end Keys

variable {m : Machine}

/-- What a host does without giving a key leaves a machine at a standstill as it is. -/
theorem still_perform (hstate : m.state ≠ .running) {op : Operation} (hop : op.isQuiet = true) :
    m.Still (m.perform op).1 := by
  cases op with
  | step => exact still_step hstate
  | runFrame steps ticks => exact still_runFrame hstate steps ticks
  | tick => exact Still.tick m
  | takeFrame => exact Still.takeFrame m
  | keyUp code =>
      obtain ⟨keypad, hkeypad⟩ := m.perform_keyUp code
      rw [hkeypad]
      exact Still.keypad m keypad
  | keyDown code =>
      have hcode : 16 ≤ code.toNat := of_decide_eq_true hop
      rw [(m.perform_notAKey hcode).1]
      exact Still.refl m
  | _ => cases hop

/-- Where no key is awaited, a machine stands still when one is reported. -/
theorem still_perform_keyReport (hstate : ∀ x, m.state ≠ .awaitingKey x) {op : Operation}
    (hop : op.isKeyReport = true) : m.Still (m.perform op).1 := by
  obtain ⟨keypad, hkeypad⟩ := perform_keyReport hstate hop
  rw [hkeypad]
  exact Still.keypad m keypad

/-- A machine stands still over operations each of which lets it, in the state that its run
is in. -/
theorem still_after {ops : List Operation}
    (hop : ∀ op ∈ ops, ∀ m' : Machine, m'.state = m.state → m'.Still (m'.perform op).1) :
    m.Still (m.after ops) :=
  performAll_preserves (P := m.Still)
    (fun op hmem m' hm' => hm'.trans (hop op hmem m' hm'.state)) (Still.refl m)

end Machine

end Chip8
