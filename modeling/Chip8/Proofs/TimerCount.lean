import Chip8.Proofs.Independence
import Chip8.Proofs.Standstill

/-!
# What the timers show

A timer is set by an instruction or by a load and counts down with the ticks, and
nothing else touches it: not the instructions in between, nor a key, nor the state of
the run.  So it shows the value that it was given last, less the ticks since then.

* `Machine.given?` — the value that a move gives to a timer;
* `Machine.value_perform` — what one move does to a timer;
* `Machine.lastGiven`, `Machine.ticksBetween` — the last value given, and the ticks
  since then;
* `Machine.value_moment` — what a timer shows at every moment of a run;
* `Machine.ticksBetween_movesBefore` — the ticks of a run are those of its operations;
* `Machine.timers_follow_ticks` — what the timers of the machine show after every
  operation, and at every moment in between.
-/

namespace Chip8

/-- The two timers by name. -/
inductive TimerName where
  | delay
  | sound

namespace Timers

/-- What a timer shows. -/
def value (t : Timers) : TimerName → UInt8
  | .delay => t.delay.count
  | .sound => t.sound.count

/-- A tick takes one from each timer, and leaves zero alone. -/
theorem toNat_value_tick (t : Timers) (w : TimerName) :
    (t.tick.value w).toNat = (t.value w).toNat - 1 := by
  cases w with
  | delay => exact t.delay.toNat_tick
  | sound => exact t.sound.toNat_tick

end Timers

/-- The register that an instruction sets a timer from, if it sets the timer. -/
def Instruction.sets? : TimerName → Instruction → Option Reg
  | .delay, .setDelay x => some x
  | .sound, .setSound x => some x
  | _, _ => none

/-- An instruction that does not use the timers sets neither. -/
theorem Instruction.sets?_of_unused {i : Instruction} (h : i.uses .timers = false)
    (w : TimerName) : i.sets? w = none := by
  cases i with
  | setDelay | setSound => cases h
  | _ => cases w <;> rfl

/-- The ticks of an operation with its reply: one for a tick, and those of a frame that
did not fail. -/
def Operation.ticks : Operation → Reply → Nat
  | .tick, _ => 1
  | .runFrame _ ticks, .done => ticks
  | _, _ => 0

namespace Machine

variable {m : Machine} {op : Operation} {ops : List Operation} {i : Instruction}

/-- The value that a move gives to a timer, if it gives one.  A program that is loaded
sets both timers to zero. -/
def given? (w : TimerName) (m : Machine) : Operation → Option UInt8
  | .load program =>
      match m.load program with
      | .ok _ => some 0
      | .error _ => none
  | op => (m.executes? op).bind fun i => (i.sets? w).map m.reg

/-- A step sets a timer if it executes the instruction for it, and else leaves it alone. -/
theorem value_step (w : TimerName) (h : m.executes? .step = some i) :
    m.step.1.timers.value w = ((i.sets? w).map m.reg).getD (m.timers.value w) := by
  cases huses : i.uses .timers with
  | false =>
      rw [Instruction.sets?_of_unused huses, step_timers]
      · rfl
      · intro j hj
        rw [h] at hj
        cases hj
        exact huses
  | true =>
      obtain ⟨word, -, -, -, hstep⟩ := step_eq_of_status (executes?_eq_some h).2
      rw [hstep]
      cases i with
      | readDelay | setDelay | setSound => cases w <;> rfl
      | _ => cases huses

/-- What a move does to a timer: it gives it a value, or takes one from it if it is a
tick, or leaves it alone. -/
theorem value_perform (w : TimerName) (hordinary : op.isOrdinary = true)
    (hframe : op.isFrame = false) :
    ((m.perform op).1.timers.value w).toNat =
      ((m.given? w op).map UInt8.toNat).getD
        ((m.timers.value w).toNat - if op = .tick then 1 else 0) := by
  cases op with
  | load program =>
      simp only [perform, given?]
      cases hload : m.load program with
      | error e => rfl
      | ok m' =>
          simp only [proceed]
          rw [(load_eq_ok hload).2]
          cases w <;> rfl
  | step =>
      change (m.step.1.timers.value w).toNat =
        (((m.executes? .step).bind fun i => (i.sets? w).map m.reg).map UInt8.toNat).getD
          (m.timers.value w).toNat
      cases hexecutes : m.executes? .step with
      | none =>
          rw [step_timers (by simp [hexecutes])]
          rfl
      | some i =>
          rw [value_step w hexecutes]
          simp only [Option.bind_some]
          cases (i.sets? w).map m.reg <;> rfl
  | tick => exact m.timers.toNat_value_tick w
  | takeFrame => rfl
  | keyUp code =>
      obtain ⟨keypad, hkeypad⟩ := m.perform_keyUp code
      rw [hkeypad]
      rfl
  | keyDown code =>
      rcases m.perform_keyDown code with ⟨keypad, hdown⟩ | ⟨x, keypad, registers, -, hdown⟩
      · rw [hdown]
        rfl
      · rw [hdown]
        rfl
  | runFrame => cases hframe
  | _ => cases hordinary

section Run

variable (w : TimerName) (m : Machine) (ops : List Operation)

/-- The value that the move at a moment gives to a timer, if it gives one. -/
def givenAt? (n : Nat) : Option UInt8 :=
  (m.moves ops)[n]?.bind ((m.moment ops n).given? w)

/-- When a timer was given a value last before the moment `n`, and that value.  At first
it has the value that it shows at the start. -/
def lastGiven : Nat → Nat × UInt8
  | 0 => (0, m.timers.value w)
  | n + 1 =>
      match m.givenAt? w ops n with
      | some v => (n + 1, v)
      | none => lastGiven n

/-- The number of ticks among the moves from the moment `k` to the moment `n`. -/
def ticksBetween (k n : Nat) : Nat :=
  (((m.moves ops).drop k).take (n - k)).count .tick

theorem ticksBetween_self (n : Nat) : m.ticksBetween ops n n = 0 := by
  simp [ticksBetween]

/-- One move further on, a tick more is counted if the move is one. -/
theorem ticksBetween_succ {k n : Nat} (h : k ≤ n) :
    m.ticksBetween ops k (n + 1) =
      m.ticksBetween ops k n + if (m.moves ops)[n]? = some .tick then 1 else 0 := by
  have hlength : n + 1 - k = n - k + 1 := by omega
  have hindex : k + (n - k) = n := by omega
  unfold ticksBetween
  rw [hlength, List.take_add_one, List.count_append, List.getElem?_drop, hindex]
  cases (m.moves ops)[n]? <;> simp [List.count_cons]

/-- A timer was given its value last before now. -/
theorem lastGiven_le (n : Nat) : (m.lastGiven w ops n).1 ≤ n := by
  induction n with
  | zero => exact Nat.le_refl 0
  | succ n ih =>
      unfold lastGiven
      split
      · exact Nat.le_refl _
      · exact Nat.le_succ_of_le ih

end Run

/-- What a timer shows from one moment to the next. -/
theorem value_moment_succ (w : TimerName) (hops : ∀ op ∈ ops, op.isOrdinary = true) (n : Nat) :
    ((m.moment ops (n + 1)).timers.value w).toNat =
      ((m.givenAt? w ops n).map UInt8.toNat).getD
        (((m.moment ops n).timers.value w).toNat -
          if (m.moves ops)[n]? = some .tick then 1 else 0) := by
  unfold givenAt?
  cases hmove : (m.moves ops)[n]? with
  | none =>
      rw [moment_of_no_move hmove]
      rfl
  | some op =>
      obtain ⟨hordinary, hframe⟩ := isOrdinary_of_mem_moves hops (List.mem_of_getElem? hmove)
      rw [moment_of_move hmove, value_perform w hordinary hframe]
      simp only [Option.bind_some, Option.some.injEq]

/-- The moves of an operation have its ticks. -/
theorem count_tick_movesOf (m : Machine) (op : Operation) :
    (m.movesOf op).count .tick = op.ticks (m.perform op).2 := by
  cases op with
  | runFrame steps ticks =>
      simp only [movesOf, perform, runFrame, List.count_append, List.count_replicate]
      rcases m.runSteps steps with ⟨m', _ | fault⟩
      · exact Nat.zero_add ticks
      · rfl
  | _ => rfl

/-- The ticks of some operations together. -/
def ticksOf (m : Machine) : List Operation → Nat
  | [] => 0
  | op :: ops => op.ticks (m.perform op).2 + (m.perform op).1.ticksOf ops

/-- The moves of some operations have their ticks. -/
theorem count_tick_moves (m : Machine) (ops : List Operation) :
    (m.moves ops).count .tick = m.ticksOf ops := by
  induction ops generalizing m with
  | nil => rfl
  | cons op ops ih =>
      rw [moves, List.count_append, count_tick_movesOf, ih]
      rfl

/-- At every moment a timer shows the value that it was given last, less the ticks since
then. -/
theorem value_moment (w : TimerName) (hops : ∀ op ∈ ops, op.isOrdinary = true) (n : Nat) :
    ((m.moment ops n).timers.value w).toNat =
      (m.lastGiven w ops n).2.toNat - m.ticksBetween ops (m.lastGiven w ops n).1 n := by
  induction n with
  | zero =>
      rw [moment_zero, lastGiven, ticksBetween_self]
      rfl
  | succ n ih =>
      rw [value_moment_succ w hops]
      unfold lastGiven
      cases m.givenAt? w ops n with
      | some v =>
          rw [ticksBetween_self]
          rfl
      | none =>
          rw [ih, m.ticksBetween_succ ops (m.lastGiven_le w ops n), Nat.sub_sub]
          rfl

/-- The ticks among the moves of the first operations are the ticks of these operations. -/
theorem ticksBetween_movesBefore (m : Machine) (ops : List Operation) (k : Nat) :
    m.ticksBetween ops 0 (m.movesBefore ops k) = m.ticksOf (ops.take k) := by
  rw [ticksBetween, List.drop_zero, Nat.sub_zero, take_movesBefore, count_tick_moves]

/-- **The timers follow the ticks.**  Let a host do anything to a machine in whatever
state, short of writing parts of it or executing an instruction by itself.  After each of
the operations a timer of the machine shows the value that it was given last, by `FX15` or
`FX18`, by a load or at the start, less the ticks since then, and it stops at zero.  The
same holds after each of the moves that the operations are made of, and the moves of the
first operations lead to the machine after them.  The ticks among these moves are those of
the tick operations and of the frames that did not fail. -/
theorem timers_follow_ticks (m : Machine) (hops : ∀ op ∈ ops, op.isOrdinary = true)
    (w : TimerName) :
    (∀ k, ((m.after (ops.take k)).timers.value w).toNat =
      (m.lastGiven w ops (m.movesBefore ops k)).2.toNat -
        m.ticksBetween ops (m.lastGiven w ops (m.movesBefore ops k)).1
          (m.movesBefore ops k)) ∧
    (∀ n, ((m.moment ops n).timers.value w).toNat =
      (m.lastGiven w ops n).2.toNat - m.ticksBetween ops (m.lastGiven w ops n).1 n) ∧
    (∀ k, m.moment ops (m.movesBefore ops k) = m.after (ops.take k)) ∧
    ∀ k, m.ticksBetween ops 0 (m.movesBefore ops k) = m.ticksOf (ops.take k) := by
  refine ⟨?_, value_moment w hops, m.moment_movesBefore ops, m.ticksBetween_movesBefore ops⟩
  intro k
  rw [← m.moment_movesBefore ops k]
  exact value_moment w hops (m.movesBefore ops k)

/-- A machine that is about to set V0 to 5 and the delay timer to V0. -/
def beforeSetDelay : Machine :=
  start (.fresh #[0x60, 0x05, 0xF0, 0x15]) (.ofSeed 7)

/-- The first step sets V0. -/
theorem beforeSetDelay_step : beforeSetDelay.step =
    (beforeSetDelay.fetched.execute (.setByte 0 5)).1.passAt
      { address := 0x200, opcode := some 0x6005, instruction := some (.setByte 0 5) }
      (.setByte 0 5) := by
  have hword : beforeSetDelay.memory.word beforeSetDelay.pc = .ok 0x6005 :=
    Memory.word_fresh (by decide) rfl
  exact step_of_executed rfl hword rfl rfl

/-- The second step gives the value of V0 to the timer. -/
theorem setDelay_given : beforeSetDelay.step.1.given? .delay .step = some 5 := by
  rw [beforeSetDelay_step]
  have hword : ((beforeSetDelay.fetched.execute (.setByte 0 5)).1.passAt
      { address := 0x200, opcode := some 0x6005, instruction := some (.setByte 0 5) }
      (.setByte 0 5)).1.memory.word 0x202 = .ok 0xF015 := Memory.word_fresh (by decide) rfl
  have hexecuted := congrArg Prod.snd
    (step_of_executed (i := .setDelay 0) rfl hword rfl rfl)
  simp only [given?, executes?_step hexecuted]
  rfl

/-- The instruction gives 5 to the delay timer with the second move.  One tick and a frame
with two ticks follow, and behind the frame the machine shows 2. -/
theorem setDelay_shows_two :
    let ops : List Operation := [.step, .step, .tick, .runFrame 0 2]
    (∀ op ∈ ops, op.isOrdinary = true) ∧
    beforeSetDelay.lastGiven .delay ops (beforeSetDelay.movesBefore ops 4) = (2, 5) ∧
    beforeSetDelay.ticksBetween ops 2 (beforeSetDelay.movesBefore ops 4) = 3 ∧
    ((beforeSetDelay.after ops).timers.value .delay).toNat = 2 := by
  intro ops
  have hops : ∀ op ∈ ops, op.isOrdinary = true := by decide
  have hfive (m : Machine) : m.movesBefore ops 4 = 5 := rfl
  have hmoments (m : Machine) : m.lastGiven .delay ops 5 =
      match m.step.1.given? .delay .step with
      | some v => (2, v)
      | none => m.lastGiven .delay ops 1 := rfl
  have hgiven : beforeSetDelay.lastGiven .delay ops (beforeSetDelay.movesBefore ops 4) =
      (2, 5) := by
    rw [hfive, hmoments, setDelay_given]
  have hticks : beforeSetDelay.ticksBetween ops 2 (beforeSetDelay.movesBefore ops 4) = 3 := by
    rw [hfive]
    rfl
  have hshown := (timers_follow_ticks beforeSetDelay hops .delay).1 4
  rw [hgiven, hticks] at hshown
  exact ⟨hops, hgiven, hticks, hshown⟩

end Machine

end Chip8
