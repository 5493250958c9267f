import Chip8.Proofs.Halted
import Chip8.Proofs.Independence

/-!
# Ticks and key reports among steps

A host ticks the timers and reports keys while the machine executes instructions.  As
long as no instruction uses the part of the machine that such a stimulus changes, the
stimulus may as well come later: it can be moved behind all steps, and the steps give
the same answers, a fault among them, and lead to the same machine.

* `Operation.stimulates` — the stimuli, by the part that they change;
* `Operation.stepsFirst` — the same operations with the steps in front;
* `Machine.exists_changes` — a stimulus changes its part and looks at no other;
* `Machine.stepsFirst_of_stimuli` — stimuli of one part can be moved behind the steps;
* `Machine.stimuli_commute` — this for ticks and for key reports.
-/

namespace Chip8

namespace Operation

/-- The operations that change a part of the machine and, unless a key is awaited,
nothing else. -/
def stimulates : Part → Operation → Bool
  | .timers, .tick => true
  | .keypad, .keyDown _ | .keypad, .keyUp _ => true
  | _, _ => false

/-- The steps among some operations, and behind them the others in their order. -/
def stepsFirst (ops : List Operation) : List Operation :=
  List.replicate (ops.count .step) .step ++ ops.filter (· != .step)

/-- A step that comes first stays first. -/
theorem stepsFirst_step (ops : List Operation) :
    stepsFirst (.step :: ops) = .step :: stepsFirst ops := by
  simp [stepsFirst, List.replicate_succ]

/-- A stimulus that comes first goes behind all the steps. -/
theorem stepsFirst_stimulus {op : Operation} (hop : op ≠ .step) (ops : List Operation) :
    stepsFirst (op :: ops) =
      List.replicate (ops.count .step) .step ++ op :: ops.filter (· != .step) := by
  simp [stepsFirst, hop]

end Operation

namespace Machine

open Operation

/-- The answers of the steps among some operations, in order. -/
def stepReplies (m : Machine) (ops : List Operation) : List Reply :=
  ((ops.zip (m.performAll ops).2).filter (·.1 == .step)).map (·.2)

/-- No key is awaited. -/
def AwaitsNoKey (m : Machine) : Prop :=
  ∀ x, m.state ≠ .awaitingKey x

section Replies

variable (m : Machine) {op : Operation} {ops : List Operation}

theorem stepReplies_step (ops : List Operation) :
    m.stepReplies (.step :: ops) = .ofStep m.step.2 :: m.step.1.stepReplies ops := by
  simp [stepReplies, performAll, perform]

theorem stepReplies_stimulus (hop : op ≠ .step) (ops : List Operation) :
    m.stepReplies (op :: ops) = (m.perform op).1.stepReplies ops := by
  simp [stepReplies, performAll, hop]

/-- Where there is no step there is no reply of one. -/
theorem stepReplies_of_no_step (hops : ∀ op ∈ ops, op ≠ .step) : m.stepReplies ops = [] := by
  induction ops generalizing m with
  | nil => rfl
  | cons op ops ih =>
      rw [m.stepReplies_stimulus (hops op List.mem_cons_self)]
      exact ih _ fun op' h => hops op' (List.mem_cons_of_mem op h)

/-- Behind the last step no reply of a step is added. -/
theorem stepReplies_steps_append (n : Nat) (hops : ∀ op ∈ ops, op ≠ .step) :
    m.stepReplies (List.replicate n .step ++ ops) =
      (m.performAll (List.replicate n .step)).2 := by
  induction n generalizing m with
  | zero => exact m.stepReplies_of_no_step hops
  | succ n ih =>
      rw [List.replicate_succ, List.cons_append, stepReplies_step, ih]
      rfl

/-- With the steps first, their replies are those of the steps alone. -/
theorem stepReplies_stepsFirst (ops : List Operation) :
    m.stepReplies (stepsFirst ops) =
      (m.performAll (List.replicate (ops.count .step) .step)).2 := by
  apply m.stepReplies_steps_append
  intro op hop
  simpa using (List.mem_filter.1 hop).2

end Replies

section Waiting

variable {m : Machine}

/-- Steps that do not ask for the keypad do not begin to wait for a key. -/
theorem AwaitsNoKey.step (hm : m.AwaitsNoKey)
    (huses : ∀ i, m.step.2 = .ok (.executed i) → i.uses .keypad = false) :
    m.step.1.AwaitsNoKey := by
  intro x hx
  cases hstate : m.state with
  | halted f =>
      rw [step_of_halted hstate] at hx
      exact hm x hx
  | awaitingKey y => exact hm y hstate
  | running =>
      rcases step_state hstate with hrun | ⟨f, -, hhalt⟩ | ⟨y, hexecuted, -⟩
      · rw [hrun] at hx
        cases hx
      · rw [hhalt] at hx
        cases hx
      · cases huses _ hexecuted

/-- Any number of such steps do not begin to wait either. -/
theorem AwaitsNoKey.steps (hm : m.AwaitsNoKey) {n : Nat} (huses : ∀ i,
      .status (.executed i) ∈ (m.performAll (List.replicate n .step)).2 →
        i.uses .keypad = false) : (m.after (List.replicate n .step)).AwaitsNoKey := by
  induction n generalizing m with
  | zero => exact hm
  | succ n ih =>
      rw [List.replicate_succ] at huses ⊢
      apply ih
      · apply hm.step
        intro i hi
        apply huses
        simp only [performAll, perform, hi, Reply.ofStep]
        exact List.mem_cons_self
      · intro i hi
        exact huses i (List.mem_cons_of_mem _ hi)

end Waiting

variable {p : Part} {m : Machine} {op : Operation} {ops : List Operation}

/-- A stimulus changes its part and looks at no other, unless a key is awaited. -/
theorem exists_changes (hop : op.stimulates p = true) :
    ∃ f, Changes p f ∧
      ∀ m : Machine, (p = .keypad → m.AwaitsNoKey) → (m.perform op).1 = f m := by
  cases p with
  | timers =>
      cases op with
      | tick => exact ⟨_, .timers Timers.tick, fun m _ => rfl⟩
      | _ => cases hop
  | keypad =>
      cases op with
      | keyDown code =>
          refine ⟨_, .keypad fun keypad => (keypad.press code).toOption.getD keypad, ?_⟩
          intro m hm
          simp only [perform, keyDown]
          cases m.keypad.press code with
          | error e => rfl
          | ok keypad =>
              simp only [Except.map, proceed]
              split
              · next x hx => exact absurd hx (hm rfl x)
              · rfl
      | keyUp code =>
          refine ⟨_, .keypad fun keypad => (keypad.release code).toOption.getD keypad, ?_⟩
          intro m _
          simp only [perform, keyUp]
          cases m.keypad.release code <;> rfl
      | _ => cases hop
  | random => cases hop

/-- Stimuli of one part can be moved behind the steps, if no step executes an instruction
that uses the part.  A stimulus in front of the steps is moved behind all of them at once,
since it commutes with them. -/
theorem stepsFirst_of_stimuli (hops : ∀ op ∈ ops, op = .step ∨ op.stimulates p = true)
    (hready : p = .keypad → m.AwaitsNoKey)
    (huses : ∀ i, .status (.executed i) ∈
      (m.performAll (List.replicate (ops.count .step) .step)).2 → i.uses p = false) :
    m.stepReplies ops = (m.performAll (List.replicate (ops.count .step) .step)).2 ∧
      m.after ops = m.after (stepsFirst ops) := by
  induction ops generalizing m with
  | nil => exact ⟨rfl, rfl⟩
  | cons op ops ih =>
      have hrest : ∀ op ∈ ops, op = .step ∨ op.stimulates p = true :=
        fun op' h => hops op' (List.mem_cons_of_mem op h)
      by_cases hop : op = .step
      · subst hop
        rw [List.count_cons_self, List.replicate_succ] at huses ⊢
        have hfirst : ∀ i, m.step.2 = .ok (.executed i) → i.uses p = false := by
          intro i hi
          apply huses
          simp only [performAll, perform, hi, Reply.ofStep]
          exact List.mem_cons_self
        have hnext : p = .keypad → m.step.1.AwaitsNoKey := by
          rintro rfl
          exact (hready rfl).step hfirst
        obtain ⟨hreplies, hafter⟩ := ih hrest hnext fun i hi =>
          huses i (List.mem_cons_of_mem _ hi)
        rw [stepReplies_step, stepsFirst_step, hreplies]
        exact ⟨rfl, hafter⟩
      · have hstimulus := (hops op List.mem_cons_self).resolve_left hop
        rw [List.count_cons_of_ne hop] at huses ⊢
        obtain ⟨f, hf, hperform⟩ := exists_changes hstimulus
        have hsteps := hf.steps huses
        have hbehind : p = .keypad →
            (m.after (List.replicate (ops.count .step) .step)).AwaitsNoKey := by
          rintro rfl
          exact (hready rfl).steps huses
        have hnext : p = .keypad → (f m).AwaitsNoKey := by
          intro hp x hx
          exact hready hp x (hf.state.symm.trans hx)
        obtain ⟨hreplies, hafter⟩ := ih hrest hnext (by rw [hsteps]; exact huses)
        rw [stepReplies_stimulus _ hop, stepsFirst_stimulus hop, after_cons, after_append,
          after_cons, hperform m hready, hperform _ hbehind]
        constructor
        · rw [hreplies, hsteps]
        · rw [hafter, stepsFirst, after_append]
          unfold after
          rw [hsteps]

/-- **Stimuli commute with execution.**  Take ticks placed anywhere among steps, and let
none of the steps on their own execute `FX07`, `FX15` or `FX18`.  Then the steps give
the same answers, and the machine is the same in the end, as with all ticks behind the
steps.  The same holds of key reports, in their order, on a machine that does not wait
for a key, if none of the steps executes `EX9E`, `EXA1` or `FX0A`.  Steps that fail are
no exception. -/
theorem stimuli_commute (m : Machine) (ops : List Operation) :
    ((∀ op ∈ ops, op = .step ∨ op = .tick) →
      (∀ i, .status (.executed i) ∈ m.stepReplies (stepsFirst ops) → i.uses .timers = false) →
      m.stepReplies ops = m.stepReplies (stepsFirst ops) ∧
        m.after ops = m.after (stepsFirst ops)) ∧
    (m.AwaitsNoKey → (∀ op ∈ ops, op = .step ∨ op.isKeyReport = true) →
      (∀ i, .status (.executed i) ∈ m.stepReplies (stepsFirst ops) → i.uses .keypad = false) →
      m.stepReplies ops = m.stepReplies (stepsFirst ops) ∧
        m.after ops = m.after (stepsFirst ops)) := by
  rw [stepReplies_stepsFirst]
  constructor
  · intro hops huses
    refine stepsFirst_of_stimuli (p := .timers) ?_ nofun huses
    intro op hop
    rcases hops op hop with rfl | rfl
    · exact Or.inl rfl
    · exact Or.inr rfl
  · intro hready hops huses
    refine stepsFirst_of_stimuli (p := .keypad) ?_ (fun _ => hready) huses
    intro op hop
    rcases hops op hop with rfl | hreport
    · exact Or.inl rfl
    · cases op with
      | keyDown | keyUp => exact Or.inr rfl
      | _ => cases hreport

/-- A machine at the instruction `6A07` and a return with no call under way, with both
timers running. -/
def beforeEmptyReturn : Machine :=
  { start (.fresh #[0x6A, 0x07, 0x00, 0xEE]) (.ofSeed 7) with timers := ⟨⟨2⟩, ⟨9⟩⟩ }

/-- The fault of the return. -/
def secondWordReturn : Fault where
  trace := { address := 0x202, opcode := some 0x00EE, instruction := some .ret }
  cause := .stackUnderflow

/-- The first step sets a register. -/
theorem beforeEmptyReturn_step : beforeEmptyReturn.step =
    (beforeEmptyReturn.fetched.execute (.setByte 0xA 7)).1.passAt
      { address := 0x200, opcode := some 0x6A07, instruction := some (.setByte 0xA 7) }
      (.setByte 0xA 7) := by
  have hword : beforeEmptyReturn.memory.word beforeEmptyReturn.pc = .ok 0x6A07 :=
    Memory.word_fresh (by decide) rfl
  exact step_of_executed rfl hword rfl rfl

/-- The second step returns without a call, and halts. -/
theorem secondWordReturn_halts :
    beforeEmptyReturn.step.1.step.2 = .error secondWordReturn ∧
      beforeEmptyReturn.step.1.step.1.state = .halted secondWordReturn := by
  rw [beforeEmptyReturn_step]
  have hword : ((beforeEmptyReturn.fetched.execute (.setByte 0xA 7)).1.passAt
      { address := 0x200, opcode := some 0x6A07, instruction := some (.setByte 0xA 7) }
      (.setByte 0xA 7)).1.memory.word 0x202 = .ok 0x00EE := Memory.word_fresh (by decide) rfl
  rw [step_of_refused rfl hword rfl rfl]
  exact ⟨rfl, rfl⟩

theorem beforeEmptyReturn_replies :
    (beforeEmptyReturn.performAll (List.replicate 3 .step)).2 =
      [.status (.executed (.setByte 0xA 7)), .faulted secondWordReturn,
        .faulted secondWordReturn] := by
  have hreplies (m : Machine) : (m.performAll (List.replicate 3 .step)).2 =
      [.ofStep m.step.2, .ofStep m.step.1.step.2, .ofStep m.step.1.step.1.step.2] := rfl
  have hset : beforeEmptyReturn.step.2 = .ok (.executed (.setByte 0xA 7)) := by
    rw [beforeEmptyReturn_step]
    rfl
  obtain ⟨hfault, hhalt⟩ := secondWordReturn_halts
  rw [hreplies, hset, hfault, step_of_halted hhalt]
  rfl

/-- Ticks, and a key that goes down and up, among a step that is carried out, the step
that fails, and one on the halted machine. -/
theorem secondWordReturn_commutes :
    let ticks : List Operation := [.tick, .step, .tick, .step, .tick, .step]
    let keys : List Operation := [.keyDown 5, .step, .keyUp 5, .step, .keyDown 9, .step]
    let replies : List Reply := [.status (.executed (.setByte 0xA 7)),
      .faulted secondWordReturn, .faulted secondWordReturn]
    beforeEmptyReturn.AwaitsNoKey ∧
    beforeEmptyReturn.stepReplies ticks = replies ∧
    beforeEmptyReturn.after ticks =
      beforeEmptyReturn.after [.step, .step, .step, .tick, .tick, .tick] ∧
    beforeEmptyReturn.stepReplies keys = replies ∧
    beforeEmptyReturn.after keys =
      beforeEmptyReturn.after [.step, .step, .step, .keyDown 5, .keyUp 5, .keyDown 9] := by
  intro ticks keys replies
  have hplain : ∀ ops, ops.count .step = 3 →
      beforeEmptyReturn.stepReplies (stepsFirst ops) = replies := by
    intro ops hops
    rw [stepReplies_stepsFirst, hops]
    exact beforeEmptyReturn_replies
  have huses : ∀ (p : Part) (i : Instruction),
      .status (.executed i) ∈ replies → i.uses p = false := by
    intro p i hi
    simp only [replies, List.mem_cons, Reply.status.injEq, Status.executed.injEq, reduceCtorEq,
      List.not_mem_nil, or_false] at hi
    rw [hi]
    cases p <;> rfl
  have hready : beforeEmptyReturn.AwaitsNoKey := nofun
  obtain ⟨htick, hafterTick⟩ := (stimuli_commute beforeEmptyReturn ticks).1 (by decide)
    (by rw [hplain ticks rfl]; exact huses .timers)
  obtain ⟨hkey, hafterKey⟩ := (stimuli_commute beforeEmptyReturn keys).2 hready (by decide)
    (by rw [hplain keys rfl]; exact huses .keypad)
  exact ⟨hready, htick.trans (hplain ticks rfl), hafterTick, hkey.trans (hplain keys rfl),
    hafterKey⟩

end Machine

end Chip8
