import Chip8.Proofs.KeyWait

/-!
# The step budget of a frame

A host may hand out the steps of a frame in one piece or in several: the instructions that
are executed are the same, and so is everything behind them.  The steps of a frame end for
one of three reasons.  The budget is used up; or the machine waits for a key, found so by
the step or put so by its instruction; or a step fails, and then the frame does not tick.  In
the last two cases what is left of the budget comes to nothing, so it does not matter in
which piece it was.

* `Machine.goOn`, `Machine.runSteps_add` — steps in two pieces are the steps in one;
* `Machine.TakesSteps`, `Machine.exists_takesSteps` — the steps that a frame takes, with
  their answers;
* `Machine.exists_countedDown_tickBy` — its ticks count both timers down and do nothing else;
* `Machine.frame_splits` — a frame in two pieces, and what a frame does.
-/

namespace Chip8.Machine

/-- Go on from what a frame has come to, unless it failed. -/
def goOn (result : Machine × Option Fault) (next : Machine → Machine × Option Fault) :
    Machine × Option Fault :=
  match result with
  | (m, none) => next m
  | (m, some f) => (m, some f)

section Waiting

variable {m m' : Machine}

/-- A machine waits if and only if it awaits a key. -/
theorem isWaiting_iff : m.isWaiting = true ↔ ∃ x, m.state = .awaitingKey x := by
  unfold isWaiting
  cases m.state <;> simp

/-- A step that finds the machine waiting leaves it so. -/
theorem isWaiting_of_step (h : m.step = (m', .ok .waiting)) : m'.isWaiting = true := by
  cases hstate : m.state with
  | halted f =>
      rw [step_of_halted hstate] at h
      cases h
  | awaitingKey x =>
      rw [step_of_awaitingKey hstate] at h
      cases h
      exact isWaiting_iff.2 ⟨x, hstate⟩
  | running => exact absurd (congrArg Prod.snd h) (fetchesAt_pc hstate).1

/-- A machine that waits takes no steps of a frame further. -/
theorem runSteps_of_isWaiting (h : m.isWaiting = true) (n : Nat) : m.runSteps n = (m, none) := by
  obtain ⟨x, hx⟩ := isWaiting_iff.1 h
  exact runSteps_of_awaitingKey hx n

end Waiting

section Pieces

variable (m : Machine)

/-- Steps handed out in two pieces are the steps handed out in one. -/
theorem runSteps_add (n k : Nat) : m.runSteps (n + k) = goOn (m.runSteps n) (runSteps k) := by
  induction n generalizing m with
  | zero => rw [Nat.zero_add]; rfl
  | succ n ih =>
      rw [Nat.succ_add]
      unfold runSteps
      rcases hstep : m.step with ⟨m', fault | i | _⟩
      · rfl
      · dsimp only
        by_cases hwait : m'.isWaiting = true
        · rw [if_pos hwait, if_pos hwait]
          exact (runSteps_of_isWaiting hwait k).symm
        · rw [if_neg hwait, if_neg hwait]
          exact ih m'
      · exact (runSteps_of_isWaiting (isWaiting_of_step hstep) k).symm

/-- A frame is its steps and, unless they fail, its ticks. -/
theorem runFrame_eq (steps ticks : Nat) :
    m.runFrame steps ticks = goOn (m.runSteps steps) fun m' => (m'.tickBy ticks, none) := by
  unfold runFrame goOn
  rcases m.runSteps steps with ⟨m', _ | fault⟩
  · rfl
  · rfl

end Pieces

/-- Of a budget of `n` steps the first `k` are taken, with these answers, and lead to `reached`.
A step that starts to wait for a key is the last one.  The failure is the fault that a step
answers, if one does.  And steps are left over only where the machine waits or a step has
failed. -/
structure TakesSteps (m : Machine) (n k : Nat) (replies : List Reply) (reached : Machine)
    (failure : Option Fault) : Prop where
  run : m.performAll (List.replicate k .step) = (reached, replies)
  within : k ≤ n
  blocked : ∀ j x, replies[j]? = some (.status (.executed (.awaitKey x))) → j + 1 = k
  failed : ∀ f, failure = some f ↔ .faulted f ∈ replies
  leftOver : k < n → reached.isWaiting = true ∨ failure ≠ none

namespace TakesSteps

variable {m m' : Machine} {n : Nat}

theorem noStep (m : Machine) : TakesSteps m 0 0 [] m none where
  run := rfl
  within := Nat.le_refl 0
  blocked _ _ h := by cases h
  failed f := by simp
  leftOver h := absurd h (Nat.lt_irrefl 0)

/-- A step after which a key is awaited is the only one of its frame. -/
theorem oneStep {status : Status} (hstep : m.step = (m', .ok status))
    (hwait : m'.isWaiting = true) : TakesSteps m (n + 1) 1 [.status status] m' none where
  run := by simp [performAll, perform, hstep, Reply.ofStep]
  within := Nat.succ_pos n
  blocked j x h := by
    obtain ⟨hj, -⟩ := List.getElem?_eq_some_iff.1 h
    have hzero : j = 0 := Nat.lt_one_iff.1 hj
    rw [hzero]
  failed f := by simp
  leftOver _ := Or.inl hwait

/-- A step that fails is the last of its frame. -/
theorem failedStep {f : Fault} (hstep : m.step = (m', .error f)) :
    TakesSteps m (n + 1) 1 [.faulted f] m' (some f) where
  run := by simp [performAll, perform, hstep, Reply.ofStep]
  within := Nat.succ_pos n
  blocked j x h := by cases j <;> simp at h
  failed g := by simp [eq_comm]
  leftOver _ := Or.inr (Option.some_ne_none f)

/-- A step after which the machine does not wait, and those behind it.  The step has not
executed the wait for a key, for then the machine would be waiting. -/
theorem cons {k : Nat} {replies : List Reply} {reached : Machine} {failure : Option Fault}
    {i : Instruction} (hstep : m.step = (m', .ok (.executed i))) (hwait : m'.isWaiting ≠ true)
    (h : TakesSteps m' n k replies reached failure) :
    TakesSteps m (n + 1) (k + 1) (.status (.executed i) :: replies) reached failure where
  run := by simp [List.replicate_succ, performAll, perform, hstep, Reply.ofStep, h.run]
  within := Nat.succ_le_succ h.within
  blocked j x hj := by
    cases j with
    | zero =>
        obtain rfl : i = .awaitKey x := by simpa using hj
        have hexecuted : m.step.2 = .ok (.executed (.awaitKey x)) := by rw [hstep]
        have hstate : m.step.1.state = .awaitingKey x := by rw [step_awaitKey hexecuted]
        rw [hstep] at hstate
        exact absurd (isWaiting_iff.2 ⟨x, hstate⟩) hwait
    | succ j => rw [h.blocked j x hj]
  failed f := by simp [h.failed f]
  leftOver hlt := h.leftOver (Nat.lt_of_succ_lt_succ hlt)

end TakesSteps

/-- What the steps of a frame come to. -/
theorem exists_takesSteps (m : Machine) (n : Nat) : ∃ replies,
    m.TakesSteps n (stepsTaken n m) replies (m.runSteps n).1 (m.runSteps n).2 := by
  induction n generalizing m with
  | zero => exact ⟨[], .noStep m⟩
  | succ n ih =>
      unfold stepsTaken runSteps
      rcases hstep : m.step with ⟨m', fault | i | _⟩
      · exact ⟨_, .failedStep hstep⟩
      · dsimp only
        by_cases hwait : m'.isWaiting = true
        · rw [if_pos hwait, if_pos hwait]
          exact ⟨_, .oneStep hstep hwait⟩
        · rw [if_neg hwait, if_neg hwait]
          obtain ⟨replies, hrest⟩ := ih m'
          exact ⟨_, .cons hstep hwait hrest⟩
      · exact ⟨_, .oneStep hstep (isWaiting_of_step hstep)⟩

/-- Ticks count both timers down and do nothing else. -/
theorem exists_countedDown_tickBy (m : Machine) (n : Nat) :
    ∃ timers, m.timers.CountedDown n timers ∧ m.tickBy n = { m with timers := timers } := by
  induction n generalizing m with
  | zero => exact ⟨m.timers, .zero _, rfl⟩
  | succ n ih =>
      obtain ⟨timers, hdown, htick⟩ := ih m.tick
      refine ⟨timers, ?_, htick⟩
      rw [Nat.add_comm]
      exact (Timers.CountedDown.tick m.timers).trans hdown

/-- **Frames split.**  On any machine, whether it runs, waits or has halted, a frame without
ticks and behind it, unless it failed, a second frame come to the same result and the same
machine as one frame with the steps of both.  A frame takes no more steps than it is given,
and none behind one that starts to wait for a key; steps are left over only if the machine
waits or a step has failed.  If no step fails, both timers count down by the ticks of the
frame, also when steps are left over, and nothing else changes behind the steps.  If one
fails, its fault is the result, and the frame does not tick. -/
theorem frame_splits (m : Machine) (steps more ticks : Nat) :
    m.runFrame (steps + more) ticks =
      goOn (m.runFrame steps 0) (fun m' => m'.runFrame more ticks) ∧
    ∃ replies reached,
      m.TakesSteps steps (stepsTaken steps m) replies reached (m.runFrame steps ticks).2 ∧
      ((m.runFrame steps ticks).2 = none →
        ∃ timers, reached.timers.CountedDown ticks timers ∧
          (m.runFrame steps ticks).1 = { reached with timers := timers }) ∧
      ((m.runFrame steps ticks).2 ≠ none → (m.runFrame steps ticks).1 = reached) := by
  constructor
  · rw [runFrame_eq, runFrame_eq, runSteps_add]
    rcases m.runSteps steps with ⟨m', _ | fault⟩
    · exact (m'.runFrame_eq more ticks).symm
    · rfl
  · obtain ⟨replies, hsteps⟩ := m.exists_takesSteps steps
    refine ⟨replies, (m.runSteps steps).1, ?_⟩
    rw [runFrame_eq]
    rcases hrun : m.runSteps steps with ⟨reached, _ | fault⟩
    · rw [hrun] at hsteps
      refine ⟨hsteps, fun _ => reached.exists_countedDown_tickBy ticks, ?_⟩
      intro hfailed
      exact absurd rfl hfailed
    · rw [hrun] at hsteps
      refine ⟨hsteps, ?_, fun _ => rfl⟩
      intro hnone
      cases hnone

end Chip8.Machine
