import Chip8.Proofs.Execution

/-!
# What a run keeps

A relation between the machine before and the machine after holds along a run
once it holds along every instruction, composes, and does not look at what a
step does beside executing: it moves the program counter, changes the state of
the run and keeps a trace.

* `Machine.Persistent` — such a relation;
* `Machine.Persistent.step`, `Machine.Persistent.runFrame` — it holds along a
  step and along a frame.
-/

namespace Chip8.Machine

/-- A relation from before to after that instructions keep and bookkeeping does
not touch. -/
structure Persistent (R : Machine → Machine → Prop) : Prop where
  refl : ∀ m, R m m
  trans : ∀ {a b c}, R a b → R b c → R a c
  bookkeeping : ∀ m pc state trace,
    R m { m with pc := pc, state := state, lastTrace := trace }
  execute : ∀ m i, R m (m.execute i).1

namespace Persistent

variable {R : Machine → Machine → Prop}

/-- What persists persists over a step: it fetches, executes and keeps its books. -/
theorem step (hR : Persistent R) (m : Machine) : R m m.step.1 := by
  have hfetched : R m m.fetched := hR.bookkeeping m m.pc.next m.state m.lastTrace
  cases hstate : m.state with
  | halted f =>
      rw [step_of_halted hstate]
      exact hR.refl m
  | awaitingKey x =>
      rw [step_of_awaitingKey hstate]
      exact hR.refl m
  | running =>
      rcases step_cases hstate with ⟨e, -, hstep⟩ | ⟨word, -, -, hstep⟩ |
        ⟨word, i, e, -, -, -, hstep⟩ | ⟨word, i, -, -, -, hstep⟩
      · rw [hstep]
        exact hR.bookkeeping m m.pc _ _
      · rw [hstep]
        exact hR.bookkeeping m m.pc.next _ _
      · rw [hstep]
        exact hR.trans (hR.trans hfetched (hR.execute _ i)) (hR.bookkeeping _ _ _ _)
      · rw [hstep]
        exact hR.trans (hR.trans hfetched (hR.execute _ i)) (hR.bookkeeping _ _ _ _)

/-- What persists persists over any number of steps. -/
theorem runSteps (hR : Persistent R) (n : Nat) (m : Machine) : R m (m.runSteps n).1 := by
  induction n generalizing m with
  | zero => exact hR.refl m
  | succ n ih =>
      have hstep := hR.step m
      unfold Machine.runSteps
      split
      · next heq => rw [heq] at hstep; exact hstep
      · next heq => rw [heq] at hstep; exact hstep
      · next m' _ heq =>
          rw [heq] at hstep
          split
          · exact hstep
          · exact hR.trans hstep (ih m')

/-- What a tick keeps is kept by any number of ticks. -/
theorem tickBy (hR : Persistent R) (htick : ∀ m, R m m.tick) (n : Nat) (m : Machine) :
    R m (m.tickBy n) := by
  induction n generalizing m with
  | zero => exact hR.refl m
  | succ n ih => exact hR.trans (htick m) (ih m.tick)

/-- What persists and is kept by a tick persists over a frame, whether it fails or not. -/
theorem runFrame (hR : Persistent R) (htick : ∀ m, R m m.tick) (m : Machine)
    (steps ticks : Nat) : R m (m.runFrame steps ticks).1 := by
  have hsteps := hR.runSteps steps m
  unfold Machine.runFrame
  split
  · next heq => rw [heq] at hsteps; exact hsteps
  · next m' heq =>
      rw [heq] at hsteps
      exact hR.trans hsteps (hR.tickBy htick ticks m')

end Persistent

end Chip8.Machine
