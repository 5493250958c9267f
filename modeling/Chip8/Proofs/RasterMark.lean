import Chip8.Proofs.Execution
import Chip8.Session

/-!
# The mark of the raster decides nothing

The raster carries a mark that tells a session to paint.  Instructions raise it and
never look at it, so two machines that differ in the mark alone execute, fail, count
down and take keys alike, and differ in nothing but the mark afterwards.

* `Machine.withMark` — a machine with another mark;
* `Machine.execute_withMark`, `Machine.runFrame_withMark` — an instruction and a frame
  from such machines;
* `Session.deliverAll_withMark` — keys reported to them.
-/

namespace Chip8

/-- Turning cells over looks at the pixels alone. -/
theorem Raster.flipAll_dirty (r : Raster) (dirty : Bool) (cells : List Cell) :
    ∃ dirty', { r with dirty := dirty }.flipAll cells =
      ({ (r.flipAll cells).1 with dirty := dirty' }, (r.flipAll cells).2) := by
  cases cells with
  | nil => exact ⟨dirty, rfl⟩
  | cons c cells => exact ⟨((r.flip c).flipAll cells).1.dirty, rfl⟩

namespace Machine

/-- The machine with a mark of its raster. -/
def withMark (m : Machine) (dirty : Bool) : Machine :=
  { m with raster := { m.raster with dirty := dirty } }

variable {m : Machine} {dirty : Bool}

/-- Of two marks the second counts. -/
@[simp] theorem withMark_withMark (m : Machine) (dirty dirty' : Bool) :
    (m.withMark dirty).withMark dirty' = m.withMark dirty' :=
  rfl

/-- A machine has its own mark. -/
@[simp] theorem withMark_self (m : Machine) : m.withMark m.raster.dirty = m :=
  rfl

/-- A draw does the same whatever the mark, and leaves a mark that may depend on it. -/
theorem drawSprite_withMark (m : Machine) (dirty : Bool) (x y : Reg) (height : UInt8) :
    ∃ dirty', (m.withMark dirty).drawSprite x y height =
      ((m.drawSprite x y height).1.withMark dirty', (m.drawSprite x y height).2) := by
  cases hslice : m.memory.slice m.index.toNat height.toNat with
  | error e =>
      refine ⟨dirty, ?_⟩
      simp only [drawSprite, withMark, setReg, hslice]
  | ok sprite =>
      obtain ⟨dirty', hflip⟩ := m.raster.flipAll_dirty dirty
        (spriteCells (m.reg x).toNat (m.reg y).toNat sprite)
      refine ⟨dirty', ?_⟩
      simp only [reg] at hflip
      simp only [drawSprite, withMark, setReg, hslice, Raster.paint, reg, hflip]

/-- A skip does the same whatever the mark. -/
theorem skipIf_withMark (m : Machine) (dirty condition : Bool) :
    ((m.withMark dirty).skipIf condition).done =
      ((m.skipIf condition).done.1.withMark dirty, (m.skipIf condition).done.2) := by
  cases condition with
  | true => rfl
  | false => rfl

/-- An instruction does not look at the mark. -/
theorem execute_withMark (m : Machine) (dirty : Bool) (i : Instruction) :
    ∃ dirty', (m.withMark dirty).execute i =
      ((m.execute i).1.withMark dirty', (m.execute i).2) := by
  cases i with
  | clear => exact ⟨true, rfl⟩
  | draw x y height => exact m.drawSprite_withMark dirty x y height
  | call a =>
      refine ⟨dirty, ?_⟩
      simp only [execute, enter, withMark]
      split <;> rfl
  | ret =>
      refine ⟨dirty, ?_⟩
      simp only [execute, leave, withMark]
      split <;> rfl
  | skipIfByte | skipUnlessByte | skipIfSame | skipUnlessSame | skipIfHeld | skipUnlessHeld =>
      exact ⟨dirty, m.skipIf_withMark dirty _⟩
  | _ => exact ⟨dirty, rfl⟩

/-- A step does the same whatever the mark, as no refusal depends on the raster. -/
theorem step_withMark (m : Machine) (dirty : Bool) :
    ∃ dirty', (m.withMark dirty).step = (m.step.1.withMark dirty', m.step.2) := by
  cases hstate : m.state with
  | halted f =>
      have hhalt : (m.withMark dirty).state = .halted f := hstate
      refine ⟨dirty, ?_⟩
      rw [step_of_halted hstate, step_of_halted hhalt]
  | awaitingKey x =>
      have hwait : (m.withMark dirty).state = .awaitingKey x := hstate
      refine ⟨dirty, ?_⟩
      rw [step_of_awaitingKey hstate, step_of_awaitingKey hwait]
  | running =>
      have hrun : (m.withMark dirty).state = .running := hstate
      rcases step_cases hstate with ⟨e, he, hstep⟩ | ⟨word, hok, hdecode, hstep⟩ |
        ⟨word, i, e, hok, hdecode, hrefusal, hstep⟩ | ⟨word, i, hok, hdecode, hrefusal, hstep⟩
      · refine ⟨dirty, ?_⟩
        rw [hstep, step_of_unfetched hrun he]
        rfl
      · refine ⟨dirty, ?_⟩
        rw [hstep, step_of_undecoded hrun hok hdecode]
        rfl
      · obtain ⟨dirty', hexecute⟩ := m.fetched.execute_withMark dirty i
        refine ⟨dirty', ?_⟩
        have hrefusal' : (m.withMark dirty).refusal i = some e := by
          rw [← hrefusal]
          cases i <;> rfl
        have hfetched : (m.withMark dirty).fetched = m.fetched.withMark dirty := rfl
        rw [hstep, step_of_refused hrun hok hdecode hrefusal', hfetched, hexecute]
        rfl
      · obtain ⟨dirty', hexecute⟩ := m.fetched.execute_withMark dirty i
        refine ⟨dirty', ?_⟩
        have hrefusal' : (m.withMark dirty).refusal i = none := by
          rw [← hrefusal]
          cases i <;> rfl
        have hfetched : (m.withMark dirty).fetched = m.fetched.withMark dirty := rfl
        rw [hstep, step_of_executed hrun hok hdecode hrefusal', hfetched, hexecute]
        rfl

/-- Any number of steps do the same whatever the mark. -/
theorem runSteps_withMark (n : Nat) (m : Machine) (dirty : Bool) :
    ∃ dirty', (m.withMark dirty).runSteps n =
      ((m.runSteps n).1.withMark dirty', (m.runSteps n).2) := by
  induction n generalizing m dirty with
  | zero => exact ⟨dirty, rfl⟩
  | succ n ih =>
      obtain ⟨dirty', hstep⟩ := m.step_withMark dirty
      unfold runSteps
      rw [hstep]
      rcases m.step with ⟨m', f | i | _⟩
      · exact ⟨dirty', rfl⟩
      · have hwaiting : (m'.withMark dirty').isWaiting = m'.isWaiting := rfl
        simp only [hwaiting]
        cases m'.isWaiting with
        | true => exact ⟨dirty', rfl⟩
        | false => exact ih m' dirty'
      · exact ⟨dirty', rfl⟩

/-- Ticks do the same whatever the mark. -/
theorem tickBy_withMark (n : Nat) (m : Machine) (dirty : Bool) :
    (m.withMark dirty).tickBy n = (m.tickBy n).withMark dirty := by
  induction n generalizing m with
  | zero => rfl
  | succ n ih => exact ih m.tick

/-- A frame does not look at the mark. -/
theorem runFrame_withMark (m : Machine) (dirty : Bool) (steps ticks : Nat) :
    ∃ dirty', (m.withMark dirty).runFrame steps ticks =
      ((m.runFrame steps ticks).1.withMark dirty', (m.runFrame steps ticks).2) := by
  obtain ⟨dirty', hsteps⟩ := runSteps_withMark steps m dirty
  refine ⟨dirty', ?_⟩
  unfold runFrame
  rw [hsteps]
  rcases m.runSteps steps with ⟨m', _ | f⟩
  · dsimp only
    rw [tickBy_withMark]
  · rfl

end Machine

namespace Session

/-- A key report does the same whatever the mark. -/
theorem deliver_withMark (m : Machine) (dirty : Bool) (event : KeyEvent) :
    deliver (m.withMark dirty) event = (deliver m event).map fun m' => m'.withMark dirty := by
  cases event with
  | down code =>
      simp only [deliver, Machine.keyDown, Machine.withMark]
      cases m.keypad.press code with
      | error e => rfl
      | ok keypad =>
          simp only [Except.map]
          cases m.state <;> rfl
  | up code =>
      simp only [deliver, Machine.keyUp, Machine.withMark]
      cases m.keypad.release code <;> rfl

/-- Keys that are reported do not touch the mark. -/
theorem deliverAll_withMark (m : Machine) (dirty : Bool) (events : List KeyEvent) :
    deliverAll (m.withMark dirty) events =
      ((deliverAll m events).1.withMark dirty, (deliverAll m events).2) := by
  induction events generalizing m with
  | nil => rfl
  | cons event events ih =>
      unfold deliverAll
      rw [deliver_withMark]
      cases deliver m event with
      | error e => rfl
      | ok m' => exact ih m'

end Session

end Chip8
