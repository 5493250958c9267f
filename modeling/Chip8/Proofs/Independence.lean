import Chip8.Proofs.Execution
import Chip8.Proofs.Moves

/-!
# Parts that few instructions use

The timers, the keypad and the source of random bytes are used by a few instructions
each.  Every other instruction neither looks at such a part nor touches it, whether it
is carried out or stopped, and neither do fetching and decoding.  So it makes no
difference whether a part is changed before such an instruction or behind it.

* `Instruction.uses` — which instructions use a part;
* `Machine.Changes` — the changes to one part that look at nothing else;
* `Machine.Changes.execute` — they commute with an instruction that does not use the
  part;
* `Machine.Changes.step`, `Machine.Changes.steps` — they commute with a step, and with
  any number of steps, that execute no instruction which uses the part.
-/

namespace Chip8

/-- The parts of the machine that few instructions use. -/
inductive Part where
  | timers
  | keypad
  | random

/-- Whether an instruction uses a part.  One that waits for a key uses the keypad,
since the key that goes down next is stored in its register. -/
def Instruction.uses : Part → Instruction → Bool
  | .timers, .readDelay _ | .timers, .setDelay _ | .timers, .setSound _ => true
  | .keypad, .skipIfHeld _ | .keypad, .skipUnlessHeld _ | .keypad, .awaitKey _ => true
  | .random, .random .. => true
  | _, _ => false

namespace Machine

/-- An instruction that can be stopped uses none of the parts. -/
theorem uses_of_refusal {m : Machine} {i : Instruction} {e : MachineError}
    (h : m.refusal i = some e) (p : Part) : i.uses p = false := by
  cases i with
  | call | ret | draw | storeDecimal | store | load => cases p <;> rfl
  | _ => cases h

/-- A change to one part of the machine that looks at no other. -/
inductive Changes : Part → (Machine → Machine) → Prop
  | timers (g : Timers → Timers) : Changes .timers fun m => { m with timers := g m.timers }
  | keypad (g : Keypad → Keypad) : Changes .keypad fun m => { m with keypad := g m.keypad }
  | random (g : Generator → Generator) : Changes .random fun m => { m with random := g m.random }

namespace Changes

variable {p : Part} {f : Machine → Machine} {m : Machine} {i : Instruction}

theorem memory (hf : Changes p f) : (f m).memory = m.memory := by
  cases hf <;> rfl

theorem pc (hf : Changes p f) : (f m).pc = m.pc := by
  cases hf <;> rfl

theorem state (hf : Changes p f) : (f m).state = m.state := by
  cases hf <;> rfl

/-- A change does not make an instruction refused or accepted. -/
theorem refusal (hf : Changes p f) : (f m).refusal i = m.refusal i := by
  cases hf <;> cases i <;> rfl

/-- A change commutes with going on to the next word. -/
theorem fetched (hf : Changes p f) : (f m).fetched = f m.fetched := by
  cases hf <;> rfl

/-- A change commutes with halting. -/
theorem haltAt (hf : Changes p f) (t : Trace) (e : MachineError) :
    (f m).haltAt t e = (f (m.haltAt t e).1, (m.haltAt t e).2) := by
  cases hf <;> rfl

/-- A change commutes with recording an instruction. -/
theorem passAt (hf : Changes p f) (t : Trace) (i : Instruction) :
    (f m).passAt t i = (f (m.passAt t i).1, (m.passAt t i).2) := by
  cases hf <;> rfl

theorem reg (hf : Changes p f) (x : Reg) : (f m).reg x = m.reg x := by
  cases hf <;> rfl

/-- Only a change of the keypad reaches the keypad. -/
theorem keypad_of_ne (hf : Changes p f) (hp : p ≠ .keypad) : (f m).keypad = m.keypad := by
  cases hf with
  | keypad => exact absurd rfl hp
  | timers | random => rfl

/-- A change commutes with a skip. -/
theorem skipIf (hf : Changes p f) (condition : Bool) :
    ((f m).skipIf condition).done =
      (f ((m.skipIf condition).done).1, ((m.skipIf condition).done).2) := by
  cases condition with
  | false => rfl
  | true => cases hf <;> rfl

/-- A change commutes with a call. -/
theorem enter (hf : Changes p f) (a : Address) :
    (f m).enter a = (f (m.enter a).1, (m.enter a).2) := by
  cases hf <;> simp only [Machine.enter] <;> split <;> rfl

/-- A change commutes with a return. -/
theorem leave (hf : Changes p f) : (f m).leave = (f m.leave.1, m.leave.2) := by
  cases hf <;> simp only [Machine.leave] <;> split <;> rfl

/-- A change commutes with a draw. -/
theorem drawSprite (hf : Changes p f) (x y : Reg) (height : UInt8) :
    (f m).drawSprite x y height =
      (f (m.drawSprite x y height).1, (m.drawSprite x y height).2) := by
  cases hf <;> simp only [Machine.drawSprite, setReg] <;> split <;> rfl

/-- A change commutes with an instruction that does not use the part. -/
theorem execute (hf : Changes p f) (hi : i.uses p = false) (m : Machine) :
    (f m).execute i = (f (m.execute i).1, (m.execute i).2) := by
  cases i with
  | call a => exact hf.enter a
  | ret => exact hf.leave
  | draw x y height => exact hf.drawSprite x y height
  | skipIfByte | skipUnlessByte | skipIfSame | skipUnlessSame =>
      simp only [Machine.execute, hf.reg]
      exact hf.skipIf _
  | skipIfHeld | skipUnlessHeld =>
      have hp : p ≠ .keypad := by
        rintro rfl
        cases hi
      simp only [Machine.execute, hf.reg, hf.keypad_of_ne hp]
      exact hf.skipIf _
  | readDelay | setDelay | setSound =>
      cases hf with
      | timers => cases hi
      | keypad | random => rfl
  | random =>
      cases hf with
      | random => cases hi
      | timers | keypad => rfl
  | _ => cases hf <;> rfl

/-- A change commutes with a step that executes no instruction which uses the part. -/
theorem step (hf : Changes p f)
    (huses : ∀ i, m.step.2 = .ok (.executed i) → i.uses p = false) :
    (f m).step = (f m.step.1, m.step.2) := by
  have hword : (f m).memory.word (f m).pc = m.memory.word m.pc := by rw [hf.memory, hf.pc]
  cases hstate : m.state with
  | halted fault => rw [step_of_halted hstate, step_of_halted (hf.state.trans hstate)]
  | awaitingKey x => rw [step_of_awaitingKey hstate, step_of_awaitingKey (hf.state.trans hstate)]
  | running =>
      have hrun : (f m).state = .running := hf.state.trans hstate
      rcases step_cases hstate with ⟨e, he, hstep⟩ | ⟨word, hok, hdecode, hstep⟩ |
        ⟨word, i, e, hok, hdecode, hrefusal, hstep⟩ | ⟨word, i, hok, hdecode, hrefusal, hstep⟩
      · rw [hstep, step_of_unfetched hrun (hword.trans he), hf.pc, hf.haltAt]
      · rw [hstep, step_of_undecoded hrun (hword.trans hok) hdecode, hf.pc, hf.fetched, hf.haltAt]
      · have hi := uses_of_refusal hrefusal p
        rw [hstep, step_of_refused hrun (hword.trans hok) hdecode (hf.refusal.trans hrefusal),
          hf.pc, hf.fetched, hf.execute hi, hf.haltAt]
      · have hi := huses i (by rw [hstep]; rfl)
        rw [hstep, step_of_executed hrun (hword.trans hok) hdecode (hf.refusal.trans hrefusal),
          hf.pc, hf.fetched, hf.execute hi, hf.passAt]

/-- A change commutes with steps that execute no instruction which uses the part. -/
theorem steps (hf : Changes p f) {n : Nat} (huses : ∀ i,
      .status (.executed i) ∈ (m.performAll (List.replicate n .step)).2 → i.uses p = false) :
    (f m).performAll (List.replicate n .step) =
      (f (m.performAll (List.replicate n .step)).1,
        (m.performAll (List.replicate n .step)).2) := by
  induction n generalizing m with
  | zero => rfl
  | succ n ih =>
      rw [List.replicate_succ] at huses ⊢
      simp only [performAll, perform] at huses ⊢
      have hfirst : (f m).step = (f m.step.1, m.step.2) := by
        apply hf.step
        intro i hi
        apply huses
        rw [hi]
        exact List.mem_cons_self
      have hrest := ih fun i hi => huses i (List.mem_cons_of_mem _ hi)
      rw [hfirst, hrest]

end Changes

section Untouched

variable {m : Machine}

/-- A step that executes no instruction which uses the timers leaves them as they are:
setting them to what they are commutes with it. -/
theorem step_timers (huses : ∀ i, m.executes? .step = some i → i.uses .timers = false) :
    m.step.1.timers = m.timers :=
  congrArg (fun result => result.1.timers)
    ((Changes.timers fun _ => m.timers).step fun i hi => huses i (executes?_step hi))

/-- A step that executes no `CXNN` leaves the source of random bytes as it is. -/
theorem step_random (huses : ∀ i, m.executes? .step = some i → i.uses .random = false) :
    m.step.1.random = m.random :=
  congrArg (fun result => result.1.random)
    ((Changes.random fun _ => m.random).step fun i hi => huses i (executes?_step hi))

end Untouched

end Machine

end Chip8
