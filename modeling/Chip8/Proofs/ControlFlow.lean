import Chip8.Proofs.Execution
import Chip8.Proofs.Moves

/-!
# Where control goes

An instruction that is carried out takes the program counter to its destination
and changes the call stack only if it calls or returns.  Destinations are plain
numbers here, so that it can be asked whether one fits the sixteen bits of the
program counter; the machine keeps what is left of it modulo 65536.

* `Machine.destination`, `Machine.callsAfter` — where an instruction leads, and
  the return addresses behind it;
* `Machine.step_control` — what a step does to the program counter and the call
  stack, whether it fails or not;
* `Machine.perform_control` — no other move than a step or a load touches them.
-/

namespace Chip8

/-- The depth counts the addresses on the stack. -/
theorem CallStack.length_toList (s : CallStack) : s.toList.length = s.depth := by
  have hdepth := s.depth_le
  simp only [toList, List.length_reverse, List.length_take, Vector.length_toList]
  omega

namespace Machine

/-- Whether an instruction passes over the one behind it. -/
def skips (m : Machine) : Instruction → Bool
  | .skipIfByte x b => m.reg x == b
  | .skipUnlessByte x b => m.reg x != b
  | .skipIfSame x y => m.reg x == m.reg y
  | .skipUnlessSame x y => m.reg x != m.reg y
  | .skipIfHeld x => m.keypad.isHeld (m.reg x)
  | .skipUnlessHeld x => !m.keypad.isHeld (m.reg x)
  | _ => false

/-- Where an instruction at the program counter leads, if nothing wraps. -/
def destination (m : Machine) : Instruction → Nat
  | .jump a => a.toNat
  | .call a => a.toNat
  | .ret => (m.stack.toList.headD 0).toNat
  | .jumpOffset a => a.toNat + (m.reg .v0).toNat
  | i => m.pc.toNat + if m.skips i then 4 else 2

/-- The return addresses, the latest first, behind an instruction at the program
counter. -/
def callsAfter (m : Machine) : Instruction → List Address
  | .call _ => m.pc.next :: m.stack.toList
  | .ret => m.stack.toList.tail
  | _ => m.stack.toList

section Equations

variable (m : Machine) (a : Address)

@[simp] theorem destination_jump : m.destination (.jump a) = a.toNat :=
  rfl

@[simp] theorem destination_call : m.destination (.call a) = a.toNat :=
  rfl

@[simp] theorem destination_ret : m.destination .ret = (m.stack.toList.headD 0).toNat :=
  rfl

@[simp] theorem destination_jumpOffset :
    m.destination (.jumpOffset a) = a.toNat + (m.reg .v0).toNat :=
  rfl

@[simp] theorem callsAfter_call : m.callsAfter (.call a) = m.pc.next :: m.stack.toList :=
  rfl

@[simp] theorem callsAfter_ret : m.callsAfter .ret = m.stack.toList.tail :=
  rfl

end Equations

variable {m : Machine} {i : Instruction}

/-- A call that is not refused goes to its target and puts the program counter on the
stack. -/
theorem enter_control {a : Address} (h : m.refusal (.call a) = none) :
    (m.enter a).1.pc = a ∧ (m.enter a).1.stack.toList = m.pc :: m.stack.toList := by
  rw [← enter_refusal] at h
  unfold enter at h ⊢
  split
  · next stack hpush => exact ⟨rfl, CallStack.toList_push hpush⟩
  · next hpush =>
      rw [hpush] at h
      cases h

/-- A return that is not refused takes the program counter from the stack. -/
theorem leave_control (h : m.refusal .ret = none) :
    m.stack.toList = m.leave.1.pc :: m.leave.1.stack.toList := by
  rw [← leave_refusal] at h
  unfold leave at h ⊢
  split
  · next a stack hpop => exact CallStack.toList_pop hpop
  · next hpop =>
      rw [hpop] at h
      cases h

/-- An instruction that is not refused leaves the stack that `callsAfter` tells. -/
theorem execute_calls (h : m.refusal i = none) :
    (m.fetched.execute i).1.stack.toList = m.callsAfter i := by
  rw [← refusal_fetched] at h
  have hsame := m.fetched.sameOutside_execute i
  cases i with
  | call a => exact (enter_control h).2
  | ret =>
      have hleave : m.stack.toList =
          m.fetched.leave.1.pc :: m.fetched.leave.1.stack.toList := leave_control h
      exact (congrArg List.tail hleave).symm
  | _ => exact congrArg CallStack.toList (hsame .stack (by simp [Instruction.footprint]))

/-- Going on by one instruction adds two, modulo 2¹⁶. -/
theorem toNat_next (a : Address) : a.next.toNat = (a.toNat + 2) % 65536 := by
  simp [Address.next]

/-- An offset is added modulo 2¹⁶. -/
theorem toNat_plus (a : Address) (b : UInt8) :
    (a.plus b).toNat = (a.toNat + b.toNat) % 65536 := by
  simp [Address.plus]

/-- A skip goes on by two instructions, and without its condition by one. -/
theorem skipIf_pc (condition : Bool) :
    (m.fetched.skipIf condition).pc.toNat =
      (m.pc.toNat + if condition then 4 else 2) % 65536 := by
  have hfetched : m.fetched.pc.toNat = (m.pc.toNat + 2) % 65536 := toNat_next m.pc
  cases condition with
  | false => exact hfetched
  | true =>
      change m.fetched.pc.next.toNat = _
      rw [toNat_next, hfetched]
      simp only [↓reduceIte]
      omega

/-- An instruction that is not refused goes to its destination, modulo 2¹⁶. -/
theorem execute_pc (h : m.refusal i = none) :
    (m.fetched.execute i).1.pc.toNat = m.destination i % 65536 := by
  rw [← refusal_fetched] at h
  have hword (a : Address) : a.toNat = a.toNat % 65536 := (Nat.mod_eq_of_lt a.toNat_lt).symm
  have hsame := m.fetched.sameOutside_execute i
  cases i with
  | jump a => exact hword a
  | call a =>
      change (m.fetched.enter a).1.pc.toNat = a.toNat % 65536
      rw [(enter_control h).1]
      exact hword a
  | ret =>
      have hleave : m.stack.toList =
          m.fetched.leave.1.pc :: m.fetched.leave.1.stack.toList := leave_control h
      change m.fetched.leave.1.pc.toNat = _
      rw [destination_ret, hleave]
      exact hword _
  | jumpOffset a => exact toNat_plus a _
  | skipIfByte | skipUnlessByte | skipIfSame | skipUnlessSame | skipIfHeld | skipUnlessHeld =>
      exact skipIf_pc _
  | _ =>
      have hpc := hsame .pc (by simp [Instruction.footprint])
      exact (congrArg UInt16.toNat hpc).trans (toNat_next m.pc)

/-- A word is fetched from inside memory, so the program counter behind it has not
wrapped. -/
theorem toNat_pc_next_of_word {word : Opcode} (h : m.memory.word m.pc = .ok word) :
    m.pc.toNat ≤ 4094 ∧ m.pc.next.toNat = m.pc.toNat + 2 := by
  have hlt := (Memory.word_eq_ok_iff.1 h).lt
  rw [toNat_next]
  omega

/-- **What a step does to control.**  It carries out an instruction, found at the
program counter, and goes on behind it.  Or it carries out none; then the call
stack stays, and the program counter stays or moves behind the word that was
fetched. -/
theorem step_control (m : Machine) :
    (∃ word i, m.memory.word m.pc = .ok word ∧ Instruction.decode? word = some i ∧
      m.refusal i = none ∧ m.step.2 = .ok (.executed i) ∧
      m.step.1.pc.toNat = m.destination i % 65536 ∧
      m.step.1.stack.toList = m.callsAfter i) ∨
    ((∀ i, m.step.2 ≠ .ok (.executed i)) ∧ m.step.1.stack = m.stack ∧
      (m.step.1.pc = m.pc ∨
        ∃ word, m.memory.word m.pc = .ok word ∧ m.step.1.pc = m.pc.next)) := by
  cases hstate : m.state with
  | halted f =>
      rw [step_of_halted hstate]
      exact Or.inr ⟨by simp, rfl, Or.inl rfl⟩
  | awaitingKey x =>
      rw [step_of_awaitingKey hstate]
      exact Or.inr ⟨by simp, rfl, Or.inl rfl⟩
  | running =>
      rcases step_cases hstate with ⟨e, -, hstep⟩ | ⟨word, hword, -, hstep⟩ |
        ⟨word, i, e, hword, -, hrefusal, hstep⟩ | ⟨word, i, hword, hdecode, hrefusal, hstep⟩
      · rw [hstep]
        exact Or.inr ⟨by simp [haltAt], rfl, Or.inl rfl⟩
      · rw [hstep]
        exact Or.inr ⟨by simp [haltAt], rfl, Or.inr ⟨word, hword, rfl⟩⟩
      · rw [← refusal_fetched] at hrefusal
        obtain ⟨hpc, hstack⟩ := execute_control_of_refusal hrefusal
        rw [hstep]
        exact Or.inr ⟨by simp [haltAt], hstack, Or.inr ⟨word, hword, hpc⟩⟩
      · rw [hstep]
        exact Or.inl ⟨word, i, hword, hdecode, hrefusal, rfl, execute_pc hrefusal,
          execute_calls hrefusal⟩

/-- What there was and what there is after an instruction that was carried out. -/
theorem control_of_executed (h : m.step.2 = .ok (.executed i)) :
    ∃ word, m.memory.word m.pc = .ok word ∧ Instruction.decode? word = some i ∧
      m.refusal i = none ∧ m.step.1.pc.toNat = m.destination i % 65536 ∧
      m.step.1.stack.toList = m.callsAfter i := by
  rcases m.step_control with ⟨word, j, hword, hdecode, hrefusal, hresult, hpc, hcalls⟩ | ⟨hnone, -⟩
  · rw [h] at hresult
    cases hresult
    exact ⟨word, hword, hdecode, hrefusal, hpc, hcalls⟩
  · exact absurd h (hnone i)

/-- No move but a step or a load touches the program counter or the call stack. -/
theorem perform_control {op : Operation} (m : Machine) (hordinary : op.isOrdinary = true)
    (hframe : op.isFrame = false) :
    op = .step ∨ op.isLoad = true ∨
      (m.perform op).1.pc = m.pc ∧ (m.perform op).1.stack = m.stack := by
  cases op with
  | step => exact Or.inl rfl
  | load program => exact Or.inr (Or.inl rfl)
  | tick => exact Or.inr (Or.inr ⟨rfl, rfl⟩)
  | takeFrame => exact Or.inr (Or.inr ⟨rfl, rfl⟩)
  | keyDown code =>
      refine Or.inr (Or.inr (proceed_preserves
        (P := fun m' => m'.pc = m.pc ∧ m'.stack = m.stack) ⟨rfl, rfl⟩ ?_))
      intro m' h
      obtain ⟨keypad, -, ⟨x, -, rfl⟩ | ⟨-, rfl⟩⟩ := keyDown_eq_ok h
      · exact ⟨rfl, rfl⟩
      · exact ⟨rfl, rfl⟩
  | keyUp code =>
      refine Or.inr (Or.inr (proceed_preserves
        (P := fun m' => m'.pc = m.pc ∧ m'.stack = m.stack) ⟨rfl, rfl⟩ ?_))
      intro m' h
      obtain ⟨keypad, -, rfl⟩ := keyUp_eq_ok h
      exact ⟨rfl, rfl⟩
  | runFrame => cases hframe
  | _ => cases hordinary

end Machine

end Chip8
