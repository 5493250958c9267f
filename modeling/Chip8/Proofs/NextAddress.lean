import Chip8.Proofs.ControlFlow
import Chip8.Proofs.StepFault

/-!
# Where the next instruction is

The program counter is moved behind a word when the word is fetched, and the instruction
that the word stands for may move it again.  Here the two moves are put together and read
off the word: where control was before the step and the digits of the word tell where it
is afterwards.

* `Machine.KeyHeld`, `Machine.PassesOver` — the words that pass over the next instruction,
  each with its condition;
* `Machine.passesOver_iff_skips` — they are those whose instruction skips;
* `Machine.next_address_of_word` — the program counter after a step.
-/

namespace Chip8.Machine

variable {m : Machine} {word : Opcode} {i : Instruction}

/-- The key whose code is in a register is held.  A code above 15 belongs to no key. -/
def KeyHeld (m : Machine) (x : Reg) : Prop :=
  ∃ h : (m.reg x).toNat ≤ 15, m.keypad.keys[(m.reg x).toNat] = true

/-- A key is held if the keypad holds the code that the register has. -/
theorem keyHeld_iff {x : Reg} : m.KeyHeld x ↔ m.keypad.isHeld (m.reg x) = true := by
  unfold KeyHeld Keypad.isHeld
  by_cases hcode : (m.reg x).toNat < 16
  · simp [hcode, Nat.le_of_lt_succ hcode]
  · have habove : ¬ (m.reg x).toNat ≤ 15 := by omega
    simp [hcode, habove]

/-- The word asks for a skip on a condition, and the condition is met. -/
inductive PassesOver (m : Machine) (word : Opcode) : Prop
  /-- The word `3XNN`. -/
  | byte (hkind : word.kind = 0x3) (h : m.reg word.x = word.nn)
  /-- The word `4XNN`. -/
  | otherByte (hkind : word.kind = 0x4) (h : m.reg word.x ≠ word.nn)
  /-- The word `5XY0`. -/
  | same (hkind : word.kind = 0x5) (hlow : word.digits 4 1 = 0x0)
      (h : m.reg word.x = m.reg word.y)
  /-- The word `9XY0`. -/
  | different (hkind : word.kind = 0x9) (hlow : word.digits 4 1 = 0x0)
      (h : m.reg word.x ≠ m.reg word.y)
  /-- The word `EX9E`. -/
  | held (hkind : word.kind = 0xE) (hlow : word.digits 3 2 = 0x9E) (h : m.KeyHeld word.x)
  /-- The word `EXA1`. -/
  | notHeld (hkind : word.kind = 0xE) (hlow : word.digits 3 2 = 0xA1) (h : ¬ m.KeyHeld word.x)

/-- A word passes over the next instruction if and only if the instruction that it stands
for skips. -/
theorem passesOver_iff_skips (hi : Instruction.Decodes word i) :
    m.PassesOver word ↔ m.skips i = true := by
  constructor
  · intro h
    cases h with
    | byte hkind h =>
        rw [hi.unique (.skipIfByte hkind)]
        exact beq_iff_eq.2 h
    | otherByte hkind h =>
        rw [hi.unique (.skipUnlessByte hkind)]
        exact bne_iff_ne.2 h
    | same hkind hlow h =>
        rw [hi.unique (.skipIfSame hkind hlow)]
        exact beq_iff_eq.2 h
    | different hkind hlow h =>
        rw [hi.unique (.skipUnlessSame hkind hlow)]
        exact bne_iff_ne.2 h
    | held hkind hlow h =>
        rw [hi.unique (.skipIfHeld hkind hlow)]
        exact keyHeld_iff.1 h
    | notHeld hkind hlow h =>
        rw [hi.unique (.skipUnlessHeld hkind hlow)]
        rw [keyHeld_iff] at h
        simp [skips, h]
  · intro h
    cases hi with
    | skipIfByte hkind => exact .byte hkind (beq_iff_eq.1 h)
    | skipUnlessByte hkind => exact .otherByte hkind (bne_iff_ne.1 h)
    | skipIfSame hkind hlow => exact .same hkind hlow (beq_iff_eq.1 h)
    | skipUnlessSame hkind hlow => exact .different hkind hlow (bne_iff_ne.1 h)
    | skipIfHeld hkind hlow => exact .held hkind hlow (keyHeld_iff.2 h)
    | skipUnlessHeld hkind hlow =>
        refine .notHeld hkind hlow fun hheld => ?_
        rw [keyHeld_iff] at hheld
        simp [skips, hheld] at h
    | _ => cases h

/-- An instruction that skips goes on behind the next one. -/
theorem destination_of_skips (h : m.skips i = true) : m.destination i = m.pc.toNat + 4 := by
  cases i with
  | skipIfByte | skipUnlessByte | skipIfSame | skipUnlessSame | skipIfHeld | skipUnlessHeld =>
      exact congrArg (m.pc.toNat + ·) (if_pos h)
  | _ => cases h

/-- A word that names no address goes on behind itself. -/
theorem destination_ahead (hi : Instruction.Decodes word i) (hjump : word.kind ≠ 0x1)
    (hcall : word.kind ≠ 0x2) (hoffset : word.kind ≠ 0xB) (hret : word ≠ 0x00EE) :
    m.destination i = m.pc.toNat + if m.skips i then 4 else 2 := by
  cases hi with
  | jump hkind => exact absurd hkind hjump
  | call hkind => exact absurd hkind hcall
  | jumpOffset hkind => exact absurd hkind hoffset
  | ret hword => exact absurd hword hret
  | _ => rfl

/-- The step of a machine that runs, unless it fails, executes an instruction. -/
theorem executed_of_ok {status : Status} (hrun : m.state = .running)
    (hstep : m.step.2 = .ok status) : ∃ i, status = .executed i := by
  cases status with
  | executed i => exact ⟨i, rfl⟩
  | waiting => exact absurd hstep (fetchesAt_pc hrun).1

/-- A return takes the latest address off the call stack and goes there. -/
theorem step_of_ret (hret : m.step.2 = .ok (.executed .ret)) :
    m.stack.toList = m.step.1.pc :: m.step.1.stack.toList := by
  obtain ⟨word, -, -, hrefusal, hstep⟩ := step_eq_of_status hret
  rw [← refusal_fetched] at hrefusal
  rw [hstep]
  exact leave_control hrefusal

/-- **The next address.**  A step of a running machine that succeeds has found a word at the
program counter.  For `1NNN` and `2NNN` the counter is `NNN` afterwards, and `2NNN` has put
the address behind itself on the call stack; for `00EE` it is the address taken off the
stack; for `BNNN` it is `NNN` plus V0.  It is four further on for a word that passes over
the next instruction, and two further on for every other word.  No sum wraps. -/
theorem next_address_of_word {status : Status} (hrun : m.state = .running)
    (hstep : m.step.2 = .ok status) :
    ∃ word, m.HasWord word ∧
      (word.kind = 0x1 → m.step.1.pc = word.nnn) ∧
      (word.kind = 0x2 → m.step.1.pc = word.nnn ∧
        ∃ back : Address, back.toNat = m.pc.toNat + 2 ∧
          m.step.1.stack.toList = back :: m.stack.toList) ∧
      (word = 0x00EE → m.stack.toList = m.step.1.pc :: m.step.1.stack.toList) ∧
      (word.kind = 0xB → m.step.1.pc.toNat = word.nnn.toNat + (m.reg .v0).toNat) ∧
      (m.PassesOver word → m.step.1.pc.toNat = m.pc.toNat + 4) ∧
      (¬ m.PassesOver word → word.kind ≠ 0x1 → word.kind ≠ 0x2 → word.kind ≠ 0xB →
        word ≠ 0x00EE → m.step.1.pc.toNat = m.pc.toNat + 2) := by
  obtain ⟨i, rfl⟩ := executed_of_ok hrun hstep
  obtain ⟨word, hword, hdecode, -, hpc, hcalls⟩ := control_of_executed hstep
  obtain ⟨hinside, hnext⟩ := toNat_pc_next_of_word hword
  have hi := Instruction.decodes_of_decode? hdecode
  have hnnn : word.nnn.toNat < 4096 := Opcode.toNat_nnn_lt word
  refine ⟨word, Memory.word_eq_ok_iff.1 hword, ?_, ?_, ?_, ?_, ?_, ?_⟩
  · intro hkind
    rw [hi.unique (.jump hkind), destination_jump, Nat.mod_eq_of_lt (by omega)] at hpc
    exact UInt16.toNat_inj.1 hpc
  · intro hkind
    rw [hi.unique (.call hkind)] at hpc hcalls
    rw [destination_call, Nat.mod_eq_of_lt (by omega)] at hpc
    exact ⟨UInt16.toNat_inj.1 hpc, m.pc.next, hnext, hcalls⟩
  · intro hret
    rw [hi.unique (.ret hret)] at hstep
    exact step_of_ret hstep
  · intro hkind
    have hoffset : (m.reg .v0).toNat < 256 := (m.reg .v0).toNat_lt
    rw [hi.unique (.jumpOffset hkind), destination_jumpOffset, Nat.mod_eq_of_lt (by omega)] at hpc
    exact hpc
  · intro hover
    have hskips := (passesOver_iff_skips hi).1 hover
    rw [destination_of_skips hskips, Nat.mod_eq_of_lt (by omega)] at hpc
    exact hpc
  · intro hstay hjump hcall hoffset hret
    rw [passesOver_iff_skips hi] at hstay
    rw [destination_ahead hi hjump hcall hoffset hret, if_neg hstay,
      Nat.mod_eq_of_lt (by omega)] at hpc
    exact hpc

/-- A machine at the instruction `E0A1`, with every key held and a code in V0 that belongs to
no key. -/
def atKeySkip : Machine :=
  { (start (.fresh #[0xE0, 0xA1]) (.ofSeed 7)).setReg .v0 0x20 with
    keypad := ⟨Vector.replicate 16 true⟩ }

theorem atKeySkip_hasWord : atKeySkip.HasWord 0xE0A1 :=
  Memory.hasWord_fresh (by decide) rfl

/-- The skip is carried out. -/
theorem atKeySkip_step : atKeySkip.step.2 = .ok (.executed (.skipUnlessHeld .v0)) := by
  rw [step_of_executed rfl (Memory.word_eq_ok_iff.2 atKeySkip_hasWord) rfl rfl]
  rfl

/-- No key is held that has the code in V0, so the next instruction is passed over. -/
theorem noSuchKey_passes_over :
    atKeySkip.state = .running ∧
    atKeySkip.step.2 = .ok (.executed (.skipUnlessHeld .v0)) ∧
    atKeySkip.HasWord 0xE0A1 ∧ atKeySkip.PassesOver 0xE0A1 ∧
    atKeySkip.step.1.pc.toNat = 0x0204 := by
  obtain ⟨word, hword, -, -, -, -, hover, -⟩ := next_address_of_word rfl atKeySkip_step
  have hsame : word = 0xE0A1 := Except.ok.inj
    ((Memory.word_eq_ok_iff.2 hword).symm.trans (Memory.word_eq_ok_iff.2 atKeySkip_hasWord))
  subst hsame
  have hnone : ¬ atKeySkip.KeyHeld .v0 := by
    rintro ⟨hcode, -⟩
    exact absurd hcode (by decide)
  have hpasses : atKeySkip.PassesOver 0xE0A1 := .notHeld rfl rfl hnone
  exact ⟨rfl, atKeySkip_step, atKeySkip_hasWord, hpasses, hover hpasses⟩

end Chip8.Machine
