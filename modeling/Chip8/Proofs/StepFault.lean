import Chip8.Proofs.Decoding
import Chip8.Proofs.Execution

/-!
# When a step fails

`Machine.FailsWith` lists the ways in which the step of a running machine
fails, read off the program counter, the word found there, the call stack and
the index register.

* `Instruction.decode?_spells` — what the word of an instruction that can be
  stopped looks like;
* `Machine.step_fault_iff` — a step fails in the listed ways and no other, and
  what it leaves behind.
-/

namespace Chip8

/-- The words that store bytes from `first` on, and the last byte they store. -/
inductive Opcode.Stores (word : Opcode) (first : Nat) : Nat → Prop
  /-- The word `FX33` stores three digits. -/
  | decimal (hkind : word.kind = 0xF) (hlow : word.digits 3 2 = 0x33) :
      Stores word first (first + 2)
  /-- The word `FX55` stores V0 to VX. -/
  | registers (hkind : word.kind = 0xF) (hlow : word.digits 3 2 = 0x55) :
      Stores word first (first + word.x.val)

namespace Machine

/-- The word at the program counter. -/
def HasWord (m : Machine) (word : Opcode) : Prop :=
  m.memory.HasWord m.pc.toNat word

/-- The ways in which the step of a running machine fails. -/
inductive FailsWith (m : Machine) : MachineError → Prop
  /-- There is no word at the program counter. -/
  | unfetched (hpc : 4095 ≤ m.pc.toNat) : FailsWith m (.outOfBounds (max m.pc.toNat 4096))
  /-- The word is no instruction. -/
  | undecoded {word} (hword : m.HasWord word) (hdecode : Instruction.decode? word = none) :
      FailsWith m (.unknownOpcode word)
  /-- The word `2NNN` with a full call stack. -/
  | overflow {word} (hword : m.HasWord word) (hkind : word.kind = 0x2)
      (hdepth : m.stack.depth = 16) : FailsWith m .stackOverflow
  /-- The word `00EE` with an empty call stack. -/
  | underflow {word} (hword : m.HasWord word) (hret : word = 0x00EE)
      (hdepth : m.stack.depth = 0) : FailsWith m .stackUnderflow
  /-- A store that starts in the font. -/
  | storeReserved {word last} (hword : m.HasWord word)
      (hstore : word.Stores m.index.toNat last) (hfont : m.index.toNat < 80) :
      FailsWith m (.reservedWrite m.index.toNat)
  /-- A store that starts behind the font and ends behind memory. -/
  | storeBeyond {word last} (hword : m.HasWord word)
      (hstore : word.Stores m.index.toNat last) (hfont : 80 ≤ m.index.toNat)
      (hlast : 4096 ≤ last) : FailsWith m (.outOfBounds (max m.index.toNat 4096))
  /-- The word `FX65`, loading from behind memory. -/
  | loadBeyond {word} (hword : m.HasWord word) (hkind : word.kind = 0xF)
      (hlow : word.digits 3 2 = 0x65) (hlast : 4096 ≤ m.index.toNat + word.x.val) :
      FailsWith m (.outOfBounds (max m.index.toNat 4096))
  /-- The word `DXYN`, drawing a sprite that ends behind memory. -/
  | drawBeyond {word} (hword : m.HasWord word) (hkind : word.kind = 0xD)
      (hrows : 0 < word.digits 4 1) (hend : 4096 < m.index.toNat + word.digits 4 1) :
      FailsWith m (.outOfBounds (max m.index.toNat 4096))

end Machine

/-- What the word of an instruction looks like, for the instructions that can be
stopped. -/
def Opcode.Spells (word : Opcode) : Instruction → Prop
  | .call _ => word.kind = 0x2
  | .ret => word = 0x00EE
  | .draw _ _ height => word.kind = 0xD ∧ height = word.n
  | .storeDecimal _ => word.kind = 0xF ∧ word.digits 3 2 = 0x33
  | .store x => word.kind = 0xF ∧ word.digits 3 2 = 0x55 ∧ x = word.x
  | .load x => word.kind = 0xF ∧ word.digits 3 2 = 0x65 ∧ x = word.x
  | _ => True

namespace Instruction

variable {word : Opcode} {i : Instruction}

/-- An instruction is decoded from a word that spells it. -/
theorem decode?_spells (h : decode? word = some i) : word.Spells i := by
  cases decodes_of_decode? h with
  | call hkind => exact hkind
  | ret hword => exact hword
  | draw hkind => exact ⟨hkind, rfl⟩
  | storeDecimal hkind hlow => exact ⟨hkind, hlow⟩
  | store hkind hlow | load hkind hlow => exact ⟨hkind, hlow, rfl⟩
  | _ => trivial

end Instruction

namespace Machine

variable {m : Machine} {word : Opcode} {i : Instruction} {e : MachineError}

/-- A store that is refused is one of the listed failures. -/
theorem failsWith_of_storing {last n : Nat} (hword : m.HasWord word)
    (hstore : word.Stores m.index.toNat last) (hlast : last + 1 = m.index.toNat + n)
    (h : Memory.writeRefusal m.index.toNat n = some e) : m.FailsWith e := by
  obtain ⟨-, ⟨hfont, rfl⟩ | ⟨hfont, hend, rfl⟩⟩ := Memory.writeRefusal_eq_some_iff.1 h
  · exact .storeReserved hword hstore hfont
  · exact .storeBeyond hword hstore hfont (by omega)

/-- An instruction that is stopped makes its step fail in a listed way. -/
theorem failsWith_of_refusal (hword : m.HasWord word)
    (hdecode : Instruction.decode? word = some i) (hrefusal : m.refusal i = some e) :
    m.FailsWith e := by
  have hspell := Instruction.decode?_spells hdecode
  cases i with
  | call a =>
      simp only [refusal_call, Option.ite_none_right_eq_some, Option.some.injEq] at hrefusal
      obtain ⟨hdepth, rfl⟩ := hrefusal
      exact .overflow hword hspell hdepth
  | ret =>
      simp only [refusal_ret, Option.ite_none_right_eq_some, Option.some.injEq] at hrefusal
      obtain ⟨hdepth, rfl⟩ := hrefusal
      exact .underflow hword hspell hdepth
  | draw x y height =>
      obtain ⟨hkind, rfl⟩ := hspell
      obtain ⟨hrows, hend, rfl⟩ := Memory.readRefusal_eq_some_iff.1 hrefusal
      rw [Opcode.toNat_n] at hrows hend
      exact .drawBeyond hword hkind hrows hend
  | storeDecimal x =>
      exact failsWith_of_storing hword (.decimal hspell.1 hspell.2) rfl hrefusal
  | store x =>
      obtain ⟨hkind, hlow, rfl⟩ := hspell
      exact failsWith_of_storing hword (.registers hkind hlow) rfl hrefusal
  | load x =>
      obtain ⟨hkind, hlow, rfl⟩ := hspell
      obtain ⟨-, hend, rfl⟩ := Memory.readRefusal_eq_some_iff.1 hrefusal
      exact .loadBeyond hword hkind hlow (by omega)
  | _ => cases hrefusal

/-- A word that stores is decoded to an instruction that is stopped as a write
of its bytes is. -/
theorem exists_refusal_of_stores {last : Nat} (hstore : word.Stores m.index.toNat last) :
    ∃ i n, Instruction.decode? word = some i ∧ last + 1 = m.index.toNat + n ∧ 0 < n ∧
      m.refusal i = Memory.writeRefusal m.index.toNat n := by
  cases hstore with
  | decimal hkind hlow =>
      have hdecode := Instruction.decode?_eq_some_iff.2 (.storeDecimal hkind hlow)
      exact ⟨.storeDecimal word.x, 3, hdecode, rfl, by decide, rfl⟩
  | registers hkind hlow =>
      have hdecode := Instruction.decode?_eq_some_iff.2 (.store hkind hlow)
      exact ⟨.store word.x, word.x.val + 1, hdecode, rfl, Nat.succ_pos _, rfl⟩

/-- A step fails with the error of its instruction. -/
theorem step_error_of_refusal (hrun : m.state = .running) (hword : m.HasWord word)
    (hdecode : Instruction.decode? word = some i) (hrefusal : m.refusal i = some e) :
    ∃ t, m.step.2 = .error ⟨t, e⟩ := by
  rw [step_of_refused hrun (Memory.word_eq_ok_iff.2 hword) hdecode hrefusal]
  exact ⟨_, rfl⟩

/-- Each listed way to fail makes the step fail. -/
theorem FailsWith.step_error (hrun : m.state = .running) (h : m.FailsWith e) :
    ∃ t, m.step.2 = .error ⟨t, e⟩ := by
  cases h with
  | unfetched hpc =>
      rw [step_of_unfetched hrun (Memory.word_eq_error_iff.2 ⟨hpc, rfl⟩)]
      exact ⟨_, rfl⟩
  | undecoded hword hdecode =>
      rw [step_of_undecoded hrun (Memory.word_eq_ok_iff.2 hword) hdecode]
      exact ⟨_, rfl⟩
  | overflow hword hkind hdepth =>
      apply step_error_of_refusal hrun hword (Instruction.decode?_eq_some_iff.2 (.call hkind))
      rw [refusal_call, if_pos hdepth]
  | underflow hword hret hdepth =>
      apply step_error_of_refusal hrun hword (Instruction.decode?_eq_some_iff.2 (.ret hret))
      rw [refusal_ret, if_pos hdepth]
  | storeReserved hword hstore hfont =>
      obtain ⟨i, n, hdecode, -, hpos, hrefusal⟩ := exists_refusal_of_stores hstore
      apply step_error_of_refusal hrun hword hdecode
      rw [hrefusal]
      exact Memory.writeRefusal_eq_some_iff.2 ⟨hpos, Or.inl ⟨hfont, rfl⟩⟩
  | storeBeyond hword hstore hfont hlast =>
      obtain ⟨i, n, hdecode, hsum, hpos, hrefusal⟩ := exists_refusal_of_stores hstore
      apply step_error_of_refusal hrun hword hdecode
      rw [hrefusal]
      exact Memory.writeRefusal_eq_some_iff.2 ⟨hpos, Or.inr ⟨hfont, by omega, rfl⟩⟩
  | loadBeyond hword hkind hlow hlast =>
      apply step_error_of_refusal hrun hword
        (Instruction.decode?_eq_some_iff.2 (.load hkind hlow))
      exact Memory.readRefusal_eq_some_iff.2 ⟨Nat.succ_pos _, by omega, rfl⟩
  | drawBeyond hword hkind hrows hend =>
      apply step_error_of_refusal hrun hword (Instruction.decode?_eq_some_iff.2 (.draw hkind))
      rw [← Opcode.toNat_n] at hrows hend
      exact Memory.readRefusal_eq_some_iff.2 ⟨hrows, hend, rfl⟩

/-- A step that fails does so in a listed way, halts the machine with its fault,
and leaves the program counter behind the word if there was one. -/
theorem step_error_inv (hrun : m.state = .running) {f : Fault} (h : m.step.2 = .error f) :
    m.FailsWith f.cause ∧ m.step.1.state = .halted f ∧ f.trace.address = m.pc ∧
      m.step.1.pc.toNat = if 4095 ≤ m.pc.toNat then m.pc.toNat else m.pc.toNat + 2 := by
  have hnext : ∀ {word}, m.HasWord word →
      m.pc.next.toNat = if 4095 ≤ m.pc.toNat then m.pc.toNat else m.pc.toNat + 2 := by
    intro word hword
    have hlt := hword.lt
    rw [if_neg (by omega), Address.next, UInt16.toNat_add]
    exact Nat.mod_eq_of_lt (by simp; omega)
  rcases step_cases hrun with ⟨e, hword, hstep⟩ | ⟨word, hword, hdecode, hstep⟩ |
    ⟨word, i, e, hword, hdecode, hrefusal, hstep⟩ | ⟨word, i, -, -, -, hstep⟩
  · obtain ⟨hpc, rfl⟩ := Memory.word_eq_error_iff.1 hword
    rw [hstep] at h ⊢
    cases h
    exact ⟨.unfetched hpc, rfl, rfl, (if_pos hpc).symm⟩
  · have hword := Memory.word_eq_ok_iff.1 hword
    rw [hstep] at h ⊢
    cases h
    exact ⟨.undecoded hword hdecode, rfl, rfl, hnext hword⟩
  · have hword := Memory.word_eq_ok_iff.1 hword
    rw [hstep] at h ⊢
    cases h
    refine ⟨failsWith_of_refusal hword hdecode hrefusal, rfl, rfl, ?_⟩
    rw [← refusal_fetched] at hrefusal
    exact (congrArg UInt16.toNat (execute_control_of_refusal hrefusal).1).trans (hnext hword)
  · rw [hstep] at h
    cases h

/-- **When a step fails.**  The step of a running machine fails in the listed
ways and no other, each with its own error.  A step that fails halts the machine
with the fault it gives, whose trace starts at the program counter; the counter
stays where it is if there was no word to fetch, and else stands behind the
word.  Every other step executes an instruction. -/
theorem step_fault_iff (m : Machine) (hrun : m.state = .running) :
    (∀ e, (∃ f, m.step.2 = .error f ∧ f.cause = e) ↔ m.FailsWith e) ∧
    (∀ f, m.step.2 = .error f →
      m.step.1.state = .halted f ∧ f.trace.address = m.pc ∧
      m.step.1.pc.toNat = if 4095 ≤ m.pc.toNat then m.pc.toNat else m.pc.toNat + 2) ∧
    ((∀ e, ¬ m.FailsWith e) → ∃ i, m.step.2 = .ok (.executed i)) := by
  refine ⟨?_, ?_, ?_⟩
  · intro e
    constructor
    · rintro ⟨f, hf, rfl⟩
      exact (step_error_inv hrun hf).1
    · intro h
      obtain ⟨t, ht⟩ := h.step_error hrun
      exact ⟨⟨t, e⟩, ht, rfl⟩
  · intro f hf
    exact (step_error_inv hrun hf).2
  · intro hnone
    rcases step_cases hrun with ⟨e, -, hstep⟩ | ⟨word, -, -, hstep⟩ | ⟨word, i, e, -, -, -, hstep⟩ |
      ⟨word, i, -, -, -, hstep⟩
    · exact absurd (step_error_inv hrun (congrArg Prod.snd hstep)).1 (hnone _)
    · exact absurd (step_error_inv hrun (congrArg Prod.snd hstep)).1 (hnone _)
    · exact absurd (step_error_inv hrun (congrArg Prod.snd hstep)).1 (hnone _)
    · exact ⟨i, congrArg Prod.snd hstep⟩

/-- A machine at the call `2204` with sixteen calls under way. -/
def atSeventeenthCall : Machine :=
  { start (.fresh #[0x22, 0x04]) (.ofSeed 7) with stack := .full 0x0202 }

/-- The seventeenth call fails, with the program counter behind it. -/
theorem seventeenth_call_fails :
    atSeventeenthCall.state = .running ∧
    ∃ f, atSeventeenthCall.step.2 = .error f ∧ f.cause = .stackOverflow ∧
      atSeventeenthCall.step.1.state = .halted f ∧ f.trace.address = 0x0200 ∧
      atSeventeenthCall.step.1.pc.toNat = 0x0202 := by
  have hword : atSeventeenthCall.HasWord 0x2204 :=
    Memory.hasWord_fresh (by decide) rfl
  obtain ⟨hcause, hafter, -⟩ := step_fault_iff atSeventeenthCall rfl
  obtain ⟨f, hf, hover⟩ := (hcause .stackOverflow).2 (.overflow hword rfl rfl)
  obtain ⟨hstate, haddress, hpc⟩ := hafter f hf
  exact ⟨rfl, f, hf, hover, hstate, haddress, hpc⟩

end Machine

end Chip8
