import Chip8.Proofs.ControlFlow
import Chip8.Proofs.OpcodeTable

/-!
# The interpreter that scans the table

An interpreter can do without a decoder: it scans the opcode table for the first
form that the fetched word fits, cuts the operands out of the word, and executes
what the form does with them.  It selects what the decoder finds, so it takes the
same steps, and it does so in whatever order the forms stand.

* `OpcodeForm.make?` — the instruction of a form with given operands;
* `Machine.interpret`, `Machine.interpretAll` — a step and a run of the
  interpreter that scans a table;
* `Machine.decoder_implements_table` — the decoder agrees with the table word by
  word, and the machine with the interpreter step by step.
-/

namespace Chip8

namespace OpcodeForm

/-- The register that an operand names. -/
def regOf (value : UInt16) : Reg :=
  .ofByte value.toUInt8

/-! How the operands of a form are passed on, by their number and kind. -/

def alone (i : Instruction) : List UInt16 → Option Instruction
  | [] => some i
  | _ => none

def onAddress (make : Address → Instruction) : List UInt16 → Option Instruction
  | [a] => some (make a)
  | _ => none

def onReg (make : Reg → Instruction) : List UInt16 → Option Instruction
  | [x] => some (make (regOf x))
  | _ => none

def onByte (make : Reg → UInt8 → Instruction) : List UInt16 → Option Instruction
  | [x, byte] => some (make (regOf x) byte.toUInt8)
  | _ => none

def onRegs (make : Reg → Reg → Instruction) : List UInt16 → Option Instruction
  | [x, y] => some (make (regOf x) (regOf y))
  | _ => none

def onSprite (make : Reg → Reg → UInt8 → Instruction) : List UInt16 → Option Instruction
  | [x, y, height] => some (make (regOf x) (regOf y) height.toUInt8)
  | _ => none

/-- What a form does, as an instruction with the given operands. -/
def make? (f : OpcodeForm) : List UInt16 → Option Instruction :=
  match f.pattern.toNat with
  | 0x00E0 => alone .clear
  | 0x00EE => alone .ret
  | 0x0000 => onAddress .sys
  | 0x1000 => onAddress .jump
  | 0x2000 => onAddress .call
  | 0x3000 => onByte .skipIfByte
  | 0x4000 => onByte .skipUnlessByte
  | 0x5000 => onRegs .skipIfSame
  | 0x6000 => onByte .setByte
  | 0x7000 => onByte .addByte
  | 0x8000 => onRegs .copy
  | 0x8001 => onRegs .or
  | 0x8002 => onRegs .and
  | 0x8003 => onRegs .xor
  | 0x8004 => onRegs .add
  | 0x8005 => onRegs .sub
  | 0x8006 => onRegs .shiftRight
  | 0x8007 => onRegs .subFrom
  | 0x800E => onRegs .shiftLeft
  | 0x9000 => onRegs .skipUnlessSame
  | 0xA000 => onAddress .setIndex
  | 0xB000 => onAddress .jumpOffset
  | 0xC000 => onByte .random
  | 0xD000 => onSprite .draw
  | 0xE09E => onReg .skipIfHeld
  | 0xE0A1 => onReg .skipUnlessHeld
  | 0xF007 => onReg .readDelay
  | 0xF00A => onReg .awaitKey
  | 0xF015 => onReg .setDelay
  | 0xF018 => onReg .setSound
  | 0xF01E => onReg .addIndex
  | 0xF029 => onReg .pointGlyph
  | 0xF033 => onReg .storeDecimal
  | 0xF055 => onReg .store
  | 0xF065 => onReg .load
  | _ => fun _ => none

section Make

variable {f : OpcodeForm} {word : Opcode}

/-- A form makes its instruction from the operands that it cuts out of the word, here from
an address. -/
theorem make?_address {make : Address → Instruction} (hfields : f.operands = [.nnn])
    (hmake : f.make? = onAddress make) : f.make? (f.extract word) = some (make word.nnn) := by
  rw [hmake, extract, hfields, ← OperandField.extract_nnn]
  rfl

theorem make?_reg {make : Reg → Instruction} (hfields : f.operands = [.x])
    (hmake : f.make? = onReg make) : f.make? (f.extract word) = some (make word.x) := by
  rw [hmake, extract, hfields, ← OperandField.extract_x]
  rfl

theorem make?_byte {make : Reg → UInt8 → Instruction} (hfields : f.operands = [.x, .nn])
    (hmake : f.make? = onByte make) : f.make? (f.extract word) = some (make word.x word.nn) := by
  rw [hmake, extract, hfields, ← OperandField.extract_x, ← OperandField.extract_nn]
  rfl

theorem make?_regs {make : Reg → Reg → Instruction} (hfields : f.operands = [.x, .y])
    (hmake : f.make? = onRegs make) : f.make? (f.extract word) = some (make word.x word.y) := by
  rw [hmake, extract, hfields, ← OperandField.extract_x, ← OperandField.extract_y]
  rfl

theorem make?_sprite {make : Reg → Reg → UInt8 → Instruction}
    (hfields : f.operands = [.x, .y, .n]) (hmake : f.make? = onSprite make) :
    f.make? (f.extract word) = some (make word.x word.y word.n) := by
  rw [hmake, extract, hfields, ← OperandField.extract_x, ← OperandField.extract_y,
    ← OperandField.extract_n]
  rfl

/-- The form of an instruction makes it again from the operands of its word. -/
theorem make?_extract {i : Instruction} (h : Instruction.Decodes word i) :
    i.form.make? (i.form.extract word) = some i := by
  cases h with
  | clear | ret => rfl
  | sys | jump | call | setIndex | jumpOffset => exact make?_address rfl rfl
  | skipIfByte | skipUnlessByte | setByte | addByte | random => exact make?_byte rfl rfl
  | skipIfSame | skipUnlessSame | copy | or | and | xor | add | sub | shiftRight | subFrom
  | shiftLeft => exact make?_regs rfl rfl
  | draw => exact make?_sprite rfl rfl
  | _ => exact make?_reg rfl rfl

end Make

/-- The first form of a table that a word fits, and the operands that it cuts out of
the word. -/
def select? (table : List OpcodeForm) (word : Opcode) : Option (OpcodeForm × List UInt16) :=
  (table.find? (·.fits word)).map fun f => (f, f.extract word)

variable {table : List OpcodeForm} {word : Opcode} {i : Instruction}

/-- The operands of an instruction are those that its form cuts from the word. -/
theorem operands_eq (h : Instruction.Decodes word i) : i.operands = i.form.extract word := by
  rw [Instruction.operands, h.encode_eq]

/-- The table has a form for the words that stand for an instruction. -/
theorem lookup_eq_some_iff_decodes {f : OpcodeForm} :
    lookup word = some f ↔ ∃ i, Instruction.Decodes word i ∧ i.form = f := by
  rw [lookup_eq_some_iff, names_iff_decodes]

/-- Looking up a word gives the form of the instruction that it stands for. -/
theorem lookup_of_decodes (h : Instruction.Decodes word i) : lookup word = some i.form :=
  lookup_eq_some_iff_decodes.2 ⟨i, h, rfl⟩

/-- A word that does not decode is not found in the table. -/
theorem lookup_eq_none (hdecode : Instruction.decode? word = none) : lookup word = none := by
  cases hlookup : lookup word with
  | none => rfl
  | some f =>
      obtain ⟨i, h, -⟩ := lookup_eq_some_iff_decodes.1 hlookup
      rw [Instruction.decode?_eq_some_iff.2 h] at hdecode
      cases hdecode

/-- Any reordering of the table selects form and operands of the instruction that a word
stands for. -/
theorem IsReordering.select?_of_decodes (htable : IsReordering table)
    (h : Instruction.Decodes word i) : select? table word = some (i.form, i.operands) := by
  rw [select?, htable.find?_eq_lookup, lookup_of_decodes h, operands_eq h]
  rfl

/-- A word that does not decode is selected by no reordering of the table. -/
theorem IsReordering.select?_eq_none (htable : IsReordering table)
    (hdecode : Instruction.decode? word = none) : select? table word = none := by
  rw [select?, htable.find?_eq_lookup, lookup_eq_none hdecode]
  rfl

/-- What is selected for a word makes the instruction that the decoder finds. -/
theorem IsReordering.make?_select? (htable : IsReordering table) (word : Opcode) :
    ((select? table word).bind fun (f, values) => f.make? values) =
      Instruction.decode? word := by
  cases hdecode : Instruction.decode? word with
  | none =>
      rw [htable.select?_eq_none hdecode]
      rfl
  | some i =>
      have h := Instruction.decodes_of_decode? hdecode
      rw [htable.select?_of_decodes h, operands_eq h]
      exact make?_extract h

end OpcodeForm

namespace Machine

open OpcodeForm

/-- One step of the interpreter that scans a table: fetch a word, select a form and its
operands, and execute what the form makes of them. -/
def interpret (table : List OpcodeForm) (m : Machine) : Machine × Except Fault Status :=
  match m.state with
  | .halted fault => (m, .error fault)
  | .awaitingKey _ => (m, .ok .waiting)
  | .running =>
      match m.memory.word m.pc with
      | .error e => m.haltAt { address := m.pc } e
      | .ok word =>
          match (select? table word).bind fun (f, values) => f.make? values with
          | none =>
              m.fetched.haltAt { address := m.pc, opcode := some word } (.unknownOpcode word)
          | some i =>
              let trace := { address := m.pc, opcode := some word, instruction := some i }
              match m.fetched.execute i with
              | (executed, none) => executed.passAt trace i
              | (stopped, some e) => stopped.haltAt trace e

/-- A run of that interpreter: the machine after `n` steps, and what they answer. -/
def interpretAll (table : List OpcodeForm) : Nat → Machine → Machine × List Reply
  | 0, m => (m, [])
  | n + 1, m =>
      let (m', result) := m.interpret table
      let (last, replies) := interpretAll table n m'
      (last, .ofStep result :: replies)

variable {table : List OpcodeForm}

/-- The interpreter takes the step of the machine. -/
theorem interpret_eq_step (htable : IsReordering table) (m : Machine) :
    m.interpret table = m.step := by
  unfold interpret
  cases hstate : m.state with
  | halted fault => rw [step_of_halted hstate]
  | awaitingKey x => rw [step_of_awaitingKey hstate]
  | running =>
      dsimp only
      cases hword : m.memory.word m.pc with
      | error e => rw [step_of_unfetched hstate hword]
      | ok word =>
          dsimp only
          rw [htable.make?_select?]
          cases hdecode : Instruction.decode? word with
          | none => rw [step_of_undecoded hstate hword hdecode]
          | some i =>
              have hrefusal := m.execute_fetched_refusal i
              dsimp only
              cases hexecute : m.fetched.execute i with
              | mk after failure =>
                  rw [hexecute] at hrefusal
                  cases failure with
                  | none => rw [step_of_executed hstate hword hdecode hrefusal.symm, hexecute]
                  | some e => rw [step_of_refused hstate hword hdecode hrefusal.symm, hexecute]

/-- The interpreter takes the run of the machine. -/
theorem interpretAll_eq_performAll (htable : IsReordering table) (n : Nat) (m : Machine) :
    m.interpretAll table n = m.performAll (List.replicate n .step) := by
  induction n generalizing m with
  | zero => rfl
  | succ n ih =>
      rw [interpretAll, interpret_eq_step htable]
      dsimp only
      rw [ih]
      rfl

/-- What the interpreter selects in its next step. -/
def selection? (table : List OpcodeForm) (m : Machine) : Option (OpcodeForm × List UInt16) :=
  match m.memory.word m.pc with
  | .ok word => select? table word
  | .error _ => none

/-- The instruction that a step executes is the one that the interpreter selects. -/
theorem selection?_of_executed (htable : IsReordering table) {m : Machine} {i : Instruction}
    (h : m.step.2 = .ok (.executed i)) : m.selection? table = some (i.form, i.operands) := by
  obtain ⟨word, hword, hdecode, -⟩ := control_of_executed h
  rw [selection?, hword]
  exact htable.select?_of_decodes (Instruction.decodes_of_decode? hdecode)

/-- **The decoder implements the opcode table.**  It decodes exactly the words that
the table has a form for.  The instruction it gives belongs to that form, has the
word as its opcode, and has the operands that the form cuts out of the word, and the
word is the pattern of the form with every operand put back in its place; every other
word is reported.  Each reordering of the table finds the same forms.  So the
interpreter that scans it takes the same steps as the machine, and what a step
executes is the form that the interpreter selects, with the same operands. -/
theorem decoder_implements_table (htable : IsReordering table) :
    (∀ word, ((∃ i, Instruction.decode word = .ok i) ↔ ∃ f, lookup word = some f) ∧
      (∀ i, Instruction.decode word = .ok i →
        lookup word = some i.form ∧ i.encode = word ∧ i.operands = i.form.extract word ∧
        i.form.restore (i.form.extract word) = word) ∧
      (∀ e, Instruction.decode word = .error e → e = .unknownOpcode word) ∧
      table.find? (·.fits word) = lookup word) ∧
    ∀ (m : Machine) (n : Nat),
      m.interpretAll table n = m.performAll (List.replicate n .step) ∧
      ∀ i, (m.after (List.replicate n .step)).step.2 = .ok (.executed i) →
        (m.after (List.replicate n .step)).selection? table = some (i.form, i.operands) := by
  constructor
  · intro word
    refine ⟨?_, ?_, fun e he => Instruction.decode_eq_error he, htable.find?_eq_lookup word⟩
    · constructor
      · rintro ⟨i, hi⟩
        exact ⟨i.form, lookup_of_decodes (Instruction.decode_eq_ok_iff.1 hi)⟩
      · rintro ⟨f, hf⟩
        obtain ⟨i, h, -⟩ := lookup_eq_some_iff_decodes.1 hf
        exact ⟨i, Instruction.decode_eq_ok_iff.2 h⟩
    · intro i hi
      have h := Instruction.decode_eq_ok_iff.1 hi
      exact ⟨lookup_of_decodes h, h.encode_eq, operands_eq h,
        restore_extract (form_mem i) (form_fits h)⟩
  · intro m n
    exact ⟨interpretAll_eq_performAll htable n m, fun i hi => selection?_of_executed htable hi⟩

/-- The table from its end, but for the two fixed words. -/
def backwardTable : List OpcodeForm :=
  .cls :: .ret :: (opcodeTable.drop 2).reverse

/-- The word `D12F` and a run of three steps, with the table from its end. -/
theorem backwardTable_draws :
    IsReordering backwardTable ∧
    Instruction.decode 0xD12F = .ok (.draw 1 2 0xF) ∧
    lookup 0xD12F = some .drw ∧ OpcodeForm.drw.restore [1, 2, 0xF] = 0xD12F ∧
    (boot (.ofSeed 7)).interpretAll backwardTable 3 =
      (boot (.ofSeed 7)).performAll (List.replicate 3 .step) := by
  have hperm : backwardTable.Perm opcodeTable :=
    ((List.reverse_perm (opcodeTable.drop 2)).cons OpcodeForm.ret).cons OpcodeForm.cls
  have htable : IsReordering backwardTable := ⟨hperm, by decide, by decide⟩
  have hdecode : Instruction.decode 0xD12F = .ok (.draw 1 2 0xF) := rfl
  obtain ⟨hwords, hruns⟩ := decoder_implements_table htable
  obtain ⟨-, hfields, -, -⟩ := hwords 0xD12F
  obtain ⟨hlookup, -, -, hrestore⟩ := hfields _ hdecode
  exact ⟨htable, hdecode, hlookup, hrestore, (hruns (boot (.ofSeed 7)) 3).1⟩

end Machine

end Chip8
