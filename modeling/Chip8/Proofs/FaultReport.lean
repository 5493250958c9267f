import Chip8.Proofs.NumberText
import Chip8.Proofs.TraceConsistency

/-!
# Faults can be told by their reports

The report of a fault is one line: how far the step came, and what stopped it.  How far it
came is written in three shapes, with a number of operands in one of them, and what stopped
it in seven.  Still nothing is lost.  An address and a word have four digits each, so both
can be read off their places; an address and a word give the instruction, since the trace
of a step is consistent; and with the trace the place is known where the error begins.

* `MachineError.message_injective` — no two errors have the same text;
* `Trace.text_append_inj` — where the text of a consistent trace ends can be told from the
  line;
* `Machine.fault_told_by_message` — two faults of steps with the same report are the same.
-/

namespace Chip8

namespace MachineError

section Messages

variable (a size capacity : Nat) (word : UInt16) (code : UInt8)

theorem message_outOfBounds :
    (outOfBounds a).message = "memory access out of bounds at address " ++ hex0x 4 a :=
  rfl

theorem message_reservedWrite : (reservedWrite a).message =
    "write into the reserved font region at address " ++ hex0x 4 a :=
  rfl

theorem message_unknownOpcode :
    (unknownOpcode word).message = "unknown opcode " ++ hex0x 4 word.toNat :=
  rfl

theorem message_programTooLarge : (programTooLarge size capacity).message =
    "rom is too large (" ++ size.repr ++ " bytes), at most " ++ capacity.repr ++ " bytes fit" :=
  rfl

theorem message_notAKey : (notAKey code).message =
    "key code " ++ hex0x 2 code.toNat ++ " is not on the keypad" :=
  rfl

end Messages

/-- The first seven characters of the text of an error, which differ from kind to kind. -/
def opening : MachineError → List Char
  | .outOfBounds _ => ['m', 'e', 'm', 'o', 'r', 'y', ' ']
  | .reservedWrite _ => ['w', 'r', 'i', 't', 'e', ' ', 'i']
  | .stackOverflow => ['s', 't', 'a', 'c', 'k', ' ', 'o']
  | .stackUnderflow => ['s', 't', 'a', 'c', 'k', ' ', 'u']
  | .unknownOpcode _ => ['u', 'n', 'k', 'n', 'o', 'w', 'n']
  | .programTooLarge .. => ['r', 'o', 'm', ' ', 'i', 's', ' ']
  | .notAKey _ => ['k', 'e', 'y', ' ', 'c', 'o', 'd']

/-- Seven characters of a message tell the kind of its error. -/
theorem take_message (e : MachineError) : e.message.toList.take 7 = e.opening := by
  cases e with
  | outOfBounds a => simp [message_outOfBounds, opening]
  | reservedWrite a => simp [message_reservedWrite, opening]
  | stackOverflow => rfl
  | stackUnderflow => rfl
  | unknownOpcode word => simp [message_unknownOpcode, opening]
  | programTooLarge size capacity => simp [message_programTooLarge, opening]
  | notAKey code => simp [message_notAKey, opening]

/-- Both sizes can be read off the message about a program that is too large. -/
theorem programTooLarge_injective {size size' capacity capacity' : Nat}
    (h : (programTooLarge size capacity).message = (programTooLarge size' capacity').message) :
    size = size' ∧ capacity = capacity' := by
  rw [message_programTooLarge, message_programTooLarge, String.append_left_inj,
    String.append_assoc, String.append_assoc, String.append_assoc, String.append_assoc,
    String.append_right_inj] at h
  have hlist (size capacity : Nat) : (size.repr ++ (" bytes), at most " ++ capacity.repr)).toList =
      size.repr.toList ++ ' ' :: ("bytes), at most ".toList ++ capacity.repr.toList) := by
    rw [String.toList_append, String.toList_append]
    rfl
  have htext := congrArg String.toList h
  rw [hlist, hlist] at htext
  obtain ⟨hsize, hrest⟩ := append_inj_of_stop (fun _ => isDigit_of_mem_repr)
    (fun _ => isDigit_of_mem_repr) rfl rfl htext
  have hcapacity := List.append_cancel_left (List.cons.inj hrest).2
  exact ⟨toList_repr_injective hsize, toList_repr_injective hcapacity⟩

/-- **No two errors have the same text.** -/
theorem message_injective {e e' : MachineError} (h : e.message = e'.message) : e = e' := by
  have hopening : e.opening = e'.opening := by rw [← take_message, h, take_message]
  cases e with
  | outOfBounds a =>
      cases e' with
      | outOfBounds b => rw [hex0x_injective ((String.append_right_inj _).1 h)]
      | _ => simp [opening] at hopening
  | reservedWrite a =>
      cases e' with
      | reservedWrite b => rw [hex0x_injective ((String.append_right_inj _).1 h)]
      | _ => simp [opening] at hopening
  | stackOverflow =>
      cases e' with
      | stackOverflow => rfl
      | _ => simp [opening] at hopening
  | stackUnderflow =>
      cases e' with
      | stackUnderflow => rfl
      | _ => simp [opening] at hopening
  | unknownOpcode word =>
      cases e' with
      | unknownOpcode word' =>
          rw [UInt16.toNat_inj.1 (hex0x_injective ((String.append_right_inj _).1 h))]
      | _ => simp [opening] at hopening
  | programTooLarge size capacity =>
      cases e' with
      | programTooLarge size' capacity' =>
          obtain ⟨rfl, rfl⟩ := programTooLarge_injective h
          rfl
      | _ => simp [opening] at hopening
  | notAKey code =>
      cases e' with
      | notAKey code' =>
          rw [message_notAKey, message_notAKey, String.append_left_inj] at h
          rw [UInt8.toNat_inj.1 (hex0x_injective ((String.append_right_inj _).1 h))]
      | _ => simp [opening] at hopening

end MachineError

namespace Trace

variable {t t' : Trace}

/-- A consistent trace is its address and its word. -/
theorem Consistent.eq (h : t.Consistent) (h' : t'.Consistent) (haddress : t.address = t'.address)
    (hopcode : t.opcode = t'.opcode) : t = t' := by
  have hinstruction : t.instruction = t'.instruction := by
    cases hword : t.opcode with
    | none =>
        rw [h.unfetched hword, h'.unfetched (hopcode ▸ hword)]
    | some word =>
        rw [h.fetched word hword, h'.fetched word (hopcode ▸ hword)]
  cases t
  cases t'
  simp_all

/-- A trace is shown as its address and what was found there. -/
theorem toList_text (t : Trace) : t.text.toList =
    '0' :: 'x' :: (hexDigits 4 t.address.toNat ++ ':' :: ' ' :: t.detail.toList) := by
  have htext : t.text = "0x" ++ hex 4 t.address.toNat ++ ": " ++ t.detail := rfl
  rw [htext, hex]
  simp

/-- A word has four digits. -/
theorem length_hexDigits_word (word : UInt16) : (hexDigits 4 word.toNat).length = 4 :=
  length_hexDigits (by decide) word.toNat_lt

theorem detail_of_unfetched (h : t.opcode = none) : t.detail = "<no fetch>" := by
  unfold detail
  rw [h]

/-- The text of a trace with a word begins with the word. -/
theorem exists_detail_of_fetched {word : Opcode} (h : t.opcode = some word) :
    ∃ rest, t.detail = hex 4 word.toNat ++ rest := by
  unfold detail
  rw [h]
  cases t.instruction with
  | none => exact ⟨" ???", rfl⟩
  | some i =>
      refine ⟨" " ++ i.form.mnemonic ++ " [" ++
        ", ".intercalate (i.operands.map fun v => hex0x 1 v.toNat) ++ "]", ?_⟩
      simp only [← String.append_assoc]
      rfl

/-- The word of a trace can be told from the text behind its address: it begins with a
hexadecimal digit, and the text of a trace without a word does not. -/
theorem opcode_eq_of_detail {s s' : List Char}
    (h : t.detail.toList ++ s = t'.detail.toList ++ s') : t.opcode = t'.opcode := by
  have hshape {t t' : Trace} {s s' : List Char} {word : Opcode} (hword : t.opcode = some word)
      (hnone : t'.opcode = none) : t.detail.toList ++ s ≠ t'.detail.toList ++ s' := by
    intro heq
    obtain ⟨rest, hrest⟩ := exists_detail_of_fetched hword
    have hfirst : '<' ∈ hexDigits 4 word.toNat := by
      have hdetail : t'.detail.toList = '<' :: "no fetch>".toList := by
        rw [detail_of_unfetched hnone]
        rfl
      rw [hrest, hdetail, String.toList_append, hex, String.toList_ofList] at heq
      obtain ⟨c, cs, hcs⟩ := List.exists_cons_of_ne_nil (hexDigits_ne_nil 4 word.toNat)
      rw [hcs, List.cons_append, List.cons_append, List.cons_append] at heq
      rw [hcs, (List.cons.inj heq).1]
      exact List.mem_cons_self
    have hdigit := isSome_digitIn_of_mem_hexDigits hfirst
    revert hdigit
    decide
  cases hword : t.opcode with
  | none =>
      cases hword' : t'.opcode with
      | none => rfl
      | some word' => exact absurd h.symm (hshape hword' hword)
  | some word =>
      cases hword' : t'.opcode with
      | none => exact absurd h (hshape hword hword')
      | some word' =>
          obtain ⟨rest, hrest⟩ := exists_detail_of_fetched hword
          obtain ⟨rest', hrest'⟩ := exists_detail_of_fetched hword'
          rw [hrest, hrest', String.toList_append, String.toList_append, hex, hex,
            String.toList_ofList, String.toList_ofList, List.append_assoc,
            List.append_assoc] at h
          have hdigits := (List.append_inj h (by rw [length_hexDigits_word,
            length_hexDigits_word])).1
          rw [UInt16.toNat_inj.1 (hexDigits_injective hdigits)]

/-- **Where the text of a trace ends.**  A line that begins with the text of a consistent
trace gives away the trace, and what stands behind it. -/
theorem text_append_inj (ht : t.Consistent) (ht' : t'.Consistent) {s s' : String}
    (h : t.text ++ s = t'.text ++ s') : t = t' ∧ s = s' := by
  have hline := congrArg String.toList h
  rw [String.toList_append, String.toList_append, toList_text, toList_text] at hline
  simp only [List.cons_append, List.append_assoc] at hline
  obtain ⟨haddress, hbehind⟩ := List.append_inj (List.cons.inj (List.cons.inj hline).2).2
    (by rw [length_hexDigits_word, length_hexDigits_word])
  have hdetail := (List.cons.inj (List.cons.inj hbehind).2).2
  obtain rfl := ht.eq ht' (UInt16.toNat_inj.1 (hexDigits_injective haddress))
    (opcode_eq_of_detail hdetail)
  exact ⟨rfl, (String.append_right_inj _).1 h⟩

end Trace

/-- A report of a fault with a consistent trace gives away the fault. -/
theorem Fault.message_inj {f f' : Fault} (h : f.trace.Consistent) (h' : f'.trace.Consistent)
    (hmessage : f.message = f'.message) : f = f' := by
  have hparts (f : Fault) :
      f.message = "halted at " ++ (f.trace.text ++ (": " ++ f.cause.message)) := by
    rw [← String.append_assoc, ← String.append_assoc]
    rfl
  rw [hparts, hparts, String.append_right_inj] at hmessage
  obtain ⟨htrace, hcause⟩ := Trace.text_append_inj h h' hmessage
  have hcause := MachineError.message_injective ((String.append_right_inj _).1 hcause)
  cases f
  cases f'
  simp_all

namespace Machine

variable {m m' : Machine} {f f' : Fault}

/-- The trace in the fault of a step is consistent. -/
theorem consistent_of_step_error (hrun : m.state = .running) (h : m.step.2 = .error f) :
    f.trace.Consistent := by
  obtain ⟨t, ht⟩ := step_traced hrun
  rw [(ht.halted f h).1]
  exact ht.consistent

/-- **Reports of faults lose nothing.**  If the steps of two running machines fail, and the
reports of their faults are the same text, then the faults are the same: the address, the
word or none, the instruction or none, and the error with all that it names. -/
theorem fault_told_by_message (hrun : m.state = .running) (hrun' : m'.state = .running)
    (h : m.step.2 = .error f) (h' : m'.step.2 = .error f') (hmessage : f.message = f'.message) :
    f = f' :=
  Fault.message_inj (consistent_of_step_error hrun h) (consistent_of_step_error hrun' h') hmessage

/-- A machine at the drawing `D0F5` of five rows from the last byte of memory on, at a column
that is in V0. -/
def atLateSprite (column : UInt8) : Machine :=
  { (start (.fresh #[0xD0, 0xF5]) (.ofSeed 7)).setReg .v0 column with index := 0x0FFF }

/-- The fault of drawing five rows from the last byte of memory on. -/
def lateSprite : Fault where
  trace := { address := 0x0200, opcode := some 0xD0F5, instruction := some (.draw .v0 .vf 5) }
  cause := .outOfBounds 4096

example : lateSprite.message =
    "halted at 0x0200: D0F5 DRW Vx, Vy, nibble [0x0, 0xF, 0x5]: " ++
      "memory access out of bounds at address 0x1000" := by
  decide +kernel

/-- The sprite reaches beyond memory. -/
theorem atLateSprite_step (column : UInt8) :
    (atLateSprite column).step.2 = .error lateSprite := by
  have hword : (Memory.fresh #[0xD0, 0xF5]).word 0x0200 = .ok 0xD0F5 :=
    Memory.word_fresh (by decide) rfl
  have hrun : (atLateSprite column).state = .running := rfl
  rw [step_of_refused hrun hword rfl rfl]
  rfl

/-- Two machines that draw too late at different columns report the same fault. -/
theorem lateSprite_told :
    (atLateSprite 3).state = .running ∧ (atLateSprite 9).state = .running ∧
    ∃ f f', (atLateSprite 3).step.2 = .error f ∧ (atLateSprite 9).step.2 = .error f' ∧
      f.message = f'.message ∧ f = f' :=
  ⟨rfl, rfl, _, _, atLateSprite_step 3, atLateSprite_step 9, rfl,
    fault_told_by_message rfl rfl (atLateSprite_step 3) (atLateSprite_step 9) rfl⟩

end Machine

end Chip8
