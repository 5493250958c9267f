import Chip8.Instruction.Decode
import Chip8.Proofs.WordFields

/-!
# What is decoded

`Instruction.Decodes` lists the words of each instruction by their digits, one
line an instruction, and what is said of decoded instructions is read off it.

* `Instruction.decode?_eq_some_iff` — the decoder finds the listed instruction;
* `Instruction.Decodes.fitsDigits` — the fields of a decoded instruction are no
  larger than the digits that they are cut from.
-/

namespace Chip8.Instruction

/-- The words that stand for each instruction. -/
inductive Decodes (word : Opcode) : Instruction → Prop
  | sys (hkind : word.kind = 0x0) (hclear : word ≠ 0x00E0) (hret : word ≠ 0x00EE) :
      Decodes word (.sys word.nnn)
  | clear (hword : word = 0x00E0) : Decodes word .clear
  | ret (hword : word = 0x00EE) : Decodes word .ret
  | jump (hkind : word.kind = 0x1) : Decodes word (.jump word.nnn)
  | call (hkind : word.kind = 0x2) : Decodes word (.call word.nnn)
  | skipIfByte (hkind : word.kind = 0x3) : Decodes word (.skipIfByte word.x word.nn)
  | skipUnlessByte (hkind : word.kind = 0x4) : Decodes word (.skipUnlessByte word.x word.nn)
  | skipIfSame (hkind : word.kind = 0x5) (hlow : word.digits 4 1 = 0x0) :
      Decodes word (.skipIfSame word.x word.y)
  | setByte (hkind : word.kind = 0x6) : Decodes word (.setByte word.x word.nn)
  | addByte (hkind : word.kind = 0x7) : Decodes word (.addByte word.x word.nn)
  | copy (hkind : word.kind = 0x8) (hlow : word.digits 4 1 = 0x0) :
      Decodes word (.copy word.x word.y)
  | or (hkind : word.kind = 0x8) (hlow : word.digits 4 1 = 0x1) :
      Decodes word (.or word.x word.y)
  | and (hkind : word.kind = 0x8) (hlow : word.digits 4 1 = 0x2) :
      Decodes word (.and word.x word.y)
  | xor (hkind : word.kind = 0x8) (hlow : word.digits 4 1 = 0x3) :
      Decodes word (.xor word.x word.y)
  | add (hkind : word.kind = 0x8) (hlow : word.digits 4 1 = 0x4) :
      Decodes word (.add word.x word.y)
  | sub (hkind : word.kind = 0x8) (hlow : word.digits 4 1 = 0x5) :
      Decodes word (.sub word.x word.y)
  | shiftRight (hkind : word.kind = 0x8) (hlow : word.digits 4 1 = 0x6) :
      Decodes word (.shiftRight word.x word.y)
  | subFrom (hkind : word.kind = 0x8) (hlow : word.digits 4 1 = 0x7) :
      Decodes word (.subFrom word.x word.y)
  | shiftLeft (hkind : word.kind = 0x8) (hlow : word.digits 4 1 = 0xE) :
      Decodes word (.shiftLeft word.x word.y)
  | skipUnlessSame (hkind : word.kind = 0x9) (hlow : word.digits 4 1 = 0x0) :
      Decodes word (.skipUnlessSame word.x word.y)
  | setIndex (hkind : word.kind = 0xA) : Decodes word (.setIndex word.nnn)
  | jumpOffset (hkind : word.kind = 0xB) : Decodes word (.jumpOffset word.nnn)
  | random (hkind : word.kind = 0xC) : Decodes word (.random word.x word.nn)
  | draw (hkind : word.kind = 0xD) : Decodes word (.draw word.x word.y word.n)
  | skipIfHeld (hkind : word.kind = 0xE) (hlow : word.digits 3 2 = 0x9E) :
      Decodes word (.skipIfHeld word.x)
  | skipUnlessHeld (hkind : word.kind = 0xE) (hlow : word.digits 3 2 = 0xA1) :
      Decodes word (.skipUnlessHeld word.x)
  | readDelay (hkind : word.kind = 0xF) (hlow : word.digits 3 2 = 0x07) :
      Decodes word (.readDelay word.x)
  | awaitKey (hkind : word.kind = 0xF) (hlow : word.digits 3 2 = 0x0A) :
      Decodes word (.awaitKey word.x)
  | setDelay (hkind : word.kind = 0xF) (hlow : word.digits 3 2 = 0x15) :
      Decodes word (.setDelay word.x)
  | setSound (hkind : word.kind = 0xF) (hlow : word.digits 3 2 = 0x18) :
      Decodes word (.setSound word.x)
  | addIndex (hkind : word.kind = 0xF) (hlow : word.digits 3 2 = 0x1E) :
      Decodes word (.addIndex word.x)
  | pointGlyph (hkind : word.kind = 0xF) (hlow : word.digits 3 2 = 0x29) :
      Decodes word (.pointGlyph word.x)
  | storeDecimal (hkind : word.kind = 0xF) (hlow : word.digits 3 2 = 0x33) :
      Decodes word (.storeDecimal word.x)
  | store (hkind : word.kind = 0xF) (hlow : word.digits 3 2 = 0x55) :
      Decodes word (.store word.x)
  | load (hkind : word.kind = 0xF) (hlow : word.digits 3 2 = 0x65) :
      Decodes word (.load word.x)

variable {word : Opcode} {i : Instruction}

/-- What is found among the `8XYN` instructions is listed for the word. -/
theorem arithmetic?_decodes (hkind : word.kind = 0x8) (h : arithmetic? word = some i) :
    Decodes word i := by
  unfold arithmetic? at h
  split at h <;> cases h <;> constructor <;> assumption

/-- What is found among the skips on a key is listed for the word. -/
theorem keySkip?_decodes (hkind : word.kind = 0xE) (h : keySkip? word = some i) :
    Decodes word i := by
  unfold keySkip? at h
  split at h <;> cases h <;> constructor <;> assumption

/-- What is found among the `FXNN` instructions is listed for the word. -/
theorem transfer?_decodes (hkind : word.kind = 0xF) (h : transfer? word = some i) :
    Decodes word i := by
  unfold transfer? at h
  split at h <;> cases h <;> constructor <;> assumption

/-- The instruction that the decoder finds is listed for the word. -/
theorem decodes_of_decode? (h : decode? word = some i) : Decodes word i := by
  unfold decode? at h
  split at h
  case h_1 hkind =>
    split at h
    · next hclear => cases h; exact .clear hclear
    · next hclear =>
        split at h
        · next hret => cases h; exact .ret hret
        · next hret => cases h; exact .sys hkind hclear hret
  case h_6 hkind =>
    split at h
    · next hlow => cases h; exact .skipIfSame hkind hlow
    · cases h
  case h_9 hkind => exact arithmetic?_decodes hkind h
  case h_10 hkind =>
    split at h
    · next hlow => cases h; exact .skipUnlessSame hkind hlow
    · cases h
  case h_15 hkind => exact keySkip?_decodes hkind h
  case h_16 hkind => exact transfer?_decodes hkind h
  all_goals cases h
  all_goals constructor
  all_goals assumption

/-- The decoder finds the instruction that a word stands for. -/
theorem decode?_eq_some_iff : decode? word = some i ↔ Decodes word i := by
  constructor
  · exact decodes_of_decode?
  · intro h
    cases h with
    | clear hword | ret hword => subst hword; rfl
    | sys hkind hclear hret => simp only [decode?, hkind, hclear, hret, ↓reduceIte]
    | skipIfSame hkind hlow | skipUnlessSame hkind hlow =>
        simp only [decode?, hkind, hlow, ↓reduceIte]
    | skipIfHeld hkind hlow | skipUnlessHeld hkind hlow =>
        simp only [decode?, hkind, keySkip?, hlow]
    | copy hkind hlow | or hkind hlow | and hkind hlow | xor hkind hlow | add hkind hlow
    | sub hkind hlow | shiftRight hkind hlow | subFrom hkind hlow | shiftLeft hkind hlow =>
        simp only [decode?, hkind, arithmetic?, hlow]
    | readDelay hkind hlow | awaitKey hkind hlow | setDelay hkind hlow | setSound hkind hlow
    | addIndex hkind hlow | pointGlyph hkind hlow | storeDecimal hkind hlow | store hkind hlow
    | load hkind hlow =>
        simp only [decode?, hkind, transfer?, hlow]
    | _ hkind => simp only [decode?, hkind]

/-- A word decodes to the instruction that is listed for it. -/
theorem decode_eq_ok_iff : decode word = .ok i ↔ Decodes word i := by
  rw [← decode?_eq_some_iff, decode]
  cases decode? word with
  | none => simp
  | some j => simp

/-- A word that does not decode is itself the error. -/
theorem decode_eq_error {e : MachineError} (h : decode word = .error e) :
    e = .unknownOpcode word := by
  unfold decode at h
  split at h
  · cases h
  · exact (Except.error.inj h).symm

/-- A word stands for one instruction at most. -/
theorem Decodes.unique {j : Instruction} (hi : Decodes word i) (hj : Decodes word j) : i = j := by
  rw [← decode?_eq_some_iff] at hi hj
  exact Option.some.inj (hi.symm.trans hj)

/-- Every field fits the digits that a word has for it. -/
def FitsDigits : Instruction → Prop
  | .sys a | .jump a | .call a | .setIndex a | .jumpOffset a => a.toNat < 4096
  | .draw _ _ height => height.toNat < 16
  | _ => True

/-- The fields of an instruction fit into the digits that they were cut from. -/
theorem Decodes.fitsDigits (h : Decodes word i) : i.FitsDigits := by
  cases h with
  | sys | jump | call | setIndex | jumpOffset => exact Opcode.toNat_nnn_lt word
  | draw => exact Opcode.toNat_n_lt word
  | _ => trivial

end Chip8.Instruction
