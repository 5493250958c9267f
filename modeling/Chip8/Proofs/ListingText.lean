import Chip8.Instruction.Listing
import Chip8.Proofs.NumberText

/-!
# Listings can be read back

The line of an instruction in a listing is a word for what is done and the operands, with
commas between them.  The same word stands for several instructions, `LD` for eleven of them,
and numbers have no fixed width: an address has at least three digits and a height is decimal.
Still an operand can be told from its text.  Only heights are made of decimal digits alone; a
byte has two digits behind `0x`, and an address has more; registers and the fixed names begin
with letters and brackets that nothing else begins with.  The blanks between them and the word
in front tell the operands apart, and then the kinds of the operands, with the word, tell the
instruction.

Nothing is lost but the second register of the two shifts, which a listing does not show.

* `Operand.read?_text`, `Line.read?_text` — operands and lines read back;
* `Instruction.read?_text` — so do instructions, with the first register of a shift in place
  of the second;
* `Instruction.text_eq_text_iff` — two instructions with the same text are the same, or the
  same shift of the same register.
-/

namespace Chip8

/-- The fixed names that stand for an operand in a listing. -/
inductive OperandName where
  /-- The index register. -/
  | index
  /-- The memory that the index register points to. -/
  | atIndex
  /-- The delay timer. -/
  | delay
  /-- The sound timer. -/
  | sound
  /-- The key that is waited for. -/
  | key
  /-- The glyph of a digit. -/
  | glyph
  /-- The decimal digits of a byte. -/
  | decimal
  deriving DecidableEq, Repr

namespace OperandName

/-- The name as it is written. -/
def text : OperandName → String
  | index => "I"
  | atIndex => "[I]"
  | delay => "DT"
  | sound => "ST"
  | key => "K"
  | glyph => "F"
  | decimal => "B"

/-- The names in any order. -/
def all : List OperandName :=
  [index, atIndex, delay, sound, key, glyph, decimal]

end OperandName

/-- One operand in a listing. -/
inductive Operand where
  /-- A register, by its name. -/
  | reg (x : Reg)
  /-- An address, in hexadecimal. -/
  | address (a : Address)
  /-- A byte, in hexadecimal. -/
  | byte (b : UInt8)
  /-- The height of a sprite, in decimal. -/
  | height (n : UInt8)
  /-- What has a fixed name. -/
  | named (name : OperandName)
  deriving DecidableEq, Repr

namespace Operand

/-- An operand as it is written. -/
def text : Operand → String
  | reg x => x.name
  | address a => Instruction.addressText a
  | byte b => Instruction.byteText b
  | height n => n.toNat.repr
  | named name => name.text

/-- The operand that is written so. -/
def read? (cs : List Char) : Option Operand :=
  -- A number in hexadecimal has the letter of its mark, so only a height is all digits.
  if cs.all Char.isDigit then some (height (Nat.ofDigitChars 10 cs 0).toUInt8)
  else
    match cs with
    | 'V' :: digits => some (reg (.ofByte (hexValue digits).toUInt8))
    | '0' :: 'x' :: digits =>
        if digits.length = 2 then some (byte (hexValue digits).toUInt8)
        else some (address (hexValue digits).toUInt16)
    | _ => (OperandName.all.find? fun name => name.text.toList == cs).map named

theorem toList_text_reg (x : Reg) : (reg x).text.toList = 'V' :: hexDigits 1 x.val := by
  simp [text, Reg.name, hex]

theorem toList_text_address (a : Address) :
    (address a).text.toList = '0' :: 'x' :: hexDigits 3 a.toNat := by
  simp [text, Instruction.addressText, hex0x, hex]

theorem toList_text_byte (b : UInt8) :
    (byte b).text.toList = '0' :: 'x' :: hexDigits 2 b.toNat := by
  simp [text, Instruction.byteText, hex0x, hex]

/-- **An operand can be told from its text.** -/
theorem read?_text (o : Operand) : read? o.text.toList = some o := by
  unfold read?
  cases o with
  | reg x =>
      have hletter : ('V' :: hexDigits 1 x.val).all Char.isDigit = false := rfl
      have hbyte : x.val < 256 := by omega
      rw [toList_text_reg, hletter]
      simp [hexValue_hexDigits, Reg.ofByte, Nat.mod_eq_of_lt hbyte, Nat.mod_eq_of_lt x.isLt]
  | address a =>
      have hletter : ('0' :: 'x' :: hexDigits 3 a.toNat).all Char.isDigit = false := rfl
      have hlength : (hexDigits 3 a.toNat).length ≠ 2 := by
        rw [hexDigits, List.length_leftpad]
        omega
      rw [toList_text_address, hletter]
      simp [hlength, hexValue_hexDigits]
  | byte b =>
      have hletter : ('0' :: 'x' :: hexDigits 2 b.toNat).all Char.isDigit = false := rfl
      have hlength : (hexDigits 2 b.toNat).length = 2 := length_hexDigits (by decide) b.toNat_lt
      rw [toList_text_byte, hletter]
      simp [hlength, hexValue_hexDigits]
  | height n =>
      have hdigits : (height n).text.toList.all Char.isDigit = true :=
        List.all_eq_true.2 fun _ => isDigit_of_mem_repr
      rw [if_pos hdigits, text, Nat.toList_repr, Nat.ofDigitChars_ten_toDigits]
      simp
  | named name => cases name <;> rfl

/-- A character of a kind that has neither blank nor comma. -/
theorem plain_of_kind (p : Char → Bool) {c : Char} (h : p c = true) (hblank : p ' ' = false)
    (hcomma : p ',' = false) : c ≠ ' ' ∧ c ≠ ',' := by
  constructor
  · intro hc
    rw [hc, hblank] at h
    exact Bool.false_ne_true h
  · intro hc
    rw [hc, hcomma] at h
    exact Bool.false_ne_true h

/-- A digit is neither a blank nor a comma. -/
theorem plain_of_mem_hexDigits {width n : Nat} {c : Char} (h : c ∈ hexDigits width n) :
    c ≠ ' ' ∧ c ≠ ',' :=
  plain_of_kind (fun c => (digitIn 16 c).isSome) (isSome_digitIn_of_mem_hexDigits h) rfl rfl

/-- An operand is written without the blanks and commas that stand between operands. -/
theorem plain_of_mem_text {o : Operand} {c : Char} (h : c ∈ o.text.toList) :
    c ≠ ' ' ∧ c ≠ ',' := by
  cases o with
  | reg x =>
      rw [toList_text_reg, List.mem_cons] at h
      rcases h with rfl | h
      · decide
      · exact plain_of_mem_hexDigits h
  | address a =>
      rw [toList_text_address, List.mem_cons, List.mem_cons] at h
      rcases h with rfl | rfl | h
      · decide
      · decide
      · exact plain_of_mem_hexDigits h
  | byte b =>
      rw [toList_text_byte, List.mem_cons, List.mem_cons] at h
      rcases h with rfl | rfl | h
      · decide
      · decide
      · exact plain_of_mem_hexDigits h
  | height n => exact plain_of_kind Char.isDigit (isDigit_of_mem_repr h) rfl rfl
  | named name =>
      have hplain : name.text.toList.all (fun c => c != ' ' && c != ',') = true := by
        cases name <;> rfl
      simpa using List.all_eq_true.1 hplain c h

end Operand

/-- A line of a listing: a word for what is done, and the operands. -/
structure Line where
  mnemonic : String
  operands : List Operand
  deriving DecidableEq, Repr

namespace Line

/-- The operands with the commas behind them. -/
def operandWords : List Operand → List (List Char)
  | [] => []
  | [o] => [o.text.toList]
  | o :: following :: rest => (o.text.toList ++ [',']) :: operandWords (following :: rest)

/-- The line as it is written. -/
def text (l : Line) : String :=
  String.ofList ([' '].intercalate (l.mnemonic.toList :: operandWords l.operands))

/-- The line that is written so. -/
def read? (text : String) : Option Line :=
  match text.toList.splitOn ' ' with
  | [] => none
  | mnemonic :: words =>
      let operands := (words.map (·.takeWhile (· ≠ ','))).mapM Operand.read?
      operands.map (Line.mk (String.ofList mnemonic))

/-- The blanks of a line stand between its words. -/
theorem blank_not_mem_operandWords (os : List Operand) :
    ∀ word ∈ operandWords os, ' ' ∉ word := by
  induction os using operandWords.induct with
  | case1 => simp [operandWords]
  | case2 o =>
      intro word hword hblank
      obtain rfl := List.mem_singleton.1 hword
      exact (Operand.plain_of_mem_text hblank).1 rfl
  | case3 o following rest ih =>
      intro word hword hblank
      rw [operandWords, List.mem_cons] at hword
      rcases hword with rfl | hword
      · rcases List.mem_append.1 hblank with hblank | hblank
        · exact (Operand.plain_of_mem_text hblank).1 rfl
        · revert hblank
          decide
      · exact ih word hword hblank

/-- What stands in front of the comma is the text of the operand. -/
theorem takeWhile_operandWords (os : List Operand) :
    (operandWords os).map (·.takeWhile (· ≠ ',')) = os.map (·.text.toList) := by
  have htake (o : Operand) (rest : List Char) (hrest : rest.takeWhile (· ≠ ',') = []) :
      (o.text.toList ++ rest).takeWhile (· ≠ ',') = o.text.toList := by
    have hplain : ∀ c ∈ o.text.toList, decide (c ≠ ',') = true :=
      fun _ hc => decide_eq_true (Operand.plain_of_mem_text hc).2
    rw [List.takeWhile_append_of_pos hplain, hrest, List.append_nil]
  induction os using operandWords.induct with
  | case1 => rfl
  | case2 o =>
      have hlast := htake o [] rfl
      rw [List.append_nil] at hlast
      rw [operandWords, List.map_singleton, List.map_singleton, hlast]
  | case3 o following rest ih =>
      rw [operandWords, List.map_cons, List.map_cons, ih, htake o [','] rfl]

/-- The operands of a line can be told from their texts. -/
theorem mapM_read?_text (os : List Operand) :
    (os.map (·.text.toList)).mapM Operand.read? = some os := by
  induction os with
  | nil => rfl
  | cons o os ih =>
      rw [List.map_cons, List.mapM_cons, ih, Operand.read?_text]
      rfl

/-- **A line can be told from its text.** -/
theorem read?_text {l : Line} (h : ' ' ∉ l.mnemonic.toList) : read? l.text = some l := by
  have hsplit : l.text.toList.splitOn ' ' = l.mnemonic.toList :: operandWords l.operands := by
    rw [text, String.toList_ofList]
    refine List.splitOn_intercalate ' ' ?_ (List.cons_ne_nil _ _)
    intro word hword
    rcases List.mem_cons.1 hword with rfl | hword
    · exact h
    · exact blank_not_mem_operandWords _ word hword
  unfold read?
  simp only [hsplit, takeWhile_operandWords, mapM_read?_text, Option.map_some, String.ofList_toList]

end Line

namespace Instruction

/-- The line of an instruction in a listing. -/
def line : Instruction → Line
  | .sys a => ⟨"SYS", [.address a]⟩
  | .clear => ⟨"CLS", []⟩
  | .ret => ⟨"RET", []⟩
  | .jump a => ⟨"JP", [.address a]⟩
  | .call a => ⟨"CALL", [.address a]⟩
  | .skipIfByte x b => ⟨"SE", [.reg x, .byte b]⟩
  | .skipUnlessByte x b => ⟨"SNE", [.reg x, .byte b]⟩
  | .skipIfSame x y => ⟨"SE", [.reg x, .reg y]⟩
  | .skipUnlessSame x y => ⟨"SNE", [.reg x, .reg y]⟩
  | .setByte x b => ⟨"LD", [.reg x, .byte b]⟩
  | .addByte x b => ⟨"ADD", [.reg x, .byte b]⟩
  | .copy x y => ⟨"LD", [.reg x, .reg y]⟩
  | .or x y => ⟨"OR", [.reg x, .reg y]⟩
  | .and x y => ⟨"AND", [.reg x, .reg y]⟩
  | .xor x y => ⟨"XOR", [.reg x, .reg y]⟩
  | .add x y => ⟨"ADD", [.reg x, .reg y]⟩
  | .sub x y => ⟨"SUB", [.reg x, .reg y]⟩
  | .shiftRight x _ => ⟨"SHR", [.reg x]⟩
  | .subFrom x y => ⟨"SUBN", [.reg x, .reg y]⟩
  | .shiftLeft x _ => ⟨"SHL", [.reg x]⟩
  | .setIndex a => ⟨"LD", [.named .index, .address a]⟩
  | .jumpOffset a => ⟨"JP", [.reg .v0, .address a]⟩
  | .random x b => ⟨"RND", [.reg x, .byte b]⟩
  | .draw x y n => ⟨"DRW", [.reg x, .reg y, .height n]⟩
  | .skipIfHeld x => ⟨"SKP", [.reg x]⟩
  | .skipUnlessHeld x => ⟨"SKNP", [.reg x]⟩
  | .readDelay x => ⟨"LD", [.reg x, .named .delay]⟩
  | .awaitKey x => ⟨"LD", [.reg x, .named .key]⟩
  | .setDelay x => ⟨"LD", [.named .delay, .reg x]⟩
  | .setSound x => ⟨"LD", [.named .sound, .reg x]⟩
  | .addIndex x => ⟨"ADD", [.named .index, .reg x]⟩
  | .pointGlyph x => ⟨"LD", [.named .glyph, .reg x]⟩
  | .storeDecimal x => ⟨"LD", [.named .decimal, .reg x]⟩
  | .store x => ⟨"LD", [.named .atIndex, .reg x]⟩
  | .load x => ⟨"LD", [.reg x, .named .atIndex]⟩

/-- The text of an instruction is the text of its line.  The fixed `V0` in the text of the
jump with offset is the name of a register in its line. -/
theorem text_eq_line (i : Instruction) : i.text = i.line.text := by
  have hv0 : Reg.v0.name.toList = ['V', '0'] := rfl
  apply String.toList_injective
  cases i <;>
    simp [text, line, Line.text, Line.operandWords, Operand.text, OperandName.text, hv0, toString]

/-- A mnemonic is one word. -/
theorem blank_not_mem_mnemonic (i : Instruction) : ' ' ∉ i.line.mnemonic.toList := by
  cases i <;> simp [line]

end Instruction

/-- The instruction that a line stands for, with the first register of a shift in place of the
second. -/
def Line.instruction? (l : Line) : Option Instruction :=
  match l.operands with
  | [] =>
      match l.mnemonic with
      | "CLS" => some .clear
      | "RET" => some .ret
      | _ => none
  | [.address a] =>
      match l.mnemonic with
      | "SYS" => some (.sys a)
      | "JP" => some (.jump a)
      | "CALL" => some (.call a)
      | _ => none
  | [.reg x] =>
      match l.mnemonic with
      | "SHR" => some (.shiftRight x x)
      | "SHL" => some (.shiftLeft x x)
      | "SKP" => some (.skipIfHeld x)
      | "SKNP" => some (.skipUnlessHeld x)
      | _ => none
  | [.reg x, .byte b] =>
      match l.mnemonic with
      | "SE" => some (.skipIfByte x b)
      | "SNE" => some (.skipUnlessByte x b)
      | "LD" => some (.setByte x b)
      | "ADD" => some (.addByte x b)
      | "RND" => some (.random x b)
      | _ => none
  | [.reg x, .reg y] =>
      match l.mnemonic with
      | "SE" => some (.skipIfSame x y)
      | "SNE" => some (.skipUnlessSame x y)
      | "LD" => some (.copy x y)
      | "OR" => some (.or x y)
      | "AND" => some (.and x y)
      | "XOR" => some (.xor x y)
      | "ADD" => some (.add x y)
      | "SUB" => some (.sub x y)
      | "SUBN" => some (.subFrom x y)
      | _ => none
  | [.reg x, .reg y, .height n] => if l.mnemonic = "DRW" then some (.draw x y n) else none
  | [.reg x, .address a] => if l.mnemonic = "JP" ∧ x = .v0 then some (.jumpOffset a) else none
  | [.named .index, .address a] => if l.mnemonic = "LD" then some (.setIndex a) else none
  | [.named .index, .reg x] => if l.mnemonic = "ADD" then some (.addIndex x) else none
  | [.named name, .reg x] =>
      if l.mnemonic = "LD" then
        match name with
        | .delay => some (.setDelay x)
        | .sound => some (.setSound x)
        | .glyph => some (.pointGlyph x)
        | .decimal => some (.storeDecimal x)
        | .atIndex => some (.store x)
        | _ => none
      else none
  | [.reg x, .named name] =>
      if l.mnemonic = "LD" then
        match name with
        | .delay => some (.readDelay x)
        | .key => some (.awaitKey x)
        | .atIndex => some (.load x)
        | _ => none
      else none
  | _ => none

namespace Instruction

/-- The instruction whose text this is. -/
def read? (text : String) : Option Instruction :=
  (Line.read? text).bind Line.instruction?

/-- What a listing shows of an instruction: all of it, except for the second register of a
shift. -/
def shown : Instruction → Instruction
  | .shiftRight x _ => .shiftRight x x
  | .shiftLeft x _ => .shiftLeft x x
  | i => i

/-- The line of an instruction tells what it shows of the instruction. -/
theorem instruction?_line (i : Instruction) : i.line.instruction? = some i.shown := by
  cases i <;> rfl

/-- **Listings can be read back.** -/
theorem read?_text (i : Instruction) : read? i.text = some i.shown := by
  rw [read?, text_eq_line, Line.read?_text i.blank_not_mem_mnemonic, Option.bind_some,
    instruction?_line]

example : read? "LD [I], VF" = some (.store .vf) := by
  decide +kernel

/-- What is shown has the same line. -/
theorem line_shown (i : Instruction) : i.shown.line = i.line := by
  cases i <;> rfl

/-- Only the two shifts show less than they are. -/
theorem shown_cases (i : Instruction) :
    (∃ x y, i = .shiftRight x y) ∨ (∃ x y, i = .shiftLeft x y) ∨ i.shown = i := by
  cases i with
  | shiftRight x y => exact Or.inl ⟨x, y, rfl⟩
  | shiftLeft x y => exact Or.inr (Or.inl ⟨x, y, rfl⟩)
  | _ => exact Or.inr (Or.inr rfl)

/-- What is shown as a shift to the right is one, with the same first register. -/
theorem eq_of_shown_shiftRight {i : Instruction} {x : Reg} (h : i.shown = .shiftRight x x) :
    ∃ y, i = .shiftRight x y := by
  cases i with
  | shiftRight x' y =>
      cases h
      exact ⟨y, rfl⟩
  | _ => cases h

/-- What is shown as a shift to the left is one, with the same first register. -/
theorem eq_of_shown_shiftLeft {i : Instruction} {x : Reg} (h : i.shown = .shiftLeft x x) :
    ∃ y, i = .shiftLeft x y := by
  cases i with
  | shiftLeft x' y =>
      cases h
      exact ⟨y, rfl⟩
  | _ => cases h

/-- Two instructions have the same text if and only if the text shows the same of them. -/
theorem text_eq_text_iff_shown (i j : Instruction) : i.text = j.text ↔ i.shown = j.shown := by
  constructor
  · intro h
    have hread := i.read?_text
    rw [h, j.read?_text] at hread
    exact (Option.some.inj hread).symm
  · intro h
    rw [text_eq_line, text_eq_line, ← line_shown, h, line_shown]

/-- **Listings are unambiguous.**  Take any two instructions, with any addresses, bytes and
heights, also such as no word has room for.  Their texts are the same if and only if they are
the same instruction, or two shifts to the same side of the same register. -/
theorem text_eq_text_iff (i j : Instruction) :
    i.text = j.text ↔ i = j ∨
      (∃ x y z, i = .shiftRight x y ∧ j = .shiftRight x z) ∨
      ∃ x y z, i = .shiftLeft x y ∧ j = .shiftLeft x z := by
  rw [text_eq_text_iff_shown]
  constructor
  · intro h
    obtain ⟨x, y, rfl⟩ | ⟨x, y, rfl⟩ | hi := i.shown_cases
    · obtain ⟨z, rfl⟩ := eq_of_shown_shiftRight h.symm
      exact Or.inr (Or.inl ⟨x, y, z, rfl, rfl⟩)
    · obtain ⟨z, rfl⟩ := eq_of_shown_shiftLeft h.symm
      exact Or.inr (Or.inr ⟨x, y, z, rfl, rfl⟩)
    · rw [hi] at h
      obtain ⟨x, z, rfl⟩ | ⟨x, z, rfl⟩ | hj := j.shown_cases
      · exact Or.inr (Or.inl ⟨x, x, z, h, rfl⟩)
      · exact Or.inr (Or.inr ⟨x, x, z, h, rfl⟩)
      · exact Or.inl (h.trans hj)
  · intro h
    rcases h with rfl | ⟨x, y, z, rfl, rfl⟩ | ⟨x, y, z, rfl, rfl⟩
    · rfl
    · rfl
    · rfl

end Instruction

end Chip8
