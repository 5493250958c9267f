import Chip8.Proofs.Decoding
import Chip8.Proofs.WordFields

/-!
# The decoder and the opcode table

The decoder reads a word digit by digit, the opcode table compares it with one
masked pattern after the other.  Both describe the same instruction set, and the
order of the table matters only in that the two fixed words `00E0` and `00EE`
stand ahead of `0NNN`.

* `OpcodeForm.names_iff_decodes` — a form names a word exactly if the word
  stands for an instruction of that form;
* `OpcodeForm.IsReordering.find?_eq_some_iff` — the first form that fits is the
  one that names the word, in every reordering of the table;
* `Instruction.Decodes.encode_eq` — an instruction gives back its word;
* `OpcodeForm.restore_extract` — and so do the operands of the table.
-/

namespace Chip8

open Instruction (Decodes)

namespace OpcodeForm

variable {f g : OpcodeForm} {word : Opcode} {i : Instruction} {table : List OpcodeForm}

/-- The form that a word belongs to: one that the word fits, and for the two fixed
words not the one for all words of their kind. -/
structure Names (f : OpcodeForm) (word : Opcode) : Prop where
  mem : f ∈ opcodeTable
  fits : f.fits word = true
  fixed : f = .sys → word ≠ 0x00E0 ∧ word ≠ 0x00EE

/-- A pattern has no bits outside of its mask. -/
theorem pattern_and_mask : ∀ f ∈ opcodeTable, f.pattern &&& f.mask = f.pattern := by
  decide

/-- The form of every instruction is in the table. -/
theorem form_mem (i : Instruction) : i.form ∈ opcodeTable := by
  cases i <;> simp [opcodeTable, Instruction.form]

/-- The word of a decoded instruction has the pattern of its form. -/
theorem form_fits (h : Decodes word i) : i.form.fits word = true := by
  have hpattern := pattern_and_mask i.form (form_mem i)
  cases h with
  | clear hword | ret hword => exact (fits_iff_word rfl).2 hword
  | skipIfSame hkind hlow | skipUnlessSame hkind hlow | copy hkind hlow | or hkind hlow
  | and hkind hlow | xor hkind hlow | add hkind hlow | sub hkind hlow | shiftRight hkind hlow
  | subFrom hkind hlow | shiftLeft hkind hlow =>
      dsimp only [Instruction.form] at hpattern ⊢
      exact (fits_iff_digit hpattern rfl).2 ⟨hkind, hlow⟩
  | skipIfHeld hkind hlow | skipUnlessHeld hkind hlow | readDelay hkind hlow
  | awaitKey hkind hlow | setDelay hkind hlow | setSound hkind hlow | addIndex hkind hlow
  | pointGlyph hkind hlow | storeDecimal hkind hlow | store hkind hlow | load hkind hlow =>
      dsimp only [Instruction.form] at hpattern ⊢
      exact (fits_iff_byte hpattern rfl).2 ⟨hkind, hlow⟩
  | _ hkind =>
      dsimp only [Instruction.form] at hpattern ⊢
      exact (fits_iff_kind hpattern rfl).2 hkind

/-- The form of the instruction that a word stands for names the word. -/
theorem form_names (h : Decodes word i) : i.form.Names word := by
  refine ⟨form_mem i, form_fits h, ?_⟩
  intro hsys
  cases h with
  | sys hkind hclear hret => exact ⟨hclear, hret⟩
  | _ =>
      exact absurd (congrArg OpcodeForm.pattern hsys) (of_decide_eq_false rfl)

/-- A word that a form names stands for an instruction of that form.  The forms are gone
through in the order of the table, and the mask of each tells which digits of the word are
known. -/
theorem Names.exists_decodes (h : f.Names word) : ∃ i, Decodes word i ∧ i.form = f := by
  obtain ⟨hmem, hfits, hfixed⟩ := h
  have hpattern := pattern_and_mask f hmem
  have whole (hmask : f.mask = 0xFFFF) := (fits_iff_word hmask).1 hfits
  have kind (hmask : f.mask = 0xF000) := (fits_iff_kind hpattern hmask).1 hfits
  have digit (hmask : f.mask = 0xF00F) := (fits_iff_digit hpattern hmask).1 hfits
  have byte (hmask : f.mask = 0xF0FF) := (fits_iff_byte hpattern hmask).1 hfits
  simp only [opcodeTable, List.mem_cons, List.not_mem_nil, or_false] at hmem
  rcases hmem with rfl | rfl | rfl | rfl | rfl | rfl | rfl | rfl | rfl | rfl | rfl | rfl |
    rfl | rfl | rfl | rfl | rfl | rfl | rfl | rfl | rfl | rfl | rfl | rfl | rfl | rfl | rfl |
    rfl | rfl | rfl | rfl | rfl | rfl | rfl | rfl
  · exact ⟨_, .clear (whole rfl), rfl⟩
  · exact ⟨_, .ret (whole rfl), rfl⟩
  · exact ⟨_, .sys (kind rfl) (hfixed rfl).1 (hfixed rfl).2, rfl⟩
  · exact ⟨_, .jump (kind rfl), rfl⟩
  · exact ⟨_, .call (kind rfl), rfl⟩
  · exact ⟨_, .skipIfByte (kind rfl), rfl⟩
  · exact ⟨_, .skipUnlessByte (kind rfl), rfl⟩
  · exact ⟨_, .skipIfSame (digit rfl).1 (digit rfl).2, rfl⟩
  · exact ⟨_, .setByte (kind rfl), rfl⟩
  · exact ⟨_, .addByte (kind rfl), rfl⟩
  · exact ⟨_, .copy (digit rfl).1 (digit rfl).2, rfl⟩
  · exact ⟨_, .or (digit rfl).1 (digit rfl).2, rfl⟩
  · exact ⟨_, .and (digit rfl).1 (digit rfl).2, rfl⟩
  · exact ⟨_, .xor (digit rfl).1 (digit rfl).2, rfl⟩
  · exact ⟨_, .add (digit rfl).1 (digit rfl).2, rfl⟩
  · exact ⟨_, .sub (digit rfl).1 (digit rfl).2, rfl⟩
  · exact ⟨_, .shiftRight (digit rfl).1 (digit rfl).2, rfl⟩
  · exact ⟨_, .subFrom (digit rfl).1 (digit rfl).2, rfl⟩
  · exact ⟨_, .shiftLeft (digit rfl).1 (digit rfl).2, rfl⟩
  · exact ⟨_, .skipUnlessSame (digit rfl).1 (digit rfl).2, rfl⟩
  · exact ⟨_, .setIndex (kind rfl), rfl⟩
  · exact ⟨_, .jumpOffset (kind rfl), rfl⟩
  · exact ⟨_, .random (kind rfl), rfl⟩
  · exact ⟨_, .draw (kind rfl), rfl⟩
  · exact ⟨_, .skipIfHeld (byte rfl).1 (byte rfl).2, rfl⟩
  · exact ⟨_, .skipUnlessHeld (byte rfl).1 (byte rfl).2, rfl⟩
  · exact ⟨_, .readDelay (byte rfl).1 (byte rfl).2, rfl⟩
  · exact ⟨_, .awaitKey (byte rfl).1 (byte rfl).2, rfl⟩
  · exact ⟨_, .setDelay (byte rfl).1 (byte rfl).2, rfl⟩
  · exact ⟨_, .setSound (byte rfl).1 (byte rfl).2, rfl⟩
  · exact ⟨_, .addIndex (byte rfl).1 (byte rfl).2, rfl⟩
  · exact ⟨_, .pointGlyph (byte rfl).1 (byte rfl).2, rfl⟩
  · exact ⟨_, .storeDecimal (byte rfl).1 (byte rfl).2, rfl⟩
  · exact ⟨_, .store (byte rfl).1 (byte rfl).2, rfl⟩
  · exact ⟨_, .load (byte rfl).1 (byte rfl).2, rfl⟩

/-- A form names the words that stand for its instructions. -/
theorem names_iff_decodes : f.Names word ↔ ∃ i, Decodes word i ∧ i.form = f := by
  constructor
  · exact Names.exists_decodes
  · rintro ⟨i, h, rfl⟩
    exact form_names h

/-- One form at most names a word. -/
theorem Names.unique (hf : f.Names word) (hg : g.Names word) : f = g := by
  obtain ⟨i, hi, rfl⟩ := names_iff_decodes.1 hf
  obtain ⟨j, hj, rfl⟩ := names_iff_decodes.1 hg
  rw [hi.unique hj]

/-- The forms of the table in some order, the two fixed words still ahead of the
other words of their kind. -/
structure IsReordering (table : List OpcodeForm) : Prop where
  perm : table.Perm opcodeTable
  cls_sys : table.idxOf .cls < table.idxOf .sys
  ret_sys : table.idxOf .ret < table.idxOf .sys

/-- The table is a reordering of itself. -/
theorem isReordering_opcodeTable : IsReordering opcodeTable :=
  ⟨.refl _, by decide, by decide⟩

/-- A word does not fit what stands ahead of the first form that it fits. -/
theorem fits_eq_false_of_idxOf_lt (hfind : table.find? (·.fits word) = some g)
    (hlt : table.idxOf f < table.idxOf g) : f.fits word = false := by
  obtain ⟨-, before, behind, rfl, hbefore⟩ := List.find?_eq_some_iff_append.1 hfind
  have hmem : f ∈ before := by grind
  simpa using hbefore f hmem

/-- The first form that a word fits is the one that names it, in whatever order the
other forms stand. -/
theorem IsReordering.find?_eq_some_iff (htable : IsReordering table) :
    table.find? (·.fits word) = some f ↔ f.Names word := by
  have names {g} (hfind : table.find? (·.fits word) = some g) : g.Names word := by
    have hfits := List.find?_some hfind
    refine ⟨htable.perm.mem_iff.1 (List.mem_of_find?_eq_some hfind), hfits, ?_⟩
    rintro rfl
    have hcls := fits_eq_false_of_idxOf_lt hfind htable.cls_sys
    have hret := fits_eq_false_of_idxOf_lt hfind htable.ret_sys
    constructor
    · rintro rfl
      exact absurd hcls (by decide)
    · rintro rfl
      exact absurd hret (by decide)
  constructor
  · exact names
  · intro h
    have hsome : (table.find? (·.fits word)).isSome :=
      List.find?_isSome.2 ⟨f, htable.perm.mem_iff.2 h.mem, h.fits⟩
    obtain ⟨g, hg⟩ := Option.isSome_iff_exists.1 hsome
    rw [hg, (names hg).unique h]

/-- Looking a word up gives the form that names it. -/
theorem lookup_eq_some_iff : lookup word = some f ↔ f.Names word :=
  isReordering_opcodeTable.find?_eq_some_iff

/-- Any reordering of the table gives the same form for every word. -/
theorem IsReordering.find?_eq_lookup (htable : IsReordering table) (word : Opcode) :
    table.find? (·.fits word) = lookup word := by
  apply Option.ext
  intro f
  rw [htable.find?_eq_some_iff, lookup_eq_some_iff]

/-- The word that the operands of a form stand for: the pattern, and every operand
in its place. -/
def restore (f : OpcodeForm) (values : List UInt16) : Opcode :=
  (f.operands.zip values).foldl (fun word (field, value) => word ||| value <<< field.shift)
    f.pattern

/-- Every operand of the table is a run of bits. -/
theorem isRun_operands (hmem : f ∈ opcodeTable) :
    ∀ o ∈ f.operands, ∃ k s, o.IsRun k s := by
  have hkinds : ∀ f ∈ opcodeTable, ∀ o ∈ f.operands,
      o = .x ∨ o = .y ∨ o = .n ∨ o = .nn ∨ o = .nnn := by decide
  intro o ho
  rcases hkinds f hmem o ho with rfl | rfl | rfl | rfl | rfl
  · exact ⟨_, _, OperandField.isRun_x⟩
  · exact ⟨_, _, OperandField.isRun_y⟩
  · exact ⟨_, _, OperandField.isRun_n⟩
  · exact ⟨_, _, OperandField.isRun_nn⟩
  · exact ⟨_, _, OperandField.isRun_nnn⟩

/-- The mask and the operands of a form leave out no digit. -/
theorem masks_full :
    ∀ f ∈ opcodeTable, f.operands.foldl (fun mask o => mask ||| o.mask) f.mask = 0xFFFF := by
  decide

/-- Operands that are put back one after the other make up what their masks leave of
the word. -/
theorem foldl_extract {fields : List OperandField} (hrun : ∀ o ∈ fields, ∃ k s, o.IsRun k s)
    (word mask : UInt16) :
    (fields.zip (fields.map (·.extract word))).foldl
        (fun acc (field, value) => acc ||| value <<< field.shift) (word &&& mask) =
      word &&& fields.foldl (fun mask o => mask ||| o.mask) mask := by
  induction fields generalizing mask with
  | nil => rfl
  | cons o fields ih =>
      obtain ⟨k, s, ho⟩ := hrun o List.mem_cons_self
      have hacc : word &&& mask ||| o.extract word <<< o.shift = word &&& (mask ||| o.mask) := by
        rw [ho.extract_shiftLeft, and_or_distrib]
      rw [List.map_cons, List.zip_cons_cons, List.foldl_cons, List.foldl_cons]
      dsimp only
      rw [hacc, ih (fun o' h => hrun o' (List.mem_cons_of_mem o h))]

/-- A word that fits a form of the table is restored from its operands. -/
theorem restore_extract (hmem : f ∈ opcodeTable) (hfits : f.fits word = true) :
    f.restore (f.extract word) = word := by
  have hall : (0xFFFF : UInt16) = -1 := rfl
  rw [restore, ← fits_iff.1 hfits, extract, foldl_extract (isRun_operands hmem),
    masks_full f hmem, hall, UInt16.and_neg_one]

end OpcodeForm

/-- A decoded instruction gives back its word. -/
theorem Instruction.Decodes.encode_eq {word : Opcode} {i : Instruction} (h : Decodes word i) :
    i.encode = word := by
  cases h with
  | clear hword | ret hword => exact hword.symm
  | skipIfSame hkind hlow | skipUnlessSame hkind hlow | copy hkind hlow | or hkind hlow
  | and hkind hlow | xor hkind hlow | add hkind hlow | sub hkind hlow | shiftRight hkind hlow
  | subFrom hkind hlow | shiftLeft hkind hlow =>
      exact Opcode.ofXYN_eq hkind hlow
  | draw hkind =>
      have hlow : word.digits 4 1 = word.n.toNat % 16 := by
        rw [Nat.mod_eq_of_lt (Opcode.toNat_n_lt word), Opcode.toNat_n]
      exact Opcode.ofXYN_eq hkind hlow
  | skipIfHeld hkind hlow | skipUnlessHeld hkind hlow | readDelay hkind hlow
  | awaitKey hkind hlow | setDelay hkind hlow | setSound hkind hlow | addIndex hkind hlow
  | pointGlyph hkind hlow | storeDecimal hkind hlow | store hkind hlow | load hkind hlow =>
      exact Opcode.ofXNN_eq hkind hlow
  | sys hkind | jump hkind | call hkind | setIndex hkind | jumpOffset hkind =>
      exact Opcode.ofNNN_eq hkind
  | _ hkind => exact Opcode.ofXNN_eq hkind (Opcode.toNat_nn word).symm

end Chip8
