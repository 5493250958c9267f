import Mathlib.Algebra.Group.Nat.Defs
import Chip8.Instruction.Form

/-!
# Digits and masks

The decoder cuts a word by its digits, the opcode table by masks and shifts.  Both
are quotients and remainders of the word as a number, and a word is put together
from them again.

* `Opcode.kind_eq` and its neighbours — the digits of a word as quotients and
  remainders;
* `Opcode.ofNNN_eq`, `Opcode.ofXNN_eq`, `Opcode.ofXYN_eq` — a word from its own
  digits;
* `OperandField.extract_nnn` and its neighbours — the operands of the table are
  the digits;
* `OpcodeForm.fits_iff_kind` and its neighbours — the digits that a form asks for.
-/

namespace Chip8

namespace Opcode

variable (word : Opcode)

/-- The kind is the first of the four digits. -/
theorem kind_eq : word.kind = word.toNat / 4096 := by
  have hlt := word.toNat_lt
  change word.toNat / 4096 % 16 = _
  omega

theorem digits_nn : word.digits 3 2 = word.toNat % 256 := by
  change word.toNat / 1 % 256 = _
  omega

theorem digits_n : word.digits 4 1 = word.toNat % 16 := by
  change word.toNat / 1 % 16 = _
  omega

theorem val_x : word.x.val = word.toNat / 256 % 16 :=
  rfl

theorem val_y : word.y.val = word.toNat / 16 % 16 :=
  rfl

theorem toNat_nnn : word.nnn.toNat = word.toNat % 4096 := by
  change (word.toNat / 1 % 4096).toUInt16.toNat = _
  simp
  omega

theorem toNat_nn : word.nn.toNat = word.digits 3 2 := by
  rw [digits_nn]
  change (word.toNat / 1 % 256).toUInt8.toNat = _
  simp

theorem toNat_n : word.n.toNat = word.digits 4 1 := by
  rw [digits_n]
  change (word.toNat / 1 % 16).toUInt8.toNat = _
  simp
  omega

theorem toNat_nnn_lt : word.nnn.toNat < 4096 := by
  rw [toNat_nnn]
  omega

theorem toNat_n_lt : word.n.toNat < 16 := by
  rw [toNat_n, digits_n]
  omega

variable {word} {k : Nat}

/-- A word is put together again from its kind and its address. -/
theorem ofNNN_eq (hkind : word.kind = k) : ofNNN k word.nnn = word := by
  have hlt := word.toNat_lt
  rw [kind_eq] at hkind
  apply UInt16.toNat_inj.1
  simp only [ofNNN, toNat_nnn, UInt16.toNat_ofNat']
  omega

/-- A word is put together again from its kind, its register and its byte. -/
theorem ofXNN_eq {byte : UInt8} (hkind : word.kind = k) (hlow : word.digits 3 2 = byte.toNat) :
    ofXNN k word.x byte = word := by
  have hlt := word.toNat_lt
  rw [kind_eq] at hkind
  rw [digits_nn] at hlow
  apply UInt16.toNat_inj.1
  simp only [ofXNN, val_x, UInt16.toNat_ofNat']
  omega

/-- A word is put together again from its kind, its registers and its last digit. -/
theorem ofXYN_eq {n : UInt8} (hkind : word.kind = k) (hlow : word.digits 4 1 = n.toNat % 16) :
    ofXYN k word.x word.y n = word := by
  have hlt := word.toNat_lt
  rw [kind_eq] at hkind
  rw [digits_n] at hlow
  apply UInt16.toNat_inj.1
  simp only [ofXYN, val_x, val_y, UInt16.toNat_ofNat']
  omega

end Opcode

/-- The bits of a number under a mask of `k` ones, `s` places up. -/
theorem and_ones (a k s : Nat) : a &&& (2 ^ k - 1) * 2 ^ s = a / 2 ^ s % 2 ^ k * 2 ^ s := by
  apply Nat.eq_of_testBit_eq
  intro j
  rw [Nat.testBit_and, Nat.testBit_mul_two_pow, Nat.testBit_mul_two_pow,
    Nat.testBit_two_pow_sub_one, Nat.testBit_mod_two_pow, Nat.testBit_div_two_pow]
  by_cases hj : s ≤ j
  · simp [hj, Nat.sub_add_cancel hj, Bool.and_comm]
  · simp [hj]

/-- A mask of ones in a row cuts out the bits that stand under it. -/
theorem toNat_and_ones (word : Opcode) {mask : UInt16} {k s : Nat}
    (hmask : mask.toNat = (2 ^ k - 1) * 2 ^ s) :
    (word &&& mask).toNat = word.toNat / 2 ^ s % 2 ^ k * 2 ^ s := by
  rw [UInt16.toNat_and, hmask, and_ones]

/-- The mask `F000` cuts out the kind. -/
theorem toNat_and_kind (word : Opcode) : (word &&& 0xF000).toNat = word.kind * 4096 := by
  have hmask : (0xF000 : UInt16).toNat = (2 ^ 4 - 1) * 2 ^ 12 := rfl
  have hlt := word.toNat_lt
  rw [toNat_and_ones word hmask, Opcode.kind_eq]
  omega

/-- What two masks cut out together is what each of them does. -/
theorem and_or_distrib (word mask mask' : UInt16) :
    word &&& (mask ||| mask') = word &&& mask ||| word &&& mask' := by
  apply UInt16.toNat_inj.1
  simp only [UInt16.toNat_and, UInt16.toNat_or, Nat.and_or_distrib_left]

/-- The kind of a word together with a lower part of it. -/
theorem toNat_and_kind_or {mask low : UInt16} {k : Nat} (hmask : mask = 0xF000 ||| low)
    (hlow : low.toNat = 2 ^ k - 1) (hk : k ≤ 12) (word : Opcode) :
    (word &&& mask).toNat = word.kind * 4096 + word.toNat % 2 ^ k := by
  have hones : (word &&& low).toNat = word.toNat % 2 ^ k := by
    have hrun : low.toNat = (2 ^ k - 1) * 2 ^ 0 := by omega
    rw [toNat_and_ones word hrun]
    simp
  have hfits : word.toNat % 2 ^ k < 2 ^ 12 :=
    Nat.lt_of_lt_of_le (Nat.mod_lt _ (Nat.two_pow_pos k)) (Nat.pow_le_pow_right (by decide) hk)
  have hsum : (word &&& mask).toNat = (word &&& 0xF000).toNat ||| (word &&& low).toNat := by
    rw [hmask, and_or_distrib, UInt16.toNat_or]
  calc (word &&& mask).toNat
      = (word.kind * 4096) ||| (word.toNat % 2 ^ k) := by
        rw [hsum, toNat_and_kind, hones]
    _ = word.kind <<< 12 ||| (word.toNat % 2 ^ k) := by rw [Nat.shiftLeft_eq]
    _ = word.kind <<< 12 + word.toNat % 2 ^ k := (Nat.shiftLeft_add_eq_or_of_lt hfits _).symm
    _ = word.kind * 4096 + word.toNat % 2 ^ k := by rw [Nat.shiftLeft_eq]

namespace OperandField

/-- A field of `k` bits that stands `s` places up in a word. -/
structure IsRun (f : OperandField) (k s : Nat) : Prop where
  mask : f.mask.toNat = (2 ^ k - 1) * 2 ^ s
  shift : f.shift.toNat = s
  shift_lt : s < 16

variable {f : OperandField} {k s : Nat}

/-- An operand that is a run of bits has the value of these bits. -/
theorem IsRun.toNat_extract (hf : f.IsRun k s) (word : Opcode) :
    (f.extract word).toNat = word.toNat / 2 ^ s % 2 ^ k := by
  have hpos : 0 < 2 ^ s := Nat.two_pow_pos s
  rw [extract, UInt16.toNat_shiftRight, hf.shift, Nat.mod_eq_of_lt hf.shift_lt,
    toNat_and_ones word hf.mask, Nat.shiftRight_eq_div_pow, Nat.mul_div_cancel _ hpos]

/-- An operand put back to its place. -/
theorem IsRun.extract_shiftLeft (hf : f.IsRun k s) (word : Opcode) :
    f.extract word <<< f.shift = word &&& f.mask := by
  have hmask := toNat_and_ones word hf.mask
  have hlt := (word &&& f.mask).toNat_lt
  apply UInt16.toNat_inj.1
  rw [UInt16.toNat_shiftLeft, hf.shift, Nat.mod_eq_of_lt hf.shift_lt, hf.toNat_extract,
    Nat.shiftLeft_eq, ← hmask, Nat.mod_eq_of_lt hlt]

theorem isRun_x : x.IsRun 4 8 := ⟨rfl, rfl, by decide⟩
theorem isRun_y : y.IsRun 4 4 := ⟨rfl, rfl, by decide⟩
theorem isRun_n : n.IsRun 4 0 := ⟨rfl, rfl, by decide⟩
theorem isRun_nn : nn.IsRun 8 0 := ⟨rfl, rfl, by decide⟩
theorem isRun_nnn : nnn.IsRun 12 0 := ⟨rfl, rfl, by decide⟩

variable (word : Opcode)

/-- An operand of the table is what the decoder cuts out of the word, here the address. -/
theorem extract_nnn : nnn.extract word = word.nnn := by
  apply UInt16.toNat_inj.1
  rw [isRun_nnn.toNat_extract, Opcode.toNat_nnn]
  simp

theorem extract_nn : (nn.extract word).toUInt8 = word.nn := by
  apply UInt8.toNat_inj.1
  rw [UInt16.toNat_toUInt8, isRun_nn.toNat_extract, Opcode.toNat_nn, Opcode.digits_nn]
  simp

theorem extract_n : (n.extract word).toUInt8 = word.n := by
  apply UInt8.toNat_inj.1
  rw [UInt16.toNat_toUInt8, isRun_n.toNat_extract, Opcode.toNat_n, Opcode.digits_n]
  simp
  omega

theorem extract_x : Reg.ofByte (x.extract word).toUInt8 = word.x := by
  apply Fin.ext
  change (x.extract word).toUInt8.toNat % 16 = _
  rw [UInt16.toNat_toUInt8, isRun_x.toNat_extract, Opcode.val_x]
  simp

theorem extract_y : Reg.ofByte (y.extract word).toUInt8 = word.y := by
  apply Fin.ext
  change (y.extract word).toUInt8.toNat % 16 = _
  rw [UInt16.toNat_toUInt8, isRun_y.toNat_extract, Opcode.val_y]
  simp

end OperandField

namespace OpcodeForm

variable {f : OpcodeForm} {word : Opcode}

/-- A word fits a form if it has the pattern under the mask. -/
theorem fits_iff : f.fits word = true ↔ word &&& f.mask = f.pattern := by
  simp [fits]

section Pattern

variable (hpattern : f.pattern &&& f.mask = f.pattern)

include hpattern

theorem fits_iff_and : f.fits word = true ↔ word &&& f.mask = f.pattern &&& f.mask := by
  rw [fits_iff, hpattern]

/-- Under the mask `F000` the kind alone counts. -/
theorem fits_iff_kind (hmask : f.mask = 0xF000) :
    f.fits word = true ↔ word.kind = Opcode.kind f.pattern := by
  rw [fits_iff_and hpattern, hmask, ← UInt16.toNat_inj, toNat_and_kind, toNat_and_kind]
  omega

/-- Under the mask `F00F` the kind and the last digit count. -/
theorem fits_iff_digit (hmask : f.mask = 0xF00F) : f.fits word = true ↔
    word.kind = Opcode.kind f.pattern ∧ word.digits 4 1 = Opcode.digits f.pattern 4 1 := by
  have hsplit : (0xF00F : UInt16) = 0xF000 ||| 0x000F := rfl
  have hparts := toNat_and_kind_or hsplit (k := 4) rfl (by decide)
  rw [fits_iff_and hpattern, hmask, ← UInt16.toNat_inj, hparts, hparts,
    Opcode.digits_n, Opcode.digits_n]
  omega

/-- Under the mask `F0FF` the kind and the last two digits count. -/
theorem fits_iff_byte (hmask : f.mask = 0xF0FF) : f.fits word = true ↔
    word.kind = Opcode.kind f.pattern ∧ word.digits 3 2 = Opcode.digits f.pattern 3 2 := by
  have hsplit : (0xF0FF : UInt16) = 0xF000 ||| 0x00FF := rfl
  have hparts := toNat_and_kind_or hsplit (k := 8) rfl (by decide)
  rw [fits_iff_and hpattern, hmask, ← UInt16.toNat_inj, hparts, hparts,
    Opcode.digits_nn, Opcode.digits_nn]
  omega

end Pattern

/-- Under a full mask the whole word counts. -/
theorem fits_iff_word (hmask : f.mask = 0xFFFF) : f.fits word = true ↔ word = f.pattern := by
  have hall : (0xFFFF : UInt16) = -1 := rfl
  rw [fits_iff, hmask, hall, UInt16.and_neg_one]

end OpcodeForm

end Chip8
