import Chip8.Proofs.Decoding

/-!
# What an opcode keeps of its instruction

An instruction may hold more than its word has room for: an address of sixteen
bits, a height of eight.  Encoding drops what does not fit the digits, and nothing
else, so decoding the word gives the instruction with its fields cut to size
(`Instruction.trimmed`).  Only a call of the hardware routine `0E0` or `0EE` is
lost, since its word is that of another instruction (`Instruction.reread`).

* `Opcode.kind_ofNNN` and its neighbours — the digits of a word are the parts that
  it was put together from;
* `Instruction.decodes_encode` — what the word of an instruction stands for.
-/

namespace Chip8

namespace Opcode

variable {k : Nat} (hk : k < 16)

include hk

section Address

variable (a : Address)

theorem toNat_ofNNN : (ofNNN k a).toNat = k * 4096 + a.toNat % 4096 := by
  simp only [ofNNN, UInt16.toNat_ofNat']
  omega

/-- The kind is read back. -/
theorem kind_ofNNN : (ofNNN k a).kind = k := by
  rw [kind_eq, toNat_ofNNN hk]
  omega

/-- Of an address the low twelve bits are read back. -/
theorem nnn_ofNNN : (ofNNN k a).nnn = a &&& 0x0FFF := by
  have hmask : (0x0FFF : UInt16).toNat = 2 ^ 12 - 1 := rfl
  apply UInt16.toNat_inj.1
  rw [toNat_nnn, toNat_ofNNN hk, UInt16.toNat_and, hmask, Nat.and_two_pow_sub_one_eq_mod]
  omega

end Address

section Byte

variable (x : Reg) (byte : UInt8)

theorem toNat_ofXNN : (ofXNN k x byte).toNat = k * 4096 + x.val * 256 + byte.toNat := by
  have hbyte := byte.toNat_lt
  simp only [ofXNN, UInt16.toNat_ofNat']
  omega

theorem kind_ofXNN : (ofXNN k x byte).kind = k := by
  have hbyte := byte.toNat_lt
  rw [kind_eq, toNat_ofXNN hk]
  omega

/-- The register is read back. -/
theorem x_ofXNN : (ofXNN k x byte).x = x := by
  have hbyte := byte.toNat_lt
  apply Fin.ext
  rw [val_x, toNat_ofXNN hk]
  omega

theorem digits_ofXNN : (ofXNN k x byte).digits 3 2 = byte.toNat := by
  have hbyte := byte.toNat_lt
  rw [digits_nn, toNat_ofXNN hk]
  omega

/-- The byte is read back. -/
theorem nn_ofXNN : (ofXNN k x byte).nn = byte := by
  apply UInt8.toNat_inj.1
  rw [toNat_nn, digits_ofXNN hk]

end Byte

section Nibble

variable (x y : Reg) (n : UInt8)

theorem toNat_ofXYN :
    (ofXYN k x y n).toNat = k * 4096 + x.val * 256 + y.val * 16 + n.toNat % 16 := by
  simp only [ofXYN, UInt16.toNat_ofNat']
  omega

theorem kind_ofXYN : (ofXYN k x y n).kind = k := by
  rw [kind_eq, toNat_ofXYN hk]
  omega

/-- The first register is read back. -/
theorem x_ofXYN : (ofXYN k x y n).x = x := by
  apply Fin.ext
  rw [val_x, toNat_ofXYN hk]
  omega

/-- The second register is read back. -/
theorem y_ofXYN : (ofXYN k x y n).y = y := by
  apply Fin.ext
  rw [val_y, toNat_ofXYN hk]
  omega

theorem digits_ofXYN : (ofXYN k x y n).digits 4 1 = n.toNat % 16 := by
  rw [digits_n, toNat_ofXYN hk]
  omega

/-- Of the number the low four bits are read back. -/
theorem n_ofXYN : (ofXYN k x y n).n = n &&& 0x0F := by
  have hmask : (0x0F : UInt8).toNat = 2 ^ 4 - 1 := rfl
  apply UInt8.toNat_inj.1
  rw [toNat_n, digits_ofXYN hk, UInt8.toNat_and, hmask, Nat.and_two_pow_sub_one_eq_mod]

end Nibble

end Opcode

namespace Instruction

/-- The instruction with its fields cut to the digits of a word: addresses to their
low twelve bits and heights to their low four. -/
def trimmed : Instruction → Instruction
  | .sys a => .sys (a &&& 0x0FFF)
  | .jump a => .jump (a &&& 0x0FFF)
  | .call a => .call (a &&& 0x0FFF)
  | .setIndex a => .setIndex (a &&& 0x0FFF)
  | .jumpOffset a => .jumpOffset (a &&& 0x0FFF)
  | .draw x y height => .draw x y (height &&& 0x0F)
  | i => i

/-- What an instruction is taken for when its word is decoded: the trimmed
instruction, but for the two hardware routines whose words stand for something
else. -/
def reread (i : Instruction) : Instruction :=
  if i.trimmed = .sys 0x0E0 then .clear
  else if i.trimmed = .sys 0x0EE then .ret
  else i.trimmed

section Families

/-! The words that are put together in one way, whatever they stand for. -/

variable {k : Nat} (hk : k < 16)

include hk

/-- An instruction with an address is read back up to the bits that its word has room
for. -/
theorem decodes_ofNNN {make : Address → Instruction}
    (hmake : ∀ {word : Opcode}, word.kind = k → Decodes word (make word.nnn)) (a : Address) :
    Decodes (.ofNNN k a) (make (a &&& 0x0FFF)) := by
  have h := hmake (Opcode.kind_ofNNN hk a)
  rwa [Opcode.nnn_ofNNN hk] at h

/-- An instruction with a register and a byte is read back. -/
theorem decodes_ofXNN {make : Reg → UInt8 → Instruction}
    (hmake : ∀ {word : Opcode}, word.kind = k → Decodes word (make word.x word.nn))
    (x : Reg) (byte : UInt8) : Decodes (.ofXNN k x byte) (make x byte) := by
  have h := hmake (Opcode.kind_ofXNN hk x byte)
  rwa [Opcode.x_ofXNN hk, Opcode.nn_ofXNN hk] at h

/-- An instruction with one register is read back. -/
theorem decodes_ofX {make : Reg → Instruction} {byte : UInt8}
    (hmake : ∀ {word : Opcode}, word.kind = k → word.digits 3 2 = byte.toNat →
      Decodes word (make word.x))
    (x : Reg) : Decodes (.ofXNN k x byte) (make x) := by
  have h := hmake (Opcode.kind_ofXNN hk x byte) (Opcode.digits_ofXNN hk x byte)
  rwa [Opcode.x_ofXNN hk] at h

/-- An instruction with two registers is read back. -/
theorem decodes_ofXY {make : Reg → Reg → Instruction} {n : UInt8}
    (hmake : ∀ {word : Opcode}, word.kind = k → word.digits 4 1 = n.toNat % 16 →
      Decodes word (make word.x word.y))
    (x y : Reg) : Decodes (.ofXYN k x y n) (make x y) := by
  have h := hmake (Opcode.kind_ofXYN hk x y n) (Opcode.digits_ofXYN hk x y n)
  rwa [Opcode.x_ofXYN hk, Opcode.y_ofXYN hk] at h

end Families

/-- A draw is read back up to the low four bits of its height. -/
theorem decodes_draw (x y : Reg) (height : UInt8) :
    Decodes (.ofXYN 0xD x y height) (.draw x y (height &&& 0x0F)) := by
  have hkind : 0xD < 16 := by decide
  have h := Decodes.draw (Opcode.kind_ofXYN hkind x y height)
  rwa [Opcode.x_ofXYN hkind, Opcode.y_ofXYN hkind, Opcode.n_ofXYN hkind] at h

theorem ofNNN_zero (a : Address) : Opcode.ofNNN 0x0 a = a &&& 0x0FFF := by
  have hkind : 0x0 < 16 := by decide
  rw [← Opcode.nnn_ofNNN hkind]
  apply UInt16.toNat_inj.1
  rw [Opcode.toNat_nnn, Opcode.toNat_ofNNN hkind]
  omega

/-- The words of the kind 0 are the only ones that two instructions share. -/
theorem decodes_sys (a : Address) : Decodes (.ofNNN 0x0 a) (reread (.sys a)) := by
  simp only [reread, trimmed, sys.injEq]
  by_cases hclear : a &&& 0x0FFF = 0x0E0
  · rw [if_pos hclear]
    exact .clear ((ofNNN_zero a).trans hclear)
  · rw [if_neg hclear]
    by_cases hret : a &&& 0x0FFF = 0x0EE
    · rw [if_pos hret]
      exact .ret ((ofNNN_zero a).trans hret)
    · rw [if_neg hret]
      have hwords : Opcode.ofNNN 0x0 a ≠ 0x00E0 ∧ Opcode.ofNNN 0x0 a ≠ 0x00EE := by
        rw [ofNNN_zero]
        exact ⟨hclear, hret⟩
      have h := Decodes.sys (Opcode.kind_ofNNN (by decide) a) hwords.1 hwords.2
      rwa [Opcode.nnn_ofNNN (by decide)] at h

/-- **Decoding an opcode.**  The word of an instruction stands for the instruction
that it is reread as. -/
theorem decodes_encode (i : Instruction) : Decodes i.encode i.reread := by
  cases i with
  | sys a => exact decodes_sys a
  | clear => exact .clear rfl
  | ret => exact .ret rfl
  | jump a => exact decodes_ofNNN (by decide) .jump a
  | call a => exact decodes_ofNNN (by decide) .call a
  | skipIfByte x byte => exact decodes_ofXNN (by decide) .skipIfByte x byte
  | skipUnlessByte x byte => exact decodes_ofXNN (by decide) .skipUnlessByte x byte
  | skipIfSame x y => exact decodes_ofXY (by decide) .skipIfSame x y
  | setByte x byte => exact decodes_ofXNN (by decide) .setByte x byte
  | addByte x byte => exact decodes_ofXNN (by decide) .addByte x byte
  | copy x y => exact decodes_ofXY (by decide) .copy x y
  | or x y => exact decodes_ofXY (by decide) .or x y
  | and x y => exact decodes_ofXY (by decide) .and x y
  | xor x y => exact decodes_ofXY (by decide) .xor x y
  | add x y => exact decodes_ofXY (by decide) .add x y
  | sub x y => exact decodes_ofXY (by decide) .sub x y
  | shiftRight x y => exact decodes_ofXY (by decide) .shiftRight x y
  | subFrom x y => exact decodes_ofXY (by decide) .subFrom x y
  | shiftLeft x y => exact decodes_ofXY (by decide) .shiftLeft x y
  | skipUnlessSame x y => exact decodes_ofXY (by decide) .skipUnlessSame x y
  | setIndex a => exact decodes_ofNNN (by decide) .setIndex a
  | jumpOffset a => exact decodes_ofNNN (by decide) .jumpOffset a
  | random x byte => exact decodes_ofXNN (by decide) .random x byte
  | draw x y height => exact decodes_draw x y height
  | skipIfHeld x => exact decodes_ofX (by decide) .skipIfHeld x
  | skipUnlessHeld x => exact decodes_ofX (by decide) .skipUnlessHeld x
  | readDelay x => exact decodes_ofX (by decide) .readDelay x
  | awaitKey x => exact decodes_ofX (by decide) .awaitKey x
  | setDelay x => exact decodes_ofX (by decide) .setDelay x
  | setSound x => exact decodes_ofX (by decide) .setSound x
  | addIndex x => exact decodes_ofX (by decide) .addIndex x
  | pointGlyph x => exact decodes_ofX (by decide) .pointGlyph x
  | storeDecimal x => exact decodes_ofX (by decide) .storeDecimal x
  | store x => exact decodes_ofX (by decide) .store x
  | load x => exact decodes_ofX (by decide) .load x

end Instruction

end Chip8
