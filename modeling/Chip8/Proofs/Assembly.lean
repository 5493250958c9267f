import Chip8.Proofs.Encoding
import Chip8.Proofs.TotalReset

/-!
# Assembled programs

A program can be written as a list of instructions: each is two bytes, the higher
one first, and the instructions follow one another.  Memory has room for 1792 of
them behind the start address, the last one in the last two bytes.  Once such a
program is loaded, every word of it is found at its place and decodes to its
instruction.

* `Instruction.assemble` — the bytes of a program;
* `Instruction.getElem?_assemble` — the two bytes of each instruction;
* `Memory.word_fresh_assemble` — the word of each instruction in memory;
* `Instruction.assembled_reads_back` — assembling, loading, fetching and decoding
  leads back to the instructions.
-/

namespace Chip8

namespace Opcode

/-- The byte that a word is stored with first. -/
def highByte (word : Opcode) : UInt8 :=
  (word >>> 8).toUInt8

/-- The byte that a word is stored with second. -/
def lowByte (word : Opcode) : UInt8 :=
  word.toUInt8

/-- A word is its high byte followed by its low byte. -/
theorem toNat_eq_bytes (word : Opcode) :
    word.toNat = 256 * word.highByte.toNat + word.lowByte.toNat := by
  have hlt := word.toNat_lt
  have hshift : (word >>> 8).toNat = word.toNat / 256 := by
    rw [UInt16.toNat_shiftRight, Nat.shiftRight_eq_div_pow]
    rfl
  rw [highByte, lowByte, UInt16.toNat_toUInt8, UInt16.toNat_toUInt8, hshift]
  omega

end Opcode

namespace Instruction

/-- The bytes of a program. -/
def assemble (program : List Instruction) : Array UInt8 :=
  (program.flatMap bytes).toArray

/-- Every instruction takes two bytes. -/
theorem size_assemble (program : List Instruction) :
    (assemble program).size = 2 * program.length := by
  induction program with
  | nil => rfl
  | cons i program ih =>
      have hcons : (assemble (i :: program)).size = (assemble program).size + 2 := by
        simp [assemble, bytes]
      rw [hcons, ih, List.length_cons]
      omega

/-- The instruction number `k` is stored in the bytes `2 * k` and `2 * k + 1`. -/
theorem getElem?_assemble (program : List Instruction) (k : Nat) :
    (assemble program)[2 * k]? = program[k]?.map (·.encode.highByte) ∧
    (assemble program)[2 * k + 1]? = program[k]?.map (·.encode.lowByte) := by
  simp only [assemble, List.getElem?_toArray]
  induction program generalizing k with
  | nil => exact ⟨rfl, rfl⟩
  | cons i program ih =>
      cases k with
      | zero => exact ⟨rfl, rfl⟩
      | succ k => exact ih k

variable {program : List Instruction}

/-- The two bytes of the instruction number `k` are those of its word, the high one
first. -/
theorem getElem_assemble {k : Nat} (hk : k < program.length)
    (hhigh : 2 * k < (assemble program).size) (hlow : 2 * k + 1 < (assemble program).size) :
    (assemble program)[2 * k] = program[k].encode.highByte ∧
    (assemble program)[2 * k + 1] = program[k].encode.lowByte := by
  obtain ⟨h, l⟩ := getElem?_assemble program k
  rw [List.getElem?_eq_getElem hk] at h l
  rw [Array.getElem?_eq_getElem hhigh] at h
  rw [Array.getElem?_eq_getElem hlow] at l
  exact ⟨Option.some.inj h, Option.some.inj l⟩

end Instruction

namespace Memory

open Instruction (assemble size_assemble getElem_assemble)

/-- Memory takes a program that is not too large. -/
theorem load_of_fits {program : Array UInt8} (hfits : program.size ≤ programCapacity) :
    load program = .ok (fresh program) := by
  rw [load, if_neg (Nat.not_lt.2 hfits)]

/-- An assembled program that fits has the word of each instruction at its place. -/
theorem word_fresh_assemble {program : List Instruction} (hfits : program.length ≤ 1792) {k : Nat}
    (hk : k < program.length) :
    (fresh (assemble program)).word (0x200 + 2 * k).toUInt16 = .ok program[k].encode := by
  have hsize := size_assemble program
  have hcapacity : (assemble program).size ≤ programCapacity := by
    rw [programCapacity_eq]
    omega
  have hhigh : 2 * k < (assemble program).size := by omega
  have hlow : 2 * k + 1 < (assemble program).size := by omega
  have haddress : (0x200 + 2 * k).toUInt16.toNat = 512 + 2 * k := by
    simp
    omega
  obtain ⟨hhighByte, hlowByte⟩ := getElem_assemble hk hhigh hlow
  have hcode := (holds_fresh hcapacity).code
  rw [word_eq_ok_iff, haddress]
  refine ⟨_, _, hcode _ hhigh, hcode _ hlow, ?_⟩
  rw [hhighByte, hlowByte]
  exact Opcode.toNat_eq_bytes _

end Memory

namespace Instruction

/-- **Assembling and reading back.**  A program of at most 1792 instructions, with
whatever fields, can be assembled and loaded, by memory alone and by a machine in
any state.  The word at the place of each instruction then decodes to the
instruction with its address cut to twelve bits or its height to four, except that
two calls of hardware routines are taken for the instructions that have their
words. -/
theorem assembled_reads_back (program : List Instruction) (hfits : program.length ≤ 1792) :
    ∃ memory, Memory.load (assemble program) = .ok memory ∧
      (∀ m : Machine, m.load (assemble program) = .ok (m.reset memory)) ∧
      ∀ k (hk : k < program.length), ∃ word,
        memory.word (0x200 + 2 * k).toUInt16 = .ok word ∧
        decode word = .ok program[k].reread := by
  have hcapacity : (assemble program).size ≤ Memory.programCapacity := by
    rw [size_assemble, Memory.programCapacity_eq]
    omega
  refine ⟨_, Memory.load_of_fits hcapacity, fun m => m.load_of_fits hcapacity, ?_⟩
  intro k hk
  exact ⟨_, Memory.word_fresh_assemble hfits hk, decode_eq_ok_iff.2 (decodes_encode _)⟩

/-- A program of `n` draws and the call of a hardware routine.  Its instructions have
fields that are too large. -/
def drawing (n : Nat) : List Instruction :=
  List.replicate n (.draw .v0 .vf 0x3F) ++ [.sys 0xF0E0]

theorem length_drawing (n : Nat) : (drawing n).length = n + 1 := by
  simp [drawing]

/-- A draw is read back as it was written. -/
theorem reread_drawing_draw {n k : Nat} (hk : k < n) (hlt : k < (drawing n).length) :
    (drawing n)[k].reread = .draw .v0 .vf 0x0F := by
  have hget : (drawing n)[k] = .draw .v0 .vf 0x3F := by simp [drawing, hk]
  rw [hget]
  rfl

/-- The call of a hardware routine behind the draws is read back as the instruction
`00E0`. -/
theorem reread_drawing_last {n : Nat} (hlt : n < (drawing n).length) :
    (drawing n)[n].reread = .clear := by
  have hget : (drawing n)[n] = .sys 0xF0E0 := by simp [drawing]
  rw [hget]
  rfl

/-- In a program that fills memory the draws come back with their height cut, and
the last word, at `0FFE`, as another instruction. -/
theorem drawing_reads_back :
    (drawing 1791).length ≤ 1792 ∧
    ∃ memory, Memory.load (assemble (drawing 1791)) = .ok memory ∧
      (∃ word, memory.word 0x0200 = .ok word ∧ decode word = .ok (.draw .v0 .vf 0x0F)) ∧
      ∃ word, memory.word 0x0FFE = .ok word ∧ decode word = .ok .clear := by
  have hlength := length_drawing 1791
  have hfits : (drawing 1791).length ≤ 1792 := Nat.le_of_eq hlength
  have hfirst : 0 < (drawing 1791).length := by omega
  have hlast : 1791 < (drawing 1791).length := by omega
  obtain ⟨memory, hload, -, hwords⟩ := assembled_reads_back (drawing 1791) hfits
  have hdraw := hwords 0 hfirst
  have hclear := hwords 1791 hlast
  rw [reread_drawing_draw (by decide)] at hdraw
  rw [reread_drawing_last] at hclear
  exact ⟨hfits, memory, hload, hdraw, hclear⟩

end Instruction

end Chip8
