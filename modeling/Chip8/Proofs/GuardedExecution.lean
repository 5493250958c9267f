import Chip8.Instruction.Decode
import Chip8.Proofs.GuardedPaint
import Chip8.Proofs.OpcodeTable
import Chip8.Proofs.ReadPaths

/-!
# Guarded decoding and execution

The decoder cuts the digits out of a word under a mask that it builds and shifts, and
an instruction reads and writes registers, memory, the call stack and the picture.
Both are written here with guarded acts.

* `Guarded.digits_eq`, `Guarded.decode_eq` — the digits of a word;
* `Guarded.operands_eq` — the operands as a trace lists them;
* `Guarded.execute_eq` — every instruction, whatever its operands are.
-/

namespace Chip8.Guarded

section Decoding

/-- As many ones as some digits have, behind those of `mask`. -/
def ones : Nat → Nat → Option Nat
  | 0, mask => some mask
  | count + 1, mask => do
      let shifted ← shiftLeft 16 mask 4
      ones count (shifted ||| 0xF)

/-- The number that `count` digits of a word make, from the digit number `first` on. -/
def digits (word : Opcode) (first count : Nat) : Option Nat := do
  let before ← sub first 1
  let others ← sub 4 count
  let behind ← sub others before
  let places ← mul 8 behind 4
  let mask ← ones count 0
  let shifted ← shiftLeft 16 mask places
  shiftRight 16 (word.toNat &&& shifted) places

/-- All that the decoder may cut out of a word: the first of the digits and their number. -/
def cuts : List (Nat × Nat) :=
  [(1, 1), (2, 1), (3, 1), (4, 1), (3, 2), (2, 3)]

/-- Decode a word.  The decoder makes only those of the cuts that the kind of the word
asks for. -/
def decode (word : Opcode) : Option (Except MachineError Instruction) := do
  let _ ← cuts.mapM fun cut => digits word cut.1 cut.2
  some (Instruction.decode word)

/-- The operands of an instruction, cut out of its opcode. -/
def operands (i : Instruction) : Option (List UInt16) :=
  i.form.operands.mapM fun field => do
    let operand ← shiftRight 16 (i.encode &&& field.mask).toNat field.shift.toNat
    some operand.toUInt16

/-- A mask of up to four digits fits into a word. -/
theorem ones_eq {count : Nat} (h : count ≤ 4) : ones count 0 = some (2 ^ (4 * count) - 1) := by
  revert count
  decide

/-- Every run of digits of a word is cut out.  It has four places behind it for each of the
digits that follow. -/
theorem digits_eq (word : Opcode) {first count : Nat} (hfirst : 1 ≤ first) (hcount : 1 ≤ count)
    (hend : first + count ≤ 5) : digits word first count = some (word.digits first count) := by
  obtain ⟨behind, hbehind⟩ : ∃ behind, behind + first + count = 5 := ⟨5 - first - count, by omega⟩
  have hothers : 4 - count - (first - 1) = behind := by omega
  have hplaces : mul 8 behind 4 = some (4 * behind) := by
    rw [mul_eq (by omega), Nat.mul_comm]
  have hshift : 4 * behind < 16 := by omega
  have hmask : (2 ^ (4 * count) - 1) <<< (4 * behind) % 2 ^ 16 =
      (2 ^ (4 * count) - 1) * 2 ^ (4 * behind) := by
    have hpower : 2 ^ (4 * count) * 2 ^ (4 * behind) ≤ 2 ^ 16 := by
      rw [← Nat.pow_add]
      exact Nat.pow_le_pow_right (by decide) (by omega)
    have hless : (2 ^ (4 * count) - 1) * 2 ^ (4 * behind) < 2 ^ 16 := by
      refine Nat.lt_of_lt_of_le (Nat.mul_lt_mul_of_pos_right ?_ (Nat.two_pow_pos _)) hpower
      exact Nat.sub_lt (Nat.two_pow_pos _) (by decide)
    rw [Nat.shiftLeft_eq, Nat.mod_eq_of_lt hless]
  have hsixteen : ∀ k, Nat.pow 16 k = 2 ^ (4 * k) := fun k => (Nat.pow_mul 2 4 k).symm
  have hdigits : word.digits first count = word.toNat / 2 ^ (4 * behind) % 2 ^ (4 * count) := by
    have hless : 5 - first - count = behind := by omega
    rw [Opcode.digits, hless, hsixteen, hsixteen]
  simp only [digits, sub_eq hfirst, sub_eq (show count ≤ 4 by omega),
    sub_eq (show first - 1 ≤ 4 - count by omega), hothers, hplaces,
    ones_eq (show count ≤ 4 by omega), shiftLeft_eq hshift, shiftRight_eq hshift, hmask,
    Option.bind_eq_bind, Option.bind_some]
  rw [and_ones, Nat.shiftRight_eq_div_pow, Nat.mul_div_cancel _ (Nat.two_pow_pos _), hdigits]

/-- What goes through for every entry of a list goes through for the list. -/
theorem mapM_eq_some {α β : Type} {f : α → Option β} {g : α → β} {l : List α}
    (h : ∀ a ∈ l, f a = some (g a)) : l.mapM f = some (l.map g) := by
  induction l with
  | nil => rfl
  | cons a l ih =>
      rw [List.mapM_cons, h a List.mem_cons_self,
        ih fun b hb => h b (List.mem_cons_of_mem a hb)]
      rfl

/-- Any word can be taken apart. -/
theorem decode_eq (word : Opcode) : decode word = some (Instruction.decode word) := by
  have hcuts : ∀ cut ∈ cuts, 1 ≤ cut.1 ∧ 1 ≤ cut.2 ∧ cut.1 + cut.2 ≤ 5 := by decide
  have hall : cuts.mapM (fun cut => digits word cut.1 cut.2) =
      some (cuts.map fun cut => word.digits cut.1 cut.2) := by
    refine mapM_eq_some fun cut hcut => ?_
    obtain ⟨hfirst, hcount, hend⟩ := hcuts cut hcut
    exact digits_eq word hfirst hcount hend
  rw [decode, hall]
  rfl

/-- Any instruction can be shown. -/
theorem operands_eq (i : Instruction) : operands i = some i.operands := by
  refine mapM_eq_some fun field hfield => ?_
  obtain ⟨k, s, hrun⟩ := OpcodeForm.isRun_operands (OpcodeForm.form_mem i) field hfield
  have hshift : field.shift.toNat < 16 := hrun.shift ▸ hrun.shift_lt
  have hoperand : ((i.encode &&& field.mask).toNat >>> field.shift.toNat).toUInt16 =
      field.extract i.encode := by
    apply UInt16.toNat_inj.1
    rw [OperandField.extract, UInt16.toNat_shiftRight, Nat.mod_eq_of_lt hshift]
    refine Nat.mod_eq_of_lt (Nat.lt_of_le_of_lt (Nat.shiftRight_le _ _) ?_)
    exact (i.encode &&& field.mask).toNat_lt
  rw [shiftRight_eq hshift, ← hoperand]
  rfl

end Decoding

section Execution

/-- Write a result to a register. -/
def assign (m : Machine) (x : Reg) (b : UInt8) : Option (Machine × Option MachineError) := do
  let registers ← setRegister m.registers x b
  some { m with registers := registers }.done

/-- Write a flag to VF and then a result to a register. -/
def assignFlagged (m : Machine) (x : Reg) (flag : Bool) (b : UInt8) :
    Option (Machine × Option MachineError) := do
  let flagged ← setRegister m.registers .vf flag.toUInt8
  assign { m with registers := flagged } x b

def drawSprite (m : Machine) (x y : Reg) (height : UInt8) :
    Option (Machine × Option MachineError) := do
  let left ← register m.registers x
  let up ← register m.registers y
  let cleared ← setRegister m.registers .vf 0
  match ← slice m.memory m.index.toNat height.toNat with
  | .error e => some ({ m with registers := cleared }, some e)
  | .ok sprite => do
      let (raster, hit) ← paint m.raster left up sprite
      assign { m with registers := cleared, raster := raster } .vf hit.toUInt8

/-- Store bytes at the offsets below `n` from the index register. -/
def storeBytes (m : Machine) (n : Nat) (byte : Nat → Option UInt8) :
    Option (Machine × Option MachineError) := do
  let (memory, failure) ← storeFrom m.index.toNat byte (List.range' 0 n) m.memory
  some ({ m with memory := memory }, failure)

def loadRegisters (m : Machine) (n : Nat) : Option (Machine × Option MachineError) := do
  let (registers, failure) ← fillFrom m.memory m.index.toNat (List.range' 0 n) m.registers
  some ({ m with registers := registers }, failure)

def glyphAddress (digit : UInt8) : Option Address := do
  let offset ← mul wordBits Font.glyphHeight (digit.toNat % 16)
  let a ← add wordBits 0 offset
  some a.toUInt16

/-- Pass over the next instruction if a condition on a register holds. -/
def skipIf (m : Machine) (x : Reg) (condition : UInt8 → Option Bool) :
    Option (Machine × Option MachineError) := do
  let b ← register m.registers x
  let holds ← condition b
  some (m.skipIf holds).done

/-- Combine two registers into the first. -/
def combine (m : Machine) (x y : Reg) (f : UInt8 → UInt8 → UInt8) :
    Option (Machine × Option MachineError) := do
  let a ← register m.registers x
  let b ← register m.registers y
  assign m x (f a b)

/-- Combine two registers into the first, with a flag. -/
def combineFlagged (m : Machine) (x y : Reg) (flag : UInt8 → UInt8 → Bool)
    (f : UInt8 → UInt8 → UInt8) : Option (Machine × Option MachineError) := do
  let a ← register m.registers x
  let b ← register m.registers y
  assignFlagged m x (flag a b) (f a b)

def execute (m : Machine) : Instruction → Option (Machine × Option MachineError)
  | .sys _ => some m.done
  | .clear => some { m with raster := m.raster.clear }.done
  | .ret => do
      match ← pop m.stack with
      | .ok (a, stack) => some { m with stack := stack, pc := a }.done
      | .error e => some (m, some e)
  | .jump a => some { m with pc := a }.done
  | .call a => do
      match ← push m.stack m.pc with
      | .ok stack => some { m with stack := stack, pc := a }.done
      | .error e => some (m, some e)
  | .skipIfByte x b => skipIf m x fun a => some (a == b)
  | .skipUnlessByte x b => skipIf m x fun a => some (a != b)
  | .skipIfSame x y => skipIf m x fun a => do
      let b ← register m.registers y
      some (a == b)
  | .setByte x b => assign m x b
  | .addByte x b => do
      let a ← register m.registers x
      assign m x (a + b)
  | .copy x y => do
      let b ← register m.registers y
      assign m x b
  | .or x y => combine m x y (· ||| ·)
  | .and x y => combine m x y (· &&& ·)
  | .xor x y => combine m x y (· ^^^ ·)
  | .add x y => combineFlagged m x y (fun a b => 255 < a.toNat + b.toNat) (· + ·)
  | .sub x y => combineFlagged m x y (fun a b => b < a) (· - ·)
  | .shiftRight x _ => do
      let a ← register m.registers x
      let half ← shiftRight 8 a.toNat 1
      assignFlagged m x (a &&& 1 == 1) half.toUInt8
  | .subFrom x y => combineFlagged m x y (fun a b => a < b) fun a b => b - a
  | .shiftLeft x _ => do
      let a ← register m.registers x
      let high ← shiftRight 8 a.toNat 7
      let double ← shiftLeft 8 a.toNat 1
      assignFlagged m x (high &&& 1 == 1) double.toUInt8
  | .skipUnlessSame x y => skipIf m x fun a => do
      let b ← register m.registers y
      some (a != b)
  | .setIndex a => some { m with index := a }.done
  | .jumpOffset a => do
      let b ← register m.registers .v0
      some { m with pc := a.plus b }.done
  | .random x mask =>
      let (b, random) := m.random.next
      assign { m with random := random } x (mask &&& b)
  | .draw x y height => drawSprite m x y height
  | .skipIfHeld x => skipIf m x fun code => isHeld m.keypad code
  | .skipUnlessHeld x => skipIf m x fun code => do
      let held ← isHeld m.keypad code
      some !held
  | .readDelay x => assign m x m.timers.delay.count
  | .awaitKey x => some { m with state := .awaitingKey x }.done
  | .setDelay x => do
      let b ← register m.registers x
      some { m with timers := { m.timers with delay := ⟨b⟩ } }.done
  | .setSound x => do
      let b ← register m.registers x
      some { m with timers := { m.timers with sound := ⟨b⟩ } }.done
  | .addIndex x => do
      let b ← register m.registers x
      some { m with index := m.index.plus b }.done
  | .pointGlyph x => do
      let digit ← register m.registers x
      let a ← glyphAddress digit
      some { m with index := a }.done
  | .storeDecimal x => do
      let b ← register m.registers x
      storeBytes m 3 fun i => get #v[b / 100, b / 10 % 10, b % 10] i
  | .store x => storeBytes m (x.val + 1) fun i => register m.registers (Reg.ofByte i.toUInt8)
  | .load x => loadRegisters m (x.val + 1)

@[simp] theorem assign_eq (m : Machine) (x : Reg) (b : UInt8) :
    assign m x b = some (m.setReg x b).done := by
  rw [assign, setRegister_eq]
  rfl

@[simp] theorem assignFlagged_eq (m : Machine) (x : Reg) (flag : Bool) (b : UInt8) :
    assignFlagged m x flag b = some (m.setFlagged x flag b).done := by
  rw [assignFlagged, setRegister_eq]
  exact assign_eq _ x b

/-- Drawing cannot go wrong, whatever the index register and the corner are. -/
theorem drawSprite_eq (m : Machine) (x y : Reg) (height : UInt8) :
    drawSprite m x y height = some (m.drawSprite x y height) := by
  have hheight := height.toNat_lt
  have hslice : slice m.memory m.index.toNat height.toNat =
      some (m.memory.slice m.index.toNat height.toNat) :=
    slice_eq _ (room_behind m.index (Nat.le_of_lt hheight))
  unfold drawSprite Machine.drawSprite
  simp only [register_eq, setRegister_eq, hslice, Option.bind_eq_bind, Option.bind_some]
  cases hsprite : m.memory.slice m.index.toNat height.toNat with
  | error e => simp [Machine.setReg, hsprite]
  | ok sprite =>
      have hlength : sprite.length < 256 := by
        rw [(Memory.slice_eq_ok_iff.1 hsprite).1]
        exact hheight
      simp [Machine.setReg, Machine.reg, Machine.done, hsprite, paint_eq _ _ _ hlength]

/-- Storing up to sixteen bytes cannot go wrong, whatever the index register is. -/
theorem storeBytes_eq (m : Machine) {n : Nat} (hn : n ≤ 16) {byte : Nat → Option UInt8}
    {b : Nat → UInt8} (hbyte : ∀ i < n, byte i = some (b i)) :
    storeBytes m n byte = some (m.storeBytes ((List.range' 0 n).map b)) := by
  have hroom := room_behind m.index (Nat.le_trans hn (by decide))
  have hstore : storeFrom m.index.toNat byte (List.range' 0 n) m.memory =
      some (m.memory.writeAll m.index.toNat ((List.range' 0 n).map b)) :=
    storeFrom_eq (by omega) (fun i hi => hbyte i (by omega)) m.memory
  rw [storeBytes, hstore]
  rfl

/-- Loading up to sixteen registers cannot go wrong, whatever the index register is. -/
theorem loadRegisters_eq (m : Machine) {n : Nat} (hn : n ≤ 16) :
    loadRegisters m n =
      some (m.loadRegisters ((List.range' 0 n).map fun i => Reg.ofByte i.toUInt8)) := by
  have hroom := room_behind m.index (Nat.le_trans hn (by decide))
  have hfill : fillFrom m.memory m.index.toNat (List.range' 0 n) m.registers =
      some (Machine.fillRegisters m.memory m.index.toNat
        ((List.range' 0 n).map fun i => Reg.ofByte i.toUInt8) m.registers) :=
    fillFrom_eq (by omega) m.memory m.registers
  rw [loadRegisters, hfill]
  rfl

/-- The address of a glyph fits into a byte for any digit. -/
theorem glyphAddress_eq (digit : UInt8) : glyphAddress digit = some (Font.glyphAddress digit) := by
  have hlt : 5 * (digit.toNat % 16) < 80 := by omega
  have hword : 80 ≤ 2 ^ wordBits := by decide
  have hoffset : mul wordBits Font.glyphHeight (digit.toNat % 16) =
      some (5 * (digit.toNat % 16)) := mul_eq (Nat.lt_of_lt_of_le hlt hword)
  have haddress : add wordBits 0 (5 * (digit.toNat % 16)) = some (5 * (digit.toNat % 16)) := by
    rw [add_eq (by omega), Nat.zero_add]
  simp only [glyphAddress, hoffset, haddress, Option.bind_eq_bind, Option.bind_some]
  rfl

theorem half_eq (a : UInt8) : (a.toNat >>> 1).toUInt8 = a >>> 1 := by
  apply UInt8.toNat_inj.1
  have hlt := a.toNat_lt
  simp [Nat.shiftRight_eq_div_pow]
  omega

theorem double_eq (a : UInt8) : (a.toNat <<< 1 % 2 ^ 8).toUInt8 = a <<< 1 := by
  apply UInt8.toNat_inj.1
  simp

theorem highBit_eq (a : UInt8) : (a.toNat >>> 7 &&& 1 == 1) = (a >>> 7 &&& 1 == 1) := by
  rw [Bool.eq_iff_iff, beq_iff_eq, beq_iff_eq, ← UInt8.toNat_inj]
  simp

/-- No instruction goes wrong, on whatever machine it is executed. -/
theorem execute_eq (m : Machine) (i : Instruction) : execute m i = some (m.execute i) := by
  cases i with
  | ret =>
      simp only [execute, pop_eq, Option.bind_eq_bind, Option.bind_some, Machine.execute,
        Machine.leave]
      cases m.stack.pop <;> rfl
  | call a =>
      simp only [execute, push_eq, Option.bind_eq_bind, Option.bind_some, Machine.execute,
        Machine.enter]
      cases m.stack.push m.pc <;> rfl
  | draw x y height => exact drawSprite_eq m x y height
  | shiftRight x y =>
      have hshift : ∀ a : UInt8, shiftRight 8 a.toNat 1 = some (a.toNat >>> 1) :=
        fun a => shiftRight_eq (by decide)
      simp only [execute, register_eq, hshift, assignFlagged_eq, half_eq, Option.bind_eq_bind,
        Option.bind_some]
      rfl
  | shiftLeft x y =>
      have hhigh : ∀ a : UInt8, shiftRight 8 a.toNat 7 = some (a.toNat >>> 7) :=
        fun a => shiftRight_eq (by decide)
      have hdouble : ∀ a : UInt8, shiftLeft 8 a.toNat 1 = some (a.toNat <<< 1 % 2 ^ 8) :=
        fun a => shiftLeft_eq (by decide)
      simp only [execute, register_eq, hhigh, hdouble, assignFlagged_eq, double_eq, highBit_eq,
        Option.bind_eq_bind, Option.bind_some]
      rfl
  | pointGlyph x =>
      simp only [execute, register_eq, glyphAddress_eq, Option.bind_eq_bind, Option.bind_some]
      rfl
  | storeDecimal x =>
      have hdigits : ∀ b : UInt8, ∀ i < 3, get #v[b / 100, b / 10 % 10, b % 10] i =
          some ((get #v[b / 100, b / 10 % 10, b % 10] i).getD 0) := by
        intro b i hi
        rw [get_eq hi]
        rfl
      simp only [execute, register_eq, Option.bind_eq_bind, Option.bind_some]
      exact storeBytes_eq m (by decide) (hdigits (m.reg x))
  | store x =>
      rw [Machine.execute, upTo_eq, List.map_map]
      exact storeBytes_eq m x.isLt fun i _ => register_eq m.registers (Reg.ofByte i.toUInt8)
  | load x =>
      rw [Machine.execute, upTo_eq]
      exact loadRegisters_eq m x.isLt
  | _ =>
      simp only [execute, skipIf, combine, combineFlagged, register_eq, isHeld_eq, assign_eq,
        assignFlagged_eq, Option.bind_eq_bind, Option.bind_some]
      rfl

end Execution

end Chip8.Guarded
