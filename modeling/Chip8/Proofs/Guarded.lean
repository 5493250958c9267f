import Mathlib.Algebra.Group.Nat.Defs
import Chip8.Machine.Execute
import Chip8.Proofs.Transfer

/-!
# Guarded accesses and arithmetic

Beside the failures that an operation reports there are those that it must never come
to: an index that is not in its array, a range that is none, a sum, a difference or a
product that does not fit its word, a shift by as many places as the word has.  Here
every such act is guarded and gives `none` where it would go wrong.  The operations on
the parts of a machine are written with guarded acts alone, in the order of the
machine's own, and each turns out to give `some`, and in it what the plain operation
gives.

* `Guarded.add` and its neighbours — the guarded acts;
* `Guarded.load_eq`, `Guarded.word_eq`, `Guarded.slice_eq`, `Guarded.write_eq` — memory;
* `Guarded.storeFrom_eq`, `Guarded.fillFrom_eq` — transfers of several bytes;
* `Guarded.push_eq`, `Guarded.pop_eq` — the call stack, and the other parts after it.
-/

namespace Chip8.Guarded

/-- The bits of the words in which bytes and cells are counted.  What fits these fits
wider ones. -/
def wordBits : Nat := 32

section Acts

variable {α : Type} {n : Nat}

def add (bits a b : Nat) : Option Nat :=
  if a + b < 2 ^ bits then some (a + b) else none

def mul (bits a b : Nat) : Option Nat :=
  if a * b < 2 ^ bits then some (a * b) else none

def sub (a b : Nat) : Option Nat :=
  if b ≤ a then some (a - b) else none

/-- Shift a word of some bits up by `k` places; the bits above are lost. -/
def shiftLeft (bits a k : Nat) : Option Nat :=
  if k < bits then some (a <<< k % 2 ^ bits) else none

/-- Shift a word of some bits down by `k` places. -/
def shiftRight (bits a k : Nat) : Option Nat :=
  if k < bits then some (a >>> k) else none

def get (v : Vector α n) (i : Nat) : Option α :=
  v[i]?

def set (v : Vector α n) (i : Nat) (a : α) : Option (Vector α n) :=
  if h : i < n then some (v.set i a) else none

/-- The elements from `start` on, up to `stop`. -/
def range (v : Vector α n) (start stop : Nat) : Option (List α) :=
  if start ≤ stop ∧ stop ≤ n then some (v.toArray.extract start stop).toList else none

/-- Copy an array to the places from `start` on, up to `stop`.  It has to have as many
elements as there are places. -/
def copyTo (v : Vector α n) (start stop : Nat) (source : Array α) : Option (Vector α n) :=
  if start ≤ stop ∧ stop ≤ n ∧ source.size = stop - start then
    some (v.mapIdx fun i old => if start ≤ i then source.getD (i - start) old else old)
  else none

/-- A sum in range is the plain sum. -/
theorem add_eq {bits a b : Nat} (h : a + b < 2 ^ bits) : add bits a b = some (a + b) :=
  if_pos h

theorem mul_eq {bits a b : Nat} (h : a * b < 2 ^ bits) : mul bits a b = some (a * b) :=
  if_pos h

theorem sub_eq {a b : Nat} (h : b ≤ a) : sub a b = some (a - b) :=
  if_pos h

/-- A shift by less than the width goes through. -/
theorem shiftLeft_eq {bits a k : Nat} (h : k < bits) :
    shiftLeft bits a k = some (a <<< k % 2 ^ bits) :=
  if_pos h

theorem shiftRight_eq {bits a k : Nat} (h : k < bits) : shiftRight bits a k = some (a >>> k) :=
  if_pos h

/-- An index in range is found. -/
theorem get_eq {v : Vector α n} {i : Nat} (h : i < n) : get v i = some v[i] :=
  Vector.getElem?_eq_getElem h

/-- An index out of range is where a read goes wrong. -/
theorem get_eq_none {v : Vector α n} {i : Nat} (h : n ≤ i) : get v i = none :=
  Vector.getElem?_eq_none h

theorem set_eq {v : Vector α n} {i : Nat} {a : α} (h : i < n) : set v i a = some (v.set i a) :=
  dif_pos h

/-- A range inside of a vector can be cut out. -/
theorem range_eq {v : Vector α n} {start stop : Nat} (hle : start ≤ stop) (hstop : stop ≤ n) :
    range v start stop = some (v.toArray.extract start stop).toList :=
  if_pos ⟨hle, hstop⟩

/-- Behind an address there is room for as many bytes as are transferred at once. -/
theorem room_behind (a : Address) {n : Nat} (hn : n ≤ 256) : a.toNat + n < 2 ^ wordBits := by
  have ha := a.toNat_lt
  have hword : 2 ^ wordBits = 4294967296 := rfl
  omega

/-- The acts do go wrong: a byte has no room for this sum, and a range cannot run
backwards. -/
example : add 8 200 56 = none ∧ range (Vector.replicate 4 0) 3 2 = none := by decide

end Acts

section Bytes

/-- A fresh memory with the font. -/
def blank : Option Memory :=
  (copyTo Memory.zero.bytes 0 Memory.fontEnd Font.bytes.toArray).map Memory.mk

def load (program : Array UInt8) : Option (Except MachineError Memory) :=
  if Memory.programCapacity < program.size then
    some (.error (.programTooLarge program.size Memory.programCapacity))
  else do
    let memory ← blank
    let stop ← add wordBits Memory.programStart.toNat program.size
    let bytes ← copyTo memory.bytes Memory.programStart.toNat stop program
    some (.ok ⟨bytes⟩)

/-- A read asks whether there is such a byte. -/
def read (m : Memory) (a : Nat) : Option (Except MachineError UInt8) :=
  match get m.bytes a with
  | some b => some (.ok b)
  | none => some (.error (.outOfBounds a))

/-- So does a write, and then writes unasked. -/
def write (m : Memory) (a : Nat) (b : UInt8) : Option (Except MachineError Memory) :=
  if a < Memory.fontEnd then some (.error (.reservedWrite a))
  else
    match get m.bytes a with
    | some _ => do
        let bytes ← set m.bytes a b
        some (.ok ⟨bytes⟩)
    | none => some (.error (.outOfBounds a))

def slice (m : Memory) (a length : Nat) : Option (Except MachineError (List UInt8)) :=
  if length = 0 then some (.ok [])
  else do
    let stop ← add wordBits a length
    if Memory.size < stop then some (.error (.outOfBounds (max a Memory.size)))
    else do
      let bytes ← range m.bytes a stop
      some (.ok bytes)

def word (m : Memory) (pc : Address) : Option (Except MachineError Opcode) := do
  let next ← add wordBits pc.toNat 1
  if Memory.size ≤ next then
    some (.error (.outOfBounds (if Memory.size ≤ pc.toNat then pc.toNat else next)))
  else do
    let high ← get m.bytes pc.toNat
    let low ← get m.bytes next
    let shifted ← shiftLeft 16 high.toNat 8
    some (.ok (shifted.toUInt16 ||| low.toUInt16))

theorem blank_eq_copy : blank = some (Memory.zero.copy 0 Font.bytes.toArray) :=
  rfl

/-- Memory with the font can be set up. -/
theorem blank_eq : blank = some Memory.blank := by
  have hnothing : ∀ m : Memory, m.copy Memory.programStart.toNat #[] = m := by
    rintro ⟨bytes⟩
    refine congrArg Memory.mk (Vector.ext fun i hi => ?_)
    simp
  rw [blank_eq_copy, Memory.blank, Memory.fresh, hnothing]

/-- Putting a program into memory cannot go wrong. -/
theorem load_eq (program : Array UInt8) : load program = some (Memory.load program) := by
  unfold load Memory.load
  by_cases hlarge : Memory.programCapacity < program.size
  · rw [if_pos hlarge, if_pos hlarge]
  · have hsize : program.size ≤ 3584 := Nat.not_lt.1 hlarge
    have hstop : add wordBits Memory.programStart.toNat program.size = some (512 + program.size) :=
      add_eq (Nat.lt_of_le_of_lt (Nat.add_le_add_left hsize 512) (by decide))
    have hplaces : 512 ≤ 512 + program.size ∧ 512 + program.size ≤ 4096 ∧
        program.size = 512 + program.size - 512 := by omega
    have hcopy : ∀ memory : Memory, copyTo memory.bytes Memory.programStart.toNat
        (512 + program.size) program =
          some (memory.copy Memory.programStart.toNat program).bytes :=
      fun memory => if_pos hplaces
    rw [if_neg hlarge, if_neg hlarge]
    simp only [blank_eq_copy, hstop, hcopy, Option.bind_eq_bind, Option.bind_some]
    rfl

/-- Reading a byte cannot go wrong, wherever it is read. -/
theorem read_eq (m : Memory) (a : Nat) : read m a = some (m.read a) := by
  unfold read Memory.read
  by_cases h : a < 4096
  · rw [get_eq h, dif_pos h]
  · rw [get_eq_none (Nat.not_lt.1 h), dif_neg h]

/-- Writing a byte cannot go wrong, wherever it is written. -/
theorem write_eq (m : Memory) (a : Nat) (b : UInt8) : write m a b = some (m.write a b) := by
  unfold write Memory.write
  by_cases hfont : a < Memory.fontEnd
  · rw [if_pos hfont, if_pos hfont]
  · rw [if_neg hfont, if_neg hfont]
    by_cases h : a < 4096
    · simp [get_eq h, dif_pos h, set_eq h]
    · simp [get_eq_none (Nat.not_lt.1 h), dif_neg h]

/-- Reading some bytes goes wrong only if their end does not fit into a machine word. -/
theorem slice_eq (m : Memory) {a length : Nat} (h : a + length < 2 ^ wordBits) :
    slice m a length = some (m.slice a length) := by
  unfold slice Memory.slice
  by_cases hnone : length = 0
  · rw [if_pos hnone, if_pos hnone]
  · rw [if_neg hnone, if_neg hnone, add_eq h]
    by_cases hover : Memory.size < a + length
    · simp [hover]
    · have hstop : a + length ≤ 4096 := Nat.not_lt.1 hover
      simp [hover, range_eq (Nat.le_add_right a length) hstop]

/-- A byte moved up as a number is the byte moved up as a word. -/
theorem toUInt16_shiftLeft (b : UInt8) :
    (b.toNat <<< 8 % 2 ^ 16).toUInt16 = b.toUInt16 <<< 8 := by
  apply UInt16.toNat_inj.1
  simp

/-- Reading a word cannot go wrong, whatever the program counter is. -/
theorem word_eq (m : Memory) (pc : Address) : word m pc = some (m.word pc) := by
  have hnext : add wordBits pc.toNat 1 = some (pc.toNat + 1) :=
    add_eq (room_behind pc (by decide))
  unfold word Memory.word
  by_cases h : pc.toNat + 1 < 4096
  · have hfits : ¬ Memory.size ≤ pc.toNat + 1 := Nat.not_le.2 h
    have hhigh : pc.toNat < 4096 := Nat.lt_of_succ_lt h
    have hshift : shiftLeft 16 (m.bytes[pc.toNat]).toNat 8 =
        some ((m.bytes[pc.toNat]).toNat <<< 8 % 2 ^ 16) := shiftLeft_eq (by decide)
    simp only [hnext, Option.bind_eq_bind, Option.bind_some, if_neg hfits, get_eq hhigh, get_eq h,
      hshift, toUInt16_shiftLeft, dif_pos h]
  · have hover : Memory.size ≤ pc.toNat + 1 := Nat.not_lt.1 h
    have haddress : (if Memory.size ≤ pc.toNat then pc.toNat else pc.toNat + 1) =
        max pc.toNat Memory.size := by
      split <;> omega
    simp only [hnext, Option.bind_eq_bind, Option.bind_some, if_pos hover, haddress, dif_neg h]

end Bytes

section Registers

def register (r : Registers) (x : Reg) : Option UInt8 :=
  get r.bytes x.val

def setRegister (r : Registers) (x : Reg) (b : UInt8) : Option Registers := do
  let bytes ← set r.bytes x.val b
  some ⟨bytes⟩

@[simp] theorem register_eq (r : Registers) (x : Reg) : register r x = some (r.get x) :=
  get_eq x.isLt

@[simp] theorem setRegister_eq (r : Registers) (x : Reg) (b : UInt8) :
    setRegister r x b = some (r.set x b) := by
  simp only [setRegister, set_eq x.isLt]
  rfl

/-- The registers V0 to `x` by their numbers, which are the offsets of their bytes. -/
theorem upTo_eq (x : Reg) :
    x.upTo = (List.range' 0 (x.val + 1)).map fun i => Reg.ofByte i.toUInt8 := by
  revert x
  decide

end Registers

section Transfers

/-- Store bytes at the given offsets from `base`, each when its turn comes, up to the
first that is refused. -/
def storeFrom (base : Nat) (byte : Nat → Option UInt8) :
    List Nat → Memory → Option (Memory × Option MachineError)
  | [], m => some (m, none)
  | i :: is, m => do
      let a ← add wordBits base i
      let b ← byte i
      match ← write m a b with
      | .ok m' => storeFrom base byte is m'
      | .error e => some (m, some e)

/-- Load registers from the given offsets from `base`, up to the first byte that is not
in memory. -/
def fillFrom (m : Memory) (base : Nat) :
    List Nat → Registers → Option (Registers × Option MachineError)
  | [], r => some (r, none)
  | i :: is, r => do
      let a ← add wordBits base i
      match ← read m a with
      | .ok b => do
          let r' ← setRegister r (Reg.ofByte i.toUInt8) b
          fillFrom m base is r'
      | .error e => some (r, some e)

/-- Bytes are stored one after the other as they are all at once. -/
theorem storeFrom_eq {base i n : Nat} {byte : Nat → Option UInt8} {b : Nat → UInt8}
    (hroom : base + (i + n) ≤ 2 ^ wordBits) (hbyte : ∀ j < i + n, byte j = some (b j))
    (m : Memory) :
    storeFrom base byte (List.range' i n) m =
      some (m.writeAll (base + i) ((List.range' i n).map b)) := by
  induction n generalizing i m with
  | zero => rfl
  | succ n ih =>
      have hadd : add wordBits base i = some (base + i) := add_eq (by omega)
      have hfirst : byte i = some (b i) := hbyte i (by omega)
      rw [List.range'_succ, List.map_cons, storeFrom, Memory.writeAll]
      simp only [hadd, hfirst, write_eq, Option.bind_eq_bind, Option.bind_some]
      cases m.write (base + i) (b i) with
      | error e => rfl
      | ok m' => exact ih (by omega) (fun j hj => hbyte j (by omega)) m'

/-- Registers are filled one after the other as they are all at once. -/
theorem fillFrom_eq {base i n : Nat} (hroom : base + (i + n) ≤ 2 ^ wordBits) (m : Memory)
    (r : Registers) :
    fillFrom m base (List.range' i n) r =
      some (Machine.fillRegisters m (base + i)
        ((List.range' i n).map fun j => Reg.ofByte j.toUInt8) r) := by
  induction n generalizing i r with
  | zero => rfl
  | succ n ih =>
      have hadd : add wordBits base i = some (base + i) := add_eq (by omega)
      rw [List.range'_succ, List.map_cons, fillFrom, Machine.fillRegisters]
      simp only [hadd, read_eq, setRegister_eq, Option.bind_eq_bind, Option.bind_some]
      cases m.read (base + i) with
      | error e => rfl
      | ok b => exact ih (by omega) _

end Transfers

section Stack

/-- The slot of the latest return address, if there is one. -/
def top (s : CallStack) : Option Nat :=
  if s.depth = 0 then none else some (s.depth - 1)

/-- Write a return address to a slot, which becomes the latest. -/
def place (s : CallStack) (slot : Nat) (a : Address) : Option CallStack :=
  if h : slot < 16 then some { slots := s.slots.set slot a, depth := slot + 1 } else none

def push (s : CallStack) (a : Address) : Option (Except MachineError CallStack) :=
  match top s with
  | none => do
      let s' ← place s 0 a
      some (.ok s')
  | some latest => do
      let next ← add wordBits latest 1
      if next < 16 then do
        let s' ← place s next a
        some (.ok s')
      else some (.error .stackOverflow)

def pop (s : CallStack) : Option (Except MachineError (Address × CallStack)) :=
  match top s with
  | none => some (.error .stackUnderflow)
  | some latest => do
      let a ← get s.slots latest
      some (.ok (a, { s with
        depth := s.depth - 1, depth_le := Nat.le_trans (Nat.sub_le _ _) s.depth_le }))

/-- A push cannot go wrong, on a full stack either: the latest slot is below 16, so the next
can be counted. -/
theorem push_eq (s : CallStack) (a : Address) : push s a = some (s.push a) := by
  obtain ⟨slots, depth, hdepth⟩ := s
  cases depth with
  | zero => rfl
  | succ latest =>
      have hnext : add wordBits latest 1 = some (latest + 1) :=
        add_eq (Nat.lt_of_le_of_lt hdepth (by decide))
      by_cases h : latest + 1 < 16
      · simp [push, top, place, CallStack.push, hnext, h]
      · simp [push, top, CallStack.push, hnext, h]

/-- A return address can be taken from any stack. -/
theorem pop_eq (s : CallStack) : pop s = some s.pop := by
  obtain ⟨slots, depth, hdepth⟩ := s
  cases depth with
  | zero => rfl
  | succ latest =>
      have hslot : get slots latest = some slots[latest] := get_eq hdepth
      simp [pop, top, CallStack.pop, hslot]

end Stack

section Keys

def setKey (k : Keypad) (code : UInt8) (held : Bool) : Option (Except MachineError Keypad) :=
  match get k.keys code.toNat with
  | some _ => do
      let keys ← set k.keys code.toNat held
      some (.ok ⟨keys⟩)
  | none => some (.error (.notAKey code))

def isHeld (k : Keypad) (code : UInt8) : Option Bool :=
  some ((get k.keys code.toNat).getD false)

/-- Any code can be reported. -/
theorem setKey_eq (k : Keypad) (code : UInt8) (held : Bool) :
    setKey k code held = some (k.setKey code held) := by
  unfold setKey Keypad.setKey
  by_cases h : code.toNat < 16
  · simp [get_eq h, set_eq h, h]
  · simp [get_eq_none (Nat.not_lt.1 h), h]

/-- Any code can be asked for. -/
@[simp] theorem isHeld_eq (k : Keypad) (code : UInt8) : isHeld k code = some (k.isHeld code) := by
  unfold isHeld Keypad.isHeld
  by_cases h : code.toNat < 16
  · rw [get_eq h, dif_pos h]
    rfl
  · rw [get_eq_none (Nat.not_lt.1 h), dif_neg h]
    rfl

end Keys

section Clocks

def tick (t : Timer) : Option Timer :=
  if t.count = 0 then some t
  else do
    let count ← sub t.count.toNat 1
    some ⟨count.toUInt8⟩

/-- A timer never counts below zero. -/
theorem tick_eq (t : Timer) : tick t = some t.tick := by
  obtain ⟨count⟩ := t
  unfold tick Timer.tick Timer.running
  by_cases h : count = 0
  · simp [h]
  · have hpos : 1 ≤ count.toNat := by
      apply Nat.pos_of_ne_zero
      exact fun hzero => h (UInt8.toNat_inj.1 hzero)
    have hless : (count.toNat - 1).toUInt8 = count - 1 := by
      apply UInt8.toNat_inj.1
      have hlt := count.toNat_lt
      rw [UInt8.toNat_sub_of_le _ _ hpos]
      simp
      omega
    simp [h, sub_eq hpos, hless]

end Clocks

end Chip8.Guarded
