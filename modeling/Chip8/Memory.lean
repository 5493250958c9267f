import Chip8.Error
import Chip8.Font
import Chip8.Opcode

/-!
# Memory

Four kilobytes.  The font fills the first eighty bytes and cannot be written;
a program starts at `0x200`.  Addresses are plain numbers here, so that an
access beyond the end can be named and refused.

* `read`, `slice`, `word` — one byte, a range, and an instruction word;
* `write`, `writeAll` — one byte, and several until one is refused;
* `copy`, `load` — several bytes unchecked, and a fresh memory with a program, if
  it fits.
-/

namespace Chip8

/-- The 4096 bytes of the machine. -/
structure Memory where
  bytes : Vector UInt8 4096
  deriving DecidableEq, Repr

namespace Memory

/-- The number of bytes. -/
def size : Nat := 4096

/-- Where programs start. -/
def programStart : Address := 0x200

/-- The largest program that fits. -/
def programCapacity : Nat := size - programStart.toNat

/-- The end of the bytes that cannot be written. -/
def fontEnd : Nat := 80

/-- All bytes zero. -/
def zero : Memory :=
  ⟨Vector.replicate 4096 0⟩

/-- Copy bytes into memory from `a` on.  What does not fit is left out. -/
def copy (m : Memory) (a : Nat) (bs : Array UInt8) : Memory :=
  ⟨m.bytes.mapIdx fun i old => if a ≤ i then bs.getD (i - a) old else old⟩

/-- A fresh memory that holds `program`, or as much of it as there is room for:
zero everywhere, then the font, then the program. -/
def fresh (program : Array UInt8) : Memory :=
  (zero.copy 0 Font.bytes.toArray).copy programStart.toNat program

/-- A fresh memory without a program. -/
def blank : Memory :=
  fresh #[]

/-- A fresh memory that holds `program`, which has to fit. -/
def load (program : Array UInt8) : Except MachineError Memory :=
  if programCapacity < program.size then
    .error (.programTooLarge program.size programCapacity)
  else
    .ok (fresh program)

/-- The byte at `a`. -/
def read (m : Memory) (a : Nat) : Except MachineError UInt8 :=
  if h : a < 4096 then .ok m.bytes[a] else .error (.outOfBounds a)

/-- Write the byte at `a`.  The font comes before the end of memory in the
order of refusals. -/
def write (m : Memory) (a : Nat) (b : UInt8) : Except MachineError Memory :=
  if a < fontEnd then .error (.reservedWrite a)
  else if h : a < 4096 then .ok ⟨m.bytes.set a b⟩
  else .error (.outOfBounds a)

/-- Write bytes from `a` on, one after the other, and stop at the first that is
refused.  The bytes before it stay written. -/
def writeAll (m : Memory) (a : Nat) : List UInt8 → Memory × Option MachineError
  | [] => (m, none)
  | b :: bs =>
      match m.write a b with
      | .ok m' => m'.writeAll (a + 1) bs
      | .error e => (m, some e)

/-- The `length` bytes from `a` on.  All of them have to be in memory, or the
first that is not is named; of no bytes, none can be missing. -/
def slice (m : Memory) (a length : Nat) : Except MachineError (List UInt8) :=
  if length = 0 then .ok []
  else if size < a + length then .error (.outOfBounds (max a size))
  else .ok (m.bytes.toArray.extract a (a + length)).toList

/-- The word at `a`, the higher byte first.  Both bytes have to be in memory. -/
def word (m : Memory) (a : Address) : Except MachineError Opcode :=
  if h : a.toNat + 1 < 4096 then
    .ok ((m.bytes[a.toNat].toUInt16 <<< 8) ||| m.bytes[a.toNat + 1].toUInt16)
  else
    .error (.outOfBounds (max a.toNat size))

/-- A byte that could be written reads back, and every other byte is as before. -/
theorem read_write {m m' : Memory} {a c : Nat} {b : UInt8} (h : m.write a b = .ok m') :
    m'.read c = if c = a then .ok b else m.read c := by
  unfold write at h
  split at h
  · cases h
  · split at h
    · next ha =>
        cases h
        by_cases hc : c = a
        · subst hc; simp [read, ha]
        · by_cases hlt : c < 4096 <;> simp [read, hc, hlt, Ne.symm hc]
    · cases h

end Memory

end Chip8
