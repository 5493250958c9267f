import Chip8.Proofs.Operation
import Chip8.Proofs.Transfer

/-!
# The ways to read memory

Memory is read a byte, a range of bytes or a word at a time.  Each way has a check of its
own against the end of memory, and the three agree: a range or a word is there exactly if
all of its bytes are, is made up of them, and is refused as the first of them that is
refused.  A write is seen where it was made, by all three ways, and nowhere else.

* `Memory.slice_eq_ok_iff`, `Memory.slice_eq_error_iff_firstRefused` — a range and its bytes;
* `Memory.word_eq_ok_iff_slice`, `Memory.word_eq_error_iff_slice` — a word and the range of
  its two bytes;
* `Memory.WrittenAt` — what a write does to the three ways to read;
* `Machine.reads_agree` — all of it, for the memory of any machine.
-/

namespace Chip8

namespace Memory

/-- Of `n` bytes from `a` on, read one after the other, one is refused with `e`, and none
before it is refused. -/
def FirstRefused (m : Memory) (a n : Nat) (e : MachineError) : Prop :=
  ∃ k < n, m.read (a + k) = .error e ∧ ∀ j < k, ∃ b, m.read (a + j) = .ok b

section Range

variable {m m' : Memory} {a n : Nat} {bytes : List UInt8} {e : MachineError}

/-- A byte can be read inside of memory. -/
theorem exists_read_iff : (∃ b, m.read a = .ok b) ↔ a < 4096 := by
  constructor
  · rintro ⟨b, hb⟩
    apply Nat.lt_of_not_le
    intro hle
    rw [read_eq_error hle] at hb
    cases hb
  · intro h
    exact ⟨_, read_eq_ok h⟩

/-- A byte beyond memory is refused with its address. -/
theorem read_eq_error_iff : m.read a = .error e ↔ 4096 ≤ a ∧ e = .outOfBounds a := by
  constructor
  · intro h
    have hle : 4096 ≤ a := by
      apply Nat.le_of_not_lt
      intro hlt
      rw [read_eq_ok hlt] at h
      cases h
    rw [read_eq_error hle] at h
    cases h
    exact ⟨hle, rfl⟩
  · rintro ⟨hle, rfl⟩
    exact read_eq_error hle

/-- All bytes of a range are in memory where the range ends inside it. -/
theorem forall_read_iff :
    (∀ k < n, ∃ b, m.read (a + k) = .ok b) ↔ n = 0 ∨ a + n ≤ 4096 := by
  simp only [exists_read_iff]
  constructor
  · intro h
    by_cases hn : n = 0
    · exact Or.inl hn
    · have hlast := h (n - 1) (by omega)
      omega
  · intro h k hk
    omega

/-- Memory has one sequence of bytes of each length at an address. -/
theorem HasBytes.unique {bytes' : List UInt8} (h : m.HasBytes a bytes)
    (h' : m.HasBytes a bytes') (hlength : bytes.length = bytes'.length) : bytes = bytes' := by
  apply List.ext_getElem hlength
  intro k hk hk'
  have hread := (h k hk).symm.trans (h' k hk')
  exact Except.ok.inj hread

/-- A range is the bytes that are read one by one. -/
theorem slice_eq_ok_iff :
    m.slice a n = .ok bytes ↔ bytes.length = n ∧ m.HasBytes a bytes := by
  constructor
  · intro h
    have hfits : n = 0 ∨ a + n ≤ 4096 := by
      apply Decidable.byContradiction
      intro hbeyond
      have hrefusal : readRefusal a n = some (.outOfBounds (max a 4096)) :=
        readRefusal_eq_some_iff.2 ⟨by omega, by omega, rfl⟩
      rw [slice_eq_error_iff.2 hrefusal] at h
      cases h
    obtain ⟨found, hslice, hlength, hbytes⟩ := m.exists_slice hfits
    rw [hslice] at h
    cases h
    exact ⟨hlength, hbytes⟩
  · rintro ⟨rfl, hbytes⟩
    have hfits : bytes.length = 0 ∨ a + bytes.length ≤ 4096 :=
      forall_read_iff.1 fun k hk => ⟨_, hbytes k hk⟩
    obtain ⟨found, hslice, hlength, hfound⟩ := m.exists_slice hfits
    rw [hslice, hfound.unique hbytes hlength]

/-- A range is read exactly if each of its bytes can be. -/
theorem exists_slice_iff :
    (∃ bytes, m.slice a n = .ok bytes) ↔ ∀ k < n, ∃ b, m.read (a + k) = .ok b := by
  constructor
  · rintro ⟨bytes, hslice⟩ k hk
    obtain ⟨rfl, hbytes⟩ := slice_eq_ok_iff.1 hslice
    exact ⟨_, hbytes k hk⟩
  · intro h
    obtain ⟨bytes, hslice, -⟩ := m.exists_slice (forall_read_iff.1 h)
    exact ⟨bytes, hslice⟩

/-- A range is refused as the first of its bytes that is refused.  This byte is at 4096, or
at the start of a range that lies behind it. -/
theorem slice_eq_error_iff_firstRefused :
    m.slice a n = .error e ↔ m.FirstRefused a n e := by
  rw [slice_eq_error_iff, readRefusal_eq_some_iff]
  constructor
  · rintro ⟨hpos, hend, rfl⟩
    refine ⟨4096 - a, by omega, ?_, ?_⟩
    · have hmax : max a 4096 = a + (4096 - a) := by omega
      rw [hmax]
      exact read_eq_error (by omega)
    · intro j hj
      exact exists_read_iff.2 (by omega)
  · rintro ⟨k, hk, hrefused, hbefore⟩
    obtain ⟨hle, rfl⟩ := read_eq_error_iff.1 hrefused
    have hfirst : k = 0 ∨ a + k = 4096 := by
      by_cases hzero : k = 0
      · exact Or.inl hzero
      · have hlast := exists_read_iff.1 (hbefore (k - 1) (by omega))
        omega
    have hmax : max a 4096 = a + k := by omega
    exact ⟨by omega, by omega, by rw [hmax]⟩

/-- A range reads the same in two memories that read the same at each of its bytes. -/
theorem slice_congr (h : ∀ k < n, m'.read (a + k) = m.read (a + k)) :
    m'.slice a n = m.slice a n := by
  cases hslice : m.slice a n with
  | error e => exact slice_eq_error_iff.2 (slice_eq_error_iff.1 hslice)
  | ok bytes =>
      obtain ⟨rfl, hbytes⟩ := slice_eq_ok_iff.1 hslice
      refine slice_eq_ok_iff.2 ⟨rfl, fun k hk => ?_⟩
      rw [h k hk]
      exact hbytes k hk

end Range

section Word

variable {m m' : Memory} {a : Address} {word : Opcode} {e : MachineError}

/-- A word is the range of its two bytes, the higher one first. -/
theorem word_eq_ok_iff_slice : m.word a = .ok word ↔
    ∃ high low, m.slice a.toNat 2 = .ok [high, low] ∧
      word.toNat = 256 * high.toNat + low.toNat := by
  have hpair (high low : UInt8) : m.slice a.toNat 2 = .ok [high, low] ↔
      m.read a.toNat = .ok high ∧ m.read (a.toNat + 1) = .ok low := by
    rw [slice_eq_ok_iff]
    constructor
    · rintro ⟨-, hbytes⟩
      exact ⟨hbytes 0 (by simp), hbytes 1 (by simp)⟩
    · rintro ⟨hhigh, hlow⟩
      refine ⟨rfl, ?_⟩
      intro k hk
      match k, hk with
      | 0, _ => exact hhigh
      | 1, _ => exact hlow
  simp only [word_eq_ok_iff, HasWord, hpair, and_assoc]

/-- A word is refused with the error of its two bytes. -/
theorem word_eq_error_iff_slice : m.word a = .error e ↔ m.slice a.toNat 2 = .error e := by
  rw [word_eq_error_iff, slice_eq_error_iff, readRefusal_eq_some_iff, size]
  constructor
  · rintro ⟨hpc, rfl⟩
    exact ⟨by decide, by omega, rfl⟩
  · rintro ⟨-, hend, rfl⟩
    exact ⟨by omega, rfl⟩

/-- A word reads the same in two memories that have the same range of two bytes there. -/
theorem word_congr (h : m'.slice a.toNat 2 = m.slice a.toNat 2) : m'.word a = m.word a := by
  cases hword : m.word a with
  | error e => rw [word_eq_error_iff_slice, h, ← word_eq_error_iff_slice, hword]
  | ok word => rw [word_eq_ok_iff_slice, h, ← word_eq_ok_iff_slice, hword]

end Word

/-- The second memory reads as the first does, but for the byte `b` at `a`. -/
structure WrittenAt (m m' : Memory) (a : Nat) (b : UInt8) : Prop where
  read : ∀ c, m'.read c = if c = a then .ok b else m.read c
  /-- A range that covers the byte is read if it was before, with the new byte in its place. -/
  slice_covering : ∀ c n, c ≤ a → a < c + n →
    m'.slice c n = (m.slice c n).map (·.set (a - c) b)
  slice_apart : ∀ c n, a < c ∨ c + n ≤ a → m'.slice c n = m.slice c n
  word_apart : ∀ c : Address, a ≠ c.toNat → a ≠ c.toNat + 1 → m'.word c = m.word c

/-- A write that is not refused is seen where it was made and nowhere else. -/
theorem writtenAt_of_write {m m' : Memory} {a : Nat} {b : UInt8} (h : m.write a b = .ok m') :
    m.WrittenAt m' a b := by
  have hread (c : Nat) : m'.read c = if c = a then .ok b else m.read c := read_write h
  have hapart (c n : Nat) (hout : a < c ∨ c + n ≤ a) : m'.slice c n = m.slice c n := by
    apply slice_congr
    intro k hk
    rw [hread, if_neg (by omega)]
  refine ⟨hread, ?_, hapart, fun c hfirst hsecond => word_congr (hapart _ _ (by omega))⟩
  intro c n hle hlt
  cases hslice : m.slice c n with
  | error e => exact slice_eq_error_iff.2 (slice_eq_error_iff.1 hslice)
  | ok bytes =>
      obtain ⟨rfl, hbytes⟩ := slice_eq_ok_iff.1 hslice
      refine slice_eq_ok_iff.2 ⟨List.length_set, ?_⟩
      intro k hk
      rw [List.length_set] at hk
      rw [hread, List.getElem_set]
      by_cases hat : c + k = a
      · rw [if_pos hat, if_pos (by omega)]
      · rw [if_neg hat, if_neg (by omega)]
        exact hbytes k hk

end Memory

namespace Machine

/-- **All ways to read memory agree.**  A range is read exactly if each of its bytes can be
read, and is these bytes in order; otherwise it is refused as the first of its bytes that
is refused.  A word is read exactly if the range of its two bytes is, as 256 times the
first and the second, and is refused as that range is.  A write that goes through is seen
by the reads that cover its address and by no other, and one that is refused leaves the
machine as it is. -/
theorem reads_agree (m : Machine) :
    (∀ a n, (∃ bytes, m.memory.slice a n = .ok bytes) ↔
      ∀ k < n, ∃ b, m.memory.read (a + k) = .ok b) ∧
    (∀ a n bytes, m.memory.slice a n = .ok bytes ↔
      bytes.length = n ∧ m.memory.HasBytes a bytes) ∧
    (∀ a n e, m.memory.slice a n = .error e ↔ m.memory.FirstRefused a n e) ∧
    (∀ (a : Address) word, m.memory.word a = .ok word ↔
      ∃ high low, m.memory.slice a.toNat 2 = .ok [high, low] ∧
        word.toNat = 256 * high.toNat + low.toNat) ∧
    (∀ (a : Address) e, m.memory.word a = .error e ↔ m.memory.slice a.toNat 2 = .error e) ∧
    ∀ a b,
      (∃ memory, m.memory.write a b = .ok memory ∧ m.memory.WrittenAt memory a b ∧
        m.perform (.write a b) = ({ m with memory := memory }, .done)) ∨
      ∃ e, m.memory.write a b = .error e ∧ m.perform (.write a b) = (m, .refused e) := by
  refine ⟨fun _ _ => Memory.exists_slice_iff, fun _ _ _ => Memory.slice_eq_ok_iff,
    fun _ _ _ => Memory.slice_eq_error_iff_firstRefused, fun _ _ => Memory.word_eq_ok_iff_slice,
    fun _ _ => Memory.word_eq_error_iff_slice, ?_⟩
  intro a b
  cases hwrite : m.memory.write a b with
  | ok memory =>
      left
      refine ⟨memory, rfl, Memory.writtenAt_of_write hwrite, ?_⟩
      simp only [perform, hwrite, proceed]
  | error e =>
      right
      refine ⟨e, rfl, ?_⟩
      simp only [perform, hwrite, proceed]

end Machine

end Chip8
