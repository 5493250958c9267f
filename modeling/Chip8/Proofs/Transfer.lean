import Chip8.Machine.Execute

/-!
# What refuses a transfer

Words, sprites, stores and loads move several bytes at once.  What refuses one of these is
a function of the first address and the number of bytes alone:

* `Memory.word_eq_ok_iff`, `Memory.word_eq_error_iff` — a word is two bytes,
  the higher one first, and is refused from address 4095 on;
* `Memory.writeRefusal` — a write of several bytes is refused at its first
  byte, if that lies in the font, and else at the end of memory;
* `Memory.readRefusal`, `Memory.slice_eq_error_iff` — a read of several bytes is
  refused at the end of memory;
* `Memory.exists_slice` — a range inside memory is the bytes that are read one by one;
* `Memory.read_fresh`, `Memory.word_fresh` — the bytes and words of memory into which a
  program has been put.
-/

namespace Chip8

namespace Reg

variable {x y : Reg}

/-- A transfer up to VX has X + 1 registers. -/
theorem length_upTo (x : Reg) : x.upTo.length = x.val + 1 := by
  rw [upTo, List.length_take, List.length_finRange]
  omega

/-- The registers of a transfer come in ascending order. -/
theorem getElem?_upTo (hy : y ≤ x) : x.upTo[y.val]? = some y := by
  have hlt : y.val < x.val + 1 := Nat.lt_succ_of_le hy
  rw [upTo, List.getElem?_take_of_lt hlt]
  simp

/-- The first `k` registers of a transfer are below the register number `k`. -/
theorem not_mem_take_upTo {k : Nat} (hy : k ≤ y.val) : y ∉ x.upTo.take k := by
  intro hmem
  obtain ⟨j, hj, rfl⟩ := List.mem_take_iff_getElem.1 hmem
  simp [upTo] at hy
  omega

/-- A transfer up to VX has the registers up to it, VX included. -/
theorem mem_upTo : y ∈ x.upTo ↔ y ≤ x := by
  constructor
  · intro hmem
    obtain ⟨j, hj, rfl⟩ := List.mem_take_iff_getElem.1 hmem
    rw [List.getElem_finRange, Fin.le_def, Fin.val_cast]
    exact Nat.le_of_lt_succ (Nat.lt_of_lt_of_le hj (Nat.min_le_left _ _))
  · intro hy
    exact List.mem_of_getElem? (getElem?_upTo hy)

/-- No register comes twice in a transfer. -/
theorem nodup_upTo (x : Reg) : x.upTo.Nodup :=
  (List.nodup_finRange 16).sublist (List.take_sublist _ _)

end Reg

namespace Memory

/-- The bytes at `a` and behind it make up a word, the higher byte first. -/
def HasWord (m : Memory) (a : Nat) (word : Opcode) : Prop :=
  ∃ high low, m.read a = .ok high ∧ m.read (a + 1) = .ok low ∧
    word.toNat = 256 * high.toNat + low.toNat

/-- Memory holds the bytes from `a` on, in order. -/
def HasBytes (m : Memory) (a : Nat) (bytes : List UInt8) : Prop :=
  ∀ k (h : k < bytes.length), m.read (a + k) = .ok bytes[k]

/-- The addresses that can be written: those behind the font and inside memory. -/
def Writable (a : Nat) : Prop :=
  80 ≤ a ∧ a ≤ 4095

/-- The addresses that can be read: those inside memory. -/
def Readable (a : Nat) : Prop :=
  a ≤ 4095

/-- What refuses a write at an address that cannot be written. -/
def writeError (a : Nat) : MachineError :=
  if a < 80 then .reservedWrite a else .outOfBounds a

/-- What refuses a write of `n` bytes from `a` on, if anything does. -/
def writeRefusal (a n : Nat) : Option MachineError :=
  if n = 0 then none
  else if a < fontEnd then some (.reservedWrite a)
  else if a + n ≤ size then none
  else some (.outOfBounds (max a size))

/-- What refuses a read of `n` bytes from `a` on, if anything does. -/
def readRefusal (a n : Nat) : Option MachineError :=
  if n = 0 ∨ a + n ≤ size then none else some (.outOfBounds (max a size))

/-- A write of some bytes is refused in the font, or where it reaches beyond memory. -/
theorem writeRefusal_eq_some_iff {a n : Nat} {e : MachineError} :
    writeRefusal a n = some e ↔ 0 < n ∧ (a < 80 ∧ e = .reservedWrite a ∨
      80 ≤ a ∧ 4096 < a + n ∧ e = .outOfBounds (max a 4096)) := by
  unfold writeRefusal fontEnd size
  by_cases hn : n = 0
  · simp [hn]
  · have hpos : 0 < n := Nat.pos_of_ne_zero hn
    by_cases hfont : a < 80
    · simp [hn, hpos, hfont, Nat.not_le.2 hfont, eq_comm]
    · by_cases hroom : a + n ≤ 4096
      · simp [hn, hfont, hroom, Nat.not_lt.2 hroom]
      · simp [hn, hpos, hfont, hroom, Nat.not_lt.1 hfont, Nat.not_le.1 hroom, eq_comm]

/-- A read of some bytes is refused where it reaches beyond memory. -/
theorem readRefusal_eq_some_iff {a n : Nat} {e : MachineError} :
    readRefusal a n = some e ↔ 0 < n ∧ 4096 < a + n ∧ e = .outOfBounds (max a 4096) := by
  unfold readRefusal size
  by_cases hn : n = 0
  · simp [hn]
  · have hpos : 0 < n := Nat.pos_of_ne_zero hn
    by_cases hroom : a + n ≤ 4096
    · simp [hn, hroom, Nat.not_lt.2 hroom]
    · simp [hn, hpos, hroom, Nat.not_le.1 hroom, eq_comm]

/-- Two bytes put together by shifting are the number that they make up. -/
theorem toNat_shiftLeft_or (high low : UInt8) :
    ((high.toUInt16 <<< 8) ||| low.toUInt16).toNat = 256 * high.toNat + low.toNat := by
  have hhigh : high.toNat < 256 := high.toNat_lt
  have hlow : low.toNat < 2 ^ 8 := low.toNat_lt
  have hshift : high.toNat <<< 8 % 65536 = high.toNat <<< 8 := by
    rw [Nat.shiftLeft_eq]
    omega
  calc ((high.toUInt16 <<< 8) ||| low.toUInt16).toNat
      = high.toNat <<< 8 % 65536 ||| low.toNat := by simp
    _ = high.toNat <<< 8 ||| low.toNat := by rw [hshift]
    _ = high.toNat <<< 8 + low.toNat := (Nat.shiftLeft_add_eq_or_of_lt hlow _).symm
    _ = 256 * high.toNat + low.toNat := by rw [Nat.shiftLeft_eq]; omega

theorem read_eq_ok {m : Memory} {a : Nat} (h : a < 4096) : m.read a = .ok m.bytes[a] := by
  simp [read, h]

/-- A byte beyond memory is refused with its address. -/
theorem read_eq_error {m : Memory} {a : Nat} (h : 4096 ≤ a) :
    m.read a = .error (.outOfBounds a) := by
  simp [read, Nat.not_lt.2 h]

/-- The byte at `a` in a fresh memory that holds `program`: the font, then the
program from its start on, and zero everywhere else. -/
def freshByte (program : Array UInt8) (a : Nat) : UInt8 :=
  if h : a < 80 then Font.bytes[a]
  else if programStart.toNat ≤ a then program.getD (a - programStart.toNat) 0
  else 0

/-- Bytes that are copied into memory stand from their start on. -/
theorem bytes_copy (m : Memory) (start : Nat) (bs : Array UInt8) {a : Nat} (h : a < 4096) :
    (m.copy start bs).bytes[a] =
      if start ≤ a then bs.getD (a - start) m.bytes[a] else m.bytes[a] := by
  simp [copy]

/-- The copied font and the zeros behind it. -/
theorem bytes_copy_font {a : Nat} (h : a < 4096) :
    (zero.copy 0 Font.bytes.toArray).bytes[a] = if h : a < 80 then Font.bytes[a] else 0 := by
  rw [bytes_copy _ _ _ h]
  by_cases hfont : a < 80
  · simp [hfont]
  · simp [hfont, zero]

/-- The bytes of memory into which a program has been put. -/
theorem read_fresh {program : Array UInt8} {a : Nat} (h : a < 4096) :
    (fresh program).read a = .ok (freshByte program a) := by
  rw [read_eq_ok h, fresh, bytes_copy _ _ _ h, bytes_copy_font h]
  unfold freshByte
  by_cases hfont : a < 80
  · have hbefore : ¬ programStart.toNat ≤ a := by
      change ¬ 512 ≤ a
      omega
    simp [hfont, hbefore]
  · simp [hfont]

/-- The word at an address of memory into which a program has been put. -/
theorem hasWord_fresh {program : Array UInt8} {a : Nat} {word : Opcode} (h : a + 1 < 4096)
    (hword : word.toNat =
      256 * (freshByte program a).toNat + (freshByte program (a + 1)).toNat) :
    (fresh program).HasWord a word :=
  ⟨_, _, read_fresh (Nat.lt_of_succ_lt h), read_fresh h, hword⟩

/-- Both bytes of a word are inside of memory. -/
theorem HasWord.lt {m : Memory} {a : Nat} {word : Opcode} (h : m.HasWord a word) :
    a + 1 < 4096 := by
  obtain ⟨high, low, -, hlow, -⟩ := h
  apply Nat.lt_of_not_le
  intro hle
  rw [read_eq_error hle] at hlow
  cases hlow

/-- Fetching a word reads the two bytes that make it up. -/
theorem word_eq_ok_iff {m : Memory} {a : Address} {word : Opcode} :
    m.word a = .ok word ↔ m.HasWord a.toNat word := by
  constructor
  · intro h
    unfold Memory.word at h
    split at h
    · next ha =>
        cases h
        exact ⟨_, _, read_eq_ok (by omega), read_eq_ok ha, toNat_shiftLeft_or _ _⟩
    · cases h
  · intro h
    have ha := h.lt
    obtain ⟨high, low, hhigh, hlow, hword⟩ := h
    rw [read_eq_ok (by omega), Except.ok.injEq] at hhigh
    rw [read_eq_ok ha, Except.ok.injEq] at hlow
    simp only [Memory.word, ha, ↓reduceDIte, Except.ok.injEq]
    apply UInt16.toNat_inj.1
    rw [hword, toNat_shiftLeft_or, hhigh, hlow]

/-- A word that is fetched from memory into which a program has been put. -/
theorem word_fresh {program : Array UInt8} {a : Address} {word : Opcode}
    (h : a.toNat + 1 < 4096) (hword : word.toNat =
      256 * (freshByte program a.toNat).toNat + (freshByte program (a.toNat + 1)).toNat) :
    (fresh program).word a = .ok word :=
  word_eq_ok_iff.2 (hasWord_fresh h hword)

/-- Fetching a word fails from the last byte of memory on. -/
theorem word_eq_error_iff {m : Memory} {a : Address} {e : MachineError} :
    m.word a = .error e ↔ 4095 ≤ a.toNat ∧ e = .outOfBounds (max a.toNat size) := by
  unfold Memory.word
  split
  · next ha => simp; omega
  · next ha => simp [show 4095 ≤ a.toNat by omega, eq_comm]

/-- A read of a range at once fails where `readRefusal` says. -/
theorem slice_eq_error_iff {m : Memory} {a n : Nat} {e : MachineError} :
    m.slice a n = .error e ↔ readRefusal a n = some e := by
  unfold slice readRefusal
  by_cases hn : n = 0
  · simp [hn]
  · by_cases hsize : a + n ≤ size
    · simp [hn, hsize, Nat.not_lt.2 hsize]
    · simp [hn, hsize, Nat.lt_of_not_le hsize]

/-- A range inside memory, or one of no bytes, is read. -/
theorem exists_slice {a n : Nat} (m : Memory) (hfits : n = 0 ∨ a + n ≤ 4096) :
    ∃ bytes, m.slice a n = .ok bytes ∧ bytes.length = n ∧ m.HasBytes a bytes := by
  by_cases hn : n = 0
  · refine ⟨[], if_pos hn, hn.symm, ?_⟩
    intro k hk
    cases hk
  · have hend : a + n ≤ 4096 := hfits.resolve_left hn
    have hinside : ¬ size < a + n := Nat.not_lt.2 hend
    refine ⟨(m.bytes.toArray.extract a (a + n)).toList, ?_, ?_, ?_⟩
    · rw [slice, if_neg hn, if_neg hinside]
    · simp
      omega
    · intro k hk
      have hlt : a + k < 4096 := by
        simp at hk
        omega
      rw [read_eq_ok hlt]
      simp

end Memory

end Chip8
