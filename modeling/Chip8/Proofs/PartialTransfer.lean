import Chip8.Proofs.Footprint

/-!
# How far a transfer comes

An instruction that moves several bytes moves them one after the other, by ascending address
from the index register on, and is stopped at the first address that it may not use.  What
was moved before stays moved, and can be seen behind the fault.  How far a transfer comes is a
matter of the addresses alone (`StopsAfter`); which bytes and registers have changed follows
from that number.

* `StopsAfter` — a transfer of some bytes, of which so many are moved;
* `StopsAfter.eq_writeRefusal`, `StopsAfter.eq_readRefusal` — what stops it is what refuses it
  as a whole;
* `Memory.writeAll_stops`, `Machine.fillRegisters_stops` — writing several bytes and filling
  several registers;
* `Machine.Stores`, `Machine.Loads` — what an instruction of either kind comes to;
* `Machine.transfers_stop` — the three instructions that move bytes.
-/

namespace Chip8

/-- Of a transfer of `n` bytes from `a` on the first `k` are moved: all of them, and nothing
fails, or those before the first address that is not allowed, and the failure names it. -/
structure StopsAfter (allowed : Nat → Prop) (refusal : Nat → MachineError) (a n k : Nat)
    (failure : Option MachineError) : Prop where
  le : k ≤ n
  moved : ∀ j, j < k → allowed (a + j)
  complete : k = n → failure = none
  refused : k < n → ¬ allowed (a + k) ∧ failure = some (refusal (a + k))

namespace StopsAfter

variable {allowed : Nat → Prop} {refusal : Nat → MachineError} {a n k : Nat}
  {failure : Option MachineError}

theorem nothing : StopsAfter allowed refusal a 0 0 none where
  le := Nat.le_refl 0
  moved _ h := absurd h (Nat.not_lt_zero _)
  complete _ := rfl
  refused h := absurd h (Nat.lt_irrefl 0)

/-- A transfer whose first byte is refused stops there. -/
theorem first (h : ¬ allowed a) : StopsAfter allowed refusal a (n + 1) 0 (some (refusal a)) where
  le := Nat.zero_le _
  moved _ h := absurd h (Nat.not_lt_zero _)
  complete h := absurd h.symm (Nat.succ_ne_zero n)
  refused _ := ⟨h, rfl⟩

/-- A transfer whose first byte goes through stops where its rest does. -/
theorem next (h : allowed a) (hrest : StopsAfter allowed refusal (a + 1) n k failure) :
    StopsAfter allowed refusal a (n + 1) (k + 1) failure where
  le := Nat.succ_le_succ hrest.le
  moved j hj := by
    cases j with
    | zero => exact h
    | succ j =>
        have hsum : a + (j + 1) = a + 1 + j := by omega
        rw [hsum]
        exact hrest.moved j (Nat.lt_of_succ_lt_succ hj)
  complete hk := hrest.complete (Nat.succ.inj hk)
  refused hk := by
    have hsum : a + (k + 1) = a + 1 + k := by omega
    rw [hsum]
    exact hrest.refused (Nat.lt_of_succ_lt_succ hk)

/-- A transfer that is allowed at all of its addresses is complete. -/
theorem eq_of_allowed (h : StopsAfter allowed refusal a n k failure)
    (hall : ∀ j, j < n → allowed (a + j)) : k = n ∧ failure = none := by
  have hk : k = n := by
    rcases Nat.lt_or_eq_of_le h.le with hlt | heq
    · exact absurd (hall k hlt) (h.refused hlt).1
    · exact heq
  exact ⟨hk, h.complete hk⟩

/-- What stops a write of several bytes is what refuses it as a whole.  Only the first
address can lie in the font, for the others are behind one that was written. -/
theorem eq_writeRefusal (h : StopsAfter Memory.Writable Memory.writeError a n k failure) :
    failure = Memory.writeRefusal a n := by
  have hfont : 0 < k → 80 ≤ a := fun hk => (h.moved 0 hk).1
  have hlast : 0 < k → a + k ≤ 4096 := fun hk => by
    have hle := (h.moved (k - 1) (by omega)).2
    omega
  rcases Nat.lt_or_eq_of_le h.le with hlt | rfl
  · obtain ⟨hrefused, rfl⟩ := h.refused hlt
    refine (Memory.writeRefusal_eq_some_iff.2 ⟨by omega, ?_⟩).symm
    unfold Memory.Writable at hrefused
    unfold Memory.writeError
    by_cases hlow : a + k < 80
    · obtain rfl : k = 0 := by omega
      exact Or.inl ⟨hlow, if_pos hlow⟩
    · have hmax : max a 4096 = a + k := by omega
      rw [if_neg hlow, hmax]
      exact Or.inr ⟨by omega, by omega, rfl⟩
  · rw [h.complete rfl]
    refine (Option.eq_none_iff_forall_ne_some.2 ?_).symm
    intro e he
    obtain ⟨hpos, hrange⟩ := Memory.writeRefusal_eq_some_iff.1 he
    have hbehind := hfont hpos
    have hinside := hlast hpos
    omega

/-- What stops a read of several bytes is what refuses it as a whole. -/
theorem eq_readRefusal (h : StopsAfter Memory.Readable .outOfBounds a n k failure) :
    failure = Memory.readRefusal a n := by
  have hlast : 0 < k → a + k ≤ 4096 := fun hk => by
    have hle : a + (k - 1) ≤ 4095 := h.moved (k - 1) (by omega)
    omega
  rcases Nat.lt_or_eq_of_le h.le with hlt | rfl
  · obtain ⟨hrefused, rfl⟩ := h.refused hlt
    unfold Memory.Readable at hrefused
    have hmax : max a 4096 = a + k := by omega
    refine (Memory.readRefusal_eq_some_iff.2 ⟨by omega, by omega, ?_⟩).symm
    rw [hmax]
  · rw [h.complete rfl]
    refine (Option.eq_none_iff_forall_ne_some.2 ?_).symm
    intro e he
    obtain ⟨hpos, hrange, -⟩ := Memory.readRefusal_eq_some_iff.1 he
    have hinside := hlast hpos
    omega

end StopsAfter

namespace Memory

/-- A byte that may be written is written. -/
theorem exists_write {a : Nat} (h : Writable a) (m : Memory) (b : UInt8) :
    ∃ m', m.write a b = .ok m' := by
  have hfont : ¬ a < fontEnd := Nat.not_lt.2 h.1
  have hend : a < 4096 := Nat.lt_succ_of_le h.2
  exact ⟨⟨m.bytes.set a b⟩, by rw [write, if_neg hfont, dif_pos hend]⟩

/-- A byte that may not be written is refused, with the error of its address. -/
theorem write_eq_error {a : Nat} (h : ¬ Writable a) (m : Memory) (b : UInt8) :
    m.write a b = .error (writeError a) := by
  unfold write writeError
  by_cases hfont : a < 80
  · rw [if_pos hfont]
    exact if_pos hfont
  · have hend : ¬ a < 4096 := fun hlt => h ⟨Nat.not_lt.1 hfont, Nat.le_of_lt_succ hlt⟩
    rw [if_neg hfont, dif_neg hend]
    exact if_neg hfont

section HasBytes

variable {m : Memory} {a : Nat} {b : UInt8} {bs : List UInt8}

theorem hasBytes_nil : m.HasBytes a [] :=
  fun _ h => absurd h (Nat.not_lt_zero _)

/-- Some bytes are in memory if the first is there and the rest behind it. -/
theorem hasBytes_cons (hfirst : m.read a = .ok b) (hrest : m.HasBytes (a + 1) bs) :
    m.HasBytes a (b :: bs) := by
  intro k hk
  cases k with
  | zero => exact hfirst
  | succ k =>
      have hsum : a + (k + 1) = a + 1 + k := by omega
      rw [hsum]
      exact hrest k (Nat.lt_of_succ_lt_succ hk)

end HasBytes

/-- Writing byte after byte stops at the first address that cannot be written.  The bytes
before it are in memory then, and every other address is as before. -/
theorem writeAll_stops (m : Memory) (a : Nat) (bs : List UInt8) :
    ∃ k, StopsAfter Writable writeError a bs.length k (m.writeAll a bs).2 ∧
      (m.writeAll a bs).1.HasBytes a (bs.take k) ∧
      ∀ c, c < a ∨ a + k ≤ c → (m.writeAll a bs).1.read c = m.read c := by
  induction bs generalizing m a with
  | nil => exact ⟨0, .nothing, hasBytes_nil, fun _ _ => rfl⟩
  | cons b bs ih =>
      unfold writeAll
      by_cases ha : Writable a
      · obtain ⟨m', hwrite⟩ := exists_write ha m b
        obtain ⟨k, hstops, hbytes, helsewhere⟩ := ih m' (a + 1)
        rw [hwrite]
        refine ⟨k + 1, hstops.next ha, ?_, ?_⟩
        · -- The bytes behind are written later and elsewhere, so this one stays.
          refine hasBytes_cons ?_ hbytes
          rw [helsewhere a (Or.inl (Nat.lt_succ_self a)), read_write hwrite, if_pos rfl]
        · intro c hc
          have hrest : c < a + 1 ∨ a + 1 + k ≤ c := by omega
          have hne : c ≠ a := by omega
          rw [helsewhere c hrest, read_write hwrite, if_neg hne]
      · rw [write_eq_error ha]
        exact ⟨0, .first ha, hasBytes_nil, fun _ _ => rfl⟩

end Memory

namespace Machine

/-- Filling register after register stops at the first address that is not in memory.  The
registers before it hold the bytes of memory then, and every other one is as before. -/
theorem fillRegisters_stops (memory : Memory) (a : Nat) {xs : List Reg} (hxs : xs.Nodup)
    (r : Registers) :
    ∃ k, StopsAfter Memory.Readable .outOfBounds a xs.length k (fillRegisters memory a xs r).2 ∧
      memory.HasBytes a ((xs.take k).map (fillRegisters memory a xs r).1.get) ∧
      ∀ y, y ∉ xs.take k → (fillRegisters memory a xs r).1.get y = r.get y := by
  induction xs generalizing a r with
  | nil => exact ⟨0, .nothing, Memory.hasBytes_nil, fun _ _ => rfl⟩
  | cons x xs ih =>
      obtain ⟨hx, hxs⟩ := List.nodup_cons.1 hxs
      unfold fillRegisters
      by_cases ha : a < 4096
      · rw [Memory.read_eq_ok ha]
        obtain ⟨k, hstops, hbytes, hothers⟩ := ih (a + 1) hxs (r.set x memory.bytes[a])
        refine ⟨k + 1, hstops.next (Nat.le_of_lt_succ ha), ?_, ?_⟩
        · refine Memory.hasBytes_cons ?_ hbytes
          rw [get_fillRegisters_of_not_mem memory hx, Registers.get_set_self,
            Memory.read_eq_ok ha]
        · intro y hy
          obtain ⟨hne, hrest⟩ := not_or.1 (mt List.mem_cons.2 hy)
          rw [hothers y hrest, Registers.get_set, if_neg (Ne.symm hne)]
      · have hend : 4096 ≤ a := Nat.not_lt.1 ha
        have hrefused : ¬ Memory.Readable a := Nat.not_le.2 hend
        rw [Memory.read_eq_error hend]
        exact ⟨0, .first hrefused, Memory.hasBytes_nil, fun _ _ => rfl⟩

/-- Where memory holds what the first registers hold, it holds it register by register. -/
theorem read_of_hasBytes {memory : Memory} {a k : Nat} {x y : Reg} {f : Reg → UInt8}
    (hk : k ≤ x.val + 1) (h : memory.HasBytes a ((x.upTo.take k).map f)) (hy : y.val < k) :
    memory.read (a + y.val) = .ok (f y) := by
  have hlength : y.val < ((x.upTo.take k).map f).length := by
    rw [List.length_map, List.length_take, Reg.length_upTo]
    omega
  rw [h y.val hlength]
  simp [Reg.upTo]

/-- What an instruction comes to that writes the bytes `bs` from the index register on, of
which the first `k` are written.  Nothing else of the machine has changed. -/
structure Stores (m : Machine) (bs : List UInt8) (k : Nat)
    (result : Machine × Option MachineError) : Prop where
  stops : StopsAfter Memory.Writable Memory.writeError m.index.toNat bs.length k result.2
  written : result.1.memory.HasBytes m.index.toNat (bs.take k)
  elsewhere : ∀ a, a < m.index.toNat ∨ m.index.toNat + k ≤ a →
    result.1.memory.read a = m.memory.read a
  rest : result.1 = { m with memory := result.1.memory }

/-- What an instruction comes to that fills the registers V0 to `x` from the index register
on, of which the first `k` are filled.  Nothing else of the machine has changed. -/
structure Loads (m : Machine) (x : Reg) (k : Nat)
    (result : Machine × Option MachineError) : Prop where
  stops : StopsAfter Memory.Readable .outOfBounds m.index.toNat (x.val + 1) k result.2
  filled : ∀ y : Reg, y.val < k → m.memory.read (m.index.toNat + y.val) = .ok (result.1.reg y)
  others : ∀ y : Reg, k ≤ y.val → result.1.reg y = m.reg y
  rest : result.1 = { m with registers := result.1.registers }

variable (m : Machine)

/-- Every store stops somewhere, and has written the bytes up to there. -/
theorem exists_stores (bs : List UInt8) : ∃ k, m.Stores bs k (m.storeBytes bs) := by
  obtain ⟨k, hstops, hwritten, helsewhere⟩ := m.memory.writeAll_stops m.index.toNat bs
  exact ⟨k, hstops, hwritten, helsewhere, rfl⟩

/-- Every load stops somewhere, and has filled the registers up to there. -/
theorem exists_loads (x : Reg) : ∃ k, m.Loads x k (m.loadRegisters x.upTo) := by
  obtain ⟨k, hstops, hbytes, hothers⟩ :=
    fillRegisters_stops m.memory m.index.toNat x.nodup_upTo m.registers
  rw [Reg.length_upTo] at hstops
  exact ⟨k, hstops, fun y hy => read_of_hasBytes hstops.le hbytes hy,
    fun y hy => hothers y (Reg.not_mem_take_upTo hy), rfl⟩

/-- A store fails at the first byte that may not be written. -/
theorem storeBytes_refusal (bs : List UInt8) :
    (m.storeBytes bs).2 = Memory.writeRefusal m.index.toNat bs.length := by
  obtain ⟨k, hstores⟩ := m.exists_stores bs
  exact hstores.stops.eq_writeRefusal

/-- A load fails at the first byte that may not be read. -/
theorem loadRegisters_refusal (x : Reg) :
    (m.loadRegisters x.upTo).2 = Memory.readRefusal m.index.toNat (x.val + 1) := by
  obtain ⟨k, hloads⟩ := m.exists_loads x
  exact hloads.stops.eq_readRefusal

/-- The decimal digits of a byte make up the byte. -/
theorem exists_decimalDigits (b : UInt8) : ∃ hundreds tens ones : UInt8,
    decimalDigits b = [hundreds, tens, ones] ∧ hundreds ≤ 9 ∧ tens ≤ 9 ∧ ones ≤ 9 ∧
      100 * hundreds.toNat + 10 * tens.toNat + ones.toNat = b.toNat := by
  have hb := b.toNat_lt
  refine ⟨b / 100, b / 10 % 10, b % 10, rfl, ?_, ?_, ?_, ?_⟩
  · rw [UInt8.le_iff_toNat_le, UInt8.toNat_div]
    change b.toNat / 100 ≤ 9
    omega
  · rw [UInt8.le_iff_toNat_le, UInt8.toNat_mod]
    change (b / 10).toNat % 10 ≤ 9
    omega
  · rw [UInt8.le_iff_toNat_le, UInt8.toNat_mod]
    change b.toNat % 10 ≤ 9
    omega
  · rw [UInt8.toNat_mod, UInt8.toNat_mod, UInt8.toNat_div, UInt8.toNat_div]
    change 100 * (b.toNat / 100) + 10 * (b.toNat / 10 % 10) + b.toNat % 10 = b.toNat
    omega

/-- **Transfers stop at the first refusal.**  On any machine, with anything in the index
register, `FX55` writes the contents of V0 to VX and `FX33` the three decimal digits of VX,
each to the addresses from the index register on, and `FX65` fills V0 to VX from there.  Each
of them moves what comes before the first address that cannot be written, or read, and its
error names that address; if there is none, it moves everything and succeeds.  The machine
is as before in all that was not moved. -/
theorem transfers_stop (x : Reg) :
    (∃ bs : List UInt8, bs.length = x.val + 1 ∧
      (∀ y : Reg, y ≤ x → bs[y.val]? = some (m.reg y)) ∧
      ∃ k, m.Stores bs k (m.execute (.store x))) ∧
    (∃ hundreds tens ones : UInt8, hundreds ≤ 9 ∧ tens ≤ 9 ∧ ones ≤ 9 ∧
      100 * hundreds.toNat + 10 * tens.toNat + ones.toNat = (m.reg x).toNat ∧
      ∃ k, m.Stores [hundreds, tens, ones] k (m.execute (.storeDecimal x))) ∧
    ∃ k, m.Loads x k (m.execute (.load x)) := by
  refine ⟨⟨x.upTo.map m.reg, ?_, ?_, m.exists_stores _⟩, ?_, m.exists_loads x⟩
  · rw [List.length_map, Reg.length_upTo]
  · intro y hy
    rw [List.getElem?_map, Reg.getElem?_upTo hy]
    rfl
  · obtain ⟨hundreds, tens, ones, hdigits, hhundreds, htens, hones, hsum⟩ :=
      exists_decimalDigits (m.reg x)
    refine ⟨hundreds, tens, ones, hhundreds, htens, hones, hsum, ?_⟩
    rw [← hdigits]
    exact m.exists_stores _

end Machine

end Chip8
