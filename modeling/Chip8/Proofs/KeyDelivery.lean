import Chip8.Session

/-!
# Delivering key events

The events between two states of the keypad are taken one by one.  None of them is refused,
and afterwards a keypad holds what the second state says of every key on which the two
differ (`Keypad.takeAll_between`).  The machine passes the events on to its keypad
(`Session.deliverAll_of_takeAll`).  If it waits for a key, it may take one of them on the
way; beside that only its keypad changes (`Session.deliverAll_between`).
-/

namespace Chip8

namespace Keypad

/-- What a key event makes of a keypad. -/
def take (k : Keypad) : KeyEvent → Except MachineError Keypad
  | .down code => k.press code
  | .up code => k.release code

/-- Take events one after the other, up to the first that is refused. -/
def takeAll (k : Keypad) : List KeyEvent → Except MachineError Keypad
  | [] => .ok k
  | event :: events =>
      match k.take event with
      | .ok k' => k'.takeAll events
      | .error e => .error e

/-- The codes of the keypad are the bytes below sixteen. -/
theorem mem_codes {c : UInt8} : c ∈ codes ↔ c.toNat < 16 := by
  simp only [codes, List.mem_map, List.mem_range]
  constructor
  · rintro ⟨n, hn, rfl⟩
    simp
    omega
  · intro h
    exact ⟨c.toNat, h, by simp⟩

/-- A key of the keypad can be pressed and released. -/
theorem exists_setKey (k : Keypad) {code : UInt8} (held : Bool) (h : code.toNat < 16) :
    ∃ k', k.setKey code held = .ok k' :=
  ⟨_, dif_pos h⟩

/-- An event that says how a key changed is taken, and the key is as it says. -/
theorem take_ofChange (k : Keypad) {code : UInt8} {before now : Bool} {event : KeyEvent}
    (hcode : code.toNat < 16) (hevent : KeyEvent.ofChange code before now = some event) :
    ∃ k', k.take event = .ok k' ∧
      ∀ c, k'.isHeld c = if c = code then now else k.isHeld c := by
  obtain ⟨k', hset⟩ := k.exists_setKey now hcode
  refine ⟨k', ?_, fun c => isHeld_setKey hset⟩
  unfold KeyEvent.ofChange at hevent
  split at hevent
  · cases hevent
  · split at hevent
    · next hnow =>
        subst hnow
        cases hevent
        exact hset
    · next hnow =>
        rw [Bool.not_eq_true] at hnow
        subst hnow
        cases hevent
        exact hset

/-- A keypad takes the events of some codes and then holds those of them that have changed
as they are now, and every other key as before. -/
theorem takeAll_ofChange (before now : Keypad) {codes : List UInt8}
    (hcodes : ∀ c ∈ codes, c.toNat < 16) (k : Keypad) :
    ∃ k', k.takeAll (codes.filterMap fun code =>
        KeyEvent.ofChange code (before.isHeld code) (now.isHeld code)) = .ok k' ∧
      ∀ c, k'.isHeld c =
        if c ∈ codes ∧ before.isHeld c ≠ now.isHeld c then now.isHeld c else k.isHeld c := by
  induction codes generalizing k with
  | nil => exact ⟨k, rfl, by simp⟩
  | cons code codes ih =>
      have hrest : ∀ c ∈ codes, c.toNat < 16 := fun c hc => hcodes c (List.mem_cons_of_mem _ hc)
      cases hevent : KeyEvent.ofChange code (before.isHeld code) (now.isHeld code) with
      | none =>
          have hsame : before.isHeld code = now.isHeld code := by
            unfold KeyEvent.ofChange at hevent
            split at hevent
            · next h => exact eq_of_beq h
            · split at hevent <;> cases hevent
          obtain ⟨k', htake, hheld⟩ := ih hrest k
          refine ⟨k', ?_, ?_⟩
          · simp only [List.filterMap_cons, hevent]
            exact htake
          · intro c
            rw [hheld]
            by_cases hc : c = code
            · subst hc
              simp [hsame]
            · simp [hc]
      | some event =>
          have hdiffer : before.isHeld code ≠ now.isHeld code := by
            intro hsame
            simp [KeyEvent.ofChange, hsame] at hevent
          obtain ⟨k₁, hfirst, hheld₁⟩ :=
            k.take_ofChange (hcodes code List.mem_cons_self) hevent
          obtain ⟨k', htake, hheld⟩ := ih hrest k₁
          refine ⟨k', ?_, ?_⟩
          · simp only [List.filterMap_cons, hevent, takeAll, hfirst]
            exact htake
          · intro c
            rw [hheld]
            simp only [hheld₁]
            by_cases hc : c = code
            · subst hc
              simp [hdiffer]
            · simp [hc]

/-- The events between two states of the keypad are all taken, and bring any keypad to the
second state on the keys where the two differ. -/
theorem takeAll_between (before now k : Keypad) :
    ∃ k', k.takeAll (KeyEvent.between before now) = .ok k' ∧
      ∀ c : UInt8, c.toNat < 16 → k'.isHeld c =
        if before.isHeld c ≠ now.isHeld c then now.isHeld c else k.isHeld c := by
  obtain ⟨k', htake, hheld⟩ := takeAll_ofChange before now (fun c hc => mem_codes.1 hc) k
  refine ⟨k', htake, ?_⟩
  intro c hc
  rw [hheld]
  simp only [mem_codes.2 hc, true_and]

end Keypad

namespace Session

/-- The machine passes an event on to its keypad. -/
theorem deliver_of_take {m : Machine} {event : KeyEvent} {keypad : Keypad}
    (h : m.keypad.take event = .ok keypad) :
    ∃ registers state, deliver m event =
      .ok { m with keypad := keypad, registers := registers, state := state } := by
  cases event with
  | down code =>
      have hpress : m.keypad.press code = .ok keypad := h
      simp only [deliver, Machine.keyDown, hpress, Except.map]
      split
      · exact ⟨_, _, rfl⟩
      · exact ⟨m.registers, m.state, rfl⟩
  | up code =>
      have hrelease : m.keypad.release code = .ok keypad := h
      simp only [deliver, Machine.keyUp, hrelease, Except.map]
      exact ⟨m.registers, m.state, rfl⟩

/-- Events that a keypad takes are taken by a machine, and change nothing but its keypad and
what an awaited key changes. -/
theorem deliverAll_of_takeAll {m : Machine} {events : List KeyEvent} {keypad : Keypad}
    (h : m.keypad.takeAll events = .ok keypad) :
    ∃ registers state, deliverAll m events =
      ({ m with keypad := keypad, registers := registers, state := state }, none) := by
  induction events generalizing m with
  | nil =>
      cases h
      exact ⟨m.registers, m.state, rfl⟩
  | cons event events ih =>
      unfold Keypad.takeAll at h
      split at h
      · next keypad₁ hfirst =>
          obtain ⟨registers₁, state₁, hdeliver⟩ := deliver_of_take hfirst
          obtain ⟨registers, state, hrest⟩ := ih
            (m := { m with keypad := keypad₁, registers := registers₁, state := state₁ }) h
          refine ⟨registers, state, ?_⟩
          simp only [deliverAll, hdeliver]
          exact hrest
      · cases h

/-- **Delivery.**  The events between two states of the keypad are all taken,
and bring the machine to the second state on the keys where the two differ. -/
theorem deliverAll_between (before now : Keypad) (m : Machine) :
    ∃ keypad registers state,
      deliverAll m (KeyEvent.between before now) =
        ({ m with keypad := keypad, registers := registers, state := state }, none) ∧
      ∀ c : UInt8, c.toNat < 16 → keypad.isHeld c =
        if before.isHeld c ≠ now.isHeld c then now.isHeld c else m.keypad.isHeld c := by
  obtain ⟨keypad, htake, hheld⟩ := Keypad.takeAll_between before now m.keypad
  obtain ⟨registers, state, hdeliver⟩ := deliverAll_of_takeAll htake
  exact ⟨keypad, registers, state, hdeliver, hheld⟩

end Session

end Chip8
