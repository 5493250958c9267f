import Chip8.Error

/-!
# The keypad

Sixteen keys with the codes 0 to 15, each held or not.  A host reports which
keys are down as a list of codes; `KeyEvent.between` turns two such states into
the presses and releases that lead from one to the other.
-/

namespace Chip8

/-- Which keys are held. -/
structure Keypad where
  keys : Vector Bool 16
  deriving DecidableEq, Repr

namespace Keypad

/-- No key held. -/
def idle : Keypad :=
  ⟨Vector.replicate 16 false⟩

/-- Whether the key with this code is held; a code without a key never is. -/
def isHeld (k : Keypad) (code : UInt8) : Bool :=
  if h : code.toNat < 16 then k.keys[code.toNat] else false

/-- Record that a key is held or not. -/
def setKey (k : Keypad) (code : UInt8) (held : Bool) : Except MachineError Keypad :=
  if h : code.toNat < 16 then .ok ⟨k.keys.set code.toNat held⟩ else .error (.notAKey code)

/-- A key goes down. -/
def press (k : Keypad) (code : UInt8) : Except MachineError Keypad :=
  k.setKey code true

/-- A key goes up. -/
def release (k : Keypad) (code : UInt8) : Except MachineError Keypad :=
  k.setKey code false

/-- The codes of all keys, in ascending order. -/
def codes : List UInt8 :=
  (List.range 16).map (·.toUInt8)

/-- The codes of the held keys, in ascending order. -/
def held (k : Keypad) : List UInt8 :=
  codes.filter k.isHeld

/-- The keypad on which exactly the listed keys are held.  Of a code the low
four bits count. -/
def ofCodes (down : List UInt8) : Keypad :=
  ⟨Vector.ofFn fun key => down.any fun code => code.toNat % 16 == key.val⟩

/-- On the idle keypad no key is held, whatever the code. -/
@[simp] theorem isHeld_idle (code : UInt8) : idle.isHeld code = false := by
  simp [isHeld, idle]

/-- Recording a key changes that key alone. -/
theorem isHeld_setKey {k k' : Keypad} {code other : UInt8} {held : Bool}
    (h : k.setKey code held = .ok k') :
    k'.isHeld other = if other = code then held else k.isHeld other := by
  unfold setKey at h
  split at h
  · next hlt =>
      cases h
      by_cases hc : other = code
      · subst hc; simp [isHeld, hlt]
      · have : code.toNat ≠ other.toNat := fun e => hc (UInt8.toNat_inj.1 e.symm)
        by_cases ho : other.toNat < 16 <;> simp [isHeld, hc, ho, this]
  · cases h

/-- A key is held on the keypad of a list of codes if a code of the list has
its number in the low four bits. -/
theorem isHeld_ofCodes {down : List UInt8} {code : UInt8} (h : code.toNat < 16) :
    (ofCodes down).isHeld code = down.any fun c => c.toNat % 16 == code.toNat := by
  simp [isHeld, ofCodes, h]

end Keypad

/-- A key of the keypad going down or up. -/
inductive KeyEvent where
  | down (code : UInt8)
  | up (code : UInt8)
  deriving DecidableEq, Repr

namespace KeyEvent

/-- The event that leads from one state of a key to another, if they differ. -/
def ofChange (code : UInt8) (before now : Bool) : Option KeyEvent :=
  if before == now then none
  else if now then some (.down code)
  else some (.up code)

/-- The events that lead from one state of the keypad to another, by ascending
code. -/
def between (before now : Keypad) : List KeyEvent :=
  Keypad.codes.filterMap fun code => ofChange code (before.isHeld code) (now.isHeld code)

end KeyEvent

end Chip8
