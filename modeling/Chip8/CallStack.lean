import Chip8.Error

/-!
# The call stack

Sixteen slots for return addresses, of which the first `depth` are live.  What
lies in the other slots is kept but never read.
-/

namespace Chip8

/-- The return addresses of the calls under way. -/
structure CallStack where
  slots : Vector Address 16
  depth : Nat
  depth_le : depth ≤ 16 := by omega
  deriving DecidableEq, Repr

namespace CallStack

/-- No call under way, all slots zero. -/
def empty : CallStack where
  slots := Vector.replicate 16 0
  depth := 0

/-- Sixteen calls under way, all of which return to `a`. -/
def full (a : Address) : CallStack where
  slots := Vector.replicate 16 a
  depth := 16

/-- Whether there is nothing to return to. -/
def isEmpty (s : CallStack) : Bool :=
  s.depth == 0

/-- The live addresses, the latest first. -/
def toList (s : CallStack) : List Address :=
  (s.slots.toList.take s.depth).reverse

/-- Enter a call that will return to `a`. -/
def push (s : CallStack) (a : Address) : Except MachineError CallStack :=
  if h : s.depth < 16 then
    .ok { slots := s.slots.set s.depth a, depth := s.depth + 1 }
  else
    .error .stackOverflow

/-- Leave the latest call: its return address and the stack without it. -/
def pop (s : CallStack) : Except MachineError (Address × CallStack) :=
  match h : s.depth with
  | 0 => .error .stackUnderflow
  | d + 1 =>
      have := s.depth_le
      .ok (s.slots[d], { s with depth := d, depth_le := by omega })

/-- A new call stack holds no return address. -/
@[simp] theorem toList_empty : empty.toList = [] := by
  simp [toList, empty]

/-- A call that finds room puts its return address in front. -/
theorem toList_push {s s' : CallStack} {a : Address} (h : s.push a = .ok s') :
    s'.toList = a :: s.toList := by
  unfold push at h
  split at h
  · next hlt =>
      cases h
      have hset : (s.slots.toList.set s.depth a).take s.depth = s.slots.toList.take s.depth := by
        rw [List.take_set_of_le (Nat.le_refl _)]
      have hget : (s.slots.toList.set s.depth a)[s.depth]? = some a := by
        simp [hlt]
      simp only [toList, Vector.toList_set, List.take_add_one, hset, hget]
      simp
  · cases h

/-- A return that finds a call takes the address in front. -/
theorem toList_pop {s s' : CallStack} {a : Address} (h : s.pop = .ok (a, s')) :
    s.toList = a :: s'.toList := by
  unfold pop at h
  split at h
  · cases h
  · next d hd =>
      have := s.depth_le
      cases h
      have hget : s.slots.toList[d]? = some s.slots[d] := by
        simp [show d < 16 by omega]
      simp only [toList, hd, List.take_add_one, hget]
      simp

end CallStack

end Chip8
