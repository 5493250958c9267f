/-!
# Pacing

A pacer turns elapsed time into a number of events due at a fixed rate.  Times
are nanoseconds from some origin.  Whole periods are counted and the rest is
carried over; a backlog of more than a quarter of a second is dropped.
-/

namespace Chip8

/-- Counts the events of a fixed rate. -/
structure Pacer where
  /-- Nanoseconds from one event to the next. -/
  period : Nat
  /-- The time up to which events have been handed out. -/
  last : Nat
  /-- The most events that are handed out at once. -/
  backlog : Nat
  deriving DecidableEq, Repr

namespace Pacer

/-- Nanoseconds in a second. -/
def second : Nat := 1000000000

/-- A pacer of `hz` events a second, at least one, that starts at `now`. -/
def start (hz : UInt32) (now : Nat) : Pacer where
  period := second / max hz.toNat 1
  last := now
  backlog := max (max hz.toNat 1 / 4) 1

/-- Begin anew at `now`, so that the time before it brings no events. -/
def restart (p : Pacer) (now : Nat) : Pacer :=
  { p with last := now }

/-- The whole periods between the last event and `now`, as a 64-bit number.
A time before the last event brings none, and a period of zero counts as one
nanosecond. -/
def pending (p : Pacer) (now : Nat) : Nat :=
  (now - p.last) / max p.period 1 % 0x10000000000000000

/-- The number of events to hand out at `now`, and the pacer afterwards. -/
def due (p : Pacer) (now : Nat) : Nat × Pacer :=
  if p.backlog < p.pending now then
    (p.backlog, { p with last := now })
  else
    (p.pending now, { p with last := p.last + p.period * p.pending now })

end Pacer

end Chip8
