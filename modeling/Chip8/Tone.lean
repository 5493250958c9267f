/-!
# The tone

A 440 Hz tone sounds while the sound timer runs.  The oscillator advances by
one sample at every call, whether the tone is on or not, so that it does not
click when it comes back in the middle of a wave.  All its arithmetic is in
single precision.

The output is cut into frames of one sample per channel.  Each frame takes one
value from the oscillator and repeats it (`fillFrames`), in the format that the
audio device wants (`SampleFormat`).
-/

namespace Chip8

/-- The phase of a tone, in samples, and the samples per second. -/
structure Oscillator where
  clock : Float32
  rate : Float32

namespace Oscillator

/-- An oscillator at the start of a wave. -/
def start (rate : Float32) : Oscillator where
  clock := 0
  rate := rate

/-- The frequency of the tone. -/
def frequency : Float32 := 440

/-- The height of the wave. -/
def amplitude : Float32 := 0.2

/-- The ratio of circumference to diameter. -/
def pi : Float32 := 3.14159265358979323846264338327950288

/-- The remainder of `x` after the whole multiples of `y`, for `x` up to a few
times `y`. -/
def remainder (x y : Float32) : Float32 :=
  x - y * (x / y).floor

/-- One sample later. -/
def advance (o : Oscillator) : Oscillator :=
  { o with clock := remainder (o.clock + 1) o.rate }

/-- The height of the wave at the present phase. -/
def sample (o : Oscillator) : Float32 :=
  amplitude * (o.clock * frequency * 2 * pi / o.rate).sin

/-- The next value, silence while the tone is off, and the oscillator one
sample later. -/
def next (isOn : Bool) (o : Oscillator) : Float32 × Oscillator :=
  let o := o.advance
  (if isOn then o.sample else 0, o)

end Oscillator

/-- The kinds of samples that audio devices take. -/
inductive SampleFormat where
  /-- Integers of a number of bits, with a sign or shifted above zero. -/
  | integer (bits : Nat) (signed : Bool)
  /-- Numbers from -1 to 1. -/
  | float
  deriving DecidableEq, Repr

/-- One sample as an audio device takes it. -/
inductive Sample where
  | integer (value : Int)
  | float (value : Float32)

namespace SampleFormat

/-- A value from -1 to 1 in a format.  An integer is the value times half the
range, with the fraction dropped; without a sign, half the range is added. -/
def convert (format : SampleFormat) (value : Float32) : Sample :=
  match format with
  | .float => .float value
  | .integer bits signed =>
      let half := Nat.pow 2 (bits - 1)
      let scaled := (value * Float32.ofNat half).toInt64.toInt
      .integer (if signed then scaled else scaled + half)

end SampleFormat

/-- A buffer of `length` samples in frames of `channels` samples, the last one
perhaps shorter.  Every frame repeats one converted value of the source.  Gives
the buffer, and the source behind the last value taken. -/
def fillFrames {σ α β : Type} (convert : α → β) (next : σ → α × σ) (channels : Nat)
    (length : Nat) (source : σ) : List β × σ :=
  if _h : length = 0 ∨ channels = 0 then ([], source)
  else
    let (value, source) := next source
    let (rest, source) := fillFrames convert next channels (length - channels) source
    (List.replicate (min channels length) (convert value) ++ rest, source)
termination_by length

end Chip8
