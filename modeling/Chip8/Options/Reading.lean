import Chip8.Options
import Chip8.Text.Numeral

/-!
# Reading option values

The texts that stand for a colour, a scale, a speed and a seed, and what is
reported of a text that does not.

* a colour is three pairs of hexadecimal digits, with `#` or `0x` in front or
  neither; a pair is read as an integer, so its first place may be a plus sign;
* a scale is one of the powers of two from 1 to 32;
* a speed is a 64-bit integer from 0 to 2^32 - 1;
* a seed is a 64-bit integer without a sign other than `+`.
-/

namespace Chip8

/-- Why a text is no value of an option. -/
inductive ReadingError where
  /-- A colour without exactly six ASCII characters behind its mark. -/
  | notSixDigits (text : String)
  /-- A colour with a pair that is no number. -/
  | badColor (text : String) (reason : NumeralError)
  /-- A scale that windows do not have. -/
  | badScale (text : String)
  /-- A speed that is an integer but not a possible one. -/
  | speedOutOfRange (value : Int)
  /-- A speed or seed that is no integer. -/
  | badNumeral (reason : NumeralError)
  deriving DecidableEq, Repr

/-- The reason as reported to the user. -/
def ReadingError.message : ReadingError → String
  | .notSixDigits text => s!"expected six hex digits, got '{text}'"
  | .badColor text reason => s!"bad colour '{text}': {reason.message}"
  | .badScale text => s!"scale must be one of 1, 2, 4, 8, 16, 32, got '{text}'"
  | .speedOutOfRange value => s!"{value} is not in 0..=4294967295"
  | .badNumeral reason => reason.message

/-- The digits of a colour, without the mark that may stand in front: one `#`,
or `0x`. -/
def colorDigits : List Char → List Char
  | '#' :: cs => cs
  | '0' :: 'x' :: cs => cs
  | cs => cs

/-- One part of a colour, from its two characters. -/
def readChannel (a b : Char) : Except NumeralError UInt8 :=
  (readUnsigned 16 255 [a, b]).map (·.toUInt8)

/-- The colour made of three pairs of characters. -/
def readChannels (r₁ r₀ g₁ g₀ b₁ b₀ : Char) : Except NumeralError Color := do
  let red ← readChannel r₁ r₀
  let green ← readChannel g₁ g₀
  let blue ← readChannel b₁ b₀
  return .ofRgb red green blue

/-- The colour that a text stands for. -/
def readColor (text : String) : Except ReadingError Color :=
  match colorDigits text.toList with
  | [r₁, r₀, g₁, g₀, b₁, b₀] =>
      if [r₁, r₀, g₁, g₀, b₁, b₀].all (·.toNat < 128) then
        (readChannels r₁ r₀ g₁ g₀ b₁ b₀).mapError (.badColor text)
      else .error (.notSixDigits text)
  | _ => .error (.notSixDigits text)

/-- The scales that a window can have. -/
def scales : List UInt8 :=
  [1, 2, 4, 8, 16, 32]

/-- The scale that a text stands for. -/
def readScale (text : String) : Except ReadingError UInt8 :=
  match readUnsigned 10 255 text.toList with
  | .ok n => if n.toUInt8 ∈ scales then .ok n.toUInt8 else .error (.badScale text)
  | .error _ => .error (.badScale text)

/-- The speed that a text stands for. -/
def readSpeed (text : String) : Except ReadingError UInt32 :=
  match readSigned 10 0x8000000000000000 0x7FFFFFFFFFFFFFFF text.toList with
  | .ok value =>
      if 0 ≤ value ∧ value < 0x100000000 then .ok value.toNat.toUInt32
      else .error (.speedOutOfRange value)
  | .error reason => .error (.badNumeral reason)

/-- The seed that a text stands for. -/
def readSeed (text : String) : Except ReadingError UInt64 :=
  match readUnsigned 10 0xFFFFFFFFFFFFFFFF text.toList with
  | .ok n => .ok n.toUInt64
  | .error reason => .error (.badNumeral reason)

end Chip8
