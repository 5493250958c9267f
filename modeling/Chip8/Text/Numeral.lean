/-!
# Reading integers

An integer is read from left to right, and the first thing that is wrong is
what gets reported: a character that is no digit, or the digit at which the
number leaves its range.  One sign in front is allowed where the grammar says
so, but never a sign alone.

* `readUnsigned` — digits, with an optional `+`;
* `readSigned` — digits, with an optional `+` or `-`.
-/

namespace Chip8

/-- What can be wrong with the text of an integer. -/
inductive NumeralError where
  /-- There is no character at all. -/
  | empty
  /-- A character is not a digit of the base, or a sign stands alone. -/
  | invalidDigit
  /-- The number is above the range. -/
  | tooLarge
  /-- The number is below the range. -/
  | tooSmall
  deriving DecidableEq, Repr

/-- The reason as reported to the user. -/
def NumeralError.message : NumeralError → String
  | .empty => "cannot parse integer from empty string"
  | .invalidDigit => "invalid digit found in string"
  | .tooLarge => "number too large to fit in target type"
  | .tooSmall => "number too small to fit in target type"

/-- The value of an ASCII digit; the letters `a` to `z` stand for 10 to 35 in
either case. -/
def digitValue (c : Char) : Option Nat :=
  if '0' ≤ c ∧ c ≤ '9' then some (c.toNat - '0'.toNat)
  else if 'a' ≤ c ∧ c ≤ 'z' then some (c.toNat - 'a'.toNat + 10)
  else if 'A' ≤ c ∧ c ≤ 'Z' then some (c.toNat - 'A'.toNat + 10)
  else none

/-- The value of a digit in `base`, if the character is one. -/
def digitIn (base : Nat) (c : Char) : Option Nat :=
  (digitValue c).filter (· < base)

/-- Append the digits `cs` to the number `acc`.  The magnitude may not pass
`limit`; the first digit that makes it do so is reported as `outOfRange`. -/
def appendDigits (base limit : Nat) (outOfRange : NumeralError) :
    Nat → List Char → Except NumeralError Nat
  | acc, [] => .ok acc
  | acc, c :: cs =>
      match digitIn base c with
      | none => .error .invalidDigit
      | some d =>
          if acc * base + d ≤ limit then appendDigits base limit outOfRange (acc * base + d) cs
          else .error outOfRange

/-- Read an integer from 0 to `limit`: digits with an optional `+` in front. -/
def readUnsigned (base limit : Nat) : List Char → Except NumeralError Nat
  | [] => .error .empty
  | ['+'] => .error .invalidDigit
  | '+' :: cs => appendDigits base limit .tooLarge 0 cs
  | cs => appendDigits base limit .tooLarge 0 cs

/-- Read an integer from `-lowest` to `highest`: digits with an optional sign
in front. -/
def readSigned (base lowest highest : Nat) : List Char → Except NumeralError Int
  | [] => .error .empty
  | ['+'] | ['-'] => .error .invalidDigit
  | '-' :: cs => (appendDigits base lowest .tooSmall 0 cs).map fun n => -(n : Int)
  | '+' :: cs => (appendDigits base highest .tooLarge 0 cs).map Int.ofNat
  | cs => (appendDigits base highest .tooLarge 0 cs).map Int.ofNat

end Chip8
