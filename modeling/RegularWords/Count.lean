import RegularWords.InputError
import RegularWords.Text.Blank

/-!
Word counts: positive numbers below 2 ^ 63, read from decimal text.

White space around the number is ignored and one sign may stand before its digits.  Digits are read
from the left, and a number leaves the range of signed 64-bit integers as soon as the digits read so
far do, whatever follows them.
-/

namespace RegularWords

structure Count where
  number : Nat
  positive : 0 < number
  deriving DecidableEq

namespace Count

def largest : Nat := Nat.pow 2 63 - 1

/-- The largest absolute value of a negative number. -/
def largestBelowZero : Nat := Nat.pow 2 63

inductive Magnitude where
  | number (value : Nat)
  | tooLarge
  /-- There is no digit, or a character that is none. -/
  | malformed
  deriving DecidableEq

def magnitudeFrom (limit value : Nat) : List Char → Magnitude
  | [] => .number value
  | digit :: digits =>
      if digit.isDigit then
        let value := 10 * value + (digit.toNat - '0'.toNat)
        if limit < value then .tooLarge else magnitudeFrom limit value digits
      else
        .malformed

/-- The value of decimal digits, at most `limit`. -/
def magnitude (limit : Nat) : List Char → Magnitude
  | [] => .malformed
  | digits => magnitudeFrom limit 0 digits

def ofDigits (text : String) (digits : List Char) : Except InputError Count :=
  match magnitude largest digits with
  | .malformed => .error (.invalidCount text)
  | .tooLarge => .error (.countTooLarge text)
  | .number value =>
      if positive : 0 < value then
        .ok { number := value, positive := positive }
      else
        .error (.nonPositiveCount text)

/-- Reads digits behind a minus sign: no count, for one of two reasons. -/
def refuseNegative (text : String) (digits : List Char) : InputError :=
  match magnitude largestBelowZero digits with
  | .malformed => .invalidCount text
  | _ => .nonPositiveCount text

/-- Reads a count; an error carries the trimmed text. -/
def ofText (text : String) : Except InputError Count :=
  let trimmed := Text.trimmed text.toList
  let shown := String.ofList trimmed
  match trimmed with
  | '+' :: digits => ofDigits shown digits
  | '-' :: digits => .error (refuseNegative shown digits)
  | digits => ofDigits shown digits

end Count

end RegularWords
