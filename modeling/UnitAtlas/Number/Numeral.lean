-- Whole numbers written in a base: an optional sign and at least one digit.
import UnitAtlas.Text.Hex

namespace UnitAtlas

/-- What is wrong with a numeral. -/
inductive NumeralError where
  | empty
  | invalidDigit
  | tooLarge
  deriving Repr, DecidableEq

def NumeralError.message : NumeralError → String
  | .empty => "cannot parse integer from empty string"
  | .invalidDigit => "invalid digit found in string"
  | .tooLarge => "number too large to fit in target type"

namespace Numeral

/-- `value` with more digits behind it. The first character that is no digit, or the first
that takes the value to `bound`, ends the reading. -/
def digits (base bound value : Nat) : List Char → Except NumeralError Nat
  | [] => .ok value
  | c :: cs =>
    match Hex.digitValue? base c with
    | none => .error .invalidDigit
    | some d =>
      if value * base + d < bound then digits base bound (value * base + d) cs
      else .error .tooLarge

/-- A run of at least one digit, of a value below `bound`. -/
def unsigned (base bound : Nat) : List Char → Except NumeralError Nat
  | [] => .error .invalidDigit
  | c :: cs => digits base bound 0 (c :: cs)

/-- A number below `bound`; a plus may stand before it. -/
def natural (base bound : Nat) : List Char → Except NumeralError Nat
  | [] => .error .empty
  | '+' :: cs => unsigned base bound cs
  | cs => unsigned base bound cs

/-- Machine words are below this bound. -/
def wordBound : Nat := 0x10000000000000000

/-- A machine word in decimal digits. -/
def word (text : String) : Except NumeralError Nat := natural 10 wordBound text.toList

/-- Signed words reach up to, not including, this bound, and down to its negative. -/
def signedBound : Nat := 0x8000000000000000

/-- A signed word. -/
def signed (base : Nat) : List Char → Except NumeralError Int
  | '-' :: cs => (unsigned base (signedBound + 1) cs).map fun n => -(n : Int)
  | cs => (natural base signedBound cs).map Int.ofNat

end Numeral

end UnitAtlas
