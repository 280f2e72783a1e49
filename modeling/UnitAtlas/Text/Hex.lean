-- Hexadecimal text of bytes and words.

namespace UnitAtlas.Hex

def lowerDigits : List Char :=
  ['0', '1', '2', '3', '4', '5', '6', '7', '8', '9', 'a', 'b', 'c', 'd', 'e', 'f']

def upperDigits : List Char :=
  ['0', '1', '2', '3', '4', '5', '6', '7', '8', '9', 'A', 'B', 'C', 'D', 'E', 'F']

/-- The two digits of a byte, the high one first. -/
def pair (digits : List Char) (b : UInt8) : List Char :=
  [digits.getD (b.toNat / 16) '0', digits.getD (b.toNat % 16) '0']

/-- Two lower-case digits a byte. -/
def lower (bytes : List UInt8) : String := String.ofList (bytes.flatMap (pair lowerDigits))

/-- Two upper-case digits a byte. -/
def upper (bytes : List UInt8) : String := String.ofList (bytes.flatMap (pair upperDigits))

/-- The value of a digit in a base up to 36; none for other characters. -/
def digitValue? (base : Nat) (c : Char) : Option Nat :=
  let value? :=
    if '0' ≤ c ∧ c ≤ '9' then some (c.toNat - '0'.toNat)
    else if 'a' ≤ c ∧ c ≤ 'z' then some (c.toNat - 'a'.toNat + 10)
    else if 'A' ≤ c ∧ c ≤ 'Z' then some (c.toNat - 'A'.toNat + 10)
    else none
  value?.filter (· < base)

/-- The bytes of a text of digit pairs. -/
def decode? : List Char → Option (List UInt8)
  | [] => some []
  | h :: l :: rest => do
    let high ← digitValue? 16 h
    let low ← digitValue? 16 l
    let bytes ← decode? rest
    return (high * 16 + low).toUInt8 :: bytes
  | [_] => none

end UnitAtlas.Hex
