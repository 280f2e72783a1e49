-- Doubles by their bits: 52 bits of fraction, 11 bits of exponent, a sign.

namespace UnitAtlas.Double

/-! ## The nearest double of a fraction -/

def fractionBits : Nat := 52

def infinity : UInt64 := 0x7ff0000000000000

def notANumber : UInt64 := 0x7ff8000000000000

def signBit : UInt64 := 0x8000000000000000

/-- The exponent of the smallest doubles. -/
def leastExponent : Int := -1074

/-- `num / den` rounded to a whole number, a half to the even neighbour. -/
def roundHalfEven (num den : Nat) : Nat :=
  let q := num / den
  let r := num % den
  if 2 * r < den then q
  else if 2 * r = den then q + q % 2
  else q + 1

/-- `num / den` in units of 2 to the `q`. -/
def inUnits (num den : Nat) (q : Int) : Nat × Nat :=
  if 0 ≤ q then (num, den <<< q.toNat) else (num <<< (-q).toNat, den)

/-- The exponent of the unit of the double nearest to `num / den`: a value of 53 bits counts
in it, unless the value is too small for that. -/
def unitExponent (num den : Nat) : Int :=
  let guess : Int := (num.log2 : Int) - den.log2 - fractionBits
  let (n, d) := inUnits num den guess
  max (if n / d < 1 <<< fractionBits then guess - 1 else guess) leastExponent

/-- The bits of the double nearest to `num / den`, both positive. -/
def nearest (num den : Nat) : UInt64 :=
  let q := unitExponent num den
  let (n, d) := inUnits num den q
  let mantissa := roundHalfEven n d
  if mantissa < 1 <<< fractionBits then UInt64.ofNat mantissa
  else
    let bits := (q - leastExponent).toNat <<< fractionBits + mantissa
    if bits < infinity.toNat then UInt64.ofNat bits else infinity

/-! ## Decimals -/

/-- No finite double reaches 10 to this power, and none but zero stays below its inverse. -/
def decimalReach : Int := 400

/-- The double nearest to `mantissa` times 10 to the `exponent`. -/
def ofDecimal (mantissa : Nat) (exponent : Int) : UInt64 :=
  if mantissa = 0 then 0
  else
    let size : Int := ((Nat.toDigits 10 mantissa).length : Int) + exponent
    if decimalReach < size then infinity
    else if size < -decimalReach then 0
    else if 0 ≤ exponent then nearest (mantissa * Nat.pow 10 exponent.toNat) 1
    else nearest mantissa (Nat.pow 10 (-exponent).toNat)

/-! ## Reading -/

def digitsValue (cs : List Char) : Nat := cs.foldl (fun n c => n * 10 + (c.toNat - '0'.toNat)) 0

/-- The exponent at the end of a decimal: nothing, or `e` with a signed number. -/
def exponent? : List Char → Option Int
  | [] => some 0
  | e :: cs =>
    if e ≠ 'e' ∧ e ≠ 'E' then none
    else
      let (negative, ds) := match cs with
        | '-' :: ds => (true, ds)
        | '+' :: ds => (false, ds)
        | ds => (false, ds)
      if ds.isEmpty ∨ ds.any (!·.isDigit) then none
      else if negative then some (-(digitsValue ds : Int)) else some (digitsValue ds)

/-- A decimal without a sign: digits with or without a point among them, and an exponent. -/
def magnitude? (cs : List Char) : Option UInt64 :=
  let whole := cs.takeWhile Char.isDigit
  let afterWhole := cs.dropWhile Char.isDigit
  let (fraction, rest) := match afterWhole with
    | '.' :: ds => (ds.takeWhile Char.isDigit, ds.dropWhile Char.isDigit)
    | ds => ([], ds)
  if whole.isEmpty && fraction.isEmpty then none
  else
    (exponent? rest).map fun e =>
      ofDecimal (digitsValue (whole ++ fraction)) (e - fraction.length)

/-- The words for values that are no decimals. -/
def special? (cs : List Char) : Option UInt64 :=
  match String.ofList (cs.map Char.toLower) with
  | "inf" => some infinity
  | "infinity" => some infinity
  | "nan" => some notANumber
  | _ => none

/-- The bits that a text stands for; none when it is no number. -/
def ofChars? (cs : List Char) : Option UInt64 :=
  let unsigned (ds : List Char) := (magnitude? ds).or (special? ds)
  match cs with
  | '-' :: ds => (unsigned ds).map (· ||| signBit)
  | '+' :: ds => unsigned ds
  | ds => unsigned ds

/-! ## Comparison -/

/-- Whether two doubles are equal as numbers: zeros of both signs are, and a value that is
not a number equals nothing. -/
def same (a b : UInt64) : Bool :=
  let magnitude (x : UInt64) := x &&& ~~~signBit
  !(infinity < magnitude a) && !(infinity < magnitude b)
    && (a == b || (magnitude a == 0 && magnitude b == 0))

end UnitAtlas.Double
