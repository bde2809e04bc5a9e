import ChainLedger.Text.Digits

/-!
# Numerals

The number literals of a JSON text, kept digit by digit, and the three questions a reader asks
of one: which integer of 64 bits it is, whether it is an integer at all, and whether its value
is beyond every double. The last question is decided in exact arithmetic: a literal is cut to
the digits that fit 64 bits and a power of ten, each of the two is rounded to 53 bits, and the
product overflows from the midpoint behind the greatest double on.
-/

set_option autoImplicit false

namespace ChainLedger.Json

structure Exponent where
  negative : Bool
  digits : List Char
  deriving DecidableEq, Repr

structure Numeral where
  negative : Bool := false
  integer : List Char
  fraction : List Char := []
  exponent : Option Exponent := none
  deriving DecidableEq, Repr

namespace Numeral

def ofInt (number : Int) : Numeral :=
  { negative := number < 0, integer := Text.digitsOf number.natAbs }

def isWhole (numeral : Numeral) : Bool :=
  numeral.fraction.isEmpty && numeral.exponent.isNone

def magnitude (numeral : Numeral) : Nat :=
  Text.digitsValue numeral.integer

def natural? (numeral : Numeral) : Option Nat :=
  if numeral.isWhole && !numeral.negative && numeral.magnitude < UInt64.size then
    some numeral.magnitude
  else none

/-- The value of an integer literal that fits 64 bits, with or without a sign. A negative zero
is no integer. -/
def integer? (numeral : Numeral) : Option Int :=
  if numeral.negative then
    let value : Int := -(numeral.magnitude : Int)
    if numeral.isWhole && value < 0 && Int64.minValue.toInt ≤ value then some value else none
  else numeral.natural?.map Int.ofNat

structure Significand where
  value : Nat := 0
  full : Bool := false
  dropped : Nat := 0
  places : Nat := 0

namespace Significand

/-- A digit before the point: once one does not fit, it and the following are only counted. -/
def integerDigit (significand : Significand) (digit : Char) : Significand :=
  let next := significand.value * 10 + (digit.toNat - '0'.toNat)
  if significand.full || UInt64.size ≤ next then
    { significand with full := true, dropped := significand.dropped + 1 }
  else { significand with value := next }

/-- A digit behind the point: once one does not fit, it and the following are ignored. -/
def fractionDigit (significand : Significand) (digit : Char) : Significand :=
  let next := significand.value * 10 + (digit.toNat - '0'.toNat)
  if significand.full || UInt64.size ≤ next then { significand with full := true }
  else { significand with value := next, places := significand.places + 1 }

end Significand

def significand (numeral : Numeral) : Significand :=
  let whole := numeral.integer.foldl Significand.integerDigit {}
  numeral.fraction.foldl Significand.fractionDigit { whole with full := false }

/-- A number rounded to 53 significant bits, a half to the even neighbour. -/
def roundBits (number : Nat) : Nat :=
  let excess := number.log2 + 1 - 53
  let unit := Nat.pow 2 excess
  let quotient := number / unit
  let twice := 2 * (number % unit)
  if unit < twice ∨ (twice = unit ∧ quotient % 2 = 1) then (quotient + 1) * unit
  else quotient * unit

/-- From here on the nearest double is infinite: the midpoint between the greatest double and the
power of two that would follow it. -/
def overflowBound : Nat := Nat.pow 2 1024 - Nat.pow 2 970

def overflows (value : Nat) (power : Int) : Bool :=
  value != 0 && match power with
    | .negSucc _ => false
    | .ofNat exponent =>
      308 < exponent
        || overflowBound ≤ roundBits value * roundBits (Text.powerOfTen exponent)

def isTooLarge (numeral : Numeral) : Bool :=
  let significand := numeral.significand
  let power : Int := (significand.dropped : Int) - significand.places
  match numeral.exponent with
  | none => overflows significand.value power
  | some exponent =>
    let amount := Text.digitsValue exponent.digits
    if Int32.maxValue.toInt < amount then significand.value != 0 && !exponent.negative
    else overflows significand.value (if exponent.negative then power - amount else power + amount)

def text (numeral : Numeral) : List Char :=
  (if numeral.negative then ['-'] else []) ++ numeral.integer
    ++ (if numeral.fraction.isEmpty then [] else '.' :: numeral.fraction)
    ++ match numeral.exponent with
      | none => []
      | some exponent => 'e' :: (if exponent.negative then ['-'] else []) ++ exponent.digits

end Numeral
end ChainLedger.Json
