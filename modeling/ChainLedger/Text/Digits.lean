/-!
# Runs of decimal digits

Digit runs and the numbers they denote, and the numerals with which settings and query
parameters are written: an optional sign, then digits, within a range.
-/

set_option autoImplicit false

namespace ChainLedger.Text

def digitsValue (digits : List Char) : Nat :=
  Nat.ofDigitChars 10 digits 0

def digitsOf (number : Nat) : List Char :=
  Nat.toDigits 10 number

def powerOfTen (zeros : Nat) : Nat := Nat.pow 10 zeros

theorem powerOfTen_succ (zeros : Nat) : powerOfTen (zeros + 1) = powerOfTen zeros * 10 := rfl

theorem powerOfTen_add (first second : Nat) :
    powerOfTen (first + second) = powerOfTen first * powerOfTen second :=
  Nat.pow_add 10 first second

theorem digitsValue_digitsOf (number : Nat) : digitsValue (digitsOf number) = number :=
  Nat.ofDigitChars_ten_toDigits

def isDigitRun (text : String) : Bool :=
  !text.toList.isEmpty && text.toList.all Char.isDigit

def integerText (number : Int) : List Char :=
  match number with
  | .ofNat magnitude => digitsOf magnitude
  | .negSucc magnitude => '-' :: digitsOf (magnitude + 1)

def readDigits? (digits : List Char) : Option Nat :=
  if !digits.isEmpty && digits.all Char.isDigit then some (digitsValue digits) else none

/-- Reads an unsigned numeral below `size`; a leading plus sign is allowed. -/
def readUnsigned? (size : Nat) (text : String) : Option Nat :=
  let digits := match text.toList with
    | '+' :: rest => rest
    | characters => characters
  (readDigits? digits).filter (· < size)

def readSigned32? (text : String) : Option Int32 :=
  let number : Option Int := match text.toList with
    | '+' :: rest => (readDigits? rest).map Int.ofNat
    | '-' :: rest => (readDigits? rest).map fun magnitude => -(magnitude : Int)
    | characters => (readDigits? characters).map Int.ofNat
  let fits (value : Int) : Bool :=
    Int32.minValue.toInt ≤ value ∧ value ≤ Int32.maxValue.toInt
  (number.filter fits).map Int32.ofInt

end ChainLedger.Text
