import ChainLedger.Text.Digits

/-!
# Amounts

The value of a mint or burn as it is reported: a run of digits that denotes an amount. Amounts
above a ceiling are taken for corrupt reports and left out of the ledger. Once leading zeros are
dropped, a run that is longer than the ceiling is above it, so that only runs that fit a word of 64
bits are read as one.
-/

set_option autoImplicit false

namespace ChainLedger.Ledger

def amountCeiling : Nat := 100000000000000000

inductive Amount
  | invalid
  | overCeiling
  | accepted (amount : Nat)
  deriving DecidableEq, Repr

def significantDigits (digits : List Char) : List Char :=
  digits.dropWhile (· = '0')

/-- Reads the digits that remain as a word of 64 bits. If none remain, the amount is zero. -/
def readSignificant? (digits : List Char) : Option Nat :=
  if digits.isEmpty then some 0
  else Text.readUnsigned? UInt64.size (String.ofList digits)

def Amount.read (text : String) : Amount :=
  if Text.isDigitRun text then
    let digits := significantDigits text.toList
    if 18 < digits.length then .overCeiling
    else
      match readSignificant? digits with
      | none => .invalid
      | some amount => if amountCeiling < amount then .overCeiling else .accepted amount
  else .invalid

end ChainLedger.Ledger
