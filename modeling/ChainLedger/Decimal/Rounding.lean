import ChainLedger.Decimal.Basic

/-!
# Rounding

Dropping digits at the end of a coefficient gives the nearest coefficient with fewer digits. Two
neighbours can be equally near; then either the greater or the even one is taken.
-/

set_option autoImplicit false

namespace ChainLedger.Decimal

inductive Tie
  | upward
  | toEven
  deriving DecidableEq, Repr

def roundOff (tie : Tie) (coefficient places : Nat) : Nat :=
  let unit := Text.powerOfTen places
  let kept := coefficient / unit
  let dropped := coefficient % unit
  if unit < 2 * dropped ∨ unit = 2 * dropped ∧ (tie = .upward ∨ kept % 2 = 1) then kept + 1
  else kept

theorem roundOff_zero (tie : Tie) (coefficient : Nat) :
    roundOff tie coefficient 0 = coefficient := by
  simp [roundOff, Text.powerOfTen, Nat.mod_one]

end ChainLedger.Decimal
