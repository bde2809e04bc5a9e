import ChainLedger.Text.Digits

/-!
# Decimals

A decimal is a sign, a coefficient and a scale, the number of digits behind the point. The scale
is kept by reading and negating, so one number has several decimals; the normal form drops the
zeros that end the fraction, and there zero has no sign.

A decimal that is read fits 96 bits and has a scale of at most 28.
-/

set_option autoImplicit false

namespace ChainLedger

structure Decimal where
  negative : Bool := false
  coefficient : Nat
  scale : Nat := 0
  deriving DecidableEq, Repr, Inhabited

namespace Decimal

/-- The coefficients that fit are below this bound, two to the power of 96. -/
def coefficientBound : Nat := 79228162514264337593543950336

def greatestScale : Nat := 28

def zero : Decimal := { coefficient := 0 }

def ofNat (number : Nat) : Decimal := { coefficient := number }

/-- The decimal of a signed coefficient; zero has no sign. -/
def ofSigned (coefficient : Int) (scale : Nat) : Decimal :=
  { negative := coefficient < 0, coefficient := coefficient.natAbs, scale }

def signed (decimal : Decimal) : Int :=
  if decimal.negative then -(decimal.coefficient : Int) else decimal.coefficient

/-- The signed coefficient at a scale that is at least the decimal's own. -/
def signedAt (decimal : Decimal) (scale : Nat) : Int :=
  decimal.signed * Text.powerOfTen (scale - decimal.scale)

def SameNumber (first second : Decimal) : Prop :=
  first.signed * Text.powerOfTen second.scale = second.signed * Text.powerOfTen first.scale

def isZero (decimal : Decimal) : Bool := decimal.coefficient == 0

/-- Flips the sign, also that of zero. -/
def neg (decimal : Decimal) : Decimal := { decimal with negative := !decimal.negative }

theorem signed_ofSigned (coefficient : Int) (scale : Nat) :
    (ofSigned coefficient scale).signed = coefficient := by
  simp only [ofSigned, signed, decide_eq_true_eq]
  split <;> omega

def stripZeros : Nat → Nat → Nat × Nat
  | coefficient, 0 => (coefficient, 0)
  | coefficient, scale + 1 =>
    if coefficient % 10 = 0 then stripZeros (coefficient / 10) scale
    else (coefficient, scale + 1)

theorem stripZeros_eq (coefficient scale : Nat) :
    ∃ dropped, scale = (stripZeros coefficient scale).2 + dropped ∧
      coefficient = (stripZeros coefficient scale).1 * Text.powerOfTen dropped := by
  induction scale generalizing coefficient with
  | zero => exact ⟨0, rfl, (Nat.mul_one _).symm⟩
  | succ scale ih =>
    rw [stripZeros]
    split
    next divisible =>
      obtain ⟨dropped, scaleEq, coefficientEq⟩ := ih (coefficient / 10)
      refine ⟨dropped + 1, by omega, ?_⟩
      rw [Text.powerOfTen_succ, ← Nat.mul_assoc, ← coefficientEq]
      omega
    next => exact ⟨0, rfl, (Nat.mul_one _).symm⟩

def normalize (decimal : Decimal) : Decimal :=
  let stripped := stripZeros decimal.coefficient decimal.scale
  { negative := decimal.negative && stripped.1 != 0
    coefficient := stripped.1
    scale := stripped.2 }

theorem normalize_sameNumber (decimal : Decimal) : decimal.normalize.SameNumber decimal := by
  obtain ⟨dropped, scaleEq, coefficientEq⟩ :=
    stripZeros_eq decimal.coefficient decimal.scale
  change decimal.scale = decimal.normalize.scale + dropped at scaleEq
  change decimal.coefficient = decimal.normalize.coefficient * Text.powerOfTen dropped
    at coefficientEq
  have signedEq : decimal.signed = decimal.normalize.signed * Text.powerOfTen dropped := by
    simp only [signed, coefficientEq]
    rcases Decidable.em (decimal.normalize.coefficient = 0) with isZero | nonZero
    · simp [isZero]
    · have signEq : decimal.normalize.negative = decimal.negative := by
        simpa [normalize] using fun _ => nonZero
      rw [signEq, Int.natCast_mul]
      split
      · exact (Int.neg_mul ..).symm
      · rfl
  rw [SameNumber, signedEq, scaleEq, Text.powerOfTen_add, Int.natCast_mul, Int.mul_assoc,
    Int.mul_comm (Text.powerOfTen dropped : Int)]

/-- The digits of the coefficient, led by zeros so that one stands before the point. -/
def paddedDigits (decimal : Decimal) : List Char :=
  let digits := Text.digitsOf decimal.coefficient
  List.replicate (decimal.scale + 1 - digits.length) '0' ++ digits

def characters (decimal : Decimal) : List Char :=
  let digits := decimal.paddedDigits
  let whole := digits.take (digits.length - decimal.scale)
  let fraction := digits.drop (digits.length - decimal.scale)
  (if decimal.negative then ['-'] else []) ++ whole
    ++ if fraction.isEmpty then [] else '.' :: fraction

def text (decimal : Decimal) : String := String.ofList decimal.characters

def normalText (decimal : Decimal) : String := decimal.normalize.text

end Decimal
end ChainLedger
