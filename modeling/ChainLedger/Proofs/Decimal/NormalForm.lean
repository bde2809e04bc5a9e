import ChainLedger.Proofs.Decimal.DigitRuns
import ChainLedger.Proofs.Ledger.Supply

/-!
# Normal forms of decimals

Dropping the zeros at the end of the fraction, and the sign of zero, leaves one decimal for each
number. The text of a decimal that fits is read as that decimal, unless it is a zero with a sign, so
two normal forms have the same text exactly if they are of the same number.
-/

set_option autoImplicit false

namespace ChainLedger.Decimal

/-! ## Numbers -/

def number (decimal : Decimal) : ℚ := decimal.signed / 10 ^ decimal.scale

theorem sameNumber_iff {first second : Decimal} :
    first.SameNumber second ↔ first.number = second.number := by
  have power (zeros : Nat) : (10 ^ zeros : ℚ) = ((Text.powerOfTen zeros : Int) : ℚ) := by
    simp [Text.powerOfTen]
  rw [SameNumber, number, number, div_eq_div_iff (by positivity) (by positivity), power, power]
  exact_mod_cast Iff.rfl

theorem number_normalize (decimal : Decimal) : decimal.normalize.number = decimal.number :=
  sameNumber_iff.mp decimal.normalize_sameNumber

/-- No zero ends the fraction, and zero has no sign. -/
structure Normal (decimal : Decimal) : Prop where
  fraction : decimal.scale ≠ 0 → decimal.coefficient % 10 ≠ 0
  sign : decimal.negative = true → decimal.coefficient ≠ 0

theorem stripZeros_stops (coefficient scale : Nat) :
    (stripZeros coefficient scale).2 ≠ 0 → (stripZeros coefficient scale).1 % 10 ≠ 0 := by
  induction scale generalizing coefficient with
  | zero => exact fun more => absurd rfl more
  | succ scale ih =>
      rw [stripZeros]
      split
      next => exact ih (coefficient / 10)
      next indivisible => exact fun _ => indivisible

theorem normal_normalize (decimal : Decimal) : decimal.normalize.Normal where
  fraction := stripZeros_stops decimal.coefficient decimal.scale
  sign negative := by
    have nonzero := (Bool.and_eq_true_iff.mp negative).2
    exact bne_iff_ne.mp nonzero

theorem Normal.negative_iff {decimal : Decimal} (normal : decimal.Normal) :
    decimal.negative = true ↔ decimal.signed < 0 := by
  rw [signed]
  cases sign : decimal.negative with
  | false => simp
  | true =>
      have nonzero := normal.sign sign
      simp
      omega

theorem Normal.eq_of_signed {first second : Decimal} (isFirst : first.Normal)
    (isSecond : second.Normal) (signed : first.signed = second.signed)
    (scale : first.scale = second.scale) : first = second := by
  have sign : first.negative = second.negative := by
    rw [Bool.eq_iff_iff, isFirst.negative_iff, isSecond.negative_iff, signed]
  have coefficient : first.coefficient = second.coefficient := by
    rw [← natAbs_signed, ← natAbs_signed, signed]
  obtain ⟨_, _, _⟩ := first
  rw [mk.injEq]
  exact ⟨sign, coefficient, scale⟩

theorem Normal.scale_le {first second : Decimal} (isSecond : second.Normal)
    (same : first.SameNumber second) : second.scale ≤ first.scale := by
  by_contra! less
  obtain ⟨more, scale⟩ := Nat.exists_eq_add_of_lt less
  rw [SameNumber, scale, Nat.add_assoc, Text.powerOfTen_add, Text.powerOfTen_succ] at same
  have nonzero : (Text.powerOfTen first.scale : Int) ≠ 0 := by simp [Text.powerOfTen]
  have shifted : second.signed = first.signed * Text.powerOfTen more * 10 := by
    apply mul_right_cancel₀ nonzero
    rw [← same]
    push_cast
    ring
  refine isSecond.fraction (by omega) ?_
  rw [← natAbs_signed, shifted, Int.natAbs_mul]
  exact Nat.mul_mod_left _ 10

/-- A number has one normal form. -/
theorem Normal.eq_of_sameNumber {first second : Decimal} (isFirst : first.Normal)
    (isSecond : second.Normal) (same : first.SameNumber second) : first = second := by
  have scale : first.scale = second.scale :=
    Nat.le_antisymm (isFirst.scale_le same.symm) (isSecond.scale_le same)
  refine isFirst.eq_of_signed isSecond ?_ scale
  have nonzero : (Text.powerOfTen second.scale : Int) ≠ 0 := by simp [Text.powerOfTen]
  rw [SameNumber, scale] at same
  exact mul_right_cancel₀ nonzero same

theorem normalize_eq_iff {first second : Decimal} :
    first.normalize = second.normalize ↔ first.number = second.number := by
  constructor
  · intro same
    rw [← number_normalize first, same, number_normalize]
  · intro same
    refine first.normal_normalize.eq_of_sameNumber second.normal_normalize ?_
    rw [sameNumber_iff, number_normalize, number_normalize, same]

end ChainLedger.Decimal
