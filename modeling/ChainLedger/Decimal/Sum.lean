import ChainLedger.Decimal.Rounding

/-!
# Sums of decimals

A sum has the greater of the two scales if its coefficient fits there. Otherwise it loses as few
digits behind the point as it takes to fit, and is rounded to the nearest, at a tie to the even
coefficient. An integer has no such digits, so sums of integers are always exact.
-/

set_option autoImplicit false

namespace ChainLedger.Decimal

/-- The fewest digits behind the point without which a coefficient fits; none, if nothing
helps. -/
def excess (coefficient scale : Nat) : Nat :=
  ((List.range (scale + 1)).find?
    fun places => roundOff .toEven coefficient places < coefficientBound).getD 0

def add (first second : Decimal) : Decimal :=
  let scale := max first.scale second.scale
  let exact := first.signedAt scale + second.signedAt scale
  let places := excess exact.natAbs scale
  { negative := exact < 0
    coefficient := roundOff .toEven exact.natAbs places
    scale := scale - places }

theorem excess_zero (coefficient : Nat) : excess coefficient 0 = 0 := by
  simp only [excess, List.range_succ_eq_map, List.range_zero, List.map_nil, List.find?_cons]
  split <;> simp

theorem add_eq_ofSigned {first second : Decimal}
    (whole : excess (first.signedAt (max first.scale second.scale)
      + second.signedAt (max first.scale second.scale)).natAbs
        (max first.scale second.scale) = 0) :
    first.add second =
      ofSigned (first.signedAt (max first.scale second.scale)
        + second.signedAt (max first.scale second.scale)) (max first.scale second.scale) := by
  simp only [add, whole, roundOff_zero, ofSigned, Nat.sub_zero]

end ChainLedger.Decimal
