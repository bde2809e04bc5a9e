import ChainLedger.Report.Validation
import ChainLedger.Proofs.Decimal.Numerals
import ChainLedger.Proofs.Ledger.Amounts

/-!
# Digit runs as decimals

A run of digits is read as the integer that it denotes, unless that is out of the range of
decimals, and it is written again without the zeros that led it. Length does not matter: zeros in
front change neither the number nor whether it fits.
-/

set_option autoImplicit false

namespace ChainLedger

namespace Text

/-- The run without the zeros that lead it. Of a run of zeros one is left. -/
def withoutLeadingZeros (text : String) : String :=
  let digits := text.toList.dropWhile (· = '0')
  if digits.isEmpty then "0" else String.ofList digits

/-- The number that a run denotes is written as the run without the zeros that lead it. -/
theorem digitsOf_digitsValue {text : String}
    (areDigits : ∀ digit ∈ text.toList, digit.isDigit = true) :
    digitsOf (digitsValue text.toList) = (withoutLeadingZeros text).toList := by
  rw [withoutLeadingZeros, ← digitsValue_dropWhile]
  cases significant : text.toList.dropWhile (· = '0') with
  | nil => rfl
  | cons digit digits =>
      obtain ⟨nonzero, isDigit, others⟩ := digits_of_dropWhile areDigits significant
      rw [digitsValue, Nat.ofDigitChars_cons, Nat.mul_zero, Nat.zero_add,
        digitsOf_ofDigitChars others (digit_pos isDigit nonzero), digitsOf_digit isDigit]
      exact String.toList_ofList.symm

end Text

namespace Decimal

theorem readPart_of_digits {digits : List Char}
    (areDigits : ∀ digit ∈ digits, digit.isDigit = true) :
    ∀ part : Prefix, part.point = false → part.scale = 0 → (part.digits = true ∨ digits ≠ []) →
      part.coefficient < coefficientBound →
      readPart part digits =
        if Nat.ofDigitChars 10 digits part.coefficient < coefficientBound then
          .ok (Nat.ofDigitChars 10 digits part.coefficient, 0)
        else .error .tooManyDigits := by
  induction digits with
  | nil =>
      intro part _ whole some fits
      have digits : part.digits = true := some.resolve_right fun ne => ne rfl
      rw [readPart, if_pos digits, Nat.ofDigitChars_nil, if_pos fits, whole]
  | cons digit digits ih =>
      intro part noPoint whole _ fits
      obtain ⟨isDigit, others⟩ := List.forall_mem_cons.mp areDigits
      have open' : part.isFull = false := by rw [Prefix.isFull, noPoint, Bool.false_and]
      rw [readPart, open', if_neg Bool.false_ne_true, if_pos isDigit, Nat.ofDigitChars_cons,
        Nat.mul_comm 10]
      dsimp only
      split
      next fitsOn =>
        have pushed : ∀ coefficient, (part.push coefficient).scale = 0 := by
          simp [Prefix.push, noPoint]
        exact ih others _ noPoint (pushed _) (Or.inl rfl) fitsOn
      next tooGreat =>
        have grows :=
          Text.le_ofDigitChars digits (part.coefficient * 10 + (digit.toNat - '0'.toNat))
        rw [noPoint, if_neg Bool.false_ne_true, if_neg (by omega)]

theorem readPlain_of_digits {digits : List Char} (nonempty : digits ≠ [])
    (areDigits : ∀ digit ∈ digits, digit.isDigit = true) :
    readPlain digits =
      if Text.digitsValue digits < coefficientBound then .ok (.ofNat (Text.digitsValue digits))
      else .error .tooManyDigits := by
  have read := readPart_of_digits areDigits {} rfl rfl (Or.inr nonempty) (by decide)
  rw [readPlain.eq_def]
  split
  · exact absurd rfl nonempty
  · exact absurd (areDigits '-' List.mem_cons_self) (by decide)
  · exact absurd (areDigits '+' List.mem_cons_self) (by decide)
  · rw [read, Text.digitsValue]
    by_cases fits : Nat.ofDigitChars 10 digits 0 < coefficientBound
    · rw [if_pos fits, if_pos fits]
      rfl
    · rw [if_neg fits, if_neg fits]
      rfl

theorem isExponentMark_of_isDigit {digit : Char} (isDigit : digit.isDigit = true) :
    isExponentMark digit = false := by
  rw [isExponentMark, Bool.or_eq_false_iff, decide_eq_false_iff_not, decide_eq_false_iff_not]
  constructor
  · rintro rfl
    cases isDigit
  · rintro rfl
    cases isDigit

theorem read_of_unmarked {text : String}
    (unmarked : ∀ character ∈ text.toList, isExponentMark character = false) :
    read text = readPlain text.toList := by
  have kept : ∀ character ∈ text.toList, (!isExponentMark character) = true :=
    fun character member => by rw [unmarked character member, Bool.not_false]
  rw [read, List.dropWhile_eq_nil_iff.mpr kept, List.takeWhile_eq_self_iff.mpr kept]

theorem read_of_digitRun {text : String} (run : Ledger.DigitRun text) :
    read text =
      if Text.digitsValue text.toList < coefficientBound then
        .ok (.ofNat (Text.digitsValue text.toList))
      else .error .tooManyDigits := by
  have areDigits := run.areDigits
  rw [read_of_unmarked fun digit member => isExponentMark_of_isDigit (areDigits digit member)]
  exact readPlain_of_digits run.1 areDigits

theorem normalText_of_digitRun {text : String} (run : Ledger.DigitRun text) :
    (ofNat (Text.digitsValue text.toList)).normalText = Text.withoutLeadingZeros text := by
  rw [← String.toList_inj, normalText_of_integer rfl, ← Text.digitsOf_digitsValue run.areDigits]
  rfl

end Decimal

theorem Report.isDecimal_iff_of_digitRun {text : String} (run : Ledger.DigitRun text) :
    Report.isDecimal text = true ↔ Text.digitsValue text.toList ≤ 2 ^ 96 - 1 := by
  have bound : Decimal.coefficientBound = 2 ^ 96 - 1 + 1 := by decide
  rw [Report.isDecimal, Decimal.read_of_digitRun run, ← Nat.lt_succ_iff, Nat.succ_eq_add_one,
    ← bound]
  by_cases fits : Text.digitsValue text.toList < Decimal.coefficientBound
  · rw [if_pos fits]
    exact iff_of_true rfl fits
  · rw [if_neg fits]
    exact iff_of_false Bool.false_ne_true fits

end ChainLedger
