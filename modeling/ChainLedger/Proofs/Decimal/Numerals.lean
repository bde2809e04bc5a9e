import Mathlib
import ChainLedger.Decimal.Basic

/-!
# Numerals of integers

The numeral of an integer is zero, or a run of digits that does not begin with a zero, behind a
minus sign or not. A decimal with no digits behind the point is written as the numeral of its
number, whatever sign it gives to zero.
-/

set_option autoImplicit false

namespace ChainLedger

namespace Text

structure IsMagnitude (characters : List Char) : Prop where
  digits : ∀ digit ∈ characters, digit.isDigit = true
  leading : ∃ digit ∈ characters.head?, digit ≠ '0'

theorem le_ofDigitChars (digits : List Char) (number : Nat) :
    number ≤ Nat.ofDigitChars 10 digits number := by
  induction digits generalizing number with
  | nil => exact Nat.le_of_eq Nat.ofDigitChars_nil.symm
  | cons digit digits ih =>
      rw [Nat.ofDigitChars_cons]
      exact Nat.le_trans (by omega) (ih _)

theorem head?_digitsOf {number : Nat} (positive : 0 < number) :
    ∃ digit ∈ (digitsOf number).head?, digit ≠ '0' := by
  induction number using Nat.strongRecOn with
  | ind number ih =>
      rw [digitsOf]
      by_cases single : number < 10
      · rw [Nat.toDigits_of_lt_base single]
        refine ⟨_, rfl, ?_⟩
        interval_cases number <;> decide
      · -- the last digit is behind those of a tenth, which is not zero either
        have tenth : 0 < number / 10 := by omega
        obtain ⟨digit, first, nonzero⟩ := ih (number / 10) (by omega) tenth
        rw [Nat.toDigits_of_base_le (by decide) (by omega)]
        exact ⟨digit, List.mem_head?_append_of_mem_head? first, nonzero⟩

theorem isMagnitude_digitsOf {number : Nat} (positive : 0 < number) :
    IsMagnitude (digitsOf number) :=
  ⟨fun _ member => Nat.isDigit_of_mem_toDigits (by decide) (by decide) member,
    head?_digitsOf positive⟩

end Text

namespace Decimal

theorem characters_of_integer {decimal : Decimal} (integer : decimal.scale = 0)
    (nonzero : decimal.negative = true → decimal.coefficient ≠ 0) :
    decimal.characters = Text.integerText decimal.signed := by
  obtain ⟨negative, coefficient, scale⟩ := decimal
  obtain rfl := integer
  have padded : paddedDigits { negative, coefficient } = Text.digitsOf coefficient := by
    have some : 0 < (Text.digitsOf coefficient).length :=
      List.length_pos_of_ne_nil Nat.toDigits_ne_nil
    have none : 0 + 1 - (Text.digitsOf coefficient).length = 0 := by omega
    rw [paddedDigits, none, List.replicate_zero, List.nil_append]
  rw [characters, padded, Nat.sub_zero, List.take_length, List.drop_length]
  cases negative with
  | false => simp [signed, Text.integerText]
  | true =>
      obtain ⟨magnitude, rfl⟩ := Nat.exists_eq_succ_of_ne_zero (nonzero rfl)
      have below : signed { negative := true, coefficient := magnitude + 1 } = .negSucc magnitude :=
        rfl
      simp [below, Text.integerText]

theorem normalText_of_integer {decimal : Decimal} (integer : decimal.scale = 0) :
    decimal.normalText.toList = Text.integerText decimal.signed := by
  have normal : decimal.normalize =
      { decimal with negative := decimal.negative && decimal.coefficient != 0 } := by
    rw [normalize, integer]
    rfl
  rw [normalText, text, String.toList_ofList, characters_of_integer, normal]
  · congr 1
    simp only [signed]
    rcases Decidable.em (decimal.coefficient = 0) with zero | nonzero
    · simp [zero]
    · simp [nonzero]
  · rw [normal]
    exact integer
  · rw [normal]
    intro negative
    simpa using (Bool.and_eq_true_iff.mp negative).2

end Decimal
end ChainLedger
