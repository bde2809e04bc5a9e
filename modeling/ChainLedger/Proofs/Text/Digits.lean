import Mathlib
import ChainLedger.Text.Digits

/-!
# Digit runs and the numbers they denote

The number of a run is told by its digits, the last of which counts the ones. It lies between the
powers of ten that the length of the run gives, and zeros in front do not change it.
-/

set_option autoImplicit false

namespace ChainLedger.Text

theorem digitsValue_cons (digit : Char) (digits : List Char) :
    digitsValue (digit :: digits) =
      10 ^ digits.length * (digit.toNat - '0'.toNat) + digitsValue digits := by
  rw [digitsValue, Nat.ofDigitChars_cons, Nat.mul_zero, Nat.zero_add,
    Nat.ofDigitChars_eq_ofDigitChars_zero]
  rfl

theorem toNat_of_isDigit {digit : Char} (isDigit : digit.isDigit = true) :
    '0'.toNat ≤ digit.toNat ∧ digit.toNat ≤ '9'.toNat := by
  simp only [Char.isDigit, Bool.and_eq_true, decide_eq_true_eq] at isDigit
  exact isDigit

theorem digit_pos {digit : Char} (isDigit : digit.isDigit = true) (nonzero : digit ≠ '0') :
    0 < digit.toNat - '0'.toNat := by
  have atLeast := (toNat_of_isDigit isDigit).1
  have notZero : digit.toNat ≠ '0'.toNat := fun same => nonzero (Char.toNat_inj.mp same)
  omega

theorem digit_lt_ten {digit : Char} (isDigit : digit.isDigit = true) :
    digit.toNat - '0'.toNat < 10 := by
  have atMost := (toNat_of_isDigit isDigit).2
  have nine : '9'.toNat = '0'.toNat + 9 := rfl
  omega

theorem digitChar_toNat {digit : Char} (isDigit : digit.isDigit = true) :
    Nat.digitChar (digit.toNat - '0'.toNat) = digit := by
  have atLeast := (toNat_of_isDigit isDigit).1
  have zero : '0'.toNat = 48 := rfl
  rw [← Char.toNat_inj, Nat.toNat_digitChar_of_lt_ten (digit_lt_ten isDigit)]
  omega

theorem isDigit_of_isDigitRun {text : String} (run : isDigitRun text = true) :
    ∀ digit ∈ text.toList, digit.isDigit = true := by
  simp only [isDigitRun, Bool.and_eq_true, List.all_eq_true] at run
  exact run.2

theorem pow_le_digitsValue {digit : Char} {digits : List Char} (isDigit : digit.isDigit = true)
    (nonzero : digit ≠ '0') : 10 ^ digits.length ≤ digitsValue (digit :: digits) := by
  have positive : 1 ≤ digit.toNat - '0'.toNat := digit_pos isDigit nonzero
  rw [digitsValue_cons]
  calc 10 ^ digits.length = 10 ^ digits.length * 1 := (Nat.mul_one _).symm
    _ ≤ 10 ^ digits.length * (digit.toNat - '0'.toNat) := Nat.mul_le_mul_left _ positive
    _ ≤ _ := Nat.le_add_right _ _

theorem digitsValue_lt_pow {digits : List Char}
    (areDigits : ∀ digit ∈ digits, digit.isDigit = true) :
    digitsValue digits < 10 ^ digits.length := by
  induction digits with
  | nil => exact Nat.zero_lt_one
  | cons digit digits ih =>
      obtain ⟨isDigit, others⟩ := List.forall_mem_cons.mp areDigits
      rw [digitsValue_cons, List.length_cons, Nat.pow_succ]
      calc 10 ^ digits.length * (digit.toNat - '0'.toNat) + digitsValue digits
        _ < 10 ^ digits.length * (digit.toNat - '0'.toNat) + 10 ^ digits.length :=
          Nat.add_lt_add_left (ih others) _
        _ = 10 ^ digits.length * (digit.toNat - '0'.toNat + 1) := (Nat.mul_succ _ _).symm
        _ ≤ 10 ^ digits.length * 10 := Nat.mul_le_mul_left _ (digit_lt_ten isDigit)

/-! ## Leading zeros -/

def withLeadingZeros (zeros : Nat) (text : String) : String :=
  String.ofList (List.replicate zeros '0') ++ text

theorem digitsValue_dropWhile (digits : List Char) :
    digitsValue (digits.dropWhile (· = '0')) = digitsValue digits := by
  induction digits with
  | nil => rfl
  | cons digit digits ih =>
      by_cases zero : digit = '0'
      · rw [List.dropWhile_cons_of_pos (by simpa using zero), ih, zero, digitsValue_cons,
          Nat.sub_self, Nat.mul_zero, Nat.zero_add]
      · rw [List.dropWhile_cons_of_neg (by simpa using zero)]

theorem digits_of_dropWhile {digits rest : List Char} {digit : Char}
    (areDigits : ∀ digit ∈ digits, digit.isDigit = true)
    (significant : digits.dropWhile (· = '0') = digit :: rest) :
    digit ≠ '0' ∧ digit.isDigit = true ∧ ∀ other ∈ rest, other.isDigit = true := by
  have nonempty : digits.dropWhile (· = '0') ≠ [] := by simp [significant]
  have suffix : digit :: rest <:+ digits := by
    rw [← significant]
    exact List.dropWhile_suffix _
  refine ⟨?_, List.forall_mem_cons.mp fun other member => areDigits other (suffix.subset member)⟩
  simpa [significant] using List.head_dropWhile_not (· = '0') nonempty

theorem digitsValue_withLeadingZeros (zeros : Nat) (text : String) :
    digitsValue (withLeadingZeros zeros text).toList = digitsValue text.toList := by
  rw [withLeadingZeros, String.toList_append, String.toList_ofList, digitsValue,
    Nat.ofDigitChars_append, Nat.ofDigitChars_replicate_zero, Nat.mul_zero]
  rfl

/-- Of the empty text zeros make a run, of any other one only if it is a run by itself. -/
theorem isDigitRun_withLeadingZeros {text : String} (nonempty : text ≠ "") (zeros : Nat) :
    isDigitRun (withLeadingZeros zeros text) = isDigitRun text := by
  have zerosAreDigits : (List.replicate zeros '0').all Char.isDigit = true :=
    List.all_eq_true.mpr fun digit member => by rw [List.eq_of_mem_replicate member]; rfl
  have longer : (List.replicate zeros '0' ++ text.toList).isEmpty = text.toList.isEmpty := by
    have some : text.toList ≠ [] := by simpa using nonempty
    rw [List.isEmpty_eq_false_iff.mpr some]
    exact List.isEmpty_eq_false_iff.mpr (List.append_ne_nil_of_right_ne_nil _ some)
  rw [isDigitRun, isDigitRun, withLeadingZeros, String.toList_append, String.toList_ofList, longer,
    List.all_append, zerosAreDigits, Bool.true_and]

/-! ## Numerals -/

theorem readUnsigned?_of_digits {digits : List Char} {size : Nat} (nonempty : digits ≠ [])
    (areDigits : ∀ digit ∈ digits, digit.isDigit = true) (fits : digitsValue digits < size) :
    readUnsigned? size (String.ofList digits) = some (digitsValue digits) := by
  have read : readDigits? digits = some (digitsValue digits) := by
    rw [readDigits?, if_pos]
    simpa [nonempty] using areDigits
  rw [readUnsigned?, String.toList_ofList]
  split
  next => exact absurd (areDigits '+' List.mem_cons_self) (by decide)
  next => rw [read, Option.filter_some, if_pos (decide_eq_true fits)]

theorem digitsOf_digit {digit : Char} (isDigit : digit.isDigit = true) :
    digitsOf (digit.toNat - '0'.toNat) = [digit] := by
  rw [digitsOf, Nat.toDigits_of_lt_base (digit_lt_ten isDigit), digitChar_toNat isDigit]

theorem digitsOf_ofDigitChars {digits : List Char}
    (areDigits : ∀ digit ∈ digits, digit.isDigit = true) {number : Nat} (positive : 0 < number) :
    digitsOf (Nat.ofDigitChars 10 digits number) = digitsOf number ++ digits := by
  induction digits generalizing number with
  | nil => rw [Nat.ofDigitChars_nil, List.append_nil]
  | cons digit digits ih =>
      obtain ⟨isDigit, others⟩ := List.forall_mem_cons.mp areDigits
      have longer : digitsOf (10 * number + (digit.toNat - '0'.toNat)) =
          digitsOf number ++ [digit] := by
        rw [← digitsOf_digit isDigit]
        exact (Nat.toDigits_append_toDigits (by decide) positive (digit_lt_ten isDigit)).symm
      rw [Nat.ofDigitChars_cons, ih others (by omega), longer, List.append_assoc,
        List.singleton_append]

/-! ## Denotation -/

/-- How runs of digits denote numbers. A digit denotes its rank from 0 to 9, and behind a run it
adds its rank to ten times the number of the run. -/
inductive Denotes : List Char → Nat → Prop
  | digit (rank : Fin 10) : Denotes [Nat.digitChar rank] rank
  | append {digits : List Char} {number : Nat} (denotes : Denotes digits number) (rank : Fin 10) :
      Denotes (digits ++ [Nat.digitChar rank]) (10 * number + rank)

theorem exists_rank {digit : Char} (isDigit : digit.isDigit = true) :
    ∃ rank : Fin 10, Nat.digitChar rank = digit :=
  ⟨⟨_, digit_lt_ten isDigit⟩, digitChar_toNat isDigit⟩

theorem digitsValue_append_digit (digits : List Char) (rank : Fin 10) :
    digitsValue (digits ++ [Nat.digitChar rank]) = 10 * digitsValue digits + rank := by
  rw [digitsValue, Nat.ofDigitChars_append, Nat.ofDigitChars_cons_digitChar_of_lt_ten rank.isLt,
    Nat.ofDigitChars_nil]
  rfl

theorem Denotes.digitsValue_eq {digits : List Char} {number : Nat}
    (denotes : Denotes digits number) : digitsValue digits = number := by
  induction denotes with
  | digit rank => exact (digitsValue_append_digit [] rank).trans (Nat.zero_add _)
  | append _ rank ih => rw [digitsValue_append_digit, ih]

theorem Denotes.areDigits {digits : List Char} {number : Nat} (denotes : Denotes digits number) :
    digits ≠ [] ∧ ∀ digit ∈ digits, digit.isDigit = true := by
  have isDigit (rank : Fin 10) : (Nat.digitChar rank).isDigit = true := by
    rw [Nat.isDigit_digitChar]
    exact decide_eq_true rank.isLt
  induction denotes with
  | digit rank => simp [isDigit]
  | append _ rank ih =>
      refine ⟨by simp, fun digit member => ?_⟩
      rcases List.mem_append.mp member with inside | last
      · exact ih.2 digit inside
      · rw [List.mem_singleton.mp last]
        exact isDigit rank

theorem denotes_digitsValue {digits : List Char} (nonempty : digits ≠ [])
    (areDigits : ∀ digit ∈ digits, digit.isDigit = true) : Denotes digits (digitsValue digits) := by
  induction digits using List.reverseRecOn with
  | nil => exact absurd rfl nonempty
  | append_singleton digits last ih =>
      obtain ⟨rank, rfl⟩ := exists_rank (areDigits last (by simp))
      by_cases single : digits = []
      · have value : digitsValue [Nat.digitChar rank] = rank := (Denotes.digit rank).digitsValue_eq
        rw [single, List.nil_append, value]
        exact .digit rank
      · rw [digitsValue_append_digit]
        exact .append (ih single fun digit member => areDigits digit (by simp [member])) rank

end ChainLedger.Text
