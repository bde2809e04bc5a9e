import ChainLedger.Ledger.Amount
import ChainLedger.Proofs.Text.Digits

/-!
# Values by the numbers they denote

A value is read by the number that it denotes and by nothing else. The short cut for long runs and
the word that holds short ones leave no trace: a value is invalid if it denotes no number, accepted
as its number up to the ceiling, and over the ceiling otherwise, whatever zeros lead it.
-/

set_option autoImplicit false

namespace ChainLedger.Ledger

def DigitRun (text : String) : Prop :=
  text.toList ≠ [] ∧ ∀ character ∈ text.toList, '0' ≤ character ∧ character ≤ '9'

theorem isDigitRun_iff {text : String} : Text.isDigitRun text = true ↔ DigitRun text := by
  simp only [Text.isDigitRun, DigitRun, Char.isDigit, Bool.and_eq_true, Bool.not_eq_true',
    List.isEmpty_eq_false_iff, List.all_eq_true, decide_eq_true_eq]
  rfl

theorem DigitRun.areDigits {text : String} (run : DigitRun text) :
    ∀ digit ∈ text.toList, digit.isDigit = true :=
  Text.isDigit_of_isDigitRun (isDigitRun_iff.mpr run)

theorem digitsValue_significantDigits (digits : List Char) :
    Text.digitsValue (significantDigits digits) = Text.digitsValue digits :=
  Text.digitsValue_dropWhile digits

/-- How many digits remain tells which powers of ten a run reaches. -/
theorem lt_length_significantDigits_iff {digits : List Char}
    (areDigits : ∀ digit ∈ digits, digit.isDigit = true) (length : Nat) :
    length < (significantDigits digits).length ↔ 10 ^ length ≤ Text.digitsValue digits := by
  rw [← digitsValue_significantDigits]
  cases significant : significantDigits digits with
  | nil => exact iff_of_false (Nat.not_lt_zero _) (Nat.not_le.mpr (Nat.pow_pos (by decide)))
  | cons digit rest =>
      obtain ⟨nonzero, isDigit, others⟩ := Text.digits_of_dropWhile areDigits significant
      rw [List.length_cons]
      constructor
      · intro long
        calc 10 ^ length ≤ 10 ^ rest.length := Nat.pow_le_pow_right (by decide) (by omega)
          _ ≤ _ := Text.pow_le_digitsValue isDigit nonzero
      · intro reached
        by_contra short
        have below : Text.digitsValue (digit :: rest) < 10 ^ length :=
          calc Text.digitsValue (digit :: rest)
            _ < 10 ^ (digit :: rest).length :=
              Text.digitsValue_lt_pow (List.forall_mem_cons.mpr ⟨isDigit, others⟩)
            _ ≤ 10 ^ length := Nat.pow_le_pow_right (by decide) (by simpa using short)
        exact Nat.not_le.mpr below reached

theorem readSignificant?_of_short {digits : List Char}
    (areDigits : ∀ digit ∈ digits, digit.isDigit = true)
    (short : (significantDigits digits).length ≤ 18) :
    readSignificant? (significantDigits digits) = some (Text.digitsValue digits) := by
  have fits : Text.digitsValue (significantDigits digits) < UInt64.size := by
    have below := mt (lt_length_significantDigits_iff areDigits 18).mpr (Nat.not_lt.mpr short)
    rw [digitsValue_significantDigits]
    exact Nat.lt_trans (Nat.not_le.mp below) (by decide)
  have remaining : ∀ digit ∈ significantDigits digits, digit.isDigit = true :=
    fun digit member => areDigits digit ((List.dropWhile_suffix _).subset member)
  rw [readSignificant?, ← digitsValue_significantDigits]
  by_cases none : significantDigits digits = []
  · rw [none]
    rfl
  · rw [if_neg (by simpa using none), Text.readUnsigned?_of_digits none remaining fits]

variable {text : String} {number : Nat}

theorem denotes_iff :
    Text.Denotes text.toList number ↔ DigitRun text ∧ Text.digitsValue text.toList = number := by
  constructor
  · intro denotes
    refine ⟨isDigitRun_iff.mp ?_, denotes.digitsValue_eq⟩
    simpa [Text.isDigitRun] using denotes.areDigits
  · rintro ⟨run, rfl⟩
    exact Text.denotes_digitsValue run.1 run.areDigits

/-- A text denotes a number, and only one, exactly if it is a digit run. -/
theorem existsUnique_denotes_iff :
    (∃! number, Text.Denotes text.toList number) ↔ DigitRun text := by
  constructor
  · rintro ⟨number, denotes, -⟩
    exact (denotes_iff.mp denotes).1
  · intro run
    refine ⟨_, denotes_iff.mpr ⟨run, rfl⟩, fun other denotes => ?_⟩
    exact denotes.digitsValue_eq.symm

namespace Amount

theorem read_of_isDigitRun {text : String} (run : Text.isDigitRun text = true) :
    read text =
      if Text.digitsValue text.toList ≤ amountCeiling then
        .accepted (Text.digitsValue text.toList)
      else .overCeiling := by
  have areDigits := Text.isDigit_of_isDigitRun run
  rw [read, if_pos run]
  by_cases long : 18 < (significantDigits text.toList).length
  · have above : amountCeiling < Text.digitsValue text.toList :=
      calc amountCeiling < 10 ^ 18 := by decide
        _ ≤ _ := (lt_length_significantDigits_iff areDigits 18).mp long
    rw [if_pos long, if_neg (Nat.not_le.mpr above)]
  · rw [if_neg long, readSignificant?_of_short areDigits (Nat.not_lt.mp long)]
    dsimp only
    by_cases above : amountCeiling < Text.digitsValue text.toList
    · rw [if_pos above, if_neg (Nat.not_le.mpr above)]
    · rw [if_neg above, if_pos (Nat.not_lt.mp above)]

theorem read_of_not_isDigitRun {text : String} (run : Text.isDigitRun text ≠ true) :
    read text = .invalid := by
  rw [read, if_neg run]

theorem read_of_denotes (denotes : Text.Denotes text.toList number) :
    read text = if number ≤ amountCeiling then .accepted number else .overCeiling := by
  obtain ⟨run, rfl⟩ := denotes_iff.mp denotes
  exact read_of_isDigitRun (isDigitRun_iff.mpr run)

theorem read_eq_invalid_iff : read text = .invalid ↔ ¬DigitRun text := by
  constructor
  · intro invalid run
    obtain ⟨number, denotes, -⟩ := existsUnique_denotes_iff.mpr run
    rw [read_of_denotes denotes] at invalid
    split at invalid <;> cases invalid
  · intro noRun
    exact read_of_not_isDigitRun (noRun ∘ isDigitRun_iff.mp)

theorem exists_denotes (valid : read text ≠ .invalid) :
    ∃ number, Text.Denotes text.toList number := by
  have run : DigitRun text := not_not.mp (mt read_eq_invalid_iff.mpr valid)
  exact (existsUnique_denotes_iff.mpr run).exists

theorem read_eq_accepted_iff :
    read text = .accepted number ↔ Text.Denotes text.toList number ∧ number ≤ amountCeiling := by
  constructor
  · intro accepted
    have valid : read text ≠ .invalid := by simp [accepted]
    obtain ⟨other, denotes⟩ := exists_denotes valid
    rw [read_of_denotes denotes] at accepted
    split at accepted
    next within =>
      cases accepted
      exact ⟨denotes, within⟩
    next => cases accepted
  · rintro ⟨denotes, within⟩
    rw [read_of_denotes denotes, if_pos within]

theorem read_eq_overCeiling_iff :
    read text = .overCeiling ↔
      ∃ number, Text.Denotes text.toList number ∧ amountCeiling < number := by
  constructor
  · intro exceeds
    have valid : read text ≠ .invalid := by simp [exceeds]
    obtain ⟨number, denotes⟩ := exists_denotes valid
    rw [read_of_denotes denotes] at exceeds
    split at exceeds
    next => cases exceeds
    next above => exact ⟨number, denotes, Nat.not_le.mp above⟩
  · rintro ⟨number, denotes, above⟩
    rw [read_of_denotes denotes, if_neg (Nat.not_le.mpr above)]

theorem read_withLeadingZeros (nonempty : text ≠ "") (zeros : Nat) :
    read (Text.withLeadingZeros zeros text) = read text := by
  have sameRun := Text.isDigitRun_withLeadingZeros nonempty zeros
  by_cases run : Text.isDigitRun text = true
  · rw [read_of_isDigitRun (sameRun.trans run), read_of_isDigitRun run,
      Text.digitsValue_withLeadingZeros]
  · rw [read_of_not_isDigitRun (sameRun ▸ run), read_of_not_isDigitRun run]

/-- A text is invalid exactly if it is no digit run, accepted as the number that it denotes up to
the ceiling, and over the ceiling if it denotes a greater one. Leading zeros change nothing. A run
is cut short only if it denotes a number above the ceiling, and else a word of 64 bits holds it. -/
theorem read_by_denoted_number (text : String) :
    (read text = .invalid ↔ ¬DigitRun text) ∧
      (read text = .invalid ↔ Text.isDigitRun text = false) ∧
      (∀ amount, read text = .accepted amount ↔
        Text.Denotes text.toList amount ∧ amount ≤ 10 ^ 17) ∧
      (read text = .overCeiling ↔
        ∃ number, Text.Denotes text.toList number ∧ 10 ^ 17 < number) ∧
      (text ≠ "" → ∀ zeros, read (Text.withLeadingZeros zeros text) = read text) ∧
      ∀ number, Text.Denotes text.toList number →
        (18 < (significantDigits text.toList).length ↔ 10 ^ 18 ≤ number) ∧
        ((significantDigits text.toList).length ≤ 18 →
          readSignificant? (significantDigits text.toList) = some number) := by
  have ceiling : amountCeiling = 10 ^ 17 := by decide
  have unchecked : ¬DigitRun text ↔ Text.isDigitRun text = false := by
    rw [← isDigitRun_iff, Bool.not_eq_true]
  rw [← ceiling]
  refine ⟨read_eq_invalid_iff, read_eq_invalid_iff.trans unchecked, fun _ => read_eq_accepted_iff,
    read_eq_overCeiling_iff, read_withLeadingZeros, fun number denotes => ?_⟩
  obtain ⟨run, rfl⟩ := denotes_iff.mp denotes
  exact ⟨lt_length_significantDigits_iff run.areDigits 18, readSignificant?_of_short run.areDigits⟩

/-- One above the ceiling, which has as many digits, behind zeros. -/
def paddedValue : String := "000100000000000000001"

theorem paddedValue_read_by_number :
    paddedValue ≠ "" ∧ Text.Denotes paddedValue.toList 100000000000000001 ∧
      (significantDigits paddedValue.toList).length ≤ 18 ∧
      readSignificant? (significantDigits paddedValue.toList) = some 100000000000000001 ∧
      read (Text.withLeadingZeros 40 paddedValue) = .overCeiling := by
  have denotes : Text.Denotes paddedValue.toList 100000000000000001 :=
    denotes_iff.mpr ⟨isDigitRun_iff.mp (by decide), by decide⟩
  have short : (significantDigits paddedValue.toList).length ≤ 18 := by decide
  obtain ⟨_, _, _, exceeds_iff, padded, word⟩ := read_by_denoted_number paddedValue
  have exceeds : read paddedValue = .overCeiling := exceeds_iff.mpr ⟨_, denotes, by decide⟩
  exact ⟨by decide, denotes, short, (word _ denotes).2 short,
    (padded (by decide) 40).trans exceeds⟩

end Amount
end ChainLedger.Ledger
