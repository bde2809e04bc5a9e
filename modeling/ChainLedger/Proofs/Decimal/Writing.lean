import ChainLedger.Proofs.Decimal.NormalForm

/-!
# Texts of decimals

The text of a decimal is its sign, the digits in front of the point, and behind a point as many
digits as its scale tells. A decimal that fits is read back from its text as it was, unless it is
a zero with a sign. So the texts of normal forms tell numbers apart, and they are as plain as a
text of their number can be.
-/

set_option autoImplicit false

namespace ChainLedger.Decimal

/-! ## Reading digits -/

namespace Prefix

def pushDigits (part : Prefix) : List Char → Prefix
  | [] => part
  | digit :: digits =>
    (part.push (part.coefficient * 10 + (digit.toNat - '0'.toNat))).pushDigits digits

theorem coefficient_pushDigits (part : Prefix) (digits : List Char) :
    (part.pushDigits digits).coefficient = Nat.ofDigitChars 10 digits part.coefficient := by
  induction digits generalizing part with
  | nil => exact Nat.ofDigitChars_nil.symm
  | cons digit digits ih => rw [pushDigits, ih, Nat.ofDigitChars_cons, Nat.mul_comm 10, push]

theorem point_pushDigits (part : Prefix) (digits : List Char) :
    (part.pushDigits digits).point = part.point := by
  induction digits generalizing part with
  | nil => rfl
  | cons digit digits ih => exact ih _

theorem digits_pushDigits {part : Prefix} {digits : List Char}
    (some : part.digits = true ∨ digits ≠ []) : (part.pushDigits digits).digits = true := by
  induction digits generalizing part with
  | nil => exact some.resolve_right fun nonempty => nonempty rfl
  | cons digit digits ih => exact ih (Or.inl rfl)

theorem scale_pushDigits (part : Prefix) (digits : List Char)
    (whole : part.point = false → part.scale = 0) :
    (part.pushDigits digits).scale = if part.point then part.scale + digits.length else 0 := by
  induction digits generalizing part with
  | nil =>
      cases point : part.point with
      | false => exact whole point
      | true => rfl
  | cons digit digits ih =>
      rw [pushDigits, ih _ fun noPoint => if_neg (Bool.not_eq_true _ ▸ noPoint)]
      cases point : part.point with
      | false => simp [push, point]
      | true =>
          simp [push, point]
          omega

end Prefix

theorem readPart_append {digits : List Char} (areDigits : ∀ digit ∈ digits, digit.isDigit = true)
    (part : Prefix) (rest : List Char)
    (fits : Nat.ofDigitChars 10 digits part.coefficient < coefficientBound)
    (room : part.point = true → part.scale + digits.length ≤ greatestScale) :
    readPart part (digits ++ rest) = readPart (part.pushDigits digits) rest := by
  induction digits generalizing part with
  | nil => rfl
  | cons digit digits ih =>
      obtain ⟨isDigit, others⟩ := List.forall_mem_cons.mp areDigits
      rw [Nat.ofDigitChars_cons, Nat.mul_comm 10] at fits
      rw [List.length_cons] at room
      have notFull : part.isFull = false := by
        rw [Prefix.isFull, Bool.and_eq_false_imp]
        intro point
        exact decide_eq_false (by have := room point; omega)
      rw [List.cons_append, readPart, notFull, if_neg Bool.false_ne_true, if_pos isDigit]
      dsimp only
      rw [if_pos (Nat.lt_of_le_of_lt (Text.le_ofDigitChars digits _) fits)]
      refine ih others _ fits fun point => ?_
      have more := room point
      change part.point = true at point
      rw [Prefix.push, point]
      dsimp only
      rw [if_pos rfl]
      omega

theorem readPart_digits {digits : List Char} (areDigits : ∀ digit ∈ digits, digit.isDigit = true)
    (part : Prefix) (some : part.digits = true ∨ digits ≠ [])
    (whole : part.point = false → part.scale = 0)
    (fits : Nat.ofDigitChars 10 digits part.coefficient < coefficientBound)
    (room : part.point = true → part.scale + digits.length ≤ greatestScale) :
    readPart part digits = .ok (Nat.ofDigitChars 10 digits part.coefficient,
      if part.point then part.scale + digits.length else 0) := by
  have read := readPart_append areDigits part [] fits room
  rw [List.append_nil] at read
  rw [read, readPart, if_pos (Prefix.digits_pushDigits some), Prefix.coefficient_pushDigits,
    Prefix.scale_pushDigits part digits whole]

theorem readPart_point {part : Prefix} (noPoint : part.point = false) (rest : List Char) :
    readPart part ('.' :: rest) = readPart { part with point := true } rest := by
  have notFull : part.isFull = false := by rw [Prefix.isFull, noPoint, Bool.false_and]
  rw [readPart, notFull, if_neg Bool.false_ne_true, if_neg (by decide), noPoint]
  rfl

/-! ## The parts of a text -/

/-- The sizes that are read: 96 bits of coefficient, and as many digits behind the point as are
kept. -/
structure Fits (decimal : Decimal) : Prop where
  coefficient : decimal.coefficient < coefficientBound
  scale : decimal.scale ≤ greatestScale

def whole (decimal : Decimal) : List Char :=
  decimal.paddedDigits.take (decimal.paddedDigits.length - decimal.scale)

def fraction (decimal : Decimal) : List Char :=
  decimal.paddedDigits.drop (decimal.paddedDigits.length - decimal.scale)

def magnitude (decimal : Decimal) : List Char :=
  decimal.whole ++ if decimal.fraction.isEmpty then [] else '.' :: decimal.fraction

theorem characters_eq (decimal : Decimal) :
    decimal.characters = (if decimal.negative then ['-'] else []) ++ decimal.magnitude :=
  List.append_assoc _ _ _

theorem whole_append_fraction (decimal : Decimal) :
    decimal.whole ++ decimal.fraction = decimal.paddedDigits :=
  List.take_append_drop _ _

theorem scale_lt_length (decimal : Decimal) : decimal.scale < decimal.paddedDigits.length := by
  rw [paddedDigits, List.length_append, List.length_replicate]
  omega

theorem length_fraction (decimal : Decimal) : decimal.fraction.length = decimal.scale := by
  have long := decimal.scale_lt_length
  rw [fraction, List.length_drop]
  omega

theorem whole_ne_nil (decimal : Decimal) : decimal.whole ≠ [] := by
  have long := decimal.scale_lt_length
  rw [← List.length_pos_iff, whole, List.length_take]
  omega

theorem isDigit_of_mem_paddedDigits {decimal : Decimal} {digit : Char}
    (member : digit ∈ decimal.paddedDigits) : digit.isDigit = true := by
  rcases List.mem_append.mp member with zero | digit
  · rw [(List.mem_replicate.mp zero).2]
    decide
  · exact Nat.isDigit_of_mem_toDigits (by decide) (by decide) digit

theorem isDigit_of_mem_whole {decimal : Decimal} {digit : Char}
    (member : digit ∈ decimal.whole) : digit.isDigit = true :=
  isDigit_of_mem_paddedDigits (List.mem_of_mem_take member)

theorem isDigit_of_mem_fraction {decimal : Decimal} {digit : Char}
    (member : digit ∈ decimal.fraction) : digit.isDigit = true :=
  isDigit_of_mem_paddedDigits (List.mem_of_mem_drop member)

theorem value_paddedDigits (decimal : Decimal) :
    Nat.ofDigitChars 10 decimal.paddedDigits 0 = decimal.coefficient := by
  rw [paddedDigits, Nat.ofDigitChars_append, Nat.ofDigitChars_replicate_zero, Nat.mul_zero]
  exact Text.digitsValue_digitsOf decimal.coefficient

/-! ## Reading a text back -/

theorem readPart_magnitude {decimal : Decimal} (fits : decimal.Fits) :
    readPart {} decimal.magnitude = .ok (decimal.coefficient, decimal.scale) := by
  have value := decimal.value_paddedDigits
  rw [← whole_append_fraction, Nat.ofDigitChars_append] at value
  have small : Nat.ofDigitChars 10 decimal.whole 0 < coefficientBound :=
    Nat.lt_of_le_of_lt (Text.le_ofDigitChars decimal.fraction _) (value ▸ fits.coefficient)
  rw [magnitude]
  split
  next integer =>
    rw [List.isEmpty_iff] at integer
    rw [List.append_nil, readPart_digits (fun _ => isDigit_of_mem_whole) {}
      (Or.inr decimal.whole_ne_nil) (fun _ => rfl) small
      fun point => absurd point Bool.false_ne_true]
    rw [← value, ← decimal.length_fraction, integer]
    rfl
  next broken =>
    rw [readPart_append (fun _ => isDigit_of_mem_whole) {} _ small
      fun point => absurd point Bool.false_ne_true]
    have scale : (Prefix.pushDigits {} decimal.whole).scale = 0 :=
      Prefix.scale_pushDigits {} decimal.whole fun _ => rfl
    have whole : (Prefix.pushDigits {} decimal.whole).digits = true :=
      Prefix.digits_pushDigits (Or.inr decimal.whole_ne_nil)
    rw [readPart_point (Prefix.point_pushDigits {} decimal.whole),
      readPart_digits (fun _ => isDigit_of_mem_fraction)
        { Prefix.pushDigits {} decimal.whole with point := true } (Or.inl whole)]
    · dsimp only
      rw [Prefix.coefficient_pushDigits, value, scale, if_pos rfl, Nat.zero_add, length_fraction]
    · exact fun noPoint => absurd noPoint.symm Bool.false_ne_true
    · rw [Prefix.coefficient_pushDigits, value]
      exact fits.coefficient
    · intro _
      dsimp only
      rw [scale, Nat.zero_add, length_fraction]
      exact fits.scale

theorem exists_magnitude_eq_cons (decimal : Decimal) :
    ∃ digit rest, decimal.magnitude = digit :: rest ∧ digit.isDigit = true := by
  obtain ⟨digit, rest, whole⟩ := List.exists_cons_of_ne_nil decimal.whole_ne_nil
  refine ⟨digit, _, by rw [magnitude, whole, List.cons_append], ?_⟩
  exact isDigit_of_mem_whole (whole ▸ List.mem_cons_self)

theorem readPlain_characters {decimal : Decimal} (fits : decimal.Fits)
    (sign : decimal.negative = true → decimal.coefficient ≠ 0) :
    readPlain decimal.characters = .ok decimal := by
  have read := readPart_magnitude fits
  rw [characters_eq]
  cases negative : decimal.negative with
  | true =>
      have nonzero : (decimal.coefficient != 0) = true := bne_iff_ne.mpr (sign negative)
      rw [if_pos rfl, List.singleton_append, readPlain, read]
      refine congrArg Except.ok ?_
      rw [nonzero, ← negative]
  | false =>
      obtain ⟨digit, rest, magnitude, isDigit⟩ := decimal.exists_magnitude_eq_cons
      rw [if_neg Bool.false_ne_true, List.nil_append, magnitude, readPlain.eq_def]
      rw [magnitude] at read
      split
      next empty => cases empty
      next minus =>
        obtain ⟨rfl, -⟩ := List.cons.inj minus
        cases isDigit
      next plus =>
        obtain ⟨rfl, -⟩ := List.cons.inj plus
        cases isDigit
      next =>
        rw [read]
        refine congrArg Except.ok ?_
        rw [← negative]

theorem mem_characters {decimal : Decimal} {character : Char}
    (member : character ∈ decimal.characters) :
    character.isDigit = true ∨ character = '-' ∨ character = '.' := by
  rw [characters_eq, magnitude, List.mem_append, List.mem_append] at member
  rcases member with sign | whole | fraction
  · split at sign
    · exact Or.inr (Or.inl (List.mem_singleton.mp sign))
    · cases sign
  · exact Or.inl (isDigit_of_mem_whole whole)
  · split at fraction
    · cases fraction
    · rcases List.mem_cons.mp fraction with point | digit
      · exact Or.inr (Or.inr point)
      · exact Or.inl (isDigit_of_mem_fraction digit)

theorem isExponentMark_of_mem_characters {decimal : Decimal} {character : Char}
    (member : character ∈ decimal.characters) : isExponentMark character = false := by
  rcases mem_characters member with digit | rfl | rfl
  · exact isExponentMark_of_isDigit digit
  · rfl
  · rfl

theorem read_text {decimal : Decimal} (fits : decimal.Fits)
    (sign : decimal.negative = true → decimal.coefficient ≠ 0) :
    read decimal.text = .ok decimal := by
  have characters : decimal.text.toList = decimal.characters := String.toList_ofList
  rw [read_of_unmarked fun character member =>
    isExponentMark_of_mem_characters (characters ▸ member), characters]
  exact readPlain_characters fits sign

/-! ## Texts of normal forms -/

theorem Fits.normalize {decimal : Decimal} (fits : decimal.Fits) : decimal.normalize.Fits := by
  obtain ⟨dropped, scale, coefficient⟩ := stripZeros_eq decimal.coefficient decimal.scale
  have grows := Nat.le_mul_of_pos_right (stripZeros decimal.coefficient decimal.scale).1
    (show 0 < Text.powerOfTen dropped from Nat.pow_pos (by decide))
  rw [← coefficient] at grows
  exact ⟨Nat.lt_of_le_of_lt grows fits.coefficient,
    Nat.le_trans (scale ▸ Nat.le_add_right _ _) fits.scale⟩

theorem read_normalText {decimal : Decimal} (fits : decimal.Fits) :
    read decimal.normalText = .ok decimal.normalize :=
  read_text fits.normalize decimal.normal_normalize.sign

/-- Decimals have the same shortest text exactly if they denote the same number. -/
theorem normalText_eq_iff {first second : Decimal} (firstFits : first.Fits)
    (secondFits : second.Fits) :
    first.normalText = second.normalText ↔ first.number = second.number := by
  rw [← normalize_eq_iff]
  constructor
  · intro same
    have read := read_normalText firstFits
    rw [same, read_normalText secondFits] at read
    exact (Except.ok.inj read).symm
  · intro same
    rw [normalText, same, ← normalText]

/-- A text with no exponent, no zero or point at its end that could be left out, and a sign only in
front of a number below zero. -/
structure IsPlainTextOf (text : List Char) (number : ℚ) : Prop where
  exponent : ∀ character ∈ text, isExponentMark character = false
  trailingZero : '.' ∈ text → text.getLast? ≠ some '0'
  trailingPoint : text.getLast? ≠ some '.'
  sign : text.head? = some '-' ↔ number < 0

theorem getLast?_digitsOf (number : Nat) :
    (Text.digitsOf number).getLast? = some (number % 10).digitChar := by
  rw [Text.digitsOf]
  by_cases single : number < 10
  · rw [Nat.toDigits_of_lt_base single, Nat.mod_eq_of_lt single, List.getLast?_singleton]
  · rw [Nat.toDigits_of_base_le (by decide) (by omega), List.getLast?_concat]

theorem getLast?_paddedDigits (decimal : Decimal) :
    decimal.paddedDigits.getLast? = some (decimal.coefficient % 10).digitChar := by
  rw [paddedDigits, List.getLast?_append, getLast?_digitsOf, Option.some_or]

theorem isEmpty_fraction_iff {decimal : Decimal} :
    decimal.fraction.isEmpty = true ↔ decimal.scale = 0 := by
  rw [List.isEmpty_iff, ← List.length_eq_zero_iff, length_fraction]

theorem Normal.negative_iff_number {decimal : Decimal} (normal : decimal.Normal) :
    decimal.negative = true ↔ decimal.number < 0 := by
  have power : (0 : ℚ) < 10 ^ decimal.scale := by positivity
  rw [normal.negative_iff, number, div_lt_iff₀ power, zero_mul, Int.cast_lt_zero]

theorem head?_characters (decimal : Decimal) :
    decimal.characters.head? = some '-' ↔ decimal.negative = true := by
  rw [characters_eq]
  cases decimal.negative with
  | true => exact iff_of_true rfl rfl
  | false =>
      obtain ⟨digit, rest, magnitude, isDigit⟩ := decimal.exists_magnitude_eq_cons
      rw [magnitude]
      refine iff_of_false ?_ Bool.false_ne_true
      intro minus
      obtain rfl := Option.some.inj minus
      cases isDigit

theorem getLast?_characters (decimal : Decimal) :
    decimal.characters.getLast? = some (decimal.coefficient % 10).digitChar := by
  have last := decimal.getLast?_paddedDigits
  rw [← whole_append_fraction] at last
  rw [characters_eq, magnitude, List.getLast?_append]
  split
  next integer =>
    rw [List.isEmpty_iff] at integer
    rw [integer] at last
    rw [last, Option.some_or]
  next broken =>
    rw [List.isEmpty_iff] at broken
    rw [List.getLast?_append_of_ne_nil _ broken] at last
    rw [List.append_cons, List.getLast?_append_of_ne_nil _ broken, last, Option.some_or]

theorem scale_ne_zero_of_mem_point {decimal : Decimal} (point : '.' ∈ decimal.characters) :
    decimal.scale ≠ 0 := by
  intro integer
  rw [characters_eq, magnitude, if_pos (isEmpty_fraction_iff.mpr integer), List.append_nil] at point
  rcases List.mem_append.mp point with sign | digit
  · split at sign
    · cases List.mem_singleton.mp sign
    · cases sign
  · cases isDigit_of_mem_whole digit

theorem Normal.isPlainTextOf {decimal : Decimal} (normal : decimal.Normal) :
    IsPlainTextOf decimal.characters decimal.number where
  exponent _ := isExponentMark_of_mem_characters
  trailingZero point zero := by
    rw [getLast?_characters, Option.some.injEq, Nat.digitChar_eq_zero] at zero
    exact normal.fraction (scale_ne_zero_of_mem_point point) zero
  trailingPoint point := by
    rw [getLast?_characters, Option.some.injEq] at point
    have digit := List.mem_of_getLast? (getLast?_digitsOf decimal.coefficient)
    rw [point] at digit
    cases Nat.isDigit_of_mem_toDigits (by decide) (by decide) digit
  sign := decimal.head?_characters.trans normal.negative_iff_number

theorem isPlainTextOf_normalText (decimal : Decimal) :
    IsPlainTextOf decimal.normalText.toList decimal.number := by
  have plain := decimal.normal_normalize.isPlainTextOf
  rw [number_normalize] at plain
  rw [normalText, text, String.toList_ofList]
  exact plain

theorem normalText_ne_minusZero {decimal : Decimal} (fits : decimal.Fits) :
    decimal.normalText ≠ "-0" := by
  intro minusZero
  have plain := decimal.isPlainTextOf_normalText
  have read := read_normalText fits
  rw [minusZero] at plain read
  have below : decimal.number < 0 := plain.sign.mp (by decide)
  have zero : Decimal.read "-0" = .ok { coefficient := 0 } := by decide +kernel
  rw [← number_normalize, ← Except.ok.inj (zero.symm.trans read)] at below
  simp [number, signed] at below

end ChainLedger.Decimal
