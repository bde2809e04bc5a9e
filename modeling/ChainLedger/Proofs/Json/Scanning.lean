import ChainLedger.Json.Value
import ChainLedger.Proofs.Decimal.Numerals

/-!
# Scanning written values

The text of a value is read as the tokens of the value. A number is told only by what follows it,
so `Scanner.Finds` says which tokens are found up to a place, the number that may end there
included. Strings are read character by character: an escape sequence adds the character that it
stands for.
-/

set_option autoImplicit false

namespace ChainLedger.Json

/-! ## Values that are written as JSON -/

/-- A literal is one of JSON: a zero only begins its digits if it is the only one, and an exponent
has digits. -/
structure Numeral.WellFormed (numeral : Numeral) : Prop where
  integer : numeral.integer = ['0'] ∨ Text.IsMagnitude numeral.integer
  fraction : ∀ digit ∈ numeral.fraction, digit.isDigit = true
  exponent : ∀ exponent ∈ numeral.exponent,
    exponent.digits ≠ [] ∧ ∀ digit ∈ exponent.digits, digit.isDigit = true

theorem Numeral.wellFormed_ofInt (number : Int) : (ofInt number).WellFormed where
  integer := by
    rcases Nat.eq_zero_or_pos number.natAbs with zero | positive
    · exact .inl (by rw [ofInt, zero]; rfl)
    · exact .inr (Text.isMagnitude_digitsOf positive)
  fraction := nofun
  exponent := nofun

inductive Value.WellFormed : Value → Prop
  | null : WellFormed .null
  | bool (flag : Bool) : WellFormed (.bool flag)
  | number {numeral : Numeral} (literal : numeral.WellFormed) : WellFormed (.number numeral)
  | string (content : String) : WellFormed (.string content)
  | array {items : List Value} : (∀ item ∈ items, item.WellFormed) → WellFormed (.array items)
  | object {members : List (String × Value)} :
      (∀ member ∈ members, member.2.WellFormed) → WellFormed (.object members)

namespace Value

@[simp]
theorem wellFormed_null : null.WellFormed := .null

@[simp]
theorem wellFormed_string (content : String) : (string content).WellFormed := .string content

@[simp]
theorem wellFormed_integer (number : Int) : (integer number).WellFormed :=
  .number (Numeral.wellFormed_ofInt number)

@[simp]
theorem wellFormed_array_iff {items : List Value} :
    (array items).WellFormed ↔ ∀ item ∈ items, item.WellFormed :=
  ⟨fun wellFormed => by cases wellFormed; assumption, .array⟩

@[simp]
theorem wellFormed_object_iff {members : List (String × Value)} :
    (object members).WellFormed ↔ ∀ member ∈ members, member.2.WellFormed :=
  ⟨fun wellFormed => by cases wellFormed; assumption, .object⟩

end Value

inductive Value.Integral : Value → Prop
  | null : Integral .null
  | bool (flag : Bool) : Integral (.bool flag)
  | integer (number : Int) : Integral (.integer number)
  | string (content : String) : Integral (.string content)
  | array {items : List Value} : (∀ item ∈ items, item.Integral) → Integral (.array items)
  | object {members : List (String × Value)} :
      (∀ member ∈ members, member.2.Integral) → Integral (.object members)

theorem Value.Integral.wellFormed {value : Value} (integral : value.Integral) :
    value.WellFormed := by
  induction integral with
  | null => exact .null
  | bool flag => exact .bool flag
  | integer number => exact .number (Numeral.wellFormed_ofInt number)
  | string content => exact .string content
  | array _ ih => exact .array ih
  | object _ ih => exact .object ih

namespace Value

mutual

def tokens : Value → List Token
  | null => [.null]
  | bool flag => [.bool flag]
  | number numeral => [.number numeral]
  | string content => [.string (some content)]
  | array items => .openArray :: (itemTokens items ++ [.closeArray])
  | object members => .openObject :: (memberTokens members ++ [.closeObject])

def itemTokens : List Value → List Token
  | [] => []
  | [item] => item.tokens
  | item :: items => item.tokens ++ .comma :: itemTokens items

def memberTokens : List (String × Value) → List Token
  | [] => []
  | [(name, value)] => .string (some name) :: .colon :: value.tokens
  | (name, value) :: members =>
    .string (some name) :: .colon :: (value.tokens ++ .comma :: memberTokens members)

end

end Value

namespace Scanner

def read (scanner : Scanner) (characters : List Char) : Scanner :=
  scanner.run (characters.map some)

@[simp]
theorem read_nil (scanner : Scanner) : scanner.read [] = scanner := rfl

theorem read_cons (scanner : Scanner) (character : Char) (characters : List Char) :
    scanner.read (character :: characters) = (scanner.step (some character)).read characters :=
  rfl

theorem read_append (scanner : Scanner) (first second : List Char) :
    scanner.read (first ++ second) = (scanner.read first).read second := by
  rw [read, List.map_append, run_append]
  rfl

/-- The tokens found so far, last first, once a number that may go on is taken to end here. -/
inductive Finds (tokens : List Token) : Scanner → Prop
  | between : Finds tokens ⟨.between, tokens⟩
  | number {stage : Stage} {numeral : Numeral} {earlier : List Token}
      (complete : stage.isComplete = true) (found : tokens = .number numeral.ordered :: earlier) :
      Finds tokens ⟨.number stage numeral, earlier⟩

/-- A character that no number goes on with and that is a token by itself. -/
structure Delimits (character : Char) (token : Token) : Prop where
  start : Mode.start (some character) = (.between, [token])
  ends : ∀ (stage : Stage) (numeral : Numeral), stage.next? numeral character = none
  noDigit : character.isDigit = false

theorem delimits_comma : Delimits ',' .comma :=
  ⟨rfl, fun stage _ => by cases stage <;> rfl, rfl⟩

theorem delimits_closeArray : Delimits ']' .closeArray :=
  ⟨rfl, fun stage _ => by cases stage <;> rfl, rfl⟩

theorem delimits_closeObject : Delimits '\x7d' .closeObject :=
  ⟨rfl, fun stage _ => by cases stage <;> rfl, rfl⟩

theorem Finds.delimit {tokens : List Token} {scanner : Scanner} (finds : scanner.Finds tokens)
    {character : Char} {token : Token} (delimits : Delimits character token) :
    scanner.step (some character) = ⟨.between, token :: tokens⟩ := by
  cases finds with
  | between => simp [step, Mode.step, delimits.start]
  | number complete found =>
      simp [step, Mode.step, delimits.ends, complete, delimits.noDigit, delimits.start, found]

theorem Finds.finish {tokens : List Token} {scanner : Scanner} (finds : scanner.Finds tokens) :
    scanner.mode.finish ++ scanner.tokens = tokens := by
  cases finds with
  | between => rfl
  | number complete found => simp [Mode.finish, complete, found]

/-! ## Strings -/

theorem hexValue?_hexDigit : ∀ digit < 16,
    Quoted.hexValue? (Value.hexDigit digit) = some digit ∧
      (Value.hexDigit digit).utf8Size = 1 := by
  decide

theorem step_hexDigit {digit : Nat} (isDigit : digit < 16) (before : List Char) (held code : Nat)
    (tokens : List Token) :
    (Scanner.mk (.quoted { characters := before, escape := .code held (some code) }) tokens).step
        (some (Value.hexDigit digit)) =
      ⟨.quoted <|
        if held + 1 < 4 then
          { characters := before, escape := .code (held + 1) (some (code * 16 + digit)) }
        else Quoted.takeCode { characters := before } (code * 16 + digit), tokens⟩ := by
  obtain ⟨value, size⟩ := hexValue?_hexDigit digit isDigit
  by_cases more : held + 1 < 4
  · simp [step, Mode.step, Quoted.step, Quoted.octetCount, size, value, more]
  · simp [step, Mode.step, Quoted.step, Quoted.octetCount, size, value, more, Quoted.takeCode]

theorem read_code {high low : Nat} (isHigh : high < 16) (isLow : low < 16) (before : List Char)
    (tokens : List Token) :
    (Scanner.mk (.quoted { characters := before }) tokens).read
        ['\\', 'u', '0', '0', Value.hexDigit high, Value.hexDigit low] =
      ⟨.quoted (Quoted.takeCode { characters := before } (high * 16 + low)), tokens⟩ := by
  have begun : ((Scanner.mk (.quoted { characters := before }) tokens).step (some '\\')).step
      (some 'u') = ⟨.quoted { characters := before, escape := .code 0 (some 0) }, tokens⟩ := rfl
  have zero : '0' = Value.hexDigit 0 := rfl
  rw [read_cons, read_cons, begun, zero]
  simp [read_cons, step_hexDigit, isHigh, isLow]

theorem read_escape (character : Char) (before : List Char) (tokens : List Token) :
    (Scanner.mk (.quoted { characters := before }) tokens).read (Value.escape character) =
      ⟨.quoted { characters := character :: before }, tokens⟩ := by
  by_cases isLetter : character ∈ ['"', '\\', '\x08', '\x0c', '\n', '\r', '\t']
  · fin_cases isLetter <;> rfl
  simp only [List.mem_cons, List.not_mem_nil, or_false, not_or] at isLetter
  obtain ⟨quote, backslash, backspace, feed, newline, carriage, tab⟩ := isLetter
  rw [Value.escape, if_neg quote, if_neg backslash, if_neg backspace, if_neg feed, if_neg newline,
    if_neg carriage, if_neg tab]
  by_cases control : character < ' '
  · have small : character.toNat < 32 := control
    have code : character.toNat / 16 * 16 + character.toNat % 16 = character.toNat := by omega
    rw [if_pos control, read_code (by omega) (by omega), code]
    have low : ¬ 0xDC00 ≤ character.toNat := by omega
    have high : ¬ 0xD800 ≤ character.toNat := by omega
    simp [Quoted.takeCode, low, high]
  · rw [if_neg control]
    simp [read, run, step, Mode.step, Quoted.step, Quoted.push, Quoted.settle, quote, backslash,
      control]

theorem read_escapes (characters before : List Char) (tokens : List Token) :
    (Scanner.mk (.quoted { characters := before }) tokens).read
        (characters.flatMap Value.escape) =
      ⟨.quoted { characters := characters.reverse ++ before }, tokens⟩ := by
  induction characters generalizing before with
  | nil => rfl
  | cons character characters ih =>
      rw [List.flatMap_cons, read_append, read_escape, ih]
      simp

theorem read_quote (content : String) (tokens : List Token) :
    (Scanner.mk .between tokens).read (Value.quote content) =
      ⟨.between, .string (some content) :: tokens⟩ := by
  have opened : (Scanner.mk .between tokens).step (some '"') = ⟨.quoted {}, tokens⟩ := rfl
  rw [Value.quote, read_cons, opened, read_append, read_escapes]
  simp [read, run, step, Mode.step, Quoted.step, Quoted.closed]

/-! ## Numbers -/

theorem start_of_digit {digit : Char} (isDigit : digit.isDigit = true) (nonzero : digit ≠ '0') :
    Mode.start (some digit) = (.number .integer { integer := [digit] }, []) := by
  unfold Mode.start
  split <;> simp_all

theorem read_digits {stage : Stage} {push : Numeral → Char → Numeral}
    (takesIn : ∀ numeral digit, digit.isDigit = true →
      stage.next? numeral digit = some (stage, push numeral digit))
    {digits : List Char} (areDigits : ∀ digit ∈ digits, digit.isDigit = true)
    (numeral : Numeral) (tokens : List Token) :
    (Scanner.mk (.number stage numeral) tokens).read digits =
      ⟨.number stage (digits.foldl push numeral), tokens⟩ := by
  induction digits generalizing numeral with
  | nil => rfl
  | cons digit digits ih =>
      obtain ⟨isDigit, others⟩ := List.forall_mem_cons.mp areDigits
      have step : (Scanner.mk (.number stage numeral) tokens).step (some digit) =
          ⟨.number stage (push numeral digit), tokens⟩ := by
        simp [step, Mode.step, takesIn numeral digit isDigit]
      rw [read_cons, step, ih others, List.foldl_cons]

theorem foldl_pushInteger (digits : List Char) (numeral : Numeral) :
    digits.foldl Numeral.pushInteger numeral =
      { numeral with integer := digits.reverse ++ numeral.integer } := by
  induction digits generalizing numeral with
  | nil => rfl
  | cons digit digits ih => rw [List.foldl_cons, ih, Numeral.pushInteger]; simp

theorem foldl_pushFraction (digits : List Char) (numeral : Numeral) :
    digits.foldl Numeral.pushFraction numeral =
      { numeral with fraction := digits.reverse ++ numeral.fraction } := by
  induction digits generalizing numeral with
  | nil => rfl
  | cons digit digits ih => rw [List.foldl_cons, ih, Numeral.pushFraction]; simp

theorem foldl_pushExponent (digits held integer fraction : List Char) (negative below : Bool) :
    digits.foldl Numeral.pushExponent
        { negative, integer, fraction, exponent := some ⟨below, held⟩ } =
      { negative, integer, fraction, exponent := some ⟨below, digits.reverse ++ held⟩ } := by
  induction digits generalizing held with
  | nil => rfl
  | cons digit digits ih => rw [List.foldl_cons, Numeral.pushExponent, ih]; simp

theorem read_integer {digits : List Char} (integer : digits = ['0'] ∨ Text.IsMagnitude digits)
    (negative : Bool) (tokens : List Token) :
    ∃ stage, (stage = .zero ∨ stage = .integer) ∧
      (Scanner.mk .between tokens).read ((if negative then ['-'] else []) ++ digits) =
        ⟨.number stage { negative, integer := digits.reverse }, tokens⟩ := by
  rcases integer with rfl | ⟨areDigits, first, isFirst, nonzero⟩
  · exact ⟨.zero, .inl rfl, by cases negative <;> rfl⟩
  · refine ⟨.integer, .inr rfl, ?_⟩
    cases digits with
    | nil => cases isFirst
    | cons digit digits =>
        obtain rfl : digit = first := by simpa using isFirst
        obtain ⟨isDigit, others⟩ := List.forall_mem_cons.mp areDigits
        have begun : (Scanner.mk .between tokens).read
            ((if negative then ['-'] else []) ++ [digit]) =
              ⟨.number .integer { negative, integer := [digit] }, tokens⟩ := by
          cases negative with
          | false =>
              simp [read_cons, step, Mode.step, start_of_digit isDigit nonzero]
          | true =>
              have signed : (Scanner.mk .between tokens).step (some '-') =
                  ⟨.number .sign { negative := true, integer := [] }, tokens⟩ := rfl
              rw [if_pos rfl, List.singleton_append, read_cons, signed]
              simp [read_cons, step, Mode.step, Stage.next?, Numeral.pushInteger, isDigit, nonzero]
        have takesIn : ∀ numeral digit, digit.isDigit = true →
            Stage.next? .integer numeral digit = some (.integer, numeral.pushInteger digit) :=
          fun numeral digit isDigit => by simp [Stage.next?, isDigit]
        rw [List.append_cons, read_append, begun, read_digits takesIn others, foldl_pushInteger,
          List.reverse_cons]

theorem read_fraction {digits : List Char} (areDigits : ∀ digit ∈ digits, digit.isDigit = true)
    {stage : Stage} (whole : stage = .zero ∨ stage = .integer) (negative : Bool)
    (integer : List Char) (tokens : List Token) :
    ∃ next, (next = .zero ∨ next = .integer ∨ next = .fraction) ∧
      (Scanner.mk (.number stage { negative, integer }) tokens).read
          (if digits.isEmpty then [] else '.' :: digits) =
        ⟨.number next { negative, integer, fraction := digits.reverse }, tokens⟩ := by
  cases digits with
  | nil => exact ⟨stage, whole.imp_right .inl, rfl⟩
  | cons digit digits =>
      obtain ⟨isDigit, others⟩ := List.forall_mem_cons.mp areDigits
      refine ⟨.fraction, .inr (.inr rfl), ?_⟩
      have point : (Scanner.mk (.number stage { negative, integer }) tokens).step (some '.') =
          ⟨.number .point { negative, integer }, tokens⟩ := by
        rcases whole with rfl | rfl <;> rfl
      have first : (Scanner.mk (.number .point { negative, integer }) tokens).step (some digit) =
          ⟨.number .fraction { negative, integer, fraction := [digit] }, tokens⟩ := by
        simp [step, Mode.step, Stage.next?, Numeral.pushFraction, isDigit]
      have takesIn : ∀ numeral digit, digit.isDigit = true →
          Stage.next? .fraction numeral digit = some (.fraction, numeral.pushFraction digit) :=
        fun numeral digit isDigit => by simp [Stage.next?, isDigit]
      rw [List.isEmpty_cons, if_neg Bool.false_ne_true, read_cons, point, read_cons, first,
        read_digits takesIn others, foldl_pushFraction, List.reverse_cons]

theorem read_exponentDigits {digits : List Char} (nonempty : digits ≠ [])
    (areDigits : ∀ digit ∈ digits, digit.isDigit = true) {stage : Stage}
    (due : ∀ numeral digit, digit.isDigit = true →
      stage.next? numeral digit = some (.exponent, numeral.pushExponent digit))
    (numeral : Numeral) (tokens : List Token) :
    (Scanner.mk (.number stage numeral) tokens).read digits =
      ⟨.number .exponent (digits.foldl Numeral.pushExponent numeral), tokens⟩ := by
  cases digits with
  | nil => exact absurd rfl nonempty
  | cons digit digits =>
      obtain ⟨isDigit, others⟩ := List.forall_mem_cons.mp areDigits
      have first : (Scanner.mk (.number stage numeral) tokens).step (some digit) =
          ⟨.number .exponent (numeral.pushExponent digit), tokens⟩ := by
        simp [step, Mode.step, due numeral digit isDigit]
      have takesIn : ∀ numeral digit, digit.isDigit = true →
          Stage.next? .exponent numeral digit = some (.exponent, numeral.pushExponent digit) :=
        fun numeral digit isDigit => by simp [Stage.next?, isDigit]
      rw [read_cons, first, read_digits takesIn others, List.foldl_cons]

theorem read_exponent {exponent : Exponent} (nonempty : exponent.digits ≠ [])
    (areDigits : ∀ digit ∈ exponent.digits, digit.isDigit = true) {stage : Stage}
    (complete : stage = .zero ∨ stage = .integer ∨ stage = .fraction) (negative : Bool)
    (integer fraction : List Char) (tokens : List Token) :
    (Scanner.mk (.number stage { negative, integer, fraction }) tokens).read
        ('e' :: (if exponent.negative then ['-'] else []) ++ exponent.digits) =
      ⟨.number .exponent
        { negative, integer, fraction,
          exponent := some { exponent with digits := exponent.digits.reverse } }, tokens⟩ := by
  have mark : (Scanner.mk (.number stage { negative, integer, fraction }) tokens).step
      (some 'e') = ⟨.number .mark { negative, integer, fraction }, tokens⟩ := by
    rcases complete with rfl | rfl | rfl <;> rfl
  obtain ⟨below, digits⟩ := exponent
  rw [List.cons_append, read_cons, mark]
  cases below with
  | false =>
      have due : ∀ numeral digit, digit.isDigit = true →
          Stage.next? .mark numeral digit = some (.exponent, numeral.pushExponent digit) := by
        intro numeral digit isDigit
        have noSign : digit ≠ '+' ∧ digit ≠ '-' := by
          constructor <;> rintro rfl <;> cases isDigit
        simp [Stage.next?, isDigit, noSign]
      obtain ⟨digit, others, rfl⟩ := List.exists_cons_of_ne_nil nonempty
      have first : Numeral.pushExponent { negative, integer, fraction } digit =
          { negative, integer, fraction, exponent := some ⟨false, [digit]⟩ } := rfl
      rw [if_neg Bool.false_ne_true, List.nil_append, read_exponentDigits nonempty areDigits due,
        List.foldl_cons, first, foldl_pushExponent, List.reverse_cons]
  | true =>
      have due : ∀ numeral digit, digit.isDigit = true →
          Stage.next? .markSign numeral digit = some (.exponent, numeral.pushExponent digit) :=
        fun numeral digit isDigit => by simp [Stage.next?, isDigit]
      have signed : (Scanner.mk (.number .mark { negative, integer, fraction }) tokens).step
          (some '-') =
            ⟨.number .markSign
              { negative, integer, fraction, exponent := some ⟨true, []⟩ }, tokens⟩ := rfl
      rw [if_pos rfl, List.singleton_append, read_cons, signed,
        read_exponentDigits nonempty areDigits due, foldl_pushExponent, List.append_nil]

theorem finds_numeral {numeral : Numeral} (wellFormed : numeral.WellFormed)
    (tokens : List Token) :
    ((Scanner.mk .between tokens).read numeral.text).Finds (.number numeral :: tokens) := by
  obtain ⟨negative, integer, fraction, exponent⟩ := numeral
  obtain ⟨stage, whole, first⟩ := read_integer wellFormed.integer negative tokens
  obtain ⟨next, further, second⟩ :=
    read_fraction wellFormed.fraction whole negative integer.reverse tokens
  rw [Numeral.text, read_append, read_append, first, second]
  cases exponent with
  | none =>
      have complete : next.isComplete = true := by
        rcases further with rfl | rfl | rfl <;> rfl
      exact .number complete (by simp [Numeral.ordered])
  | some exponent =>
      obtain ⟨nonempty, areDigits⟩ := wellFormed.exponent exponent rfl
      rw [read_exponent nonempty areDigits further]
      exact .number rfl (by simp [Numeral.ordered])

/-! ## Values -/

theorem finds_items {items : List Value}
    (each : ∀ item ∈ items, ∀ tokens,
      ((Scanner.mk .between tokens).read item.write).Finds (item.tokens.reverse ++ tokens))
    (tokens : List Token) :
    ((Scanner.mk .between tokens).read (Value.writeItems items)).Finds
      ((Value.itemTokens items).reverse ++ tokens) := by
  induction items generalizing tokens with
  | nil => exact .between
  | cons item items ih =>
      have first := each item (by simp) tokens
      cases items with
      | nil => exact first
      | cons next items =>
          have rest := ih (fun other member => each other (by simp [member]))
            (.comma :: (item.tokens.reverse ++ tokens))
          rw [Value.writeItems, read_append, read_cons, first.delimit delimits_comma,
            Value.itemTokens]
          · simpa using rest
          · simp
          · simp

theorem finds_members {members : List (String × Value)}
    (each : ∀ member ∈ members, ∀ tokens,
      ((Scanner.mk .between tokens).read member.2.write).Finds
        (member.2.tokens.reverse ++ tokens))
    (tokens : List Token) :
    ((Scanner.mk .between tokens).read (Value.writeMembers members)).Finds
      ((Value.memberTokens members).reverse ++ tokens) := by
  have named (name : String) (value : Value) (tokens : List Token) (rest : List Char) :
      (Scanner.mk .between tokens).read (Value.quote name ++ ':' :: (value.write ++ rest)) =
        ((Scanner.mk .between (.colon :: .string (some name) :: tokens)).read value.write).read
          rest := by
    rw [read_append, read_quote, read_cons, read_append]
    rfl
  induction members generalizing tokens with
  | nil => exact .between
  | cons member members ih =>
      obtain ⟨name, value⟩ := member
      have first := each (name, value) (by simp) (.colon :: .string (some name) :: tokens)
      cases members with
      | nil =>
          have whole := named name value tokens []
          rw [List.append_nil] at whole
          rw [Value.writeMembers, whole, read_nil, Value.memberTokens]
          simpa using first
      | cons next members =>
          have rest := ih (fun other member => each other (by simp [member]))
            (.comma :: (value.tokens.reverse ++ .colon :: .string (some name) :: tokens))
          rw [Value.writeMembers, named, read_cons, first.delimit delimits_comma,
            Value.memberTokens]
          · simpa using rest
          · simp
          · simp

/-- Reading the text of a value finds its tokens. -/
theorem finds_write {value : Value} (wellFormed : value.WellFormed) (tokens : List Token) :
    ((Scanner.mk .between tokens).read value.write).Finds (value.tokens.reverse ++ tokens) := by
  induction wellFormed generalizing tokens with
  | null => exact .between
  | bool flag => cases flag <;> exact .between
  | number literal => exact finds_numeral literal tokens
  | string content =>
      rw [Value.write, read_quote]
      exact .between
  | @array items _ ih =>
      have opened : (Scanner.mk .between tokens).step (some '[') =
          ⟨.between, .openArray :: tokens⟩ := rfl
      rw [Value.write, read_cons, opened, read_append, read_cons, read_nil,
        (finds_items ih _).delimit delimits_closeArray]
      simpa [Value.tokens] using Finds.between
  | @object members _ ih =>
      have opened : (Scanner.mk .between tokens).step (some '\x7b') =
          ⟨.between, .openObject :: tokens⟩ := rfl
      rw [Value.write, read_cons, opened, read_append, read_cons, read_nil,
        (finds_members ih _).delimit delimits_closeObject]
      simpa [Value.tokens] using Finds.between

end Scanner

theorem tokensOf_write {value : Value} (wellFormed : value.WellFormed) :
    tokensOf (value.write.map some) = value.tokens := by
  have finds := Scanner.finds_write wellFormed []
  rw [List.append_nil] at finds
  rw [tokensOf]
  exact (congrArg List.reverse finds.finish).trans (List.reverse_reverse _)

end ChainLedger.Json
