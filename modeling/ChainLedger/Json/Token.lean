import ChainLedger.Json.Numeral
import ChainLedger.Text.Octets

/-!
# Tokens of a JSON text

The reader sees a text as symbols: characters, and octets that belong to no character. One
symbol is read at a time, so reading two texts in a row is reading the second from the state
that the first one leaves.

A text may be refused in two ways, as malformed or as unfinished, and which one it is can depend
on whether the value is used or only skipped: a broken token carries both answers. A string with
half of a surrogate pair or with a stray octet is flawed: it may be skipped, but not used.
-/

set_option autoImplicit false

namespace ChainLedger.Json

/-- Why a text is refused: it is no JSON, it ends too early, or it is JSON of the wrong shape. -/
inductive Fault
  | malformed
  | unfinished
  | unsuitable
  deriving DecidableEq, Repr

/-- What a reader meets: a character, or an octet that belongs to none. -/
abbrev Symbol := Option Char

def symbolsOfText (text : String) : List Symbol :=
  text.toList.map some

def symbolsOfPiece : Text.Piece → List Symbol
  | .character value => [some value]
  | .stray octets => List.replicate octets none

def symbolsOfOctets (octets : List Nat) : List Symbol :=
  (Text.piecesOf octets).flatMap symbolsOfPiece

inductive Token
  | openArray
  | closeArray
  | openObject
  | closeObject
  | comma
  | colon
  | null
  | bool (value : Bool)
  | number (numeral : Numeral)
  | string (content : Option String)
  | brokenScalar (used skipped : Fault)
  | brokenString (used skipped : Fault)
  deriving DecidableEq, Repr

def Token.foreign : Token := .brokenScalar .malformed .malformed

/-- Where the reader stands in an escape sequence: the octets of a code are counted, and its
value is lost with the first one that is no hexadecimal digit. -/
inductive Escape
  | outside
  | begun
  | code (held : Nat) (value : Option Nat)
  deriving DecidableEq, Repr

/-- A string whose closing quote has not been met; its characters are kept last first. -/
structure Quoted where
  characters : List Char := []
  flawed : Bool := false
  stray : Bool := false
  half : Option Nat := none
  escape : Escape := .outside
  deriving DecidableEq, Repr

inductive Stage
  | sign
  | zero
  | integer
  | point
  | fraction
  | mark
  | markSign
  | exponent
  deriving DecidableEq, Repr

/-- Where the reader stands: digits of an open number are kept last first. -/
inductive Mode
  | between
  | word (expected : List Char) (token : Token)
  | number (stage : Stage) (numeral : Numeral)
  | quoted (string : Quoted)
  | stopped
  deriving DecidableEq, Repr

namespace Quoted

def unfinished (string : Quoted) : Token :=
  .brokenString (if string.flawed then .malformed else .unfinished) .unfinished

def closed (string : Quoted) : Token :=
  .string <|
    if string.flawed || string.stray || string.half.isSome then none
    else some (String.ofList string.characters.reverse)

/-- A leading surrogate that is not followed by the other half is a flaw. -/
def settle (string : Quoted) : Quoted :=
  if string.half.isSome then { string with flawed := true, half := none } else string

def push (string : Quoted) (character : Char) : Quoted :=
  let settled := string.settle
  { settled with characters := character :: settled.characters, escape := .outside }

def letterEscape? : Char → Option Char
  | '"' => some '"'
  | '\\' => some '\\'
  | '/' => some '/'
  | 'b' => some '\x08'
  | 'f' => some '\x0c'
  | 'n' => some '\n'
  | 'r' => some '\r'
  | 't' => some '\t'
  | _ => none

def hexValue? (character : Char) : Option Nat :=
  if character.isDigit then some (character.toNat - '0'.toNat)
  else if 'a' ≤ character ∧ character ≤ 'f' then some (character.toNat - 'a'.toNat + 10)
  else if 'A' ≤ character ∧ character ≤ 'F' then some (character.toNat - 'A'.toNat + 10)
  else none

def takeCode (string : Quoted) (code : Nat) : Quoted :=
  let rest := { string with escape := .outside }
  match string.half with
  | some leading =>
    if 0xDC00 ≤ code ∧ code ≤ 0xDFFF then
      let joined := 0x10000 + (leading - 0xD800) * 0x400 + (code - 0xDC00)
      { rest with characters := Char.ofNat joined :: rest.characters, half := none }
    else { rest with flawed := true, half := none }
  | none =>
    if 0xDC00 ≤ code ∧ code ≤ 0xDFFF then { rest with flawed := true }
    else if 0xD800 ≤ code ∧ code ≤ 0xDBFF then { rest with half := some code }
    else { rest with characters := Char.ofNat code :: rest.characters }

def octetCount : Symbol → Nat
  | some character => character.utf8Size
  | none => 1

def step (string : Quoted) (symbol : Symbol) : Quoted ⊕ Token :=
  match string.escape with
  | .outside =>
    match symbol with
    | none => .inl { string.settle with stray := true }
    | some character =>
      if character = '"' then .inr string.closed
      else if character = '\\' then .inl { string with escape := .begun }
      else if character < ' ' then .inr (.brokenString .malformed .malformed)
      else .inl (string.push character)
  | .begun =>
    if symbol = some 'u' then .inl { string with escape := .code 0 (some 0) }
    else match symbol.bind letterEscape? with
      | some character => .inl (string.push character)
      | none => .inr (.brokenString .malformed .malformed)
  | .code held value =>
    let held := held + octetCount symbol
    let value := do return (← value) * 16 + (← hexValue? (← symbol))
    if held < 4 then .inl { string with escape := .code held value }
    else match value with
      | some code => .inl (string.takeCode code)
      | none => .inr (.brokenString .malformed .malformed)

end Quoted

/-- The states of the reader and the tokens that the last symbol completed, last first. -/
abbrev Advance := Mode × List Token

def Mode.start : Symbol → Advance
  | some ' ' | some '\t' | some '\n' | some '\r' => (.between, [])
  | some '[' => (.between, [.openArray])
  | some ']' => (.between, [.closeArray])
  | some '\x7b' => (.between, [.openObject])
  | some '\x7d' => (.between, [.closeObject])
  | some ',' => (.between, [.comma])
  | some ':' => (.between, [.colon])
  | some '"' => (.quoted {}, [])
  | some 'n' => (.word ['u', 'l', 'l'] .null, [])
  | some 't' => (.word ['r', 'u', 'e'] (.bool true), [])
  | some 'f' => (.word ['a', 'l', 's', 'e'] (.bool false), [])
  | some '-' => (.number .sign { negative := true, integer := [] }, [])
  | some '0' => (.number .zero { integer := ['0'] }, [])
  | some character =>
    if character.isDigit then (.number .integer { integer := [character] }, [])
    else (.stopped, [.foreign])
  | none => (.stopped, [.foreign])

namespace Numeral

def ordered (numeral : Numeral) : Numeral :=
  { numeral with
    integer := numeral.integer.reverse
    fraction := numeral.fraction.reverse
    exponent := numeral.exponent.map fun exponent =>
      { exponent with digits := exponent.digits.reverse } }

def pushInteger (numeral : Numeral) (digit : Char) : Numeral :=
  { numeral with integer := digit :: numeral.integer }

def pushFraction (numeral : Numeral) (digit : Char) : Numeral :=
  { numeral with fraction := digit :: numeral.fraction }

def pushExponent (numeral : Numeral) (digit : Char) : Numeral :=
  match numeral.exponent with
  | none => { numeral with exponent := some ⟨false, [digit]⟩ }
  | some exponent =>
    { numeral with exponent := some { exponent with digits := digit :: exponent.digits } }

end Numeral

def Stage.isComplete : Stage → Bool
  | .zero | .integer | .fraction | .exponent => true
  | .sign | .point | .mark | .markSign => false

def Stage.next? (stage : Stage) (numeral : Numeral) (character : Char) :
    Option (Stage × Numeral) :=
  let isMark := character = 'e' ∨ character = 'E'
  match stage with
  | .sign =>
    if character = '0' then some (.zero, numeral.pushInteger character)
    else if character.isDigit then some (.integer, numeral.pushInteger character)
    else none
  | .zero =>
    if character = '.' then some (.point, numeral)
    else if isMark then some (.mark, numeral)
    else none
  | .integer =>
    if character.isDigit then some (.integer, numeral.pushInteger character)
    else if character = '.' then some (.point, numeral)
    else if isMark then some (.mark, numeral)
    else none
  | .point =>
    if character.isDigit then some (.fraction, numeral.pushFraction character) else none
  | .fraction =>
    if character.isDigit then some (.fraction, numeral.pushFraction character)
    else if isMark then some (.mark, numeral)
    else none
  | .mark =>
    if character = '+' then some (.markSign, numeral)
    else if character = '-' then
      some (.markSign, { numeral with exponent := some ⟨true, []⟩ })
    else if character.isDigit then some (.exponent, numeral.pushExponent character)
    else none
  | .markSign | .exponent =>
    if character.isDigit then some (.exponent, numeral.pushExponent character) else none

namespace Mode

def step : Mode → Symbol → Advance
  | .between, symbol => start symbol
  | .word [] token, symbol =>
    let (mode, tokens) := start symbol
    (mode, tokens ++ [token])
  | .word (expected :: rest) token, symbol =>
    if symbol = some expected then
      match rest with
      | [] => (.between, [token])
      | _ :: _ => (.word rest token, [])
    else (.stopped, [.foreign])
  | .number stage numeral, symbol =>
    match symbol.bind (stage.next? numeral) with
    | some (stage, numeral) => (.number stage numeral, [])
    | none =>
      if stage.isComplete && !(stage == .zero && symbol.any Char.isDigit) then
        let (mode, tokens) := start symbol
        (mode, tokens ++ [.number numeral.ordered])
      else (.stopped, [.foreign])
  | .quoted string, symbol =>
    match string.step symbol with
    | .inl string => (.quoted string, [])
    | .inr token =>
      match token with
      | .string _ => (.between, [token])
      | _ => (.stopped, [token])
  | .stopped, _ => (.stopped, [])

def finish : Mode → List Token
  | .between | .stopped => []
  | .word [] token => [token]
  | .word (_ :: _) _ => [.brokenScalar .unfinished .unfinished]
  | .number stage numeral =>
    if stage.isComplete then [.number numeral.ordered]
    else [.brokenScalar .unfinished .malformed]
  | .quoted string => [string.unfinished]

end Mode

structure Scanner where
  mode : Mode := .between
  tokens : List Token := []
  deriving DecidableEq, Repr

namespace Scanner

def step (scanner : Scanner) (symbol : Symbol) : Scanner :=
  let (mode, tokens) := scanner.mode.step symbol
  ⟨mode, tokens ++ scanner.tokens⟩

def run (scanner : Scanner) (symbols : List Symbol) : Scanner :=
  symbols.foldl step scanner

theorem run_append (scanner : Scanner) (first second : List Symbol) :
    scanner.run (first ++ second) = (scanner.run first).run second := by
  simp [run]

end Scanner

/-- The tokens of a text. A broken token is the last one. -/
def tokensOf (symbols : List Symbol) : List Token :=
  let scanner := Scanner.run {} symbols
  (scanner.mode.finish ++ scanner.tokens).reverse

end ChainLedger.Json
