import ChainLedger.Decimal.Rounding

/-!
# Reading decimals

A decimal is written as an optional sign, digits with an optional point among, before or behind
them, and separators after the first digit. Digits that no longer fit before the point are an
error; behind the point the first digit that does not fit rounds the last one that does, and the
others only have to be digits or separators. With an exponent the point moves. Where it moves
behind the last digit the result is an integer of scale zero, and where it moves further to the
left than a scale can tell, the last digits are rounded off.
-/

set_option autoImplicit false

namespace ChainLedger.Decimal

inductive Error
  | empty
  | unknownCharacter
  | tooManyDigits
  | roundedTooFar
  | noDigits
  | secondPoint
  | leadingSeparator
  | badExponent
  | scaleTooGreat (scale : Nat)
  | tooGreat
  deriving DecidableEq, Repr

def Error.message : Error → String
  | empty => "Invalid decimal: empty"
  | unknownCharacter => "Invalid decimal: unknown character"
  | tooManyDigits => "Invalid decimal: overflow from too many digits"
  | roundedTooFar => "Invalid decimal: overflow from mantissa after rounding"
  | noDigits => "Invalid decimal: no digits found"
  | secondPoint => "Invalid decimal: two decimal points"
  | leadingSeparator => "Invalid decimal: must start lead with a number"
  | badExponent => "Failed to parse"
  | scaleTooGreat scale =>
    "Scale exceeds the maximum precision allowed: " ++ toString scale ++ " > "
      ++ toString greatestScale
  | tooGreat => "Number exceeds maximum value that can be represented."

/-- A coefficient from which on a numeral counts as long; below it one more digit fits 64 bits. -/
def longFrom : Nat := UInt64.size / 10 - 255

/-- The part of a numeral that was read: whether it has digits and a point, whether it became long
before its scale was full, the coefficient and the digits behind the point. -/
structure Prefix where
  digits : Bool := false
  point : Bool := false
  long : Bool := false
  coefficient : Nat := 0
  scale : Nat := 0

namespace Prefix

def isFull (part : Prefix) : Bool := part.point && greatestScale ≤ part.scale

def push (part : Prefix) (coefficient : Nat) : Prefix :=
  let scale := if part.point then part.scale + 1 else 0
  { part with
    digits := true
    long := part.long || longFrom ≤ coefficient && scale < greatestScale
    coefficient
    scale }

end Prefix

def strangeCharacter (character : Char) : Error :=
  if character = '.' then .secondPoint
  else if character = '_' then .leadingSeparator
  else .unknownCharacter

def checkRest (characters : List Char) : Except Error Unit :=
  match characters.find? fun character => !character.isDigit && character != '_' with
  | some character => .error (strangeCharacter character)
  | none => .ok ()

/-- Rounds up the last digit that fits. Where the coefficient grows out of its bound it is rounded
once more, to one digit fewer. -/
def roundUp (part : Prefix) : Except Error (Nat × Nat) :=
  let rounded := part.coefficient + 1
  if rounded < coefficientBound then .ok (rounded, part.scale)
  else if part.scale = 0 then .error .roundedTooFar
  else .ok ((rounded + 4) / 10, part.scale - 1)

/-- Reads on behind the last digit that fits. The next digit rounds it, and then the rest is
checked. A separator before that digit is skipped in a long numeral, and in any other stands for a
zero. -/
def readRounded (part : Prefix) : List Char → Except Error (Nat × Nat)
  | [] => .ok (part.coefficient, part.scale)
  | character :: rest =>
    if character.isDigit then do
      let rounded ←
        if '5' ≤ character then roundUp part else .ok (part.coefficient, part.scale)
      checkRest rest
      return rounded
    else if character = '_' then
      if part.long then readRounded part rest
      else do
        checkRest rest
        .ok (part.coefficient, part.scale)
    else .error (strangeCharacter character)

def readPart (part : Prefix) : List Char → Except Error (Nat × Nat)
  | [] => if part.digits then .ok (part.coefficient, part.scale) else .error .noDigits
  | character :: rest =>
    if part.isFull then readRounded part (character :: rest)
    else if character.isDigit then
      let coefficient := part.coefficient * 10 + (character.toNat - '0'.toNat)
      if coefficient < coefficientBound then readPart (part.push coefficient) rest
      else if part.point then readRounded part (character :: rest)
      else .error .tooManyDigits
    else if character = '.' && !part.point then readPart { part with point := true } rest
    else if character = '_' && part.digits then readPart part rest
    else .error (strangeCharacter character)

/-- Reads a numeral without exponent. A zero has no sign. -/
def readPlain : List Char → Except Error Decimal
  | [] => .error .empty
  | '-' :: rest => do
    let (coefficient, scale) ← readPart {} rest
    return { negative := coefficient != 0, coefficient, scale }
  | '+' :: rest => do
    let (coefficient, scale) ← readPart {} rest
    return { coefficient, scale }
  | characters => do
    let (coefficient, scale) ← readPart {} characters
    return { coefficient, scale }

def isExponentMark (character : Char) : Bool := character = 'e' || character = 'E'

/-- Moves the point of a decimal to the left. Digits behind the greatest scale are rounded off,
where a half goes upward; the sign stays, also if nothing else does. -/
def shiftLeft (decimal : Decimal) (places : Nat) : Except Error Decimal :=
  if greatestScale < places then .error (.scaleTooGreat places)
  else
    let scale := decimal.scale + places
    .ok
      { decimal with
        coefficient := roundOff .upward decimal.coefficient (scale - greatestScale)
        scale := min scale greatestScale }

def shiftRight (decimal : Decimal) (places : Nat) : Except Error Decimal :=
  if places ≤ decimal.scale then .ok { decimal with scale := decimal.scale - places }
  else if greatestScale < places then .error (.scaleTooGreat places)
  else
    let coefficient := decimal.coefficient * Text.powerOfTen (places - decimal.scale)
    if coefficient < coefficientBound then .ok { decimal with coefficient, scale := 0 }
    else .error .tooGreat

def readExponent (characters : List Char) : Except Error Nat :=
  match Text.readUnsigned? UInt32.size (String.ofList characters) with
  | some places => .ok places
  | none => .error .badExponent

def read (text : String) : Except Error Decimal :=
  let base := text.toList.takeWhile (!isExponentMark ·)
  match text.toList.dropWhile (!isExponentMark ·) with
  | [] => readPlain base
  | _ :: exponent => do
    let decimal ← readPlain base
    match exponent with
    | '-' :: places => decimal.shiftLeft (← readExponent places)
    | places => decimal.shiftRight (← readExponent places)

end ChainLedger.Decimal
