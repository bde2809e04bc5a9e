import ChainLedger.Service.Paging
import ChainLedger.Text.Digits
import ChainLedger.Text.Octets

/-!
# Query strings

A query string is read as a form: parts between ampersands, each a name and a value around its
first equals sign. In both a plus sign is a space and a percent sign with two hexadecimal digits
is an octet; octets that are no text are shown as replacement characters.

A request reads the parameters that it knows. One that is given twice is an error, and so is one
whose value does not read; others are ignored.
-/

set_option autoImplicit false

namespace ChainLedger.Http

def hexValue? (octet : Nat) : Option Nat :=
  if 0x30 ≤ octet ∧ octet ≤ 0x39 then some (octet - 0x30)
  else if 0x41 ≤ octet ∧ octet ≤ 0x46 then some (octet - 0x41 + 10)
  else if 0x61 ≤ octet ∧ octet ≤ 0x66 then some (octet - 0x61 + 10)
  else none

/-- The octets that form octets stand for. A percent sign without two digits stands for
itself. -/
def decodeForm : List Nat → List Nat
  | [] => []
  | 0x2B :: rest => 0x20 :: decodeForm rest
  | 0x25 :: first :: second :: rest =>
    match hexValue? first, hexValue? second with
    | some high, some low => (high * 16 + low) :: decodeForm rest
    | _, _ => 0x25 :: decodeForm (first :: second :: rest)
  | octet :: rest => octet :: decodeForm rest

abbrev Parameters := List (String × String)

def splitAtAll (separator : Nat) : List Nat → List (List Nat)
  | [] => [[]]
  | octet :: rest =>
    if octet = separator then [] :: splitAtAll separator rest
    else match splitAtAll separator rest with
      | part :: parts => (octet :: part) :: parts
      | [] => [[octet]]

def readParameter (part : List Nat) : String × String :=
  let name := part.takeWhile (· ≠ 0x3D)
  let value := (part.dropWhile (· ≠ 0x3D)).drop 1
  (Text.shownText (decodeForm name), Text.shownText (decodeForm value))

def readParameters (query : String) : Parameters :=
  ((splitAtAll 0x26 (Text.octetsOf query)).filter (!·.isEmpty)).map readParameter

inductive BadQuery
  | bad
  deriving DecidableEq, Repr

namespace Parameters

def text? (parameters : Parameters) (name : String) : Except BadQuery (Option String) :=
  match parameters.filter (·.1 = name) with
  | [] => .ok none
  | [(_, value)] => .ok (some value)
  | _ :: _ :: _ => .error .bad

def value? {α : Type} (parameters : Parameters) (name : String) (read : String → Option α) :
    Except BadQuery (Option α) := do
  match ← parameters.text? name with
  | none => return none
  | some text =>
    match read text with
    | some value => return some value
    | none => throw .bad

def required (parameters : Parameters) (name : String) : Except BadQuery String := do
  match ← parameters.text? name with
  | some text => return text
  | none => throw .bad

def readWord (text : String) : Option Nat :=
  Text.readUnsigned? UInt64.size text

def readFlag : String → Option Bool
  | "true" => some true
  | "false" => some false
  | _ => none

def paging (parameters : Parameters) : Except BadQuery Service.Paging := do
  let page ← parameters.value? "page" readWord
  let limit ← parameters.value? "limit" readWord
  return .asked page limit

end Parameters
end ChainLedger.Http
