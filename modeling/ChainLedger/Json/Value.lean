import ChainLedger.Json.Node

/-!
# Values and their text

A JSON value that is whole, and the compact text it is written with: no blanks, members in the
order they are given, and in strings only the quote, the backslash and the control characters
escaped.
-/

set_option autoImplicit false

namespace ChainLedger.Json

inductive Value
  | null
  | bool (flag : Bool)
  | number (numeral : Numeral)
  | string (content : String)
  | array (items : List Value)
  | object (members : List (String × Value))
  deriving Repr, Inhabited

namespace Value

def integer (number : Int) : Value :=
  .number (.ofInt number)

def optionalString : Option String → Value
  | some content => .string content
  | none => .null

def hexDigit (digit : Nat) : Char :=
  if digit < 10 then Char.ofNat ('0'.toNat + digit) else Char.ofNat ('a'.toNat + (digit - 10))

def escape (character : Char) : List Char :=
  if character = '"' then ['\\', '"']
  else if character = '\\' then ['\\', '\\']
  else if character = '\x08' then ['\\', 'b']
  else if character = '\x0c' then ['\\', 'f']
  else if character = '\n' then ['\\', 'n']
  else if character = '\r' then ['\\', 'r']
  else if character = '\t' then ['\\', 't']
  else if character < ' ' then
    ['\\', 'u', '0', '0', hexDigit (character.toNat / 16), hexDigit (character.toNat % 16)]
  else [character]

def quote (content : String) : List Char :=
  '"' :: (content.toList.flatMap escape ++ ['"'])

mutual

def write : Value → List Char
  | null => ['n', 'u', 'l', 'l']
  | bool true => ['t', 'r', 'u', 'e']
  | bool false => ['f', 'a', 'l', 's', 'e']
  | number numeral => numeral.text
  | string content => quote content
  | array items => '[' :: (writeItems items ++ [']'])
  | object members => '\x7b' :: (writeMembers members ++ ['\x7d'])

def writeItems : List Value → List Char
  | [] => []
  | [item] => item.write
  | item :: items => item.write ++ ',' :: writeItems items

def writeMembers : List (String × Value) → List Char
  | [] => []
  | [(name, value)] => quote name ++ ':' :: value.write
  | (name, value) :: members => quote name ++ ':' :: (value.write ++ ',' :: writeMembers members)

end

def text (value : Value) : String :=
  String.ofList value.write

mutual

def node : Value → Node
  | null => .null
  | bool flag => .bool flag
  | number numeral => .number numeral
  | string content => .string (some content)
  | array items => .array (nodes items) .closed
  | object members => .object (memberNodes members) .closed

def nodes : List Value → List Node
  | [] => []
  | item :: items => item.node :: nodes items

def memberNodes : List (String × Value) → List (Option String × Node)
  | [] => []
  | (name, value) :: members => (some name, value.node) :: memberNodes members

end

end Value
end ChainLedger.Json
