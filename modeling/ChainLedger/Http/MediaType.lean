/-!
# Media types

The content type of a request is a type, a subtype and parameters. The service reads bodies whose
type is `application` and whose subtype is `json` before or behind its last plus sign, whatever
the case of the letters. A content type that does not follow the grammar is refused.
-/

set_option autoImplicit false

namespace ChainLedger.Http

def isTokenCharacter (character : Char) : Bool :=
  character.isAlphanum || "!#$%&'*+-.^_\x60|~".toList.contains character

structure MediaType where
  type : String
  subtype : String
  suffix : Option String
  deriving DecidableEq, Repr

namespace MediaType

def lower (characters : List Char) : String := String.ofList (characters.map Char.toLower)

def isQuotable (character : Char) : Bool := ' ' ≤ character && character ≤ '~'

inductive Due
  | name (begun : Bool)
  | value (begun : Bool)
  | quoted (begun : Bool)
  | afterQuoted
  deriving DecidableEq, Repr

/-- Reads parameters: a name, an equals sign and a value that is a token or quoted; semicolons
stand between them, and spaces before a name or behind a quoted value. A quoted value is not
empty: a quote right behind the opening one belongs to it, and the next one ends it. -/
def readsParameters : Due → List Char → Bool
  | .name begun, [] => !begun
  | .value _, [] => true
  | .quoted _, [] => false
  | .afterQuoted, [] => true
  | .name begun, character :: rest =>
    if character = ' ' && !begun then readsParameters (.name false) rest
    else if character = '=' && begun then readsParameters (.value false) rest
    else isTokenCharacter character && readsParameters (.name true) rest
  | .value begun, character :: rest =>
    if character = '"' && !begun then readsParameters (.quoted false) rest
    else if character = ';' && begun then readsParameters (.name false) rest
    else isTokenCharacter character && readsParameters (.value true) rest
  | .quoted begun, character :: rest =>
    if character = '"' && begun then readsParameters .afterQuoted rest
    else isQuotable character && readsParameters (.quoted true) rest
  | .afterQuoted, character :: rest =>
    if character = ';' then readsParameters (.name false) rest
    else character = ' ' && readsParameters .afterQuoted rest

def splitSuffix (subtype : List Char) : String × Option String :=
  let suffix := (subtype.reverse.takeWhile (· ≠ '+')).reverse
  let before := subtype.take (subtype.length - suffix.length - 1)
  if suffix.length < subtype.length ∧ before ≠ [] then (lower before, some (lower suffix))
  else (lower subtype, none)

def ofText? (text : String) : Option MediaType :=
  let type := text.toList.takeWhile isTokenCharacter
  match text.toList.dropWhile isTokenCharacter with
  | '/' :: rest =>
    let subtype := rest.takeWhile isTokenCharacter
    let readsRest := match rest.dropWhile isTokenCharacter with
      | [] => true
      | ';' :: parameters => readsParameters (.name false) parameters
      | _ => false
    if type.isEmpty || subtype.isEmpty || !readsRest then none
    else
      let (subtype, suffix) := splitSuffix subtype
      some { type := lower type, subtype, suffix }
  | _ => none

def isJson (mediaType : MediaType) : Bool :=
  mediaType.type = "application"
    && (mediaType.subtype = "json" || mediaType.suffix = some "json")

end MediaType
end ChainLedger.Http
