import ChainLedger.Json.Node

/-!
# Reading records

Readers of typed data from a tree. Each reader answers with the value or with the first fault
that a reader of the text from left to right meets.

A record is a list of named fields. As an object it has its fields in any order, each at most
once, among members of other names, which are skipped; a field that has a value for its absence
may be missing. As an array it has its fields in their own order, and only those at the end that
have a value for their absence may be missing.

Some values are first taken in whole, whatever they are, and judged afterwards. There the
nesting is limited: the room is the number of containers that may still be opened.
-/

set_option autoImplicit false

namespace ChainLedger.Json

/-- A reader of values that are found with some room for nesting. -/
abbrev Reader (α : Type) := Nat → Node → Except Fault α

def rootRoom : Nat := 127

namespace Reader

def text : Reader String := fun _ node =>
  match node with
  | .string (some content) => .ok content
  | node => .error node.mismatch

def integer {α : Type} (accept : Int → Option α) : Reader α := fun _ node =>
  match node with
  | .number numeral =>
    match numeral.integer?.bind accept with
    | some value => .ok value
    | none => .error node.mismatch
  | node => .error node.mismatch

def int32 : Reader Int32 :=
  integer fun value =>
    if Int32.minValue.toInt ≤ value ∧ value ≤ Int32.maxValue.toInt then some (.ofInt value)
    else none

def int64 : Reader Int64 :=
  integer fun value =>
    if Int64.minValue.toInt ≤ value ∧ value ≤ Int64.maxValue.toInt then some (.ofInt value)
    else none

def list {α : Type} (item : Reader α) : Reader (List α) := fun room node =>
  match node with
  | .array items ending => do
    let values ← items.mapM (item (room - 1))
    ending.check
    return values
  | node => .error node.mismatch

def whole : Reader Unit
  | _, .null | _, .bool _ | _, .string (some _) => .ok ()
  | _, .string none => .error .malformed
  | _, .number numeral => if numeral.isTooLarge then .error .malformed else .ok ()
  | _, .broken found => .error found.used
  | 0, .array _ _ | 0, .object _ _ => .error .malformed
  | room + 1, .array items ending => do
    items.forM (whole room)
    ending.check
  | room + 1, .object members ending => do
    members.forM fun member =>
      match member.1 with
      | none => .error .malformed
      | some _ => whole room member.2
    ending.check

/-- Reads a big integer: a string as it is, or the digits of an unsigned literal of 64 bits.
The value is taken in whole first. -/
def integerText : Reader String := fun room node => do
  whole room node
  match node with
  | .string (some content) => return content
  | .number numeral =>
    match numeral.natural? with
    | some value => return String.ofList (Text.digitsOf value)
    | none => throw .unsuitable
  | _ => throw .unsuitable

def optional {α : Type} (reader : Reader α) : Reader (Option α) := fun room node =>
  match node with
  | .null => .ok none
  | node => some <$> reader room node

def named? {α : Type} (variants : List (String × α)) (name : String) : Except Fault α :=
  match variants.find? (·.1 = name) with
  | some variant => .ok variant.2
  | none => .error .unsuitable

/-- Reads one of several names, as a string or as an object whose one key is the name and whose
value is null. -/
def variant {α : Type} (variants : List (String × α)) : Reader α := fun _ node =>
  match node with
  | .string (some name) => named? variants name
  | .object [] (.keyless found) => .error found.asName
  | .object ((none, _) :: _) _ => .error .malformed
  | .object ((some name, value) :: rest) ending => do
    let found ← named? variants name
    match value with
    | .null => pure ()
    | value => throw value.mismatch
    match rest, ending with
    | [], .closed => return found
    | [], .cut fault => throw fault
    | _, _ => throw .malformed
  | .broken found => .error found.asName
  | _ => .error .malformed

end Reader

/-- A field of a record: its name, how its value is read, and its value where it is absent. -/
structure Field where
  name : String
  Content : Type
  read : Reader Content
  absent : Option Content

@[reducible] def Tuple : List Field → Type
  | [] => Unit
  | field :: fields => field.Content × Tuple fields

/-- The values of a record's fields that have been read so far. -/
@[reducible] def Draft : List Field → Type
  | [] => Unit
  | field :: fields => Option field.Content × Draft fields

namespace Draft

def empty : (fields : List Field) → Draft fields
  | [] => ()
  | _ :: fields => (none, empty fields)

/-- Takes in one member of an object. A field that was read before is refused before its second
value is looked at; a member of another name is skipped. -/
def put (room : Nat) (name : String) (node : Node) :
    (fields : List Field) → Draft fields → Except Fault (Draft fields)
  | [], () => do
    node.skip
    return ()
  | field :: fields, (content, rest) =>
    if field.name = name then
      match content with
      | some _ => .error .unsuitable
      | none => do return (some (← field.read room node), rest)
    else do return (content, ← put room name node fields rest)

def complete : (fields : List Field) → Draft fields → Except Fault (Tuple fields)
  | [], () => .ok ()
  | field :: fields, (content, rest) =>
    match content <|> field.absent with
    | none => .error .unsuitable
    | some content => do return (content, ← complete fields rest)

end Draft

def Tuple.absent (fields : List Field) : Except Fault (Tuple fields) :=
  Draft.complete fields (Draft.empty fields)

def Tuple.ofItems (room : Nat) :
    (fields : List Field) → List Node → Ending → Except Fault (Tuple fields)
  | [], [], ending => do
    ending.check
    return ()
  | [], _ :: _, _ => .error .malformed
  | field :: fields, item :: items, ending => do
    let content ← field.read room item
    let rest ← ofItems room fields items ending
    return (content, rest)
  | fields, [], ending => do
    ending.check
    absent fields

def Tuple.ofMembers (room : Nat) (fields : List Field) (members : List (Option String × Node))
    (ending : Ending) : Except Fault (Tuple fields) := do
  let draft ← members.foldlM (fun draft member =>
    match member.1 with
    | none => .error .malformed
    | some name => Draft.put room name member.2 fields draft) (Draft.empty fields)
  ending.check
  draft.complete fields

def Reader.record (fields : List Field) : Reader (Tuple fields) := fun room node =>
  match node with
  | .object members ending => Tuple.ofMembers (room - 1) fields members ending
  | .array items ending => Tuple.ofItems (room - 1) fields items ending
  | node => .error node.mismatch

end ChainLedger.Json
