import ChainLedger.Json.Token

/-!
# Nodes: JSON texts as trees

A tree is built from the tokens of a text, whether or not the text is JSON. Where the text
breaks, the tree says so at that place: a broken node where a value should be, or an array or
object that is not closed. A break is the last thing in a tree, because nothing behind it is
read. What is said about a break can depend on how the value is read, so it is kept as data and
left to the reader of the tree.
-/

set_option autoImplicit false

namespace ChainLedger.Json

/-- What is said of a broken value: to one who uses it, to one who skips it, and to one who
expects a name. -/
structure Break where
  used : Fault
  skipped : Fault
  asName : Fault
  deriving DecidableEq, Repr

def Break.all (fault : Fault) : Break := ⟨fault, fault, fault⟩

/-- How an array or object ends: with its bracket, with a break where a comma or the bracket is
due, or with something else than a key where a key is due. -/
inductive Ending
  | closed
  | cut (fault : Fault)
  | keyless (found : Break)
  deriving DecidableEq, Repr

/-- A value of a JSON text. A string or key without content is flawed. -/
inductive Node
  | null
  | bool (value : Bool)
  | number (numeral : Numeral)
  | string (content : Option String)
  | array (items : List Node) (ending : Ending)
  | object (members : List (Option String × Node)) (ending : Ending)
  | broken (found : Break)
  deriving Repr

namespace Ending

def check : Ending → Except Fault Unit
  | closed => .ok ()
  | cut fault => .error fault
  | keyless found => .error found.used

def skip : Ending → Except Fault Unit
  | closed => .ok ()
  | cut fault => .error fault
  | keyless found => .error found.skipped

end Ending

namespace Node

/-- Skips a value: only what makes the text no JSON counts. The break of a container's last
value is the container's own ending, so nothing inside has to be visited. -/
def skip : Node → Except Fault Unit
  | array _ ending | object _ ending => ending.skip
  | broken found => .error found.skipped
  | null | bool _ | number _ | string _ => .ok ()

def mismatch : Node → Fault
  | null | bool _ | array _ _ | object _ _ | string (some _) => .unsuitable
  | number numeral => if numeral.isTooLarge then .malformed else .unsuitable
  | string none => .malformed
  | broken found => found.used

end Node

/-- An open array or object, its parts last first; the open object has a key whose value is
being read. -/
inductive Frame
  | array (items : List Node)
  | object (members : List (Option String × Node)) (name : Option String)

inductive Builder
  | value (frames : List Frame)
  | valueOrClose (frames : List Frame)
  | separator (frame : Frame) (frames : List Frame)
  | key (members : List (Option String × Node)) (frames : List Frame)
  | keyOrClose (frames : List Frame)
  | colon (members : List (Option String × Node)) (name : Option String) (frames : List Frame)
  | complete (root : Node)
  | overrun (root : Node)
  | failed (root : Node)

namespace Builder

def place (node : Node) : List Frame → Builder
  | [] => .complete node
  | .array items :: frames => .separator (.array (node :: items)) frames
  | .object members name :: frames => .separator (.object ((name, node) :: members) name) frames

def collapse (fault : Fault) (node : Node) : List Frame → Node
  | [] => node
  | .array items :: frames =>
    collapse fault (.array (node :: items).reverse (.cut fault)) frames
  | .object members name :: frames =>
    collapse fault (.object ((name, node) :: members).reverse (.cut fault)) frames

def breakAt (found : Break) (frames : List Frame) : Builder :=
  .failed (collapse found.skipped (.broken found) frames)

def close (ending : Ending) : Frame → Node
  | .array items => .array items.reverse ending
  | .object members _ => .object members.reverse ending

def startValue (frames : List Frame) : Token → Builder
  | .openArray => .valueOrClose (.array [] :: frames)
  | .openObject => .keyOrClose frames
  | .null => place .null frames
  | .bool flag => place (.bool flag) frames
  | .number numeral => place (.number numeral) frames
  | .string content => place (.string content) frames
  | .brokenScalar used skipped => breakAt ⟨used, skipped, .malformed⟩ frames
  | .brokenString used skipped => breakAt ⟨used, skipped, used⟩ frames
  | .closeArray | .closeObject | .comma | .colon => breakAt (.all .malformed) frames

def keyBreak : Token → Break
  | .brokenString used skipped => ⟨used, skipped, used⟩
  | _ => .all .malformed

def keylessAt (members : List (Option String × Node)) (found : Break) (frames : List Frame) :
    Builder :=
  .failed (collapse found.skipped (.object members.reverse (.keyless found)) frames)

def step : Builder → Token → Builder
  | .value frames, token => startValue frames token
  | .valueOrClose frames, token =>
    match token, frames with
    | .closeArray, .array items :: frames => place (.array items.reverse .closed) frames
    | token, frames => startValue frames token
  | .separator frame frames, token =>
    match frame, token with
    | .array items, .comma => .value (.array items :: frames)
    | .object members _, .comma => .key members frames
    | .array items, .closeArray => place (.array items.reverse .closed) frames
    | .object members _, .closeObject => place (.object members.reverse .closed) frames
    | frame, _ => .failed (collapse .malformed (close (.cut .malformed) frame) frames)
  | .keyOrClose frames, token =>
    match token with
    | .closeObject => place (.object [] .closed) frames
    | .string content => .colon [] content frames
    | token => keylessAt [] (keyBreak token) frames
  | .key members frames, token =>
    match token with
    | .string content => .colon members content frames
    | token => keylessAt members (keyBreak token) frames
  | .colon members name frames, token =>
    match token with
    | .colon => .value (.object members name :: frames)
    | _ => breakAt (.all .malformed) (.object members name :: frames)
  | .complete root, _ => .overrun root
  | .overrun root, _ => .overrun root
  | .failed root, _ => .failed root

end Builder

structure Document where
  root : Node
  overrun : Bool := false

namespace Builder

def finish : Builder → Document
  | .value frames => ⟨collapse .unfinished (.broken (.all .unfinished)) frames, false⟩
  | .valueOrClose (frame :: frames) | .separator frame frames =>
    ⟨collapse .unfinished (close (.cut .unfinished) frame) frames, false⟩
  | .valueOrClose [] => ⟨.broken (.all .unfinished), false⟩
  | .keyOrClose frames =>
    ⟨collapse .unfinished (.object [] (.keyless (.all .unfinished))) frames, false⟩
  | .key members frames =>
    ⟨collapse .unfinished (.object members.reverse (.keyless (.all .unfinished))) frames, false⟩
  | .colon members name frames =>
    ⟨collapse .unfinished (.broken (.all .unfinished)) (.object members name :: frames), false⟩
  | .complete root | .failed root => ⟨root, false⟩
  | .overrun root => ⟨root, true⟩

end Builder

def Document.ofTokens (tokens : List Token) : Document :=
  (tokens.foldl Builder.step (.value [])).finish

def Document.ofSymbols (symbols : List Symbol) : Document :=
  .ofTokens (tokensOf symbols)

def Document.ofText (text : String) : Document :=
  .ofSymbols (symbolsOfText text)

/-- Reads a whole text by its root; what stands behind a good root makes the text malformed. -/
def Document.read {α : Type} (document : Document) (root : Node → Except Fault α) :
    Except Fault α := do
  let value ← root document.root
  if document.overrun then .error .malformed else .ok value

end ChainLedger.Json
