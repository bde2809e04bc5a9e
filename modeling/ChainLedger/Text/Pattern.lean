/-!
# Search patterns

Patterns in which a percent sign stands for any run of characters, an underscore for any one
character, and a backslash for the character behind it. A pattern is matched by following all the
places in the text at which the part read so far can end; each place is kept as the text that is
left, the longest first.
-/

set_option autoImplicit false

namespace ChainLedger.Text

inductive PatternPart
  | anyRun
  | anyOne
  | exactly (character : Char)
  deriving DecidableEq, Repr

/-- The parts of a pattern. A backslash at the end stands for itself. -/
def patternParts : List Char → List PatternPart
  | [] => []
  | '%' :: rest => .anyRun :: patternParts rest
  | '_' :: rest => .anyOne :: patternParts rest
  | '\\' :: character :: rest => .exactly character :: patternParts rest
  | character :: rest => .exactly character :: patternParts rest

def endsOf : List Char → List (List Char)
  | [] => [[]]
  | character :: rest => (character :: rest) :: endsOf rest

def followPart (places : List (List Char)) : PatternPart → List (List Char)
  | .anyRun =>
    match places with
    | [] => []
    | longest :: _ => endsOf longest
  | .anyOne => places.filterMap fun
    | [] => none
    | _ :: rest => some rest
  | .exactly wanted => places.filterMap fun
    | [] => none
    | character :: rest => if character = wanted then some rest else none

def matchesParts (parts : List PatternPart) (text : List Char) : Bool :=
  (parts.foldl followPart [text]).any List.isEmpty

/-- A name contains a search text when it matches that text between two any-runs. The search
text is part of the pattern, so its own signs keep their meaning. -/
def matchesSearch (search name : String) : Bool :=
  matchesParts (patternParts ('%' :: search.toList ++ ['%'])) name.toList

end ChainLedger.Text
