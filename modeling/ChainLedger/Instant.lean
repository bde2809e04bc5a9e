import ChainLedger.Text.Digits

/-!
# Instants

An instant is a number of milliseconds since the beginning of 1970, and is written as the date
and time of day in UTC, with three digits behind the second where they are not all zero.
-/

set_option autoImplicit false

namespace ChainLedger

structure Instant where
  milliseconds : Int
  deriving DecidableEq, Repr, Inhabited

namespace Instant

def earliest : Int := -8334601228800000

def latest : Int := 8210266876799999

def ofMilliseconds? (milliseconds : Int) : Option Instant :=
  if earliest ≤ milliseconds ∧ milliseconds ≤ latest then some ⟨milliseconds⟩ else none

def ofSeconds (seconds : Int) : Instant := ⟨seconds * 1000⟩

structure Date where
  year : Int
  month : Int
  day : Int
  deriving DecidableEq, Repr

/-- The date of a day counted from the beginning of 1970. Years are counted from March on, so
that the leap day ends a year, in eras of 400 years. -/
def dateOfDay (day : Int) : Date :=
  let shifted := day + 719468
  let era := shifted / 146097
  let dayOfEra := shifted % 146097
  let yearOfEra :=
    (dayOfEra - dayOfEra / 1460 + dayOfEra / 36524 - dayOfEra / 146096) / 365
  let dayOfYear := dayOfEra - (365 * yearOfEra + yearOfEra / 4 - yearOfEra / 100)
  let marchMonth := (5 * dayOfYear + 2) / 153
  let month := if marchMonth < 10 then marchMonth + 3 else marchMonth - 9
  { year := yearOfEra + era * 400 + (if month ≤ 2 then 1 else 0)
    month
    day := dayOfYear - (153 * marchMonth + 2) / 5 + 1 }

def padded (width : Nat) (number : Int) : List Char :=
  let digits := Text.digitsOf number.natAbs
  List.replicate (width - digits.length) '0' ++ digits

/-- Years of four digits are plain; others carry a sign. -/
def yearText (year : Int) : List Char :=
  if year < 0 then '-' :: padded 4 year
  else if 9999 < year then '+' :: padded 4 year
  else padded 4 year

def text (instant : Instant) : String :=
  let date := dateOfDay (instant.milliseconds / 86400000)
  let time := instant.milliseconds % 86400000
  let milliseconds := time % 1000
  String.ofList <|
    yearText date.year ++ '-' :: padded 2 date.month ++ '-' :: padded 2 date.day
      ++ 'T' :: padded 2 (time / 3600000) ++ ':' :: padded 2 (time / 60000 % 60)
      ++ ':' :: padded 2 (time / 1000 % 60)
      ++ (if milliseconds = 0 then [] else '.' :: padded 3 milliseconds) ++ ['Z']

end Instant
end ChainLedger
