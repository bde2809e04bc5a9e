import ChainLedger.Settings.DatabaseUrl
import ChainLedger.Settings.Environment
import ChainLedger.Text.Blank

/-!
# Commands on the database

Creating a database asks the maintenance database whether it exists, and creates it if not. Both
questions are put to a client program, which may be missing; before it is looked for, its arguments
have to be such as a program can be given. The other commands need a connection to the database
itself.
-/

set_option autoImplicit false

namespace ChainLedger.Settings

inductive CommandError
  | config (detail : String)
  | database (detail : String)
  | badArgument
  | noClient
  | clientFailed (detail : String)
  deriving DecidableEq, Repr

def CommandError.message : CommandError → String
  | config detail => "Configuration error: " ++ detail
  | database detail => "Database error: " ++ detail
  | badArgument => "InvalidInput"
  | noClient => "NotFound"
  | clientFailed detail => "psql reported an error: " ++ detail

structure ClientRun where
  succeeded : Bool := true
  output : String := ""
  errors : String := ""

/-- The client program, by the arguments it is given. -/
abbrev Client := List String → ClientRun

/-- What a command came to, and the runs of the client program that it made. -/
structure CommandReport where
  calls : List (List String)
  result : Except CommandError Unit

/-- A program takes arguments without the null character only. -/
def arePassable (arguments : List String) : Bool :=
  arguments.all fun argument => !argument.toList.contains '\x00'

def readAddress (environment : Environment) : Except CommandError DatabaseUrl :=
  match environment.get? "DATABASE_URL" with
  | none => .error (.config "DATABASE_URL environment variable not set")
  | some url =>
    match DatabaseUrl.parse? url with
    | some address => .ok address
    | none => .error (.config "Invalid DATABASE_URL format")

def existenceQuery (name : String) : String :=
  "SELECT 1 FROM pg_database WHERE datname = '" ++ name ++ "'"

def creationStatement (name : String) : String := "CREATE DATABASE \"" ++ name ++ "\""

/-- Creates a database that does not exist, by default the one of the address. -/
def create (environment : Environment) (name : Option String) (client : Option Client) :
    CommandReport :=
  match readAddress environment with
  | .error error => ⟨[], .error error⟩
  | .ok address =>
    let name := name.getD address.name
    let check := [address.maintenance, "-t", "-c", existenceQuery name]
    if !arePassable check then ⟨[], .error .badArgument⟩
    else
      match client with
      | none => ⟨[], .error .noClient⟩
      | some client =>
        if Text.trim (client check).output = "1" then ⟨[check], .ok ()⟩
        else
          let creation := [address.maintenance, "-c", creationStatement name]
          let run := client creation
          ⟨[check, creation],
            if run.succeeded then .ok () else .error (.clientFailed run.errors)⟩

def connect (environment : Environment) : CommandReport :=
  match readAddress environment with
  | .error error => ⟨[], .error error⟩
  | .ok address =>
    if isSupported address.url then ⟨[], .ok ()⟩
    else ⟨[], .error (.database (unsupported address.url))⟩

end ChainLedger.Settings
