import ChainLedger.Schema.Migration

/-!
# The migrator

The migrator keeps the names of the applied migrations in a table of its own, which every step
makes if it is missing. A step is one unit of work: when one of its changes fails, the tables and
the record are as they were before it. A recorded name without a migration stops every step but
the one that drops all tables.
-/

set_option autoImplicit false

namespace ChainLedger.Schema

def recordTable : String := "seaql_migrations"

structure Database where
  tables : List String := []
  applied : List String := []
  deriving DecidableEq, Repr

inductive MigrationError
  | injected
  | missing (names : List String)
  deriving DecidableEq, Repr

def MigrationError.message : MigrationError → String
  | injected => "Custom Error: injected fault"
  | missing names =>
    "Custom Error: " ++ String.intercalate "\n" (names.map fun name =>
      "Migration file of version '" ++ name
        ++ "' is missing, this migration has been applied but its file is missing")

/-- The state of a step: the database, the changes it made, and the text of the change that is
to fail. -/
structure Run where
  database : Database
  changes : List Change := []
  failOn : Option String := none

abbrev Progress := Except MigrationError Unit × Run

namespace Run

/-- A change whose text contains the given one fails. -/
def fails (run : Run) (change : Change) : Bool :=
  match run.failOn with
  | none => false
  | some text => Text.contains text.toList change.text.toList

def make : List Change → Run → Progress
  | [], run => (.ok (), run)
  | change :: rest, run =>
    if run.fails change then (.error .injected, run)
    else
      make rest
        { run with
          database := { run.database with tables := change.apply run.database.tables }
          changes := run.changes ++ [change] }

def install (run : Run) : Run :=
  if run.database.tables.contains recordTable then run
  else { run with
    database := { run.database with tables := run.database.tables ++ [recordTable] } }

def andThen (progress : Progress) (next : Run → Progress) : Progress :=
  match progress with
  | (.ok (), run) => next run
  | failed => failed

def record (name : String) (run : Run) : Run :=
  { run with database := { run.database with applied := run.database.applied ++ [name] } }

def forget (name : String) (run : Run) : Run :=
  { run with
    database := { run.database with applied := run.database.applied.filter (· ≠ name) } }

end Run

namespace Database

def isApplied (database : Database) (migration : Migration) : Bool :=
  database.applied.contains migration.name

def appliedMigrations (database : Database) : List Migration :=
  migrations.filter database.isApplied

def pendingMigrations (database : Database) : List Migration :=
  migrations.filter fun migration => !database.isApplied migration

def missingNames (database : Database) : List String :=
  database.applied.filter fun name => !(migrations.map (·.name)).contains name

def checkRecord (database : Database) : Except MigrationError Unit :=
  if database.missingNames.isEmpty then .ok () else .error (.missing database.missingNames)

end Database

namespace Run

def limited (steps : Option Nat) (list : List Migration) : List Migration :=
  match steps with
  | none => list
  | some count => list.take count

def applyAll : List Migration → Run → Progress
  | [], run => (.ok (), run)
  | migration :: rest, run =>
    andThen (make migration.up run) fun run => applyAll rest (run.record migration.name)

def revertAll : List Migration → Run → Progress
  | [], run => (.ok (), run)
  | migration :: rest, run =>
    andThen (make migration.down run) fun run => revertAll rest (run.forget migration.name)

def checked (run : Run) (next : Run → Progress) : Progress :=
  match run.database.checkRecord with
  | .ok () => next run
  | .error error => (.error error, run)

def up (steps : Option Nat) (run : Run) : Progress :=
  run.install.checked fun run =>
    applyAll (limited steps run.database.pendingMigrations) run

def down (steps : Option Nat) (run : Run) : Progress :=
  run.install.checked fun run =>
    revertAll (limited steps run.database.appliedMigrations.reverse) run

/-- Drops all tables in the order of their creation, and with them the record. -/
def dropAll (run : Run) : Progress :=
  andThen (make (run.database.tables.map .dropWithDependents) run) fun run =>
    (.ok (), { run with database := { run.database with applied := [] } })

end Run

inductive Step
  | up (steps : Option Nat)
  | down (steps : Option Nat)
  | fresh
  | refresh
  | reset
  | status
  | markApplied (name : String)
  deriving DecidableEq, Repr

def Step.progress (step : Step) (run : Run) : Progress :=
  match step with
  | up steps => run.up steps
  | down steps => run.down steps
  | fresh => Run.andThen run.install.dropAll (Run.up none)
  | refresh => Run.andThen (run.down none) (Run.up none)
  | reset => run.down none
  | status => (.ok (), run.install)
  | markApplied name =>
    let run := run.install
    (.ok (), if run.database.applied.contains name then run else run.record name)

/-- What a step came to: the database behind it, the changes it made, also where they were rolled
back, and the error if it failed. -/
structure StepReport where
  database : Database
  changes : List Change
  error : Option MigrationError

def errorOf {α : Type} : Except MigrationError α → Option MigrationError
  | .ok _ => none
  | .error error => some error

/-- Does a step and looks at the record afterwards. A failure leaves the tables and the record as
they were, except for the migrator's own table. -/
def Step.run (step : Step) (failOn : Option String) (database : Database) : StepReport :=
  match step.progress { database, failOn } with
  | (.ok (), run) =>
    { database := run.database
      changes := run.changes
      error := errorOf run.database.checkRecord }
  | (.error error, run) =>
    { database := (Run.install { database }).database
      changes := run.changes
      error := some error }

end ChainLedger.Schema
