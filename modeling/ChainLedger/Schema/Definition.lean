import ChainLedger.Text.Split

/-!
# Definitions of tables

Tables with their columns, keys and indexes, and the statements that make and drop them. Indexes
and foreign keys are named after their table and columns.
-/

set_option autoImplicit false

namespace ChainLedger.Schema

structure Column where
  name : String
  type : String
  default : Option String := none
  primary : Bool := false
  deriving DecidableEq, Repr

structure ForeignKey where
  column : String
  target : String
  cascade : Bool := false
  deriving DecidableEq, Repr

structure TableDefinition where
  name : String
  columns : List Column
  primaryKey : List String := []
  foreignKeys : List ForeignKey := []
  deriving DecidableEq, Repr

structure IndexDefinition where
  table : String
  columns : List String
  unique : Bool := false
  deriving DecidableEq, Repr

inductive Change
  | createTable (table : TableDefinition)
  | createIndex (index : IndexDefinition)
  | dropTable (name : String)
  | dropWithDependents (name : String)
  deriving DecidableEq, Repr

def quoted (name : String) : String := "\"" ++ name ++ "\""

def quotedList (names : List String) : String :=
  "(" ++ String.intercalate ", " (names.map quoted) ++ ")"

def Column.text (column : Column) : String :=
  quoted column.name ++ " " ++ column.type ++ " NOT NULL"
    ++ (match column.default with
      | some default => " DEFAULT " ++ default
      | none => "")
    ++ if column.primary then " PRIMARY KEY" else ""

def ForeignKey.text (table : String) (key : ForeignKey) : String :=
  "CONSTRAINT " ++ quoted ("fk_" ++ table ++ "_" ++ key.column) ++ " FOREIGN KEY "
    ++ quotedList [key.column] ++ " REFERENCES " ++ quoted key.target ++ " "
    ++ quotedList ["id"] ++ if key.cascade then " ON DELETE CASCADE" else ""

def TableDefinition.text (table : TableDefinition) : String :=
  let primaryKey :=
    if table.primaryKey.isEmpty then [] else ["PRIMARY KEY " ++ quotedList table.primaryKey]
  let parts := table.columns.map Column.text ++ primaryKey
    ++ table.foreignKeys.map (ForeignKey.text table.name)
  quoted table.name ++ " ( " ++ String.intercalate ", " parts ++ " )"

def IndexDefinition.text (index : IndexDefinition) : String :=
  quoted ("idx_" ++ index.table ++ "_" ++ String.intercalate "_" index.columns) ++ " ON "
    ++ quoted index.table ++ " " ++ quotedList index.columns

def Change.text : Change → String
  | createTable table => "CREATE TABLE IF NOT EXISTS " ++ table.text
  | createIndex index =>
    (if index.unique then "CREATE UNIQUE INDEX" else "CREATE INDEX") ++ " IF NOT EXISTS "
      ++ index.text
  | dropTable name => "DROP TABLE " ++ quoted name
  | dropWithDependents name => "DROP TABLE IF EXISTS " ++ quoted name ++ " CASCADE"

def Change.apply (tables : List String) : Change → List String
  | createTable table => if tables.contains table.name then tables else tables ++ [table.name]
  | createIndex _ => tables
  | dropTable name | dropWithDependents name => tables.filter (· ≠ name)

end ChainLedger.Schema
