import ChainLedger.Schema.Definition

/-!
# Migrations

Each migration makes one table with its indexes, and is undone by dropping the table.
-/

set_option autoImplicit false

namespace ChainLedger.Schema

structure Migration where
  name : String
  table : TableDefinition
  indexes : List IndexDefinition
  deriving DecidableEq, Repr

namespace Migration

def up (migration : Migration) : List Change :=
  .createTable migration.table :: migration.indexes.map .createIndex

def down (migration : Migration) : List Change := [.dropTable migration.table.name]

end Migration

def idColumn : Column := { name := "id", type := "serial", primary := true }

def hashColumn : Column := { name := "hash", type := "varchar" }

def instantColumn (name : String) : Column :=
  { name, type := "timestamp with time zone", default := some "CURRENT_TIMESTAMP" }

def createdAt : Column := instantColumn "created_at"

def updatedAt : Column := instantColumn "updated_at"

def createBlocks : Migration :=
  { name := "m20240301_000001_create_blocks_table"
    table :=
      { name := "blocks"
        columns :=
          [idColumn,
           hashColumn,
           { name := "sequence", type := "integer" },
           { name := "previous_block_hash", type := "varchar" },
           { name := "main", type := "bool", default := some "FALSE" },
           { name := "difficulty", type := "decimal" },
           { name := "work", type := "decimal", default := some "0" },
           { name := "timestamp", type := "timestamp with time zone" },
           { name := "graffiti", type := "varchar", default := some "''" },
           { name := "size", type := "integer", default := some "0" },
           { name := "transactions_count", type := "integer", default := some "0" },
           createdAt,
           updatedAt] }
    indexes :=
      [{ table := "blocks", columns := ["hash"], unique := true },
       { table := "blocks", columns := ["sequence", "main"] }] }

def createTransactions : Migration :=
  { name := "m20240301_000002_create_transactions_table"
    table :=
      { name := "transactions"
        columns :=
          [idColumn,
           hashColumn,
           { name := "fee", type := "bigint" },
           { name := "size", type := "integer" },
           { name := "notes", type := "jsonb", default := some "'[]'" },
           { name := "spends", type := "jsonb", default := some "'[]'" },
           createdAt,
           updatedAt] }
    indexes := [{ table := "transactions", columns := ["hash"], unique := true }] }

def createBlocksTransactions : Migration :=
  { name := "m20240301_000003_create_blocks_transactions_table"
    table :=
      { name := "blocks_transactions"
        columns :=
          [{ name := "block_id", type := "integer" },
           { name := "transaction_id", type := "integer" },
           { name := "index", type := "integer" }]
        primaryKey := ["block_id", "transaction_id"]
        foreignKeys :=
          [{ column := "block_id", target := "blocks", cascade := true },
           { column := "transaction_id", target := "transactions", cascade := true }] }
    indexes := [{ table := "blocks_transactions", columns := ["transaction_id"] }] }

def createAssets : Migration :=
  { name := "m20240301_000004_create_assets_table"
    table :=
      { name := "assets"
        columns :=
          [idColumn,
           { name := "identifier", type := "varchar" },
           { name := "name", type := "varchar" },
           { name := "metadata", type := "varchar", default := some "''" },
           { name := "owner", type := "varchar" },
           { name := "supply", type := "decimal", default := some "0" },
           { name := "created_transaction_id", type := "integer" },
           createdAt,
           updatedAt]
        foreignKeys := [{ column := "created_transaction_id", target := "transactions" }] }
    indexes :=
      [{ table := "assets", columns := ["identifier"], unique := true },
       { table := "assets", columns := ["name"] }] }

def createDescriptions : Migration :=
  { name := "m20240301_000005_create_asset_descriptions_table"
    table :=
      { name := "asset_descriptions"
        columns :=
          [idColumn,
           { name := "type", type := "varchar(8)" },
           { name := "value", type := "decimal" },
           { name := "asset_id", type := "integer" },
           { name := "transaction_id", type := "integer" },
           createdAt]
        foreignKeys :=
          [{ column := "asset_id", target := "assets" },
           { column := "transaction_id", target := "transactions" }] }
    indexes :=
      [{ table := "asset_descriptions", columns := ["transaction_id"] },
       { table := "asset_descriptions", columns := ["asset_id"] }] }

def migrations : List Migration :=
  [createBlocks, createTransactions, createBlocksTransactions, createAssets, createDescriptions]

end ChainLedger.Schema
