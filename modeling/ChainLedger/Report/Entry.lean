import ChainLedger.Report.Format
import ChainLedger.Report.Validation

/-!
# Entries: reports as they are stored

The fields of a block and of a transaction in the form in which the store keeps them. Converting
a block reads its difficulty and work as decimals and its timestamp as an instant; after
validation none of the three can fail.
-/

set_option autoImplicit false

namespace ChainLedger.Report

structure BlockEntry where
  hash : String
  sequence : Int32
  previousBlockHash : String
  main : Bool
  difficulty : Decimal
  work : Decimal
  timestamp : Instant
  graffiti : String
  size : Int32
  transactionsCount : Int32
  deriving DecidableEq, Repr

structure TransactionEntry where
  hash : String
  fee : Int64
  size : Int32
  notes : Json.Value
  spends : Json.Value

inductive ConversionError
  | difficulty (hash : String) (error : Decimal.Error)
  | work (hash : String) (error : Decimal.Error)
  | timestamp (hash : String)
  deriving DecidableEq, Repr

def ConversionError.message : ConversionError → String
  | difficulty hash error => "block " ++ hash ++ " difficulty: " ++ error.message
  | work hash error => "block " ++ hash ++ " work: " ++ error.message
  | timestamp hash => "block " ++ hash ++ " has an invalid timestamp"

/-- The work of a block that reports none is zero. -/
def Block.readWork (block : Block) : Except ConversionError Decimal :=
  match block.work with
  | none => .ok .zero
  | some work => (Decimal.read work).mapError (.work block.hash)

def Block.toEntry (block : Block) : Except ConversionError BlockEntry := do
  let difficulty ← (Decimal.read block.difficulty).mapError (.difficulty block.hash)
  let work ← block.readWork
  match Instant.ofMilliseconds? block.timestamp.toInt with
  | none => throw (.timestamp block.hash)
  | some timestamp =>
    return {
      hash := block.hash
      sequence := block.sequence
      previousBlockHash := block.previousBlockHash
      main := block.operation.isMainChain
      difficulty
      work
      timestamp
      graffiti := block.graffiti
      size := block.size
      transactionsCount := Int32.ofNat block.transactions.length }

def Transaction.toEntry (transaction : Transaction) : TransactionEntry :=
  { hash := transaction.hash
    fee := transaction.fee
    size := transaction.size
    notes := transaction.notesValue
    spends := transaction.spendsValue }

def BlockEntry.toValue (entry : BlockEntry) : Json.Value :=
  .object
    [("hash", .string entry.hash),
     ("sequence", .integer entry.sequence.toInt),
     ("previous_block_hash", .string entry.previousBlockHash),
     ("main", .bool entry.main),
     ("difficulty", .string entry.difficulty.text),
     ("work", .string entry.work.text),
     ("timestamp", .string entry.timestamp.text),
     ("graffiti", .string entry.graffiti),
     ("size", .integer entry.size.toInt),
     ("transactions_count", .integer entry.transactionsCount.toInt)]

def TransactionEntry.toValue (entry : TransactionEntry) : Json.Value :=
  .object
    [("hash", .string entry.hash),
     ("fee", .integer entry.fee.toInt),
     ("size", .integer entry.size.toInt),
     ("notes", entry.notes),
     ("spends", entry.spends)]

end ChainLedger.Report
