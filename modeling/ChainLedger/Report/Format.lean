import ChainLedger.Json.Record
import ChainLedger.Json.Value
import ChainLedger.Report.Basic

/-!
# The JSON form of reports

Each report is a record: the fields with which it is read, and the object with which it is
written. Fields that may be absent say which value they then have.
-/

set_option autoImplicit false

namespace ChainLedger.Report

open Json

@[reducible] def required {α : Type} (name : String) (read : Reader α) : Field :=
  ⟨name, α, read, none⟩

@[reducible] def defaulted {α : Type} (name : String) (read : Reader α) (absent : α) : Field :=
  ⟨name, α, read, some absent⟩

def recordOf {α : Type} (fields : List Field) (make : Tuple fields → α) : Reader α :=
  fun room node => make <$> Reader.record fields room node

namespace Note

@[reducible] def fields : List Field := [required "commitment" Reader.text]

def reader : Reader Note :=
  recordOf fields fun (commitment, ()) => { commitment }

def toValue (note : Note) : Value :=
  .object [("commitment", .string note.commitment)]

end Note

namespace Spend

@[reducible] def fields : List Field := [required "nullifier" Reader.text]

def reader : Reader Spend :=
  recordOf fields fun (nullifier, ()) => { nullifier }

def toValue (spend : Spend) : Value :=
  .object [("nullifier", .string spend.nullifier)]

end Spend

namespace Mint

@[reducible] def fields : List Field :=
  [required "id" Reader.text,
   defaulted "metadata" Reader.text "",
   required "name" Reader.text,
   required "owner" Reader.text,
   required "value" Reader.integerText]

def reader : Reader Mint :=
  recordOf fields fun (id, metadata, name, owner, value, ()) =>
    { id, metadata, name, owner, value }

def toValue (mint : Mint) : Value :=
  .object
    [("id", .string mint.id),
     ("metadata", .string mint.metadata),
     ("name", .string mint.name),
     ("owner", .string mint.owner),
     ("value", .string mint.value)]

end Mint

namespace Burn

@[reducible] def fields : List Field :=
  [required "id" Reader.text, required "value" Reader.integerText]

def reader : Reader Burn :=
  recordOf fields fun (id, value, ()) => { id, value }

def toValue (burn : Burn) : Value :=
  .object [("id", .string burn.id), ("value", .string burn.value)]

end Burn

namespace Transaction

@[reducible] def fields : List Field :=
  [required "hash" Reader.text,
   required "fee" Reader.int64,
   required "size" Reader.int32,
   defaulted "notes" (Reader.list Note.reader) [],
   defaulted "spends" (Reader.list Spend.reader) [],
   defaulted "mints" (Reader.list Mint.reader) [],
   defaulted "burns" (Reader.list Burn.reader) []]

def reader : Reader Transaction :=
  recordOf fields fun (hash, fee, size, notes, spends, mints, burns, ()) =>
    { hash, fee, size, notes, spends, mints, burns }

def notesValue (transaction : Transaction) : Value :=
  .array (transaction.notes.map Note.toValue)

def spendsValue (transaction : Transaction) : Value :=
  .array (transaction.spends.map Spend.toValue)

def toValue (transaction : Transaction) : Value :=
  .object
    [("hash", .string transaction.hash),
     ("fee", .integer transaction.fee.toInt),
     ("size", .integer transaction.size.toInt),
     ("notes", transaction.notesValue),
     ("spends", transaction.spendsValue),
     ("mints", .array (transaction.mints.map Mint.toValue)),
     ("burns", .array (transaction.burns.map Burn.toValue))]

end Transaction

namespace Block

@[reducible] def fields : List Field :=
  [required "hash" Reader.text,
   required "sequence" Reader.int32,
   required "previous_block_hash" Reader.text,
   required "timestamp" Reader.int64,
   required "difficulty" Reader.integerText,
   defaulted "work" (Reader.optional Reader.integerText) none,
   defaulted "graffiti" Reader.text "",
   defaulted "size" Reader.int32 0,
   required "type" (Reader.variant Operation.variants),
   defaulted "transactions" (Reader.list Transaction.reader) []]

def reader : Reader Block :=
  recordOf fields fun
    (hash, sequence, previousBlockHash, timestamp, difficulty, work, graffiti, size, operation,
      transactions, ()) =>
    { hash, sequence, previousBlockHash, timestamp, difficulty, work, graffiti, size, operation,
      transactions }

def toValue (block : Block) : Value :=
  .object
    [("hash", .string block.hash),
     ("sequence", .integer block.sequence.toInt),
     ("previous_block_hash", .string block.previousBlockHash),
     ("timestamp", .integer block.timestamp.toInt),
     ("difficulty", .string block.difficulty),
     ("work", .optionalString block.work),
     ("graffiti", .string block.graffiti),
     ("size", .integer block.size.toInt),
     ("type", .string block.operation.name),
     ("transactions", .array (block.transactions.map Transaction.toValue))]

def ofDocument (document : Document) : Except Fault Block :=
  document.read (reader rootRoom)

end Block

namespace Upload

@[reducible] def fields : List Field := [required "blocks" (Reader.list Block.reader)]

def reader : Reader Upload :=
  recordOf fields fun (blocks, ()) => { blocks }

def ofDocument (document : Document) : Except Fault Upload :=
  document.read (reader rootRoom)

end Upload
end ChainLedger.Report
