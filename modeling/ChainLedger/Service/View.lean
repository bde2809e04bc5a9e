import ChainLedger.Json.Value
import ChainLedger.Service.Paging
import ChainLedger.Store.Rows

/-!
# Views: rows as they are served

Decimals are served as the shortest text of their number. A transaction is named by its hash,
which is null when it is not known.
-/

set_option autoImplicit false

namespace ChainLedger.Service

structure DescriptionView where
  id : Int
  kind : Stored.DescriptionKind
  value : String
  assetId : Int
  transactionHash : Option String
  createdAt : Instant
  deriving DecidableEq, Repr

structure AssetView where
  id : Int
  identifier : String
  name : String
  metadata : String
  owner : String
  supply : String
  createdTransactionHash : Option String
  createdAt : Instant
  deriving DecidableEq, Repr

/-- The descriptions are served where one transaction is asked for, and not in listings. -/
structure TransactionView where
  id : Int
  hash : String
  fee : Int64
  size : Int32
  notes : Json.Value
  spends : Json.Value
  createdAt : Instant
  descriptions : Option (List DescriptionView) := none

/-- The transactions are served where one block is asked for, and not in listings. -/
structure BlockView where
  id : Int
  hash : String
  sequence : Int32
  previousBlockHash : String
  main : Bool
  difficulty : String
  work : String
  timestamp : Instant
  graffiti : String
  size : Int32
  transactionsCount : Int32
  transactions : Option (List TransactionView) := none

def DescriptionView.of (kind : Stored.DescriptionKind) (row : Stored.Description)
    (transactionHash : Option String) : DescriptionView :=
  { id := row.id
    kind
    value := row.value.normalText
    assetId := row.assetId
    transactionHash
    createdAt := row.createdAt }

def AssetView.of (row : Stored.Asset) (createdTransactionHash : Option String) : AssetView :=
  { id := row.id
    identifier := row.entry.identifier
    name := row.entry.name
    metadata := row.entry.metadata
    owner := row.entry.owner
    supply := row.supply.normalText
    createdTransactionHash
    createdAt := row.createdAt }

def TransactionView.of (row : Stored.Transaction) : TransactionView :=
  { id := row.id
    hash := row.entry.hash
    fee := row.entry.fee
    size := row.entry.size
    notes := row.entry.notes
    spends := row.entry.spends
    createdAt := row.createdAt }

def BlockView.of (row : Stored.Block) : BlockView :=
  { id := row.id
    hash := row.entry.hash
    sequence := row.entry.sequence
    previousBlockHash := row.entry.previousBlockHash
    main := row.entry.main
    difficulty := row.entry.difficulty.normalText
    work := row.entry.work.normalText
    timestamp := row.entry.timestamp
    graffiti := row.entry.graffiti
    size := row.entry.size
    transactionsCount := row.entry.transactionsCount }

namespace DescriptionView

def toValue (view : DescriptionView) : Json.Value :=
  .object
    [("object", .string "asset_description"),
     ("id", .integer view.id),
     ("type", .string view.kind.name),
     ("value", .string view.value),
     ("asset_id", .integer view.assetId),
     ("transaction_hash", .optionalString view.transactionHash),
     ("created_at", .string view.createdAt.text)]

end DescriptionView

namespace AssetView

def toValue (view : AssetView) : Json.Value :=
  .object
    [("object", .string "asset"),
     ("id", .integer view.id),
     ("identifier", .string view.identifier),
     ("name", .string view.name),
     ("metadata", .string view.metadata),
     ("owner", .string view.owner),
     ("supply", .string view.supply),
     ("created_transaction_hash", .optionalString view.createdTransactionHash),
     ("created_at", .string view.createdAt.text)]

end AssetView

namespace TransactionView

def toValue (view : TransactionView) : Json.Value :=
  .object <|
    [("object", .string "transaction"),
     ("id", .integer view.id),
     ("hash", .string view.hash),
     ("fee", .integer view.fee.toInt),
     ("size", .integer view.size.toInt),
     ("notes", view.notes),
     ("spends", view.spends),
     ("created_at", .string view.createdAt.text)]
    ++ match view.descriptions with
      | none => []
      | some descriptions =>
        [("asset_descriptions", .array (descriptions.map DescriptionView.toValue))]

end TransactionView

namespace BlockView

def toValue (view : BlockView) : Json.Value :=
  .object <|
    [("object", .string "block"),
     ("id", .integer view.id),
     ("hash", .string view.hash),
     ("sequence", .integer view.sequence.toInt),
     ("previous_block_hash", .string view.previousBlockHash),
     ("main", .bool view.main),
     ("difficulty", .string view.difficulty),
     ("work", .string view.work),
     ("timestamp", .string view.timestamp.text),
     ("graffiti", .string view.graffiti),
     ("size", .integer view.size.toInt),
     ("transactions_count", .integer view.transactionsCount.toInt)]
    ++ match view.transactions with
      | none => []
      | some transactions =>
        [("transactions", .array (transactions.map TransactionView.toValue))]

end BlockView

namespace Page

def toValue {α : Type} (render : α → Json.Value) (page : Page α) : Json.Value :=
  .object
    [("data", .array (page.data.map render)),
     ("pagination",
       .object
        [("total", .integer page.total),
         ("page", .integer page.paging.page),
         ("limit", .integer page.paging.limit),
         ("total_pages", .integer (page.paging.totalPages page.total))])]

end Page
end ChainLedger.Service
