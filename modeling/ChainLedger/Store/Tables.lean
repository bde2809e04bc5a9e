import ChainLedger.Decimal.Sum
import ChainLedger.Store.Rows

/-!
# The store

Five tables whose rows keep the order of their insertion. A row gets an id above all ids that its
table has seen, or, where all tables count together, above all ids of the store. Nothing that
happens to a table depends on the other tables.
-/

set_option autoImplicit false

namespace ChainLedger

/-- Rows in order of insertion, and the greatest id given so far. -/
structure Table (Row : Type) where
  rows : List Row := []
  lastId : Int := 0

namespace Table

variable {Row : Type}

def add (table : Table Row) (id : Int) (row : Row) : Table Row :=
  { rows := table.rows ++ [row], lastId := max table.lastId id }

def modify (table : Table Row) (selects : Row → Bool) (change : Row → Row) : Table Row :=
  { table with rows := table.rows.map fun row => if selects row then change row else row }

def remove (table : Table Row) (selects : Row → Bool) : Table Row :=
  { table with rows := table.rows.filter (!selects ·) }

end Table

/-- Whether each table counts its ids for itself, or all tables count together. -/
inductive Numbering
  | perTable
  | shared
  deriving DecidableEq, Repr

structure Store where
  numbering : Numbering := .perTable
  blocks : Table Stored.Block := {}
  transactions : Table Stored.Transaction := {}
  links : List Stored.Link := []
  assets : Table Stored.Asset := {}
  descriptions : Table Stored.Description := {}

namespace Store

def nextId (store : Store) (lastId : Int) : Int :=
  match store.numbering with
  | .perTable => lastId + 1
  | .shared =>
    max (max store.blocks.lastId store.transactions.lastId)
      (max store.assets.lastId store.descriptions.lastId) + 1

def blockByHash? (store : Store) (hash : String) : Option Stored.Block :=
  store.blocks.rows.find? (·.entry.hash = hash)

def transactionByHash? (store : Store) (hash : String) : Option Stored.Transaction :=
  store.transactions.rows.find? (·.entry.hash = hash)

def assetById? (store : Store) (id : Int) : Option Stored.Asset :=
  store.assets.rows.find? (·.id = id)

def assetByIdentifier? (store : Store) (identifier : String) : Option Stored.Asset :=
  store.assets.rows.find? (·.entry.identifier = identifier)

def descriptionsOf (store : Store) (transactionId : Int) : List Stored.Description :=
  (store.descriptions.rows.filter (·.transactionId = transactionId)).mergeSort
    fun first second => first.id ≤ second.id

def insertBlock (store : Store) (entry : Report.BlockEntry) (now : Instant) :
    Stored.Block × Store :=
  let id := store.nextId store.blocks.lastId
  let row : Stored.Block := { id, entry, createdAt := now, updatedAt := now }
  (row, { store with blocks := store.blocks.add id row })

def updateBlock (store : Store) (id : Int) (entry : Report.BlockEntry) (now : Instant) :
    Option Stored.Block × Store :=
  let blocks := store.blocks.modify (·.id = id) (·.refresh entry now)
  (blocks.rows.find? (·.id = id), { store with blocks })

def insertTransaction (store : Store) (entry : Report.TransactionEntry) (now : Instant) :
    Stored.Transaction × Store :=
  let id := store.nextId store.transactions.lastId
  let row : Stored.Transaction := { id, entry, createdAt := now, updatedAt := now }
  (row, { store with transactions := store.transactions.add id row })

def updateTransaction (store : Store) (id : Int) (entry : Report.TransactionEntry)
    (now : Instant) : Option Stored.Transaction × Store :=
  let transactions := store.transactions.modify (·.id = id) (·.refresh entry now)
  (transactions.rows.find? (·.id = id), { store with transactions })

/-- Puts a transaction at an index of a block; a link that exists is moved. -/
def putLink (store : Store) (link : Stored.Link) : Store :=
  { store with links := link.put store.links }

/-- Adds an asset with supply zero, unless its identifier is known. -/
def insertAsset (store : Store) (entry : Stored.AssetEntry) (transactionId : Int)
    (now : Instant) : Store :=
  if (store.assetByIdentifier? entry.identifier).isSome then store
  else
    let id := store.nextId store.assets.lastId
    let row : Stored.Asset :=
      { id, entry, supply := .zero, createdTransactionId := transactionId,
        createdAt := now, updatedAt := now }
    { store with assets := store.assets.add id row }

def addSupply (store : Store) (assetId : Int) (delta : Decimal) (now : Instant) : Store :=
  { store with
    assets := store.assets.modify (·.id = assetId) fun row =>
      { row with supply := row.supply.add delta, updatedAt := now } }

def insertDescription (store : Store) (kind : Stored.DescriptionKind) (value : Decimal)
    (assetId transactionId : Int) (now : Instant) : Store :=
  let id := store.nextId store.descriptions.lastId
  let row : Stored.Description :=
    { id, kind := .known kind, value, assetId, transactionId, createdAt := now }
  { store with descriptions := store.descriptions.add id row }

def deleteDescriptionsOf (store : Store) (transactionId : Int) : Store :=
  { store with
    descriptions := store.descriptions.remove (·.transactionId = transactionId) }

end Store
end ChainLedger
