import ChainLedger.Report.Entry

/-!
# Rows

What is stored of blocks, transactions and assets. A link says that a transaction stands at some
index of a block. A description records one mint or burn of an asset by a transaction; mints
raise the asset's supply by their value and burns lower it. A description names its kind, and
one that names no kind can be stored, though it cannot be read back.
-/

set_option autoImplicit false

namespace ChainLedger.Stored

structure Block where
  id : Int
  entry : Report.BlockEntry
  createdAt : Instant
  updatedAt : Instant
  deriving DecidableEq, Repr

/-- Takes in what is reported anew of a block. Its hash and the time of its creation stay. -/
def Block.refresh (row : Block) (entry : Report.BlockEntry) (now : Instant) : Block :=
  { row with entry := { entry with hash := row.entry.hash }, updatedAt := now }

structure Transaction where
  id : Int
  entry : Report.TransactionEntry
  createdAt : Instant
  updatedAt : Instant

def Transaction.refresh (row : Transaction) (entry : Report.TransactionEntry) (now : Instant) :
    Transaction :=
  { row with entry := { entry with hash := row.entry.hash }, updatedAt := now }

structure Link where
  blockId : Int
  transactionId : Int
  index : Int32
  deriving DecidableEq, Repr

namespace Link

def joinsSame (first second : Link) : Bool :=
  first.blockId = second.blockId ∧ first.transactionId = second.transactionId

/-- Puts a link in the place of the first one between the same block and transaction, or else
behind all others. -/
def put (link : Link) : List Link → List Link
  | [] => [link]
  | other :: others => if other.joinsSame link then link :: others else other :: link.put others

end Link

structure AssetEntry where
  identifier : String
  name : String
  metadata : String
  owner : String
  deriving DecidableEq, Repr

structure Asset where
  id : Int
  entry : AssetEntry
  supply : Decimal
  createdTransactionId : Int
  createdAt : Instant
  updatedAt : Instant
  deriving DecidableEq, Repr

inductive DescriptionKind
  | mint
  | burn
  deriving DecidableEq, Repr

namespace DescriptionKind

def name : DescriptionKind → String
  | mint => "MINT"
  | burn => "BURN"

def variants : List (String × DescriptionKind) :=
  [mint, burn].map fun kind => (kind.name, kind)

def appliedDelta (kind : DescriptionKind) (value : Decimal) : Decimal :=
  match kind with
  | mint => value
  | burn => value.neg

def reversingDelta (kind : DescriptionKind) (value : Decimal) : Decimal :=
  match kind with
  | mint => value.neg
  | burn => value

end DescriptionKind

/-- What a description names as its kind: a kind, or else any other text. -/
inductive NamedKind
  | known (kind : DescriptionKind)
  | unknown (name : String)
  deriving DecidableEq, Repr

namespace NamedKind

def ofName (name : String) : NamedKind :=
  match DescriptionKind.variants.find? (·.1 = name) with
  | some variant => known variant.2
  | none => unknown name

def name : NamedKind → String
  | known kind => kind.name
  | unknown name => name

end NamedKind

structure Description where
  id : Int
  kind : NamedKind
  value : Decimal
  assetId : Int
  transactionId : Int
  createdAt : Instant
  deriving DecidableEq, Repr

end ChainLedger.Stored
