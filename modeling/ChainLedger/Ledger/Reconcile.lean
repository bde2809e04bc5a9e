import ChainLedger.Ledger.Amount
import ChainLedger.Store.Session

/-!
# Reconciling a transaction

The ledger records the mints and burns of the transactions on the main chain. To reconcile a
transaction is to take back whatever was recorded for it, and then, if it is on the main chain,
to record its mints and burns anew. Both are one atomic unit of work, so a failure at any point
leaves the ledger as it was.

The first mint of an asset registers it, and later mints change nothing about it but its supply.
An amount above the ceiling is not recorded, but its mint registers the asset all the same.
-/

set_option autoImplicit false

namespace ChainLedger.Ledger

inductive Error
  | unknownTransaction (hash : String)
  | unknownAsset (identifier : String)
  | invalidValue (value : String)
  | store (error : StoreError)
  deriving DecidableEq, Repr

def Error.message : Error → String
  | unknownTransaction hash => "Transaction " ++ hash ++ " not found"
  | unknownAsset identifier => "Asset " ++ identifier ++ " not found"
  | invalidValue value => "Invalid value '" ++ value ++ "'"
  | store error => error.message

/-- Adds to a supply. Nothing is written for a delta of zero. -/
def changeSupply (assetId : Int) (delta : Decimal) : Work StoreError Unit :=
  if delta.isZero then pure ()
  else do
    let found ← Work.statement (.update .assets) false fun session =>
      ((session.store.assetById? assetId).isSome,
        session.store.addSupply assetId delta session.now)
    if found then pure () else Work.fail (.inconsistent (.vanishedAsset assetId))

def undoDescription (kind : Stored.DescriptionKind) (description : Stored.Description) :
    Work StoreError Unit := do
  let asset? ← Work.select .assets none (·.assetById? description.assetId)
  let asset ← Work.orFail asset?
    (.inconsistent (.missingAsset description.assetId description.id))
  changeSupply asset.id (kind.reversingDelta description.value)

def undoDescriptions (transactionId : Int) : Work StoreError Unit := do
  let descriptions ← Work.selectDescriptions (·.descriptionsOf transactionId)
  if descriptions.isEmpty then pure ()
  else
    descriptions.forM fun (kind, description) => undoDescription kind description
    Work.statement (.delete .descriptions) () fun session =>
      ((), session.store.deleteDescriptionsOf transactionId)

def registerAsset (transactionId : Int) (mint : Report.Mint) : Work StoreError Stored.Asset := do
  let entry : Stored.AssetEntry :=
    { identifier := mint.id, name := mint.name, metadata := mint.metadata, owner := mint.owner }
  Work.statement (.insert .assets) () fun session =>
    ((), session.store.insertAsset entry transactionId session.now)
  let asset? ← Work.select .assets none (·.assetByIdentifier? mint.id)
  Work.orFail asset? (.inconsistent (.unwrittenAsset mint.id))

def describe (transactionId : Int) (kind : Stored.DescriptionKind) (asset : Stored.Asset)
    (amount : Nat) : Work StoreError Unit := do
  let value := Decimal.ofNat amount
  let written ← Work.statement (.insert .descriptions) false fun session =>
    (true, session.store.insertDescription kind value asset.id transactionId session.now)
  if written then changeSupply asset.id (kind.appliedDelta value)
  else Work.fail .lostInsert

def record (transactionId : Int) (kind : Stored.DescriptionKind) (asset : Stored.Asset)
    (value : String) : Work Error Unit :=
  match Amount.read value with
  | .invalid => Work.fail (.invalidValue value)
  | .overCeiling => pure ()
  | .accepted amount => (describe transactionId kind asset amount).mapError .store

def applyMint (transactionId : Int) (mint : Report.Mint) : Work Error Unit := do
  let asset ← (registerAsset transactionId mint).mapError .store
  record transactionId .mint asset mint.value

def applyBurn (transactionId : Int) (burn : Report.Burn) : Work Error Unit := do
  let asset? ← (Work.select .assets none (·.assetByIdentifier? burn.id)).mapError .store
  let asset ← Work.orFail asset? (.unknownAsset burn.id)
  record transactionId .burn asset burn.value

/-- The statements of reconciling a transaction, before they are made one unit of work. -/
def reconcileStatements (main : Bool) (transaction : Report.Transaction) : Work Error Unit := do
  let row? ← (Work.select .transactions none
    (·.transactionByHash? transaction.hash)).mapError .store
  let row ← Work.orFail row? (.unknownTransaction transaction.hash)
  (undoDescriptions row.id).mapError .store
  if main then
    transaction.mints.forM (applyMint row.id)
    transaction.burns.forM (applyBurn row.id)
  else pure ()

/-- Reconciles what is recorded for a transaction with its standing on the chain. -/
def reconcile (main : Bool) (transaction : Report.Transaction) : Work Error Unit :=
  Work.atomically .store (reconcileStatements main transaction)

end ChainLedger.Ledger
