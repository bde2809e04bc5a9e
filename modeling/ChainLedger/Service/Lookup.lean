import ChainLedger.Service.Error
import ChainLedger.Service.Listing
import ChainLedger.Service.View

/-!
# Lookups

The requests that read: one block, transaction or asset, and pages of listings. Assets and
descriptions are served with the hash of their transaction; the hashes that a page needs are
looked up together, once the page is known to have rows, and each transaction once.
-/

set_option autoImplicit false

namespace ChainLedger.Service

def read {α : Type} (table : TableName) (lost : α) (view : Store → α) : Work Error α :=
  (Work.select table lost view).mapError .ofStore

def readPage {α : Type} (table : TableName) (paging : Paging) (listing : Store → List α) :
    Work Error (Page α) := do
  let total ← read table 0 fun store => (listing store).length
  let data ← read table [] fun store => paging.rows (listing store)
  return { data, total, paging }

def Page.map {α β : Type} (change : α → β) (page : Page α) : Page β :=
  { data := page.data.map change, total := page.total, paging := page.paging }

abbrev Hashes := List Stored.Transaction

def Hashes.get? (hashes : Hashes) (id : Int) : Option String :=
  ((hashes.filter (·.id = id)).getLast?).map (·.entry.hash)

/-- Looks up the transactions of some ids; nothing is read for none. -/
def readHashes (ids : List Int) : Work Error Hashes :=
  if ids.isEmpty then pure []
  else read .transactions [] (·.transactionsByIds ids)

/-- Leaves out each id that stands right behind itself. -/
def withoutRuns : List Int → List Int
  | first :: second :: rest =>
    if first = second then withoutRuns (second :: rest)
    else first :: withoutRuns (second :: rest)
  | ids => ids

def distinctIds (ids : List Int) : List Int :=
  withoutRuns (ids.mergeSort fun first second => first ≤ second)

theorem mem_withoutRuns {id : Int} {ids : List Int} : id ∈ withoutRuns ids ↔ id ∈ ids := by
  induction ids using withoutRuns.induct with
  | case1 first rest ih => simp [withoutRuns, ih]
  | case2 first second rest differ ih => simp [withoutRuns, differ, ih]
  | case3 ids short => rw [withoutRuns]; exact short

theorem mem_distinctIds {id : Int} {ids : List Int} : id ∈ distinctIds ids ↔ id ∈ ids := by
  rw [distinctIds, mem_withoutRuns, List.mem_mergeSort]

def head : Work Error BlockView := do
  let row? ← read .blocks none (·.head?)
  let row ← Work.orFail row? (.notFound "No main chain block found")
  return .of row

/-- A block is asked for by its hash or else by its sequence. -/
def findBlock (hash : Option String) (sequence : Option Int32) : Work Error BlockView := do
  let row ← match hash, sequence with
    | some hash, _ => do
      let row? ← read .blocks none (·.blockByHash? hash)
      Work.orFail row? (.notFound ("Block " ++ hash ++ " not found"))
    | none, some sequence => do
      let row? ← read .blocks none (·.blockBySequence? sequence)
      Work.orFail row?
        (.notFound ("Block at sequence " ++ toString sequence.toInt ++ " not found"))
    | none, none => Work.fail (.invalidRequest "Either hash or sequence is required")
  let transactions ← read .transactions [] (·.transactionsOfBlock row.id)
  return { BlockView.of row with transactions := some (transactions.map .of) }

def listBlocks (mainOnly : Bool) (paging : Paging) : Work Error (Page BlockView) := do
  let page ← readPage .blocks paging (·.blockListing mainOnly)
  return page.map .of

def findTransaction (hash : String) : Work Error TransactionView := do
  let row? ← read .transactions none (·.transactionByHash? hash)
  let row ← Work.orFail row? (.notFound ("Transaction " ++ hash ++ " not found"))
  let descriptions ← (Work.selectDescriptions (·.descriptionsOf row.id)).mapError .ofStore
  return { TransactionView.of row with
    descriptions := some (descriptions.map fun (kind, description) =>
      .of kind description (some row.entry.hash)) }

/-- All transactions, or those of one block; a page of the latter is cut from the whole. -/
def listTransactions (blockHash : Option String) (paging : Paging) :
    Work Error (Page TransactionView) := do
  match blockHash.filter (!·.isEmpty) with
  | none =>
    let page ← readPage .transactions paging (·.transactionListing)
    return page.map .of
  | some hash =>
    let row? ← read .blocks none (·.blockByHash? hash)
    let row ← Work.orFail row? (.notFound ("Block " ++ hash ++ " not found"))
    let listing ← read .transactions [] (·.transactionsOfBlock row.id)
    return { data := (paging.rows listing).map .of, total := listing.length, paging }

def readAsset (identifier : String) : Work Error Stored.Asset := do
  let row? ← read .assets none (·.assetByIdentifier? identifier)
  Work.orFail row? (.notFound ("Asset " ++ identifier ++ " not found"))

def findAsset (identifier : String) : Work Error AssetView := do
  let row ← readAsset identifier
  let hashes ← readHashes [row.createdTransactionId]
  return .of row (hashes.get? row.createdTransactionId)

def listAssets (search : Option String) (paging : Paging) : Work Error (Page AssetView) := do
  let page ← readPage .assets paging (·.assetListing search)
  let hashes ← readHashes (distinctIds (page.data.map (·.createdTransactionId)))
  return page.map fun row => .of row (hashes.get? row.createdTransactionId)

def listDescriptions (identifier : String) (paging : Paging) :
    Work Error (Page DescriptionView) := do
  let asset ← readAsset identifier
  let page ← readPage .descriptions paging (·.descriptionListing asset.id)
  let data ← (Work.ofExcept (Stored.Description.withKinds page.data)).mapError .ofStore
  let hashes ← readHashes (distinctIds (data.map fun (_, row) => row.transactionId))
  let views := data.map fun (kind, row) =>
    DescriptionView.of kind row (hashes.get? row.transactionId)
  return { data := views, total := page.total, paging }

end ChainLedger.Service
