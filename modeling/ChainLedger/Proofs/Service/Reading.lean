import ChainLedger.Proofs.Ledger.Reconciling
import ChainLedger.Proofs.Service.Pages
import ChainLedger.Service.Lookup

/-!
# Reading requests

Where no fault is armed, a request that reads is answered from the store and changes nothing. A
listing is answered with the page of one list, whatever page is asked for: the hashes that are
looked up for a page are those that the whole table of transactions gives.
-/

set_option autoImplicit false

namespace ChainLedger

namespace Work

variable {ε ε' α β : Type} {session : Session}

/-- Work answers with a value and changes nothing. -/
def Reads (work : Work ε α) (session : Session) (value : α) : Prop :=
  work session = (.ok value, session)

theorem reads_pure (value : α) : (pure value : Work ε α).Reads session value := rfl

theorem reads_ofExcept (value : α) : (ofExcept (.ok value) : Work ε α).Reads session value := rfl

theorem reads_orFail (found : α) (error : ε) : (orFail (some found) error).Reads session found :=
  rfl

theorem reads_select (calm : session.faults = []) (table : TableName) (lost : α)
    (view : Store → α) : (Work.select table lost view).Reads session (view session.store) := by
  obtain ⟨store, faults, now⟩ := session
  obtain rfl := calm
  rfl

theorem Reads.bind {work : Work ε α} {next : α → Work ε β} {value : α} {result : β}
    (first : work.Reads session value) (rest : (next value).Reads session result) :
    (work >>= next).Reads session result := by
  rw [Reads, bind_apply, first]
  exact rest

theorem Reads.mapError {work : Work ε α} {value : α} (reads : work.Reads session value)
    (wrap : ε → ε') : (work.mapError wrap).Reads session value := by
  rw [Reads, Work.mapError, reads]

end Work

namespace Service

open Work

variable {Row View : Type} {session : Session} {paging : Paging}

theorem pageOf_map (paging : Paging) (listing : List Row) (change : Row → View) :
    (paging.pageOf listing).map change = paging.pageOf (listing.map change) := by
  simp only [Page.map, Paging.pageOf, Paging.rows, List.map_take, List.map_drop, List.length_map]

theorem mem_of_mem_rows {listing : List Row} {row : Row} (member : row ∈ paging.rows listing) :
    row ∈ listing :=
  List.mem_of_mem_drop (List.mem_of_mem_take member)

theorem read_reads (calm : session.faults = []) (table : TableName) (lost : Row)
    (view : Store → Row) : (read table lost view).Reads session (view session.store) := by
  rw [read]
  exact (reads_select calm table lost view).mapError Error.ofStore

theorem readPage_reads (calm : session.faults = []) (table : TableName) (paging : Paging)
    (listing : Store → List Row) :
    (readPage table paging listing).Reads session (paging.pageOf (listing session.store)) :=
  Reads.bind (read_reads calm table 0 fun store => (listing store).length) <|
    Reads.bind (read_reads calm table [] fun store => paging.rows (listing store)) <|
      reads_pure _

/-! ## Hashes -/

theorem readHashes_reads (calm : session.faults = []) (ids : List Int) :
    (readHashes ids).Reads session (session.store.transactionsByIds ids) := by
  rw [readHashes]
  split
  next none =>
    have nothing : session.store.transactionsByIds ids = [] := by
      simp [Store.transactionsByIds, List.isEmpty_iff.mp none]
    rw [nothing]
    exact reads_pure []
  next => exact read_reads calm .transactions [] _

/-- A hash that was looked up is the one that all transactions give. -/
theorem Hashes.get?_transactionsByIds (store : Store) {ids : List Int} {id : Int}
    (asked : id ∈ ids) :
    Hashes.get? (store.transactionsByIds ids) id = Hashes.get? store.transactions.rows id := by
  have same : (store.transactionsByIds ids).filter (·.id = id) =
      store.transactions.rows.filter (·.id = id) := by
    rw [Store.transactionsByIds, List.filter_filter]
    apply List.filter_congr
    intro row _
    by_cases own : row.id = id <;> simp [own, asked]
  rw [Hashes.get?, Hashes.get?, same]

theorem map_transactionsByIds (store : Store) (rows : List Row) (id : Row → Int)
    (view : Row → Option String → View) :
    rows.map (fun row => view row
        (Hashes.get? (store.transactionsByIds (distinctIds (rows.map id))) (id row))) =
      rows.map fun row => view row (Hashes.get? store.transactions.rows (id row)) := by
  refine List.map_congr_left fun row member => ?_
  have asked : id row ∈ distinctIds (rows.map id) :=
    mem_distinctIds.mpr (List.mem_map_of_mem member)
  rw [Hashes.get?_transactionsByIds store asked]

/-! ## Blocks and transactions -/

theorem findBlock_reads (calm : session.faults = []) {hash : String} {row : Stored.Block}
    (found : session.store.blockByHash? hash = some row) (sequence : Option Int32) :
    (findBlock (some hash) sequence).Reads session
      { BlockView.of row with
        transactions := some ((session.store.transactionsOfBlock row.id).map .of) } := by
  refine Reads.bind (read_reads calm .blocks none (·.blockByHash? hash)) ?_
  rw [found]
  refine Reads.bind (reads_orFail row _) ?_
  exact Reads.bind (read_reads calm .transactions [] (·.transactionsOfBlock row.id))
    (reads_pure _)

theorem listBlocks_reads (calm : session.faults = []) (mainOnly : Bool) (paging : Paging) :
    (listBlocks mainOnly paging).Reads session
      (paging.pageOf ((session.store.blockListing mainOnly).map .of)) := by
  rw [← pageOf_map]
  exact Reads.bind (readPage_reads calm .blocks paging (·.blockListing mainOnly)) (reads_pure _)

theorem listTransactions_reads (calm : session.faults = []) {blockHash : Option String}
    (all : blockHash.filter (!·.isEmpty) = none) (paging : Paging) :
    (listTransactions blockHash paging).Reads session
      (paging.pageOf (session.store.transactionListing.map .of)) := by
  rw [← pageOf_map, listTransactions, all]
  exact Reads.bind (readPage_reads calm .transactions paging (·.transactionListing)) (reads_pure _)

theorem listTransactions_reads_of_block (calm : session.faults = []) {hash : String}
    (named : hash.isEmpty = false) {row : Stored.Block}
    (found : session.store.blockByHash? hash = some row) (paging : Paging) :
    (listTransactions (some hash) paging).Reads session
      (paging.pageOf ((session.store.transactionsOfBlock row.id).map .of)) := by
  have selected : (some hash).filter (!·.isEmpty) = some hash := by
    rw [Option.filter_some, named]
    rfl
  rw [← pageOf_map, listTransactions, selected]
  refine Reads.bind (read_reads calm .blocks none (·.blockByHash? hash)) ?_
  rw [found]
  refine Reads.bind (reads_orFail row _) ?_
  exact Reads.bind (read_reads calm .transactions [] (·.transactionsOfBlock row.id))
    (reads_pure _)

/-! ## Assets and descriptions -/

theorem readAsset_reads (calm : session.faults = []) {identifier : String}
    {asset : Stored.Asset} (found : session.store.assetByIdentifier? identifier = some asset) :
    (readAsset identifier).Reads session asset := by
  refine Reads.bind (read_reads calm .assets none (·.assetByIdentifier? identifier)) ?_
  rw [found]
  exact reads_orFail asset _

theorem listAssets_reads (calm : session.faults = []) (search : Option String) (paging : Paging) :
    (listAssets search paging).Reads session
      (paging.pageOf ((session.store.assetListing search).map fun row =>
        .of row (Hashes.get? session.store.transactions.rows row.createdTransactionId))) := by
  rw [← pageOf_map]
  refine Reads.bind (readPage_reads calm .assets paging (·.assetListing search)) ?_
  refine Reads.bind (readHashes_reads calm _) ?_
  simp only [Page.map, Paging.pageOf, map_transactionsByIds _ _ _ AssetView.of]
  exact reads_pure _

theorem withKinds_rows {listing : List Stored.Description}
    {pairs : List (Stored.DescriptionKind × Stored.Description)}
    (listed : pairs.map (·.2) = listing) (named : ∀ pair ∈ pairs, pair.2.kind = .known pair.1)
    (paging : Paging) :
    Stored.Description.withKinds (paging.rows listing) = .ok (paging.rows pairs) := by
  rw [← Ledger.withKinds_of_pairs fun pair member => named pair (mem_of_mem_rows member), ← listed]
  simp only [Paging.rows, List.map_take, List.map_drop]

theorem listDescriptions_reads (calm : session.faults = []) {identifier : String}
    {asset : Stored.Asset} (found : session.store.assetByIdentifier? identifier = some asset)
    {pairs : List (Stored.DescriptionKind × Stored.Description)}
    (listed : pairs.map (·.2) = session.store.descriptionListing asset.id)
    (named : ∀ pair ∈ pairs, pair.2.kind = .known pair.1) (paging : Paging) :
    (listDescriptions identifier paging).Reads session
      (paging.pageOf (pairs.map fun pair => .of pair.1 pair.2
        (Hashes.get? session.store.transactions.rows pair.2.transactionId))) := by
  rw [← pageOf_map]
  refine Reads.bind (readAsset_reads calm found) ?_
  refine Reads.bind (readPage_reads calm .descriptions paging (·.descriptionListing asset.id)) ?_
  simp only [Paging.pageOf, withKinds_rows listed named]
  refine Reads.bind ((reads_ofExcept _).mapError Error.ofStore) ?_
  refine Reads.bind (readHashes_reads calm _) ?_
  simp only [Page.map, ← listed, List.length_map, map_transactionsByIds _ _ _
    fun pair : Stored.DescriptionKind × Stored.Description => DescriptionView.of pair.1 pair.2]
  exact reads_pure _

end Service
end ChainLedger
