import ChainLedger.Proofs.Service.Reachable
import ChainLedger.Proofs.Service.Reading

/-!
# Listings and their pages

Each listing shows the rows that it selects, all of them once and in its order, and its pages cut
it in parts. This is the same for the pages that the store cuts and for those that are cut from
all transactions of a block. Only the number of rows has to fit the word in which it is served.
-/

set_option autoImplicit false

namespace ChainLedger

namespace Store

variable {Row : Type} {store : Store}

/-! ## Orders -/

theorem pairwise_mergeSort_key (key : Row → Int) (rows : List Row) :
    (rows.mergeSort fun first second => key first ≤ key second).Pairwise fun first second =>
      key first ≤ key second := by
  refine (List.pairwise_mergeSort ?_ ?_ rows).imp of_decide_eq_true
  · intro first second third
    simp only [decide_eq_true_eq]
    omega
  · intro first second
    simp only [Bool.or_eq_true, decide_eq_true_eq]
    omega

theorem descending_perm (key : Row → Int) (rows : List Row) : (descending key rows).Perm rows :=
  List.mergeSort_perm rows _

theorem pairwise_descending (key : Row → Int) (rows : List Row) :
    (descending key rows).Pairwise fun first second => key second ≤ key first := by
  have sorted := pairwise_mergeSort_key (fun row => -key row) rows
  simp only [neg_le_neg_iff] at sorted
  exact sorted

theorem blockListing_perm (store : Store) (mainOnly : Bool) :
    (store.blockListing mainOnly).Perm
      (store.blocks.rows.filter fun row => !mainOnly || row.entry.main) :=
  List.mergeSort_perm _ _

theorem pairwise_blockListing (store : Store) (mainOnly : Bool) :
    (store.blockListing mainOnly).Pairwise fun first second =>
      precedesInListing first second := by
  apply List.pairwise_mergeSort
  · intro first second third
    simp only [precedesInListing, decide_eq_true_eq, ← Int32.toInt_inj]
    omega
  · intro first second
    simp only [precedesInListing, Bool.or_eq_true, decide_eq_true_eq, ← Int32.toInt_inj]
    omega

theorem assetListing_perm (store : Store) (search : Option String) :
    (store.assetListing search).Perm (store.assets.rows.filter fun row =>
      search.all fun text => text.isEmpty || Text.matchesSearch text row.entry.name) := by
  cases search <;> exact descending_perm _ _

/-! ## Transactions of a block -/

def joined (store : Store) : List (Stored.Link × Stored.Transaction) :=
  store.links.flatMap fun link =>
    (store.transactions.rows.filter (·.id = link.transactionId)).map (link, ·)

def joinedListing (store : Store) (blockId : Int) :
    List (Stored.Link × Stored.Transaction) :=
  ((store.links.filter (·.blockId = blockId)).mergeSort fun first second =>
    first.index.toInt ≤ second.index.toInt).flatMap fun link =>
      (store.transactions.rows.filter (·.id = link.transactionId)).map (link, ·)

theorem transactionsOfBlock_eq_map (store : Store) (blockId : Int) :
    store.transactionsOfBlock blockId = (store.joinedListing blockId).map (·.2) := by
  simp only [transactionsOfBlock, joinedListing, List.map_flatMap, List.map_map,
    Function.comp_def, List.map_id']

theorem joinedListing_perm (store : Store) (blockId : Int) :
    (store.joinedListing blockId).Perm (store.joined.filter (·.1.blockId = blockId)) := by
  have selected : ∀ links : List Stored.Link,
      (links.filter (·.blockId = blockId)).flatMap (fun link =>
        (store.transactions.rows.filter (·.id = link.transactionId)).map (link, ·)) =
      (links.flatMap fun link =>
        (store.transactions.rows.filter (·.id = link.transactionId)).map (link, ·)).filter
          (·.1.blockId = blockId) := by
    intro links
    induction links with
    | nil => rfl
    | cons link links ih =>
        rw [List.flatMap_cons, List.filter_append, ← ih, List.filter_map]
        by_cases own : link.blockId = blockId <;> simp [own, Function.comp_def]
  rw [joined, ← selected]
  exact (List.mergeSort_perm _ _).flatMap_right _

theorem pairwise_joinedListing (store : Store) (blockId : Int) :
    (store.joinedListing blockId).Pairwise fun first second =>
      first.1.index.toInt ≤ second.1.index.toInt := by
  rw [joinedListing, List.pairwise_flatMap]
  constructor
  · -- one link is at one index, whatever number of rows has its id
    intro link _
    rw [List.pairwise_map]
    exact List.pairwise_of_forall fun _ _ => le_rfl
  · refine (pairwise_mergeSort_key (fun link : Stored.Link => link.index.toInt) _).imp ?_
    intro first second ordered pair ofFirst other ofSecond
    obtain ⟨row, -, rfl⟩ := List.mem_map.mp ofFirst
    obtain ⟨row, -, rfl⟩ := List.mem_map.mp ofSecond
    exact ordered

/-- The rows of each table can be counted by a word. -/
structure Countable (store : Store) : Prop where
  blocks : store.blocks.rows.length ≤ Service.Paging.greatestWord
  transactions : store.transactions.rows.length ≤ Service.Paging.greatestWord
  joined : store.joined.length ≤ Service.Paging.greatestWord
  assets : store.assets.rows.length ≤ Service.Paging.greatestWord
  descriptions : store.descriptions.rows.length ≤ Service.Paging.greatestWord

end Store

namespace Service

open Work

variable {Row View : Type} {session : Session} {limit : Nat}

/-- The pages of a request list rows: all of them once and in order, each as it is shown. -/
def Listed (session : Session) (limit : Nat) (request : Paging → Work Error (Page View))
    (rows : List Row) (precedes : Row → Row → Prop) (shows : Row → View → Prop) : Prop :=
  ∃ (listing : List Row) (views : List View) (count : Nat) (pages : Nat → Page View),
    listing.Perm rows ∧ listing.Pairwise precedes ∧ List.Forall₂ shows listing views ∧
      (∀ page, (request { page, limit }).Reads session (pages page)) ∧
        Cuts views limit count pages

theorem listed_of_reads {request : Paging → Work Error (Page View)} {listing rows : List Row}
    {views : List View} {precedes : Row → Row → Prop} {shows : Row → View → Prop}
    (positive : 0 < limit) (counted : rows.length ≤ Paging.greatestWord)
    (perm : listing.Perm rows) (ordered : listing.Pairwise precedes)
    (shown : List.Forall₂ shows listing views)
    (reads : ∀ paging, (request paging).Reads session (paging.pageOf views)) :
    Listed session limit request rows precedes shows := by
  rw [← perm.length_eq, shown.length_eq] at counted
  exact ⟨listing, views, _, _, perm, ordered, shown, fun page => reads { page, limit },
    cuts_pageOf positive counted⟩

theorem forall₂_map (view : Row → View) (listing : List Row) :
    List.Forall₂ (fun row shown => shown = view row) listing (listing.map view) := by
  rw [List.forall₂_map_right_iff, List.forall₂_same]
  exact fun _ _ => rfl

/-- Where no fault is armed, the pages of every listing cut it in parts: of all blocks or the main
ones, of all transactions or those of one block, of the assets that a search selects, and of the
descriptions of one asset. Descriptions are listed if each names one of the two kinds, as all do
that are ever written. -/
theorem pages_partition_listings (calm : session.faults = [])
    (countable : session.store.Countable) (positive : 0 < limit) :
    let store := session.store
    let hash? := Hashes.get? store.transactions.rows
    (∀ mainOnly, Listed session limit (listBlocks mainOnly)
      (store.blocks.rows.filter fun row => !mainOnly || row.entry.main)
      (fun first second => second.entry.sequence.toInt < first.entry.sequence.toInt ∨
        first.entry.sequence = second.entry.sequence ∧ second.id ≤ first.id)
      fun row view => view = .of row) ∧
    (∀ blockHash, blockHash = none ∨ blockHash = some "" →
      Listed session limit (listTransactions blockHash) store.transactions.rows
        (fun first second => second.id ≤ first.id) fun row view => view = .of row) ∧
    (∀ blockHash block, blockHash ≠ "" → store.blockByHash? blockHash = some block →
      Listed session limit (listTransactions (some blockHash))
        (store.joined.filter (·.1.blockId = block.id))
        (fun first second => first.1.index.toInt ≤ second.1.index.toInt)
        fun row view => view = .of row.2) ∧
    (∀ search, Listed session limit (listAssets search)
      (store.assets.rows.filter fun row =>
        search.all fun text => text.isEmpty || Text.matchesSearch text row.entry.name)
      (fun first second => second.id ≤ first.id)
      fun row view => view = .of row (hash? row.createdTransactionId)) ∧
    ∀ identifier asset, store.assetByIdentifier? identifier = some asset →
      (∀ row ∈ store.descriptions.rows, row.assetId = asset.id → ∃ kind, row.kind = .known kind) →
        Listed session limit (listDescriptions identifier)
          (store.descriptions.rows.filter (·.assetId = asset.id))
          (fun first second => second.id ≤ first.id)
          fun row view => ∃ kind, row.kind = .known kind ∧
            view = .of kind row (hash? row.transactionId) := by
  intro store hash?
  refine ⟨fun mainOnly => ?blocks, fun blockHash all => ?transactions,
    fun blockHash block named found => ?transactionsOfBlock, fun search => ?assets,
    fun identifier asset found known => ?descriptions⟩
  case blocks =>
    exact listed_of_reads positive ((List.length_filter_le _ _).trans countable.blocks)
      (store.blockListing_perm mainOnly)
      ((store.pairwise_blockListing mainOnly).imp of_decide_eq_true)
      (forall₂_map _ _) (listBlocks_reads calm mainOnly)
  case transactions =>
    have unnamed : blockHash.filter (!·.isEmpty) = none := by
      rcases all with rfl | rfl <;> rfl
    exact listed_of_reads positive countable.transactions (Store.descending_perm _ _)
      (Store.pairwise_descending _ _) (forall₂_map _ _)
      (listTransactions_reads calm unnamed)
  case transactionsOfBlock =>
    have isNamed : blockHash.isEmpty = false := by
      rw [← Bool.not_eq_true, String.isEmpty_iff]
      exact named
    refine listed_of_reads positive ((List.length_filter_le _ _).trans countable.joined)
      (store.joinedListing_perm block.id) (store.pairwise_joinedListing block.id)
      (forall₂_map _ _) fun paging => ?_
    have reads := listTransactions_reads_of_block calm isNamed found paging
    rw [Store.transactionsOfBlock_eq_map, List.map_map] at reads
    exact reads
  case assets =>
    exact listed_of_reads positive ((List.length_filter_le _ _).trans countable.assets)
      (store.assetListing_perm search) (Store.pairwise_descending _ _)
      (forall₂_map _ _) (listAssets_reads calm search)
  case descriptions =>
    have readable : ∀ row ∈ store.descriptionListing asset.id, ∃ kind, row.kind = .known kind := by
      intro row member
      obtain ⟨stored, own⟩ := List.mem_filter.mp ((Store.descending_perm _ _).subset member)
      exact known row stored (by simpa using own)
    obtain ⟨pairs, same, named⟩ := Ledger.exists_pairs_of_known readable
    refine listed_of_reads positive ((List.length_filter_le _ _).trans countable.descriptions)
      (Store.descending_perm _ _) (Store.pairwise_descending _ _) ?_
      (listDescriptions_reads calm found same named)
    change List.Forall₂ _ (store.descriptionListing asset.id) _
    rw [← same, List.forall₂_map_left_iff, List.forall₂_map_right_iff, List.forall₂_same]
    exact fun pair member => ⟨pair.1, named pair member, rfl⟩

theorem pages_partition_listings_of_sampleStore :
    let session : Session := { store := Store.sampleStore }
    session.faults = [] ∧ session.store.Countable ∧
      session.store.descriptions.rows.map (·.id) = [1, 2] ∧
        (Paging.totalPages { limit := 1 } 2 = 2) ∧
          ∃ asset, session.store.assetByIdentifier? "A" = some asset ∧
            Listed session 1 (listDescriptions "A")
              (session.store.descriptions.rows.filter (·.assetId = asset.id))
              (fun first second => second.id ≤ first.id)
              fun row view => ∃ kind, row.kind = .known kind ∧
                view = .of kind row
                  (Hashes.get? session.store.transactions.rows row.transactionId) := by
  intro session
  have countable : session.store.Countable := by constructor <;> decide +kernel
  obtain ⟨asset, found⟩ : ∃ asset, session.store.assetByIdentifier? "A" = some asset :=
    Option.isSome_iff_exists.mp (by decide +kernel)
  have known : ∀ row ∈ session.store.descriptions.rows, row.assetId = asset.id →
      ∃ kind, row.kind = .known kind :=
    fun row member _ => Store.reachable_sampleStore.sound.balanced.described row member |>.kind
  have calm : session.faults = [] := rfl
  obtain ⟨-, -, -, -, listed⟩ := pages_partition_listings calm countable Nat.one_pos
  exact ⟨calm, countable, by decide +kernel, by decide, asset, found,
    listed "A" asset found known⟩

end Service
end ChainLedger
