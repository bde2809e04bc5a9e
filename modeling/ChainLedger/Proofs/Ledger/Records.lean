import ChainLedger.Proofs.Ledger.Reconciling

/-!
# Records by transaction

The ledger read as a map from the hashes of transactions to what is recorded for them. A
reconciliation puts what its transaction posts in the place of what was recorded for it, and all
supplies can be read off the map.
-/

set_option autoImplicit false

namespace ChainLedger

/-! ## Sums -/

def Ledger.Posting.net (postings : List Ledger.Posting) (identifier : String) : Int :=
  ((postings.filter (·.identifier = identifier)).map (·.contribution)).sum

theorem Ledger.Posting.net_cons (posting : Ledger.Posting) (postings : List Ledger.Posting)
    (identifier : String) :
    net (posting :: postings) identifier =
      (if posting.identifier = identifier then posting.contribution else 0) +
        net postings identifier := by
  by_cases own : posting.identifier = identifier <;> simp [net, own]

/-- Descriptions add up transaction by transaction. -/
theorem Stored.Description.net_eq_sum {ids : List Int} (unique : ids.Nodup) (assetId : Int) :
    ∀ {rows : List Stored.Description}, (∀ row ∈ rows, row.transactionId ∈ ids) →
      net rows assetId =
        (ids.map fun id => net (rows.filter (·.transactionId = id)) assetId).sum := by
  induction ids with
  | nil =>
      intro rows known
      rw [List.eq_nil_iff_forall_not_mem.mpr fun row member => List.not_mem_nil (known row member)]
      rfl
  | cons id ids ih =>
      intro rows known
      obtain ⟨new, unique⟩ := List.nodup_cons.mp unique
      have parts := net_filter_add_net_filter_not (·.transactionId = id) rows assetId
      have others : ∀ row ∈ rows.filter (fun row => !decide (row.transactionId = id)),
          row.transactionId ∈ ids := by
        intro row member
        obtain ⟨stored, other⟩ := List.mem_filter.mp member
        exact (List.mem_cons.mp (known row stored)).resolve_left (by simpa using other)
      have same : ∀ other ∈ ids,
          net ((rows.filter fun row => !decide (row.transactionId = id)).filter
            (·.transactionId = other)) assetId =
          net (rows.filter (·.transactionId = other)) assetId := by
        intro other member
        congr 1
        rw [List.filter_filter]
        apply List.filter_congr
        intro row _
        have distinct : other ≠ id := fun equal => new (equal ▸ member)
        by_cases own : row.transactionId = other <;> simp [own, distinct]
      rw [List.map_cons, List.sum_cons, ← parts, ih unique others, List.map_congr_left same]

namespace Store

/-- What is recorded for the transaction of a hash, in ascending order of ids. -/
def recordedFor (store : Store) (hash : String) : List (Option Ledger.Posting) :=
  match store.transactionByHash? hash with
  | some row => (store.descriptionsOf row.id).map store.posting?
  | none => []

/-- The supply under an identifier, which is zero where no asset is registered. -/
def supplyOf (store : Store) (identifier : String) : Decimal :=
  match store.assetByIdentifier? identifier with
  | some asset => asset.supply
  | none => .zero

/-- The ledger of a store is a map from hashes to postings. -/
def Records (store : Store) (ledger : String → List Ledger.Posting) : Prop :=
  ∀ hash, store.recordedFor hash = (ledger hash).map some

variable {store : Store} {total : Int → Int}

theorem recordedFor_of_mem (orderly : store.Orderly total) {row : Stored.Transaction}
    (stored : row ∈ store.transactions.rows) :
    store.recordedFor row.entry.hash = (store.descriptionsOf row.id).map store.posting? := by
  have found : store.transactionByHash? row.entry.hash = some row :=
    find?_key_of_mem orderly.hashes stored
  rw [recordedFor, found]

theorem net_eq_net_postings (orderly : store.Orderly total) {asset : Stored.Asset}
    (registered : asset ∈ store.assets.rows) {rows : List Stored.Description} :
    ∀ {postings : List Ledger.Posting}, (∀ row ∈ rows, row ∈ store.descriptions.rows) →
      rows.map store.posting? = postings.map some →
        Stored.Description.net rows asset.id =
          Ledger.Posting.net postings asset.entry.identifier := by
  induction rows with
  | nil =>
      intro postings _ told
      rw [List.map_eq_nil_iff.mp told.symm]
      rfl
  | cons row rows ih =>
      intro postings stored told
      obtain ⟨posting, postings, rfl, isPosting, rest⟩ := List.map_eq_cons_iff.mp told.symm
      obtain ⟨other, own, tells, contribution, isStored, sameId, sameIdentifier⟩ :=
        posting?_of_described orderly (stored row (by simp))
      obtain rfl := Option.some.inj (isPosting.trans tells)
      rw [Stored.Description.net_cons, Ledger.Posting.net_cons, contribution,
        ih (fun row member => stored row (by simp [member])) rest.symm]
      have same : row.assetId = asset.id ↔ posting.identifier = asset.entry.identifier := by
        rw [← sameId, sameIdentifier]
        constructor
        · exact fun equal => congrArg (·.entry.identifier)
            (List.inj_on_of_nodup_map orderly.assets.nodup isStored registered equal)
        · exact fun equal => congrArg (·.id)
            (List.inj_on_of_nodup_map orderly.identifiers isStored registered equal)
      simp only [same]

theorem Records.told {ledger : String → List Ledger.Posting} (records : store.Records ledger)
    (orderly : store.Orderly total) {row : Stored.Transaction}
    (stored : row ∈ store.transactions.rows) :
    (store.descriptionsOf row.id).map store.posting? = (ledger row.entry.hash).map some := by
  rw [← recordedFor_of_mem orderly stored]
  exact records row.entry.hash

theorem mem_of_mem_descriptionsOf (orderly : store.Orderly total) {transactionId : Int}
    {row : Stored.Description} (member : row ∈ store.descriptionsOf transactionId) :
    row ∈ store.descriptions.rows := by
  rw [store.descriptionsOf_eq_filter orderly.descriptions] at member
  exact List.mem_of_mem_filter member

theorem Records.net_eq_sum {ledger : String → List Ledger.Posting}
    (records : store.Records ledger) (orderly : store.Orderly total) {asset : Stored.Asset}
    (registered : asset ∈ store.assets.rows) :
    Stored.Description.net store.descriptions.rows asset.id =
      (store.transactions.rows.map fun row =>
        Ledger.Posting.net (ledger row.entry.hash) asset.entry.identifier).sum := by
  have known : ∀ row ∈ store.descriptions.rows, row.transactionId ∈ store.transactionIds :=
    fun row member => (orderly.described row member).transaction
  rw [Stored.Description.net_eq_sum orderly.transactions asset.id known, transactionIds,
    List.map_map]
  congr 1
  apply List.map_congr_left
  intro row stored
  rw [Function.comp_apply, ← store.descriptionsOf_eq_filter orderly.descriptions]
  exact net_eq_net_postings orderly registered
    (fun _ member => mem_of_mem_descriptionsOf orderly member) (records.told orderly stored)

theorem Records.net_eq_zero {ledger : String → List Ledger.Posting}
    (records : store.Records ledger) (orderly : store.Orderly total) {row : Stored.Transaction}
    (stored : row ∈ store.transactions.rows) {identifier : String}
    (unregistered : identifier ∉ store.identifiers) :
    Ledger.Posting.net (ledger row.entry.hash) identifier = 0 := by
  have none : (ledger row.entry.hash).filter (·.identifier = identifier) = [] := by
    apply List.filter_eq_nil_iff.mpr
    intro posting member
    have tells : some posting ∈ (store.descriptionsOf row.id).map store.posting? := by
      rw [records.told orderly stored]
      exact List.mem_map_of_mem member
    obtain ⟨description, isDescription, same⟩ := List.mem_map.mp tells
    obtain ⟨other, asset, tellsOther, -, registered, -, sameIdentifier⟩ :=
      posting?_of_described orderly (mem_of_mem_descriptionsOf orderly isDescription)
    obtain rfl := Option.some.inj (same.symm.trans tellsOther)
    rw [decide_eq_true_eq, sameIdentifier]
    rintro rfl
    exact unregistered (List.mem_map_of_mem registered)
  simp [Ledger.Posting.net, none]

/-- All supplies can be read off the records. -/
theorem supplyOf_of_records (balanced : store.Balanced)
    {ledger : String → List Ledger.Posting} (records : store.Records ledger)
    (identifier : String) :
    store.supplyOf identifier = .ofSigned ((store.transactions.rows.map fun row =>
      Ledger.Posting.net (ledger row.entry.hash) identifier).sum) 0 := by
  cases found : store.assetByIdentifier? identifier with
  | some asset =>
      obtain ⟨registered, rfl⟩ := (find?_key_eq_some balanced.identifiers).mp found
      rw [← records.net_eq_sum balanced registered, ← balanced.supplies asset registered,
        supplyOf, found]
  | none =>
      have unregistered : identifier ∉ store.identifiers := find?_key_eq_none.mp found
      have nothing : ∀ row ∈ store.transactions.rows,
          Ledger.Posting.net (ledger row.entry.hash) identifier = 0 :=
        fun row stored => records.net_eq_zero balanced stored unregistered
      rw [supplyOf, found, List.map_congr_left nothing]
      simp [Decimal.zero, Decimal.ofSigned]

end Store

/-! ## Reconciling -/

namespace Ledger.Reconciled

variable {row : Stored.Transaction} {main : Bool} {transaction : Report.Transaction}
  {before after : Store}

theorem descriptionsOf (reconciled : Reconciled row main transaction before after)
    (balanced : before.Balanced) {id : Int} (other : id ≠ row.id) :
    after.descriptionsOf id = before.descriptionsOf id := by
  obtain ⟨added, rows, -, owners⟩ := reconciled.described
  rw [after.descriptionsOf_eq_filter reconciled.balanced.descriptions,
    before.descriptionsOf_eq_filter balanced.descriptions, rows, List.filter_append,
    List.filter_filter]
  have none : added.filter (·.transactionId = id) = [] := by
    apply List.filter_eq_nil_iff.mpr
    intro description member
    rw [owners description member]
    simpa using Ne.symm other
  rw [none, List.append_nil]
  apply List.filter_congr
  intro description _
  by_cases own : description.transactionId = id <;> simp [own, other]

theorem descriptionsOf_own (reconciled : Reconciled row main transaction before after) :
    (after.descriptionsOf row.id).map after.posting? = (posted main transaction).map some := by
  obtain ⟨added, rows, told, owners⟩ := reconciled.described
  rw [after.descriptionsOf_eq_filter reconciled.balanced.descriptions, rows, List.filter_append]
  have none : (before.descriptions.rows.filter (·.transactionId ≠ row.id)).filter
      (·.transactionId = row.id) = [] := by
    simp [List.filter_filter]
  have all : added.filter (·.transactionId = row.id) = added := by
    apply List.filter_eq_self.mpr
    intro description member
    simpa using owners description member
  rw [none, all, List.nil_append, told]

/-- What its transaction posts takes the place of what was recorded for it. -/
theorem records (reconciled : Reconciled row main transaction before after)
    (balanced : before.Balanced)
    (found : before.transactionByHash? transaction.hash = some row)
    {ledger : String → List Posting} (recorded : before.Records ledger) :
    after.Records (Function.update ledger transaction.hash (posted main transaction)) := by
  intro hash
  have same := reconciled.chain.transactionByHash? hash
  obtain ⟨assets, registry, -, -⟩ := reconciled.registered
  by_cases own : hash = transaction.hash
  · subst own
    rw [Function.update_self, Store.recordedFor, same, found]
    exact reconciled.descriptionsOf_own
  · rw [Function.update_of_ne own, ← recorded hash, Store.recordedFor, Store.recordedFor, same]
    cases isStored : before.transactionByHash? hash with
    | none => rfl
    | some other =>
        obtain ⟨member, rfl⟩ := (find?_key_eq_some balanced.hashes).mp isStored
        obtain ⟨isRow, rowHash⟩ := (find?_key_eq_some balanced.hashes).mp found
        have distinct : other.id ≠ row.id := by
          intro equal
          rw [List.inj_on_of_nodup_map balanced.transactions member isRow equal] at own
          exact own rowHash
        change (after.descriptionsOf other.id).map after.posting? =
          (before.descriptionsOf other.id).map before.posting?
        rw [reconciled.descriptionsOf balanced distinct]
        apply List.map_congr_left
        intro description isDescription
        obtain ⟨posting, -, told, -⟩ := Store.posting?_of_described balanced
          (Store.mem_of_mem_descriptionsOf balanced isDescription)
        rw [told, Store.posting?_of_registered registry told]

end Ledger.Reconciled
end ChainLedger
