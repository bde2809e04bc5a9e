import ChainLedger.Ledger.Amount
import ChainLedger.Proofs.Ledger.Supply
import ChainLedger.Proofs.Store.Numbering

/-!
# The books of a store

The books are orderly when rows are numbered, no two assets share an identifier and no two
transactions a hash, every description is about an asset and a transaction that are stored, and
the supplies are at given totals. In between two statements of a unit of work the totals differ
from what the descriptions add up to. When they agree, the books are balanced.
-/

set_option autoImplicit false

namespace ChainLedger

def Stored.Asset.registration (row : Stored.Asset) : Stored.Asset :=
  { row with supply := .zero, updatedAt := row.createdAt }

namespace Store

def registry (store : Store) : List Stored.Asset :=
  store.assets.rows.map (·.registration)

def identifiers (store : Store) : List String :=
  store.assets.rows.map (·.entry.identifier)

def assetIds (store : Store) : List Int :=
  store.assets.rows.map (·.id)

def transactionIds (store : Store) : List Int :=
  store.transactions.rows.map (·.id)

theorem identifiers_eq_registry (store : Store) :
    store.identifiers = store.registry.map (·.entry.identifier) := by
  simp [identifiers, registry, Stored.Asset.registration]

theorem assetIds_eq_registry (store : Store) : store.assetIds = store.registry.map (·.id) := by
  simp [assetIds, registry, Stored.Asset.registration]

/-- A description records an amount that an asset and a transaction of the store account for. -/
structure Describes (store : Store) (row : Stored.Description) : Prop where
  kind : ∃ kind, row.kind = .known kind
  value : ∃ amount ≤ Ledger.amountCeiling, row.value = .ofNat amount
  asset : row.assetId ∈ store.assetIds
  transaction : row.transactionId ∈ store.transactionIds

structure Orderly (store : Store) (total : Int → Int) : Prop where
  assets : store.assets.Numbered (·.id)
  identifiers : store.identifiers.Nodup
  descriptions : store.descriptions.Numbered (·.id)
  transactions : store.transactionIds.Nodup
  hashes : (store.transactions.rows.map (·.entry.hash)).Nodup
  described : ∀ row ∈ store.descriptions.rows, store.Describes row
  supplies : ∀ row ∈ store.assets.rows, row.supply = .ofSigned (total row.id) 0

/-- The supplies are what the descriptions add up to. -/
def Balanced (store : Store) : Prop :=
  store.Orderly (Stored.Description.net store.descriptions.rows)

structure SameChain (before after : Store) : Prop where
  numbering : after.numbering = before.numbering
  blocks : after.blocks = before.blocks
  transactions : after.transactions = before.transactions
  links : after.links = before.links

theorem SameChain.refl (store : Store) : SameChain store store := ⟨rfl, rfl, rfl, rfl⟩

theorem SameChain.symm {before after : Store} (same : SameChain before after) :
    SameChain after before :=
  ⟨same.numbering.symm, same.blocks.symm, same.transactions.symm, same.links.symm⟩

theorem SameChain.trans {before middle after : Store} (first : SameChain before middle)
    (second : SameChain middle after) : SameChain before after :=
  ⟨second.numbering.trans first.numbering, second.blocks.trans first.blocks,
    second.transactions.trans first.transactions, second.links.trans first.links⟩

theorem SameChain.transactionByHash? {before after : Store} (same : SameChain before after)
    (hash : String) : after.transactionByHash? hash = before.transactionByHash? hash := by
  simp only [Store.transactionByHash?, same.transactions]

theorem SameChain.transactionIds {before after : Store} (same : SameChain before after) :
    after.transactionIds = before.transactionIds := by
  simp only [Store.transactionIds, same.transactions]

/-- A store differs from another one in nothing but supplies and when they changed. -/
structure SameBooks (before after : Store) : Prop extends SameChain before after where
  descriptions : after.descriptions = before.descriptions
  registry : after.registry = before.registry

theorem SameBooks.refl (store : Store) : SameBooks store store :=
  ⟨.refl store, rfl, rfl⟩

theorem SameBooks.trans {before middle after : Store} (first : SameBooks before middle)
    (second : SameBooks middle after) : SameBooks before after :=
  ⟨first.toSameChain.trans second.toSameChain, second.descriptions.trans first.descriptions,
    second.registry.trans first.registry⟩

theorem Describes.mono {before after : Store} {row : Stored.Description}
    (describes : before.Describes row) (assets : before.assetIds ⊆ after.assetIds)
    (transactions : before.transactionIds ⊆ after.transactionIds) : after.Describes row :=
  ⟨describes.kind, describes.value, assets describes.asset, transactions describes.transaction⟩

theorem Describes.of_sameBooks {before after : Store} {row : Stored.Description}
    (describes : before.Describes row) (same : SameBooks before after) :
    after.Describes row := by
  apply describes.mono
  · rw [assetIds_eq_registry, assetIds_eq_registry, same.registry]
    exact List.Subset.refl _
  · rw [same.toSameChain.transactionIds]
    exact List.Subset.refl _

/-! ## Changes of supply -/

def shiftSupply (store : Store) (assetId : Int) (delta : Decimal) (now : Instant) : Store :=
  if delta.isZero then store else store.addSupply assetId delta now

theorem sameBooks_shiftSupply (store : Store) (assetId : Int) (delta : Decimal)
    (now : Instant) : SameBooks store (store.shiftSupply assetId delta now) := by
  rw [shiftSupply]
  split
  · exact SameBooks.refl store
  · refine ⟨⟨rfl, rfl, rfl, rfl⟩, rfl, ?_⟩
    simp only [registry, addSupply, Table.modify, List.map_map]
    apply List.map_congr_left
    intro row member
    simp only [Function.comp_apply]
    split <;> rfl

theorem Orderly.congr {store : Store} {total total' : Int → Int} (orderly : store.Orderly total)
    (same : ∀ row ∈ store.assets.rows, total' row.id = total row.id) : store.Orderly total' :=
  { orderly with
    supplies := fun row member => by rw [orderly.supplies row member, same row member] }

theorem Orderly.shiftSupply {store : Store} {total : Int → Int} (orderly : store.Orderly total)
    (assetId : Int) {delta : Decimal} (integer : delta.scale = 0) (now : Instant) :
    (store.shiftSupply assetId delta now).Orderly
      fun id => total id + if id = assetId then delta.signed else 0 := by
  have same := sameBooks_shiftSupply store assetId delta now
  rw [Store.shiftSupply] at same ⊢
  split
  next zero =>
    apply orderly.congr
    intro row member
    simp [Decimal.signed_eq_zero_of_isZero zero]
  next moving =>
    rw [if_neg moving] at same
    refine ⟨?_, ?_, orderly.descriptions, orderly.transactions, orderly.hashes, ?_, ?_⟩
    · exact orderly.assets.modify _ fun _ => rfl
    · rw [identifiers_eq_registry, same.registry, ← identifiers_eq_registry]
      exact orderly.identifiers
    · intro row member
      exact (orderly.described row member).of_sameBooks same
    · intro changed member
      obtain ⟨row, original, rfl⟩ := List.mem_map.mp member
      have supply := orderly.supplies row original
      by_cases own : row.id = assetId
      · simp [own, supply, Decimal.ofSigned_add _ integer]
      · simp [own, supply]

/-! ## New rows and dropped rows -/

theorem insertAsset_of_known {store : Store} {entry : Stored.AssetEntry}
    (known : entry.identifier ∈ store.identifiers) (transactionId : Int) (now : Instant) :
    store.insertAsset entry transactionId now = store := by
  have found : (store.assetByIdentifier? entry.identifier).isSome := by
    rw [Option.isSome_iff_ne_none, assetByIdentifier?]
    intro none
    exact find?_key_eq_none.mp none known
  rw [insertAsset, if_pos found]

theorem Orderly.insertAsset_of_new {store : Store} {total : Int → Int}
    (orderly : store.Orderly total) {entry : Stored.AssetEntry}
    (new : entry.identifier ∉ store.identifiers) (transactionId : Int) (now : Instant)
    (noTotal : ∀ id, store.assets.lastId < id → total id = 0) :
    ∃ row : Stored.Asset, row.registration = row ∧ row.entry = entry ∧
      row.createdTransactionId = transactionId ∧
      (store.insertAsset entry transactionId now).assets.rows = store.assets.rows ++ [row] ∧
      (store.insertAsset entry transactionId now).descriptions = store.descriptions ∧
      SameChain store (store.insertAsset entry transactionId now) ∧
      (store.insertAsset entry transactionId now).Orderly total := by
  have unknown : ¬ (store.assetByIdentifier? entry.identifier).isSome = true := by
    rw [assetByIdentifier?, find?_key_eq_none.mpr new]
    exact Bool.false_ne_true
  have fresh := store.assets_lastId_lt_nextId
  rw [insertAsset, if_neg unknown]
  refine ⟨_, rfl, rfl, rfl, rfl, rfl, ⟨rfl, rfl, rfl, rfl⟩, ?_⟩
  refine ⟨orderly.assets.add fresh, ?_, orderly.descriptions, orderly.transactions,
    orderly.hashes, ?_, ?_⟩
  · simp only [Store.identifiers, Table.add, List.map_append, List.map_cons, List.map_nil]
    apply List.nodup_append.mpr
    refine ⟨orderly.identifiers, List.nodup_singleton _, ?_⟩
    intro old member other isNew same
    rw [List.mem_singleton.mp isNew] at same
    exact new (same ▸ member)
  · intro row member
    refine (orderly.described row member).mono ?_ (List.Subset.refl _)
    simp only [assetIds, Table.add, List.map_append]
    exact List.subset_append_left _ _
  · intro row member
    rcases List.mem_append.mp member with member | isNew
    · exact orderly.supplies row member
    · rw [List.mem_singleton.mp isNew, noTotal _ fresh]
      rfl

theorem Orderly.insertDescription {store : Store} {total : Int → Int}
    (orderly : store.Orderly total) (kind : Stored.DescriptionKind) {amount : Nat}
    (bounded : amount ≤ Ledger.amountCeiling) {assetId transactionId : Int}
    (asset : assetId ∈ store.assetIds) (transaction : transactionId ∈ store.transactionIds)
    (now : Instant) :
    (store.insertDescription kind (.ofNat amount) assetId transactionId now).Orderly total := by
  have fresh := store.descriptions_lastId_lt_nextId
  refine ⟨orderly.assets, orderly.identifiers, orderly.descriptions.add fresh,
    orderly.transactions, orderly.hashes, ?_, orderly.supplies⟩
  intro row member
  rcases List.mem_append.mp member with member | isNew
  · exact (orderly.described row member).mono (List.Subset.refl _) (List.Subset.refl _)
  · rw [List.mem_singleton.mp isNew]
    exact ⟨⟨kind, rfl⟩, ⟨amount, bounded, rfl⟩, asset, transaction⟩

theorem Orderly.deleteDescriptionsOf {store : Store} {total : Int → Int}
    (orderly : store.Orderly total) (transactionId : Int) :
    (store.deleteDescriptionsOf transactionId).Orderly total := by
  refine ⟨orderly.assets, orderly.identifiers, orderly.descriptions.remove _,
    orderly.transactions, orderly.hashes, ?_, orderly.supplies⟩
  intro row member
  have describes := orderly.described row (List.mem_of_mem_filter member)
  exact describes.mono (List.Subset.refl _) (List.Subset.refl _)

theorem Orderly.net_eq_zero_of_fresh {store : Store} {total : Int → Int}
    (orderly : store.Orderly total) {id : Int} (fresh : store.assets.lastId < id) :
    Stored.Description.net store.descriptions.rows id = 0 := by
  apply Stored.Description.net_eq_zero
  rintro row member rfl
  obtain ⟨asset, stored, same⟩ := List.mem_map.mp (orderly.described row member).asset
  have bounded := orderly.assets.bounded asset stored
  change asset.id ≤ store.assets.lastId at bounded
  omega

end Store
end ChainLedger
