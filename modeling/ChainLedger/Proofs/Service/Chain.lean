import ChainLedger.Proofs.Ledger.Books

/-!
# The chain of a store

Blocks, transactions and the links between them. Blocks and transactions keep their ids for good,
so a link goes on joining the same two hashes whatever is stored besides. Nothing that happens to
the chain unbalances the books.
-/

set_option autoImplicit false

namespace ChainLedger

namespace Store

def blockKeys (store : Store) : List (Int × String) :=
  store.blocks.keys (·.id) (·.entry.hash)

def transactionKeys (store : Store) : List (Int × String) :=
  store.transactions.keys (·.id) (·.entry.hash)

def Joins (store : Store) (blockId transactionId : Int) : Prop :=
  ∃ link ∈ store.links, link.blockId = blockId ∧ link.transactionId = transactionId

def Holds (store : Store) (blockHash transactionHash : String) : Prop :=
  ∃ blockId transactionId, (blockId, blockHash) ∈ store.blockKeys ∧
    (transactionId, transactionHash) ∈ store.transactionKeys ∧ store.Joins blockId transactionId

/-- Blocks and transactions are keyed by their hashes, and links are between stored ones. -/
structure Chained (store : Store) : Prop where
  blocks : store.blocks.Keyed (·.id) (·.entry.hash)
  transactions : store.transactions.Keyed (·.id) (·.entry.hash)
  joined : ∀ blockId transactionId, store.Joins blockId transactionId →
    (∃ hash, (blockId, hash) ∈ store.blockKeys) ∧
      ∃ hash, (transactionId, hash) ∈ store.transactionKeys

theorem Chained.of_sameChain {before after : Store} (chained : before.Chained)
    (same : SameChain before after) : after.Chained := by
  obtain ⟨blocks, transactions, joined⟩ := chained
  simp only [Joins, blockKeys, transactionKeys, ← same.blocks, ← same.transactions,
    ← same.links] at blocks transactions joined
  exact ⟨blocks, transactions, joined⟩

/-- From one store to another blocks and transactions were at most added or refreshed, and
nothing was written to the ledger. -/
structure Grown (before after : Store) : Prop where
  assets : after.assets = before.assets
  descriptions : after.descriptions = before.descriptions
  blocks : before.blockKeys <+: after.blockKeys
  transactions : before.transactionKeys <+: after.transactionKeys

namespace Grown

variable {before middle after : Store}

theorem refl (store : Store) : Grown store store :=
  ⟨rfl, rfl, List.prefix_refl _, List.prefix_refl _⟩

theorem trans (first : Grown before middle) (second : Grown middle after) : Grown before after :=
  ⟨second.assets.trans first.assets, second.descriptions.trans first.descriptions,
    first.blocks.trans second.blocks, first.transactions.trans second.transactions⟩

theorem transaction_of_mem (grown : Grown before after) {row : Stored.Transaction}
    (stored : row ∈ before.transactions.rows) :
    ∃ other ∈ after.transactions.rows,
      other.id = row.id ∧ other.entry.hash = row.entry.hash := by
  have kept := grown.transactions.subset (before.transactions.mem_keys_of_mem _ _ stored)
  obtain ⟨other, isOther, same⟩ := List.mem_map.mp kept
  exact ⟨other, isOther, Prod.mk.inj same⟩

theorem transactionIds_subset (grown : Grown before after) :
    before.transactionIds ⊆ after.transactionIds := by
  intro id member
  obtain ⟨row, stored, rfl⟩ := List.mem_map.mp member
  obtain ⟨other, isOther, sameId, -⟩ := grown.transaction_of_mem stored
  rw [← sameId]
  exact List.mem_map_of_mem isOther

/-- Where links stay, blocks go on holding the transactions that they held. -/
theorem holds (grown : Grown before after) (chained : before.Chained)
    (blocks : after.blocks.Keyed (·.id) (·.entry.hash))
    (transactions : after.transactions.Keyed (·.id) (·.entry.hash))
    (links : after.links = before.links) (blockHash transactionHash : String) :
    after.Holds blockHash transactionHash ↔ before.Holds blockHash transactionHash := by
  constructor
  · rintro ⟨blockId, transactionId, block, transaction, joins⟩
    rw [Joins, links] at joins
    obtain ⟨⟨oldBlock, wasBlock⟩, oldTransaction, wasTransaction⟩ :=
      chained.joined blockId transactionId joins
    have sameBlock := blocks.key_eq_of_id (grown.blocks.subset wasBlock) block
    have sameTransaction :=
      transactions.key_eq_of_id (grown.transactions.subset wasTransaction) transaction
    rw [sameBlock] at wasBlock
    rw [sameTransaction] at wasTransaction
    exact ⟨blockId, transactionId, wasBlock, wasTransaction, joins⟩
  · rintro ⟨blockId, transactionId, block, transaction, joins⟩
    refine ⟨blockId, transactionId, grown.blocks.subset block,
      grown.transactions.subset transaction, ?_⟩
    rw [Joins, links]
    exact joins

theorem chained (grown : Grown before after) (chained : before.Chained)
    (blocks : after.blocks.Keyed (·.id) (·.entry.hash))
    (transactions : after.transactions.Keyed (·.id) (·.entry.hash))
    (links : after.links = before.links) : after.Chained := by
  refine ⟨blocks, transactions, ?_⟩
  intro blockId transactionId joins
  rw [Joins, links] at joins
  obtain ⟨⟨blockHash, block⟩, transactionHash, transaction⟩ :=
    chained.joined blockId transactionId joins
  exact ⟨⟨blockHash, grown.blocks.subset block⟩,
    transactionHash, grown.transactions.subset transaction⟩

theorem balanced (grown : Grown before after) (chained : after.Chained)
    (balanced : before.Balanced) : after.Balanced := by
  rw [Balanced, grown.descriptions]
  refine ⟨?_, ?_, ?_, chained.transactions.numbered.nodup, chained.transactions.unique, ?_, ?_⟩
  · rw [grown.assets]
    exact balanced.assets
  · rw [identifiers, grown.assets]
    exact balanced.identifiers
  · rw [grown.descriptions]
    exact balanced.descriptions
  · rw [grown.descriptions]
    intro row member
    refine (balanced.described row member).mono ?_ grown.transactionIds_subset
    rw [assetIds, assetIds, grown.assets]
    exact List.Subset.refl _
  · rw [grown.assets]
    exact balanced.supplies

end Grown

theorem joins_putLink (store : Store) (link : Stored.Link) (blockId transactionId : Int) :
    (store.putLink link).Joins blockId transactionId ↔
      store.Joins blockId transactionId ∨
        link.blockId = blockId ∧ link.transactionId = transactionId := by
  simp only [Joins, putLink]
  induction store.links with
  | nil => simp [Stored.Link.put]
  | cons other others ih =>
      rw [Stored.Link.put]
      split
      next same =>
        simp only [Stored.Link.joinsSame, decide_eq_true_eq] at same
        simp only [List.mem_cons, exists_eq_or_imp, same]
        constructor
        · exact Or.inl
        · rintro (either | own)
          · exact either
          · exact Or.inl own
      next => simp only [List.mem_cons, exists_eq_or_imp, ih, or_assoc]

theorem Chained.holds_putLink {store : Store} (chained : store.Chained) {link : Stored.Link}
    {blockHash transactionHash : String} (block : (link.blockId, blockHash) ∈ store.blockKeys)
    (transaction : (link.transactionId, transactionHash) ∈ store.transactionKeys)
    (someBlock someTransaction : String) :
    (store.putLink link).Holds someBlock someTransaction ↔
      store.Holds someBlock someTransaction ∨
        someBlock = blockHash ∧ someTransaction = transactionHash := by
  constructor
  · rintro ⟨blockId, transactionId, isBlock, isTransaction, joins⟩
    rcases (store.joins_putLink link blockId transactionId).mp joins with old | ⟨rfl, rfl⟩
    · exact Or.inl ⟨blockId, transactionId, isBlock, isTransaction, old⟩
    · exact Or.inr ⟨chained.blocks.key_eq_of_id isBlock block,
        chained.transactions.key_eq_of_id isTransaction transaction⟩
  · rintro (⟨blockId, transactionId, isBlock, isTransaction, joins⟩ | ⟨rfl, rfl⟩)
    · exact ⟨blockId, transactionId, isBlock, isTransaction,
        (store.joins_putLink link blockId transactionId).mpr (Or.inl joins)⟩
    · exact ⟨link.blockId, link.transactionId, block, transaction,
        (store.joins_putLink link _ _).mpr (Or.inr ⟨rfl, rfl⟩)⟩

theorem Chained.putLink {store : Store} (chained : store.Chained) {link : Stored.Link}
    {blockHash transactionHash : String} (block : (link.blockId, blockHash) ∈ store.blockKeys)
    (transaction : (link.transactionId, transactionHash) ∈ store.transactionKeys) :
    (store.putLink link).Chained := by
  refine ⟨chained.blocks, chained.transactions, ?_⟩
  intro blockId transactionId joins
  rcases (store.joins_putLink link blockId transactionId).mp joins with old | ⟨rfl, rfl⟩
  · exact chained.joined blockId transactionId old
  · exact ⟨⟨blockHash, block⟩, transactionHash, transaction⟩

end Store
end ChainLedger
