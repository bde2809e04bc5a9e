import ChainLedger.Proofs.Service.Listings
import ChainLedger.Proofs.Service.MainChain
import ChainLedger.Proofs.Service.Showing

/-!
# Where blocks hold their transactions

A link is put at the index of its transaction in the report that is being stored, and is never
taken away. So a block holds each transaction that any of its reports carried, at the index of the
last report that carried it, and its listing shows each of them once, by these indexes.
-/

set_option autoImplicit false

namespace ChainLedger

/-! ## Indexes -/

def Report.Block.hashes (block : Report.Block) : List String :=
  block.transactions.map (·.hash)

/-- The index of a transaction in the last report of a block that carries it. -/
def Report.placeOf (reported : List Report.Block) (blockHash hash : String) : Option Int32 :=
  (lastCarrying (reported.filter (·.hash = blockHash)) hash).map fun block =>
    Int32.ofNat (block.hashes.idxOf hash)

theorem Report.placeOf_append (reported : List Report.Block) (block : Report.Block)
    (blockHash hash : String) :
    placeOf (reported ++ [block]) blockHash hash =
      if block.hash = blockHash ∧ block.carries hash then
        some (Int32.ofNat (block.hashes.idxOf hash))
      else placeOf reported blockHash hash := by
  rw [placeOf, placeOf, List.filter_append]
  by_cases own : block.hash = blockHash
  · have kept : [block].filter (·.hash = blockHash) = [block] := by simp [own]
    rw [kept, lastCarrying_append]
    by_cases carries : block.carries hash <;> simp [own, carries]
  · simp [own]

theorem Report.isSome_placeOf {reported : List Report.Block} {blockHash hash : String} :
    (placeOf reported blockHash hash).isSome ↔
      ∃ block ∈ reported, block.hash = blockHash ∧ block.carries hash = true := by
  rw [placeOf, Option.isSome_map, lastCarrying, List.getLast?_isSome, List.filter_filter,
    ← List.length_pos_iff_ne_nil, List.length_filter_pos_iff]
  simp only [Bool.and_eq_true, decide_eq_true_eq, and_comm]

namespace Prepared

theorem writeAll_linkWrites {blockHash hash : String} {transactions : List Report.Transaction} :
    ∀ {links : String × String → Option Int32} {index : Nat},
      (transactions.map (·.hash)).Nodup →
        writeAll links (linkWrites blockHash index transactions) (blockHash, hash) =
          if hash ∈ transactions.map (·.hash) then
            some (Int32.ofNat (index + (transactions.map (·.hash)).idxOf hash))
          else links (blockHash, hash) := by
  induction transactions with
  | nil => exact fun _ => rfl
  | cons transaction rest ih =>
      intro links index distinct
      rw [List.map_cons] at distinct ⊢
      obtain ⟨absent, distinct⟩ := List.nodup_cons.mp distinct
      change writeAll (Function.update links (blockHash, transaction.hash)
        (some (Int32.ofNat index))) (linkWrites blockHash (index + 1) rest) _ = _
      rw [ih distinct]
      by_cases own : transaction.hash = hash
      · obtain rfl := own
        rw [if_neg absent, Function.update_self, if_pos List.mem_cons_self, List.idxOf_cons_self,
          Nat.add_zero]
      · have other : (blockHash, hash) ≠ (blockHash, transaction.hash) :=
          fun same => own (Prod.mk.inj same).2.symm
        rw [Function.update_of_ne other, List.idxOf_cons_ne _ own, Nat.succ_eq_add_one,
          Nat.add_right_comm, Nat.add_assoc index]
        simp only [List.mem_cons, Ne.symm own, false_or]

theorem writeAll_links {stored : List Prepared} (same : ∀ pair ∈ stored, pair.2.hash = pair.1.hash)
    (distinct : ∀ pair ∈ stored, pair.1.hashes.Nodup) (blockHash hash : String) :
    writeAll (fun _ => none)
        (stored.flatMap fun pair => linkWrites pair.2.hash 0 pair.1.transactions)
        (blockHash, hash) =
      Report.placeOf (stored.map (·.1)) blockHash hash := by
  induction stored using List.reverseRecOn with
  | nil => rfl
  | append_singleton stored pair ih =>
      obtain ⟨sameBefore, own⟩ := List.forall_mem_append.mp same
      obtain ⟨distinctBefore, ownDistinct⟩ := List.forall_mem_append.mp distinct
      rw [List.flatMap_append, List.flatMap_singleton, writeAll_append, List.map_append,
        List.map_singleton, Report.placeOf_append, ← ih sameBefore distinctBefore,
        own pair (List.mem_singleton_self pair)]
      by_cases block : pair.1.hash = blockHash
      · obtain rfl := block
        rw [writeAll_linkWrites (ownDistinct pair (List.mem_singleton_self pair)), Nat.zero_add]
        simp only [Report.carries_iff, true_and]
        rfl
      · rw [if_neg fun also => block also.1]
        apply writeAll_of_not_mem
        simp [linkWrites, block]

end Prepared

/-! ## Listings -/

namespace Store

def listedHashes (store : Store) (blockId : Int) : List String :=
  (store.transactionsOfBlock blockId).map (·.entry.hash)

theorem listedHashes_eq_map (store : Store) (blockId : Int) :
    store.listedHashes blockId = (store.joinedListing blockId).map (·.2.entry.hash) := by
  rw [listedHashes, transactionsOfBlock_eq_map, List.map_map]
  rfl

variable {store : Store} {content : Content}

theorem mem_joinedListing {blockId : Int} {pair : Stored.Link × Stored.Transaction} :
    pair ∈ store.joinedListing blockId ↔ pair.1 ∈ store.links ∧ pair.1.blockId = blockId ∧
      pair.2 ∈ store.transactions.rows ∧ pair.2.id = pair.1.transactionId := by
  obtain ⟨link, row⟩ := pair
  rw [(store.joinedListing_perm blockId).mem_iff, List.mem_filter, joined, List.mem_flatMap]
  simp only [List.mem_map, List.mem_filter, decide_eq_true_eq, Prod.mk.injEq]
  constructor
  · rintro ⟨⟨_, linked, _, ⟨stored, own⟩, rfl, rfl⟩, block⟩
    exact ⟨linked, block, stored, own⟩
  · rintro ⟨linked, block, stored, own⟩
    exact ⟨⟨link, linked, row, ⟨stored, own⟩, rfl, rfl⟩, block⟩

theorem Shows.nodup_joinedListing (shows : store.Shows content) (blockId : Int) :
    (store.joinedListing blockId).Nodup := by
  rw [(store.joinedListing_perm blockId).nodup_iff]
  apply List.Nodup.filter
  rw [joined, List.nodup_flatMap]
  constructor
  · intro link _
    have rows : store.transactions.rows.Nodup := .of_map _ shows.sound.balanced.transactions
    exact (rows.filter _).map (Prod.mk_right_injective link)
  · have links : store.links.Nodup := .of_map _ shows.joins
    refine links.imp fun {first second} distinct pair ofFirst ofSecond => ?_
    obtain ⟨row, -, rfl⟩ := List.mem_map.mp ofFirst
    obtain ⟨other, -, same⟩ := List.mem_map.mp ofSecond
    exact distinct (Prod.mk.inj same).1.symm

theorem Shows.nodup_listedHashes (shows : store.Shows content) (blockId : Int) :
    (store.listedHashes blockId).Nodup := by
  rw [listedHashes_eq_map]
  refine List.Nodup.map_on ?_ (shows.nodup_joinedListing blockId)
  intro first isFirst second isSecond sameHash
  obtain ⟨linked, block, stored, own⟩ := mem_joinedListing.mp isFirst
  obtain ⟨linked', block', stored', own'⟩ := mem_joinedListing.mp isSecond
  have sameRow := shows.sound.chained.transactions.eq_of_key stored stored' sameHash
  have sameEnds : first.1.ends = second.1.ends := by
    rw [Stored.Link.ends, Stored.Link.ends, block, block', ← own, ← own', sameRow]
  exact Prod.ext (List.inj_on_of_nodup_map shows.joins linked linked' sameEnds) sameRow

theorem Shows.index_of_mem (shows : store.Shows content) {block : Stored.Block}
    (stored : block ∈ store.blocks.rows) {pair : Stored.Link × Stored.Transaction}
    (listed : pair ∈ store.joinedListing block.id) :
    content.links (block.entry.hash, pair.2.entry.hash) = some pair.1.index := by
  obtain ⟨linked, isBlock, isStored, own⟩ := mem_joinedListing.mp listed
  refine (shows.links _ _ _).mpr ⟨block.id, pair.2.id, ?_, ?_, ?_⟩
  · exact store.blocks.mem_keys_of_mem _ _ stored
  · exact store.transactions.mem_keys_of_mem _ _ isStored
  · rw [← isBlock, own]
    exact linked

theorem Shows.mem_listedHashes (shows : store.Shows content) {block : Stored.Block}
    (stored : block ∈ store.blocks.rows) (hash : String) :
    hash ∈ store.listedHashes block.id ↔ (content.links (block.entry.hash, hash)).isSome := by
  rw [listedHashes_eq_map, List.mem_map]
  constructor
  · rintro ⟨pair, listed, rfl⟩
    rw [shows.index_of_mem stored listed]
    rfl
  · intro linked
    obtain ⟨index, isIndex⟩ := Option.isSome_iff_exists.mp linked
    obtain ⟨blockId, transactionId, isBlock, isTransaction, member⟩ :=
      (shows.links _ _ _).mp isIndex
    obtain ⟨row, isRow, key⟩ := List.mem_map.mp isTransaction
    obtain ⟨rfl, rfl⟩ := Prod.mk.inj key
    have own : blockId = block.id := shows.sound.chained.blocks.id_eq_of_key isBlock
      (store.blocks.mem_keys_of_mem _ _ stored)
    exact ⟨(_, row), mem_joinedListing.mpr ⟨member, own, isRow, rfl⟩, rfl⟩

theorem Shows.pairwise_listedHashes (shows : store.Shows content) {block : Stored.Block}
    (stored : block ∈ store.blocks.rows) :
    (store.listedHashes block.id).Pairwise fun first second =>
      ∀ index ∈ content.links (block.entry.hash, first),
        ∀ later ∈ content.links (block.entry.hash, second), index.toInt ≤ later.toInt := by
  rw [listedHashes_eq_map, List.pairwise_map]
  refine (store.pairwise_joinedListing block.id).imp_of_mem ?_
  intro first second isFirst isSecond ordered
  rw [shows.index_of_mem stored isFirst, shows.index_of_mem stored isSecond]
  intro index isIndex later isLater
  rw [← Option.mem_some.mp isIndex, ← Option.mem_some.mp isLater]
  exact ordered

end Store
end ChainLedger
