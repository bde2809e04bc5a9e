import ChainLedger.Proofs.Service.Content
import ChainLedger.Proofs.Service.Tracks

/-!
# Stores and their content

`Shows` says what the content of a store is. It holds of every reachable store for some content,
and storing blocks and reconciling transactions change the content as they should, whatever ids
and times they give.
-/

set_option autoImplicit false

namespace ChainLedger

namespace Stored.Link

def ends (link : Link) : Int × Int := (link.blockId, link.transactionId)

theorem joinsSame_iff {first second : Link} :
    first.joinsSame second = true ↔ first.ends = second.ends := by
  simp [joinsSame, ends]

theorem ends_put (link : Link) (links : List Link) :
    (link.put links).map ends =
      if link.ends ∈ links.map ends then links.map ends else links.map ends ++ [link.ends] := by
  induction links with
  | nil => rfl
  | cons other others ih =>
      rw [put]
      by_cases same : other.ends = link.ends
      · rw [if_pos (joinsSame_iff.mpr same), List.map_cons, List.map_cons, same, if_pos (by simp)]
      · rw [if_neg (mt joinsSame_iff.mp same), List.map_cons, List.map_cons, ih]
        simp only [List.mem_cons, Ne.symm same, false_or]
        split <;> rfl

theorem nodup_ends_put {link : Link} {links : List Link} (unique : (links.map ends).Nodup) :
    ((link.put links).map ends).Nodup := by
  rw [ends_put]
  split
  next => exact unique
  next absent =>
    refine List.nodup_append.mpr ⟨unique, List.nodup_singleton _, ?_⟩
    rintro old member other isNew rfl
    rw [List.mem_singleton.mp isNew] at member
    exact absent member

theorem mem_put {link other : Link} {links : List Link} (unique : (links.map ends).Nodup) :
    other ∈ link.put links ↔ other = link ∨ other ∈ links ∧ other.ends ≠ link.ends := by
  induction links with
  | nil => simp [put]
  | cons first others ih =>
      obtain ⟨absent, unique⟩ := List.nodup_cons.mp unique
      rw [put]
      by_cases same : first.ends = link.ends
      · have distinct : other ∈ others → other.ends ≠ link.ends := by
          intro member equal
          exact absent (List.mem_map.mpr ⟨other, member, equal.trans same.symm⟩)
        rw [if_pos (joinsSame_iff.mpr same), List.mem_cons, List.mem_cons]
        constructor
        · rintro (own | member)
          · exact Or.inl own
          · exact Or.inr ⟨Or.inr member, distinct member⟩
        · rintro (own | ⟨rfl | member, other⟩)
          · exact Or.inl own
          · exact absurd same other
          · exact Or.inr member
      · rw [if_neg (mt joinsSame_iff.mp same), List.mem_cons, List.mem_cons, ih unique]
        constructor
        · rintro (rfl | own | ⟨member, distinct⟩)
          · exact Or.inr ⟨Or.inl rfl, same⟩
          · exact Or.inl own
          · exact Or.inr ⟨Or.inr member, distinct⟩
        · rintro (own | ⟨rfl | member, distinct⟩)
          · exact Or.inr (Or.inl own)
          · exact Or.inl rfl
          · exact Or.inr (Or.inr ⟨member, distinct⟩)

end Stored.Link

namespace Store

/-- A block holds a transaction at an index, where both are told by their hashes. -/
def Places (store : Store) (blockHash transactionHash : String) (index : Int32) : Prop :=
  ∃ blockId transactionId, (blockId, blockHash) ∈ store.blockKeys ∧
    (transactionId, transactionHash) ∈ store.transactionKeys ∧
      { blockId, transactionId, index } ∈ store.links

/-- A store shows a content. -/
structure Shows (store : Store) (content : Content) : Prop where
  sound : store.Sound
  joins : (store.links.map (·.ends)).Nodup
  creators : ∀ asset ∈ store.registry, asset.createdTransactionId ∈ store.transactionIds
  blocks : ∀ hash, (store.blockByHash? hash).map (·.entry) = content.blocks hash
  transactions : ∀ hash,
    (store.transactionByHash? hash).map (·.entry) = content.transactions hash
  links : ∀ blockHash transactionHash index,
    content.links (blockHash, transactionHash) = some index ↔
      store.Places blockHash transactionHash index
  assets : ∀ identifier entry hash, content.assets identifier = some (entry, hash) ↔
    ∃ asset ∈ store.registry, asset.entry = entry ∧ entry.identifier = identifier ∧
      (asset.createdTransactionId, hash) ∈ store.transactionKeys
  records : store.Records content.records

/-! ## Growing -/

variable {store before after : Store} {content : Content}

theorem Grown.mem_transactionKeys (grown : Grown before after) (chained : after.Chained) {id : Int}
    (known : id ∈ before.transactionIds) (hash : String) :
    (id, hash) ∈ after.transactionKeys ↔ (id, hash) ∈ before.transactionKeys := by
  refine ⟨fun member => ?_, fun member => grown.transactions.subset member⟩
  obtain ⟨row, stored, rfl⟩ := List.mem_map.mp known
  have old := before.transactions.mem_keys_of_mem (·.id) (·.entry.hash) stored
  rw [chained.transactions.key_eq_of_id member (grown.transactions.subset old)]
  exact old

theorem Grown.places (grown : Grown before after) (wasChained : before.Chained)
    (chained : after.Chained) (links : after.links = before.links)
    (blockHash transactionHash : String) (index : Int32) :
    after.Places blockHash transactionHash index ↔
      before.Places blockHash transactionHash index := by
  constructor
  · rintro ⟨blockId, transactionId, block, transaction, link⟩
    rw [links] at link
    obtain ⟨⟨oldBlock, wasBlock⟩, oldTransaction, wasTransaction⟩ :=
      wasChained.joined blockId transactionId ⟨_, link, rfl, rfl⟩
    rw [chained.blocks.key_eq_of_id (grown.blocks.subset wasBlock) block] at wasBlock
    rw [chained.transactions.key_eq_of_id (grown.transactions.subset wasTransaction) transaction]
      at wasTransaction
    exact ⟨blockId, transactionId, wasBlock, wasTransaction, link⟩
  · rintro ⟨blockId, transactionId, block, transaction, link⟩
    rw [← links] at link
    exact ⟨blockId, transactionId, grown.blocks.subset block,
      grown.transactions.subset transaction, link⟩

/-- Where blocks and transactions were put, nothing else of the content has changed. -/
theorem Shows.grown (shows : before.Shows content) (grown : Grown before after)
    (chained : after.Chained) (links : after.links = before.links)
    {blocks : String → Option Report.BlockEntry}
    {transactions : String → Option Report.TransactionEntry}
    (isBlocks : ∀ hash, (after.blockByHash? hash).map (·.entry) = blocks hash)
    (isTransactions : ∀ hash,
      (after.transactionByHash? hash).map (·.entry) = transactions hash) :
    after.Shows { content with blocks, transactions } := by
  have registry : after.registry = before.registry := by rw [registry, registry, grown.assets]
  refine
    { sound := ⟨chained, grown.balanced chained shows.sound.balanced⟩
      joins := by rw [links]; exact shows.joins
      creators := ?_
      blocks := isBlocks
      transactions := isTransactions
      links := fun blockHash transactionHash index => by
        rw [grown.places shows.sound.chained chained links]
        exact shows.links blockHash transactionHash index
      assets := ?_
      records := grown.records chained shows.sound.balanced shows.records }
  · rw [registry]
    exact fun asset member => grown.transactionIds_subset (shows.creators asset member)
  · intro identifier entry hash
    rw [shows.assets identifier entry hash, registry]
    apply exists_congr
    intro asset
    refine and_congr_right fun member => ?_
    rw [grown.mem_transactionKeys chained (shows.creators asset member)]

/-! ## Storing -/

theorem Shows.putBlock (shows : store.Shows content) {row : Stored.Block}
    {blocks : Table Stored.Block} (put : store.blocks.Put (·.id) (·.entry.hash) row blocks) :
    { store with blocks }.Shows
      { content with
        blocks := Function.update content.blocks row.entry.hash (some row.entry) } := by
  have grown : store.Grown { store with blocks } := ⟨rfl, rfl, put.grown, List.prefix_refl _⟩
  have chained := grown.chained shows.sound.chained put.keyed shows.sound.chained.transactions rfl
  refine shows.grown grown chained rfl (fun hash => ?_) shows.transactions
  rw [blockByHash?, put.find? shows.sound.chained.blocks.unique, Function.update_apply]
  split
  · rfl
  · exact shows.blocks hash

theorem Shows.putTransaction (shows : store.Shows content) {row : Stored.Transaction}
    {transactions : Table Stored.Transaction}
    (put : store.transactions.Put (·.id) (·.entry.hash) row transactions) :
    { store with transactions }.Shows
      { content with
        transactions :=
          Function.update content.transactions row.entry.hash (some row.entry) } := by
  have grown : store.Grown { store with transactions } :=
    ⟨rfl, rfl, List.prefix_refl _, put.grown⟩
  have chained := grown.chained shows.sound.chained shows.sound.chained.blocks put.keyed rfl
  refine shows.grown grown chained rfl shows.blocks (fun hash => ?_)
  rw [transactionByHash?, put.find? shows.sound.chained.transactions.unique,
    Function.update_apply]
  split
  · rfl
  · exact shows.transactions hash

theorem Chained.places_putLink (chained : store.Chained)
    (unique : (store.links.map (·.ends)).Nodup) {link : Stored.Link}
    {blockHash transactionHash : String} (block : (link.blockId, blockHash) ∈ store.blockKeys)
    (transaction : (link.transactionId, transactionHash) ∈ store.transactionKeys)
    (someBlock someTransaction : String) (index : Int32) :
    (store.putLink link).Places someBlock someTransaction index ↔
      if (someBlock, someTransaction) = (blockHash, transactionHash) then link.index = index
      else store.Places someBlock someTransaction index := by
  have hashes : ∀ {blockId transactionId : Int}, (blockId, someBlock) ∈ store.blockKeys →
      (transactionId, someTransaction) ∈ store.transactionKeys →
      ((blockId, transactionId) = link.ends ↔
        (someBlock, someTransaction) = (blockHash, transactionHash)) := by
    intro blockId transactionId isBlock isTransaction
    constructor
    · intro same
      obtain ⟨rfl, rfl⟩ := Prod.mk.inj same
      rw [chained.blocks.key_eq_of_id isBlock block,
        chained.transactions.key_eq_of_id isTransaction transaction]
    · intro same
      obtain ⟨rfl, rfl⟩ := Prod.mk.inj same
      rw [Stored.Link.ends, chained.blocks.id_eq_of_key isBlock block,
        chained.transactions.id_eq_of_key isTransaction transaction]
  constructor
  · rintro ⟨blockId, transactionId, isBlock, isTransaction, placed⟩
    rcases (Stored.Link.mem_put unique).mp placed with rfl | ⟨placed, distinct⟩
    · rw [if_pos ((hashes isBlock isTransaction).mp rfl)]
    · rw [if_neg fun same => distinct ((hashes isBlock isTransaction).mpr same)]
      exact ⟨blockId, transactionId, isBlock, isTransaction, placed⟩
  · split
    next own =>
      obtain ⟨rfl, rfl⟩ := Prod.mk.inj own
      rintro rfl
      exact ⟨link.blockId, link.transactionId, block, transaction,
        (Stored.Link.mem_put unique).mpr (Or.inl rfl)⟩
    next other =>
      rintro ⟨blockId, transactionId, isBlock, isTransaction, placed⟩
      refine ⟨blockId, transactionId, isBlock, isTransaction,
        (Stored.Link.mem_put unique).mpr (Or.inr ⟨placed, fun same => other ?_⟩)⟩
      exact (hashes isBlock isTransaction).mp same

theorem Shows.putLink (shows : store.Shows content) {link : Stored.Link}
    {blockHash transactionHash : String} (block : (link.blockId, blockHash) ∈ store.blockKeys)
    (transaction : (link.transactionId, transactionHash) ∈ store.transactionKeys) :
    (store.putLink link).Shows
      { content with
        links := Function.update content.links (blockHash, transactionHash)
          (some link.index) } := by
  have grown : store.Grown (store.putLink link) :=
    ⟨rfl, rfl, List.prefix_refl _, List.prefix_refl _⟩
  have linked := shows.sound.chained.putLink block transaction
  refine
    { sound := ⟨linked, grown.balanced linked shows.sound.balanced⟩
      joins := Stored.Link.nodup_ends_put shows.joins
      creators := shows.creators
      blocks := shows.blocks
      transactions := shows.transactions
      links := fun someBlock someTransaction index => ?_
      assets := shows.assets
      records := shows.records }
  rw [shows.sound.chained.places_putLink shows.joins block transaction]
  change Function.update content.links _ _ (someBlock, someTransaction) = some index ↔ _
  rw [Function.update_apply]
  split
  · rw [Option.some_inj]
  · exact shows.links someBlock someTransaction index

/-! ## Reconciling -/

theorem Shows.isSome_assets (shows : store.Shows content) (identifier : String) :
    (content.assets identifier).isSome ↔ identifier ∈ store.identifiers := by
  rw [identifiers_eq_registry, List.mem_map, Option.isSome_iff_exists]
  constructor
  · rintro ⟨⟨entry, hash⟩, found⟩
    obtain ⟨asset, member, rfl, same, -⟩ := (shows.assets _ _ _).mp found
    exact ⟨asset, member, same⟩
  · rintro ⟨asset, member, same⟩
    obtain ⟨row, stored, isCreator⟩ := List.mem_map.mp (shows.creators asset member)
    refine ⟨(asset.entry, row.entry.hash), (shows.assets _ _ _).mpr
      ⟨asset, member, rfl, same, ?_⟩⟩
    rw [← isCreator]
    exact store.transactions.mem_keys_of_mem _ _ stored

theorem Shows.assets_of_reconciled (shows : before.Shows content) {row : Stored.Transaction}
    {job : Job} (key : (row.id, job.transaction.hash) ∈ before.transactionKeys)
    {added : List Stored.Asset}
    (entries : added.map (·.entry) =
      Ledger.registered before.identifiers job.main job.transaction)
    (creators : ∀ asset ∈ added, asset.createdTransactionId = row.id)
    (identifier : String) (entry : Stored.AssetEntry) (hash : String) :
    (content.assets identifier).or (job.registers? identifier) = some (entry, hash) ↔
      ∃ asset ∈ before.registry ++ added, asset.entry = entry ∧ entry.identifier = identifier ∧
        (asset.createdTransactionId, hash) ∈ before.transactionKeys := by
  rw [Option.or_eq_some_iff, shows.assets]
  constructor
  · rintro (⟨asset, member, told⟩ | ⟨unknown, registers⟩)
    · exact ⟨asset, List.mem_append_left _ member, told⟩
    · have own := Job.identifier_of_registers? registers
      obtain ⟨-, rfl, -⟩ := Job.registers?_eq_some.mp registers
      have new : entry.identifier ∉ before.identifiers := by
        rw [own, ← shows.isSome_assets, unknown]
        exact Bool.false_ne_true
      have isAdded : entry ∈ added.map (·.entry) := by
        rw [entries, Job.mem_registered, own]
        exact ⟨own ▸ new, registers⟩
      obtain ⟨asset, member, same⟩ := List.mem_map.mp isAdded
      refine ⟨asset, List.mem_append_right _ member, same, own, ?_⟩
      rw [creators asset member]
      exact key
  · rintro ⟨asset, member, rfl, own, told⟩
    rcases List.mem_append.mp member with member | isAdded
    · exact Or.inl ⟨asset, member, rfl, own, told⟩
    · have registers : asset.entry ∈ added.map (·.entry) := List.mem_map_of_mem isAdded
      rw [entries, Job.mem_registered, own, ← shows.isSome_assets,
        Option.not_isSome_iff_eq_none] at registers
      rw [creators asset isAdded] at told
      rw [shows.sound.chained.transactions.key_eq_of_id told key]
      exact Or.inr registers

theorem Shows.reconciled (shows : before.Shows content) {row : Stored.Transaction} {job : Job}
    (found : before.transactionByHash? job.transaction.hash = some row)
    (reconciled : Ledger.Reconciled row job.main job.transaction before after) :
    after.Shows (content.worked [job]) := by
  obtain ⟨added, registry, entries, creators⟩ := reconciled.registered
  have chain := reconciled.chain
  obtain ⟨stored, own⟩ := (find?_key_eq_some shows.sound.balanced.hashes).mp found
  have key : (row.id, job.transaction.hash) ∈ before.transactionKeys := by
    rw [← own]
    exact before.transactions.mem_keys_of_mem _ _ stored
  refine
    { sound := ⟨shows.sound.chained.of_sameChain chain, reconciled.balanced⟩
      joins := by rw [chain.links]; exact shows.joins
      creators := ?_
      blocks := fun hash => by
        rw [blockByHash?, chain.blocks]
        exact shows.blocks hash
      transactions := fun hash => by
        rw [chain.transactionByHash?]
        exact shows.transactions hash
      links := fun blockHash transactionHash index => by
        simp only [Places, blockKeys, transactionKeys, chain.blocks, chain.transactions,
          chain.links]
        exact shows.links blockHash transactionHash index
      assets := ?_
      records := reconciled.records shows.sound.balanced found shows.records }
  · rw [registry, chain.transactionIds]
    intro asset member
    rcases List.mem_append.mp member with member | isAdded
    · exact shows.creators asset member
    · rw [creators asset isAdded]
      exact List.mem_map_of_mem stored
  · rw [registry, transactionKeys, chain.transactions]
    simp only [Content.worked, List.findSome?_singleton]
    exact shows.assets_of_reconciled key entries creators

end Store

namespace Service

open Work

variable {store : Store} {content : Content}

theorem putTransactions_shows {blockId : Int} {blockHash : String}
    (transactions : List Report.Transaction) (now : Instant) :
    ∀ (index : Nat) {store : Store} {content : Content}, store.Shows content →
      (blockId, blockHash) ∈ store.blockKeys →
      (putTransactions blockId index transactions).Yields store now
        (fun _ after => after.Shows (content.filled blockHash index transactions))
        fun _ => False := by
  induction transactions with
  | nil => exact fun index store content shows _ => yields_pure shows
  | cons transaction rest ih =>
      intro index store content shows block
      rw [putTransactions]
      apply Yields.bind _ (putTransaction_yields shows.sound.chained transaction.toEntry now)
      rintro row _ ⟨same, table, rfl, put⟩
      have key : (row.id, row.entry.hash) ∈ { store with transactions := table }.transactionKeys :=
        table.mem_keys_of_mem _ _ put.stored
      have placed : ({ store with transactions := table }.putLink
          { blockId, transactionId := row.id, index := Int32.ofNat index }).Shows _ :=
        (shows.putTransaction put).putLink block key
      rw [same] at placed
      apply Yields.bind fun _ after =>
        after.Shows _ ∧ (blockId, blockHash) ∈ after.blockKeys
      · exact yields_statement fun _ => ⟨placed, block⟩
      · rintro _ after ⟨placed, block⟩
        exact ih (index + 1) placed block

theorem storeBlock_shows (shows : store.Shows content) (pair : Prepared) (now : Instant) :
    (storeBlock pair.1 pair.2).Yields store now
      (fun _ after => after.Shows (content.stored [pair])) fun _ => False := by
  obtain ⟨block, entry⟩ := pair
  rw [Content.stored_singleton]
  apply Yields.atomically
  apply Yields.bind _ (putBlock_yields shows.sound.chained entry now)
  rintro row _ ⟨same, blocks, rfl, put⟩
  have key : (row.id, row.entry.hash) ∈ { store with blocks }.blockKeys :=
    blocks.mem_keys_of_mem _ _ put.stored
  have placed := shows.putBlock put
  rw [same] at key placed
  apply Yields.bind _ (putTransactions_shows block.transactions now 0 placed key)
  exact fun _ after filled => yields_pure filled

end Service

namespace Store

/-! ## Reachable stores -/

theorem Empty.shows {store : Store} (empty : store.Empty) :
    store.Shows
      { blocks := fun _ => none
        transactions := fun _ => none
        links := fun _ => none
        assets := fun _ => none
        records := fun _ => [] } := by
  refine
    { sound := empty.sound
      joins := by simp [empty.links]
      creators := by simp [registry, empty.assets]
      blocks := fun hash => by simp [blockByHash?, empty.blocks]
      transactions := fun hash => by simp [transactionByHash?, empty.transactions]
      links := fun blockHash transactionHash index => by simp [Places, empty.links]
      assets := fun identifier entry hash => by simp [registry, empty.assets]
      records := fun hash => by
        simp [recordedFor, transactionByHash?, empty.transactions] }

def Shown (store : Store) : Prop := ∃ content, store.Shows content

theorem Shown.storeBlock (block : Report.Block) (entry : Report.BlockEntry) {session : Session}
    (shown : session.store.Shown) (refusals : OnlyRefusals session.faults) :
    (Service.storeBlock block entry session).2.store.Shown ∧
      OnlyRefusals (Service.storeBlock block entry session).2.faults := by
  obtain ⟨content, shows⟩ := shown
  have yields := Service.storeBlock_shows shows (block, entry) session.now
  have start : session.store.Shown := ⟨content, shows⟩
  exact Work.Yields.keeps yields refusals start fun _ _ after => ⟨_, after⟩

theorem Shown.reconcile {session : Session} (shown : session.store.Shown)
    (refusals : OnlyRefusals session.faults) (main : Bool) (transaction : Report.Transaction) :
    (Ledger.reconcile main transaction session).2.store.Shown := by
  obtain ⟨content, shows⟩ := shown
  have yields := Ledger.reconcile_yields shows.sound.balanced main transaction session.now
  have start : session.store.Shown := ⟨content, shows⟩
  refine (Work.Yields.keeps yields refusals start ?_).1
  rintro _ after ⟨row, found, -, reconciled⟩
  exact ⟨content.worked [{ main, transaction }], shows.reconciled found reconciled⟩

theorem Reachable.shown {store : Store} (reachable : store.Reachable) : store.Shown := by
  induction reachable with
  | empty empty => exact ⟨_, empty.shows⟩
  | reconciled main transaction _ refusals ih => exact ih.reconcile refusals main transaction
  | uploaded request _ refusals ih =>
      rw [Service.upload]
      split
      next => exact ih
      next prepared _ => exact keeps_storeBlocks Shown.storeBlock prepared ih refusals

end Store
end ChainLedger
