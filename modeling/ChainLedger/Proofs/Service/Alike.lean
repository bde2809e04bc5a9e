import ChainLedger.Proofs.Service.Showing

/-!
# Stores that are alike

Two stores that show the same content hold the same rows, but for ids and times: the content names
each row by its key, and supplies are what the records add up to.
-/

set_option autoImplicit false

namespace ChainLedger

section Keys

variable {Row Value : Type} {rows : List Row}

theorem mem_map_iff_find? {value : Row → Value} {key : Value → String}
    (unique : (rows.map fun row => key (value row)).Nodup) (wanted : Value) :
    wanted ∈ rows.map value ↔
      (rows.find? fun row => key (value row) = key wanted).map value = some wanted := by
  rw [List.mem_map, Option.map_eq_some_iff]
  apply exists_congr
  intro row
  rw [find?_key_eq_some unique]
  constructor
  · rintro ⟨member, rfl⟩
    exact ⟨⟨member, rfl⟩, rfl⟩
  · rintro ⟨⟨member, -⟩, same⟩
    exact ⟨member, same⟩

theorem map_perm_of_find? {others : List Row} {value : Row → Value} (key : Value → String)
    (unique : (rows.map fun row => key (value row)).Nodup)
    (uniqueToo : (others.map fun row => key (value row)).Nodup)
    (same : ∀ wanted, (rows.find? fun row => key (value row) = wanted).map value =
      (others.find? fun row => key (value row) = wanted).map value) :
    (rows.map value).Perm (others.map value) := by
  have nodup : ∀ {rows : List Row}, (rows.map fun row => key (value row)).Nodup →
      (rows.map value).Nodup := by
    intro rows unique
    apply List.Nodup.of_map key
    rwa [List.map_map]
  rw [List.perm_ext_iff_of_nodup (nodup unique) (nodup uniqueToo)]
  intro wanted
  rw [mem_map_iff_find? unique, mem_map_iff_find? uniqueToo, same]

theorem Table.find?_id_eq_some {table : Table Row} {id : Row → Int} {key : Row → String}
    (numbered : table.Numbered id) (wanted : Int) (hash : String) :
    (table.rows.find? fun row => id row = wanted).map key = some hash ↔
      (wanted, hash) ∈ table.keys id key := by
  rw [Option.map_eq_some_iff, Table.keys, List.mem_map]
  apply exists_congr
  intro row
  rw [find?_key_eq_some numbered.nodup, Prod.mk.injEq, and_assoc]

end Keys

namespace Store

def blockHash? (store : Store) (id : Int) : Option String :=
  (store.blocks.rows.find? (·.id = id)).map (·.entry.hash)

def transactionHash? (store : Store) (id : Int) : Option String :=
  (store.transactions.rows.find? (·.id = id)).map (·.entry.hash)

def linkView (store : Store) (link : Stored.Link) : Option String × Option String × Int32 :=
  (store.blockHash? link.blockId, store.transactionHash? link.transactionId, link.index)

def assetView (store : Store) (asset : Stored.Asset) :
    Stored.AssetEntry × Option String × Decimal :=
  (asset.entry, store.transactionHash? asset.createdTransactionId, asset.supply)

/-- Two stores hold the same but for ids and times. -/
structure Alike (first second : Store) : Prop where
  blocks : (first.blocks.rows.map (·.entry)).Perm (second.blocks.rows.map (·.entry))
  transactions :
    (first.transactions.rows.map (·.entry)).Perm (second.transactions.rows.map (·.entry))
  links : (first.links.map first.linkView).Perm (second.links.map second.linkView)
  assets : (first.assets.rows.map first.assetView).Perm (second.assets.rows.map second.assetView)
  descriptions : ∀ hash, first.recordedFor hash = second.recordedFor hash

variable {first second store : Store} {content : Content}

theorem Chained.blockHash?_eq_some (chained : store.Chained) {id : Int} {hash : String} :
    store.blockHash? id = some hash ↔ (id, hash) ∈ store.blockKeys :=
  Table.find?_id_eq_some chained.blocks.numbered id hash

theorem Chained.transactionHash?_eq_some (chained : store.Chained) {id : Int} {hash : String} :
    store.transactionHash? id = some hash ↔ (id, hash) ∈ store.transactionKeys :=
  Table.find?_id_eq_some chained.transactions.numbered id hash

/-! ## Links -/

theorem Shows.linkView_of_mem (shows : store.Shows content) {link : Stored.Link}
    (member : link ∈ store.links) :
    ∃ blockHash transactionHash,
      store.linkView link = (some blockHash, some transactionHash, link.index) ∧
        (link.blockId, blockHash) ∈ store.blockKeys ∧
          (link.transactionId, transactionHash) ∈ store.transactionKeys := by
  have chained := shows.sound.chained
  obtain ⟨⟨blockHash, block⟩, transactionHash, transaction⟩ :=
    chained.joined link.blockId link.transactionId ⟨link, member, rfl, rfl⟩
  refine ⟨blockHash, transactionHash, ?_, block, transaction⟩
  rw [linkView, chained.blockHash?_eq_some.mpr block,
    chained.transactionHash?_eq_some.mpr transaction]

theorem Shows.nodup_linkView (shows : store.Shows content) :
    (store.links.map store.linkView).Nodup := by
  have chained := shows.sound.chained
  refine List.Nodup.map_on ?_ (List.Nodup.of_map _ shows.joins)
  intro link member other isOther same
  obtain ⟨blockHash, transactionHash, view, block, transaction⟩ := shows.linkView_of_mem member
  obtain ⟨blockHash', transactionHash', view', block', transaction'⟩ :=
    shows.linkView_of_mem isOther
  rw [view, view'] at same
  obtain ⟨sameBlock, rest⟩ := Prod.mk.inj same
  obtain ⟨sameTransaction, -⟩ := Prod.mk.inj rest
  obtain rfl := Option.some.inj sameBlock
  obtain rfl := Option.some.inj sameTransaction
  apply List.inj_on_of_nodup_map shows.joins member isOther
  exact Prod.ext (chained.blocks.id_eq_of_key block block')
    (chained.transactions.id_eq_of_key transaction transaction')

theorem Shows.mem_linkView (shows : store.Shows content)
    (view : Option String × Option String × Int32) :
    view ∈ store.links.map store.linkView ↔
      ∃ blockHash transactionHash index, view = (some blockHash, some transactionHash, index) ∧
        content.links (blockHash, transactionHash) = some index := by
  have chained := shows.sound.chained
  simp only [shows.links]
  constructor
  · intro member
    obtain ⟨link, isLink, rfl⟩ := List.mem_map.mp member
    obtain ⟨blockHash, transactionHash, view, block, transaction⟩ := shows.linkView_of_mem isLink
    exact ⟨blockHash, transactionHash, link.index, view, link.blockId, link.transactionId, block,
      transaction, isLink⟩
  · rintro ⟨blockHash, transactionHash, index, rfl, blockId, transactionId, block, transaction,
      isLink⟩
    refine List.mem_map.mpr ⟨_, isLink, ?_⟩
    rw [linkView, chained.blockHash?_eq_some.mpr block,
      chained.transactionHash?_eq_some.mpr transaction]

/-! ## Assets -/

theorem Shows.supplyOf_eq (shows : first.Shows content) (showsToo : second.Shows content)
    (transactions :
      (first.transactions.rows.map (·.entry)).Perm (second.transactions.rows.map (·.entry)))
    (identifier : String) : first.supplyOf identifier = second.supplyOf identifier := by
  rw [supplyOf_of_records shows.sound.balanced shows.records,
    supplyOf_of_records showsToo.sound.balanced showsToo.records]
  -- the same records of the same transactions are added up, in some order
  have parts := transactions.map fun entry =>
    Ledger.Posting.net (content.records entry.hash) identifier
  rw [List.map_map, List.map_map] at parts
  congr 1
  exact parts.sum_eq

theorem Shows.mem_assetView (shows : store.Shows content)
    (view : Stored.AssetEntry × Option String × Decimal) :
    view ∈ store.assets.rows.map store.assetView ↔
      ∃ entry hash, view = (entry, some hash, store.supplyOf entry.identifier) ∧
        content.assets entry.identifier = some (entry, hash) := by
  have chained := shows.sound.chained
  have supply : ∀ asset ∈ store.assets.rows,
      store.supplyOf asset.entry.identifier = asset.supply := by
    intro asset member
    have found : store.assetByIdentifier? asset.entry.identifier = some asset :=
      find?_key_of_mem shows.sound.balanced.identifiers member
    rw [supplyOf, found]
  constructor
  · intro member
    obtain ⟨asset, isAsset, rfl⟩ := List.mem_map.mp member
    have registered : asset.registration ∈ store.registry := List.mem_map_of_mem isAsset
    obtain ⟨row, stored, isCreator⟩ := List.mem_map.mp (shows.creators _ registered)
    have key : (asset.createdTransactionId, row.entry.hash) ∈ store.transactionKeys := by
      change row.id = asset.createdTransactionId at isCreator
      rw [← isCreator]
      exact store.transactions.mem_keys_of_mem _ _ stored
    refine ⟨asset.entry, row.entry.hash, ?_,
      (shows.assets _ _ _).mpr ⟨_, registered, rfl, rfl, key⟩⟩
    rw [assetView, supply asset isAsset, chained.transactionHash?_eq_some.mpr key]
  · rintro ⟨entry, hash, rfl, told⟩
    obtain ⟨registered, member, rfl, -, key⟩ := (shows.assets _ _ _).mp told
    obtain ⟨asset, isAsset, rfl⟩ := List.mem_map.mp member
    refine List.mem_map.mpr ⟨asset, isAsset, ?_⟩
    rw [assetView, ← supply asset isAsset]
    exact congrArg (fun creator => (asset.entry, creator, _))
      (chained.transactionHash?_eq_some.mpr key)

theorem Shows.nodup_assetView (shows : store.Shows content) :
    (store.assets.rows.map store.assetView).Nodup := by
  apply List.Nodup.of_map (·.1.identifier)
  rw [List.map_map]
  exact shows.sound.balanced.identifiers

theorem Shows.alike (shows : first.Shows content) (showsToo : second.Shows content) :
    first.Alike second := by
  have transactions :
      (first.transactions.rows.map (·.entry)).Perm (second.transactions.rows.map (·.entry)) :=
    map_perm_of_find? (·.hash) shows.sound.chained.transactions.unique
      showsToo.sound.chained.transactions.unique fun hash =>
        (shows.transactions hash).trans (showsToo.transactions hash).symm
  refine ⟨?_, transactions, ?_, ?_, ?_⟩
  · exact map_perm_of_find? (·.hash) shows.sound.chained.blocks.unique
      showsToo.sound.chained.blocks.unique fun hash =>
        (shows.blocks hash).trans (showsToo.blocks hash).symm
  · rw [List.perm_ext_iff_of_nodup shows.nodup_linkView showsToo.nodup_linkView]
    intro view
    rw [shows.mem_linkView, showsToo.mem_linkView]
  · rw [List.perm_ext_iff_of_nodup shows.nodup_assetView showsToo.nodup_assetView]
    intro view
    simp only [shows.mem_assetView, showsToo.mem_assetView,
      shows.supplyOf_eq showsToo transactions]
  · intro hash
    rw [shows.records hash, showsToo.records hash]

end Store
end ChainLedger
