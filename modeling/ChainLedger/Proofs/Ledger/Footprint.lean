import ChainLedger.Proofs.Ledger.Atomicity
import ChainLedger.Proofs.Service.Run

/-!
# The footprint of a transaction

A reconciliation writes to the descriptions of its own transaction and to the assets that these,
or the mints and burns that it records, are about. Everything else is left as it was, on every
store and wherever statements are refused or lost. Where assets are told apart by their ids, so
are those inside the footprint from those outside.
-/

set_option autoImplicit false

namespace ChainLedger

/-- Ids are a primary key: no two rows share one, and none is above the greatest that was given. -/
structure Table.Identified {Row : Type} (table : Table Row) (id : Row → Int) : Prop where
  unique : (table.rows.map id).Nodup
  given : ∀ row ∈ table.rows, id row ≤ table.lastId

/-- Calls keep ids a primary key. -/
theorem Store.Reachable.identified {store : Store} (reachable : store.Reachable) :
    store.assets.Identified (·.id) :=
  ⟨reachable.sound.balanced.assets.nodup, reachable.sound.balanced.assets.bounded⟩

/-- An asset has at most another supply, and another time of its last change. -/
def Stored.Asset.Restocked (old new : Stored.Asset) : Prop :=
  new = { old with supply := new.supply, updatedAt := new.updatedAt }

theorem Stored.Asset.Restocked.refl (asset : Stored.Asset) : asset.Restocked asset := rfl

theorem Stored.Asset.Restocked.id_eq {old new : Stored.Asset} (restocked : old.Restocked new) :
    new.id = old.id := by
  rw [restocked]

theorem Stored.Asset.Restocked.identifier_eq {old new : Stored.Asset}
    (restocked : old.Restocked new) : new.entry.identifier = old.entry.identifier := by
  rw [restocked]

namespace Store

def idsOfHash (store : Store) (hash : String) : List Int :=
  (store.transactions.rows.filter (·.entry.hash = hash)).map (·.id)

def descriptionsBeside (store : Store) (transactionIds : List Int) : List Stored.Description :=
  store.descriptions.rows.filter (·.transactionId ∉ transactionIds)

end Store

namespace Ledger

def Mints (main : Bool) (transaction : Report.Transaction) (identifier : String) : Prop :=
  main = true ∧ ∃ mint ∈ transaction.mints, mint.id = identifier

def Burns (main : Bool) (transaction : Report.Transaction) (identifier : String) : Prop :=
  main = true ∧ ∃ burn ∈ transaction.burns, burn.id = identifier

/-- Assets that a transaction may change: a description that is stored for it is about them, or it
mints or burns them now. -/
inductive InFootprint (store : Store) (main : Bool) (transaction : Report.Transaction)
    (asset : Stored.Asset) : Prop
  | described {row : Stored.Description} (stored : row ∈ store.descriptions.rows)
      (own : row.transactionId ∈ store.idsOfHash transaction.hash)
      (about : row.assetId = asset.id) : InFootprint store main transaction asset
  | minted (mints : Mints main transaction asset.entry.identifier) :
      InFootprint store main transaction asset
  | burnt (burns : Burns main transaction asset.entry.identifier) :
      InFootprint store main transaction asset

/-- What is left of a store when a transaction has been reconciled: all but its footprint. -/
structure Confined (main : Bool) (transaction : Report.Transaction) (before after : Store) :
    Prop where
  blocks : after.blocks = before.blocks
  transactions : after.transactions = before.transactions
  links : after.links = before.links
  descriptions : after.descriptionsBeside (before.idsOfHash transaction.hash) =
    before.descriptionsBeside (before.idsOfHash transaction.hash)
  assets : ∃ kept added, after.assets.rows = kept ++ added ∧
    List.Forall₂ (fun old new => old.Restocked new ∧
      (before.assets.Identified (·.id) → ¬InFootprint before main transaction old → new = old))
      before.assets.rows kept ∧
    ∀ asset ∈ added, Mints main transaction asset.entry.identifier

/-! ## What is reached -/

/-- The ids of assets that a reconciliation may write to: those that its stored descriptions are
about, those of the footprint, and those that it is going to give. -/
inductive Reaches (start : Store) (main : Bool) (transaction : Report.Transaction) (id : Int) :
    Prop
  | described {row : Stored.Description} (stored : row ∈ start.descriptions.rows)
      (own : row.transactionId ∈ start.idsOfHash transaction.hash) (about : row.assetId = id) :
      Reaches start main transaction id
  | inside {asset : Stored.Asset} (stored : asset ∈ start.assets.rows) (same : asset.id = id)
      (inside : InFootprint start main transaction asset) : Reaches start main transaction id
  | fresh (fresh : start.assets.lastId < id) : Reaches start main transaction id

structure Spares (start : Store) (main : Bool) (transaction : Report.Transaction)
    (store : Store) : Prop where
  chain : start.SameChain store
  others : store.descriptionsBeside (start.idsOfHash transaction.hash) =
    start.descriptionsBeside (start.idsOfHash transaction.hash)
  own : ∀ row ∈ store.descriptions.rows, row.transactionId ∈ start.idsOfHash transaction.hash →
    Reaches start main transaction row.assetId
  assets : ∃ kept added, store.assets.rows = kept ++ added ∧
    List.Forall₂ (fun old new => old.Restocked new ∧
      (¬Reaches start main transaction old.id → new = old)) start.assets.rows kept ∧
    ∀ asset ∈ added, start.assets.lastId < asset.id ∧
      Mints main transaction asset.entry.identifier
  lastId : start.assets.lastId ≤ store.assets.lastId

variable {start store : Store} {main : Bool} {transaction : Report.Transaction}

/-- Where ids are a primary key, what is reached of the stored assets is the footprint. -/
theorem inFootprint_of_reaches (identified : start.assets.Identified (·.id))
    {asset : Stored.Asset} (stored : asset ∈ start.assets.rows)
    (reaches : Reaches start main transaction asset.id) :
    InFootprint start main transaction asset := by
  cases reaches with
  | described isStored own about => exact .described isStored own about
  | inside isStored same inside =>
      rw [← List.inj_on_of_nodup_map identified.unique isStored stored same]
      exact inside
  | fresh fresh => exact absurd (identified.given asset stored) (Int.not_le.mpr fresh)

namespace Spares

theorem refl (start : Store) (main : Bool) (transaction : Report.Transaction) :
    Spares start main transaction start := by
  refine ⟨.refl start, rfl, ?_, ⟨start.assets.rows, [], ?_, ?_, ?_⟩, Int.le_refl _⟩
  · exact fun row stored own => .described stored own rfl
  · exact (List.append_nil _).symm
  · exact List.forall₂_same.mpr fun asset _ => ⟨.refl asset, fun _ => rfl⟩
  · exact fun _ member => nomatch member

theorem reaches_of_named (spares : Spares start main transaction store) {asset : Stored.Asset}
    (stored : asset ∈ store.assets.rows)
    (named : Mints main transaction asset.entry.identifier ∨
      Burns main transaction asset.entry.identifier) :
    Reaches start main transaction asset.id := by
  obtain ⟨kept, added, rows, each, new⟩ := spares.assets
  rw [rows] at stored
  rcases List.mem_append.mp stored with isKept | isAdded
  · obtain ⟨old, wasStored, restocked, -⟩ := exists_of_forall₂_of_mem each isKept
    rw [restocked.identifier_eq] at named
    exact .inside wasStored restocked.id_eq.symm (named.elim .minted .burnt)
  · exact .fresh (new asset isAdded).1

theorem addSupply (spares : Spares start main transaction store) {assetId : Int}
    (reaches : Reaches start main transaction assetId) (delta : Decimal) (now : Instant) :
    Spares start main transaction (store.addSupply assetId delta now) := by
  obtain ⟨kept, added, rows, each, new⟩ := spares.assets
  refine ⟨spares.chain.trans ⟨rfl, rfl, rfl, rfl⟩, spares.others, spares.own, ?_, spares.lastId⟩
  refine ⟨_, _, (congrArg (List.map _) rows).trans List.map_append, ?_, ?_⟩
  · rw [List.forall₂_map_right_iff]
    refine each.imp ?_
    rintro old asset ⟨restocked, spared⟩
    by_cases own : asset.id = assetId
    · rw [if_pos (decide_eq_true own)]
      refine ⟨by rw [restocked]; rfl, fun unreached => ?_⟩
      rw [← restocked.id_eq, own] at unreached
      exact absurd reaches unreached
    · rw [if_neg (by simpa using own)]
      exact ⟨restocked, spared⟩
  · intro changed member
    obtain ⟨asset, isAdded, rfl⟩ := List.mem_map.mp member
    split
    · exact new asset isAdded
    · exact new asset isAdded

theorem insertAsset (spares : Spares start main transaction store) {entry : Stored.AssetEntry}
    (mints : Mints main transaction entry.identifier) (transactionId : Int) (now : Instant) :
    Spares start main transaction (store.insertAsset entry transactionId now) := by
  obtain ⟨kept, added, rows, each, new⟩ := spares.assets
  have given := store.assets_lastId_lt_nextId
  have started := spares.lastId
  rw [Store.insertAsset]
  split
  · exact spares
  · refine ⟨spares.chain.trans ⟨rfl, rfl, rfl, rfl⟩, spares.others, spares.own,
      ⟨kept, _, (congrArg (· ++ [_]) rows).trans (List.append_assoc ..), each, ?_⟩,
      le_max_of_le_left started⟩
    intro asset member
    rcases List.mem_append.mp member with isAdded | isNew
    · exact new asset isAdded
    · rw [List.mem_singleton.mp isNew]
      exact ⟨Int.lt_of_le_of_lt started given, mints⟩

theorem insertDescription (spares : Spares start main transaction store) {transactionId : Int}
    (own : transactionId ∈ start.idsOfHash transaction.hash) {assetId : Int}
    (reaches : Reaches start main transaction assetId) (kind : Stored.DescriptionKind)
    (value : Decimal) (now : Instant) :
    Spares start main transaction
      (store.insertDescription kind value assetId transactionId now) := by
  refine ⟨spares.chain.trans ⟨rfl, rfl, rfl, rfl⟩, ?_, ?_, spares.assets, spares.lastId⟩
  · rw [← spares.others]
    simp [Store.descriptionsBeside, Store.insertDescription, Table.add, List.filter_append, own]
  · intro row member isOwn
    rcases List.mem_append.mp member with stored | isNew
    · exact spares.own row stored isOwn
    · rw [List.mem_singleton.mp isNew]
      exact reaches

theorem deleteDescriptionsOf (spares : Spares start main transaction store)
    {transactionId : Int} (own : transactionId ∈ start.idsOfHash transaction.hash) :
    Spares start main transaction (store.deleteDescriptionsOf transactionId) := by
  refine ⟨spares.chain.trans ⟨rfl, rfl, rfl, rfl⟩, ?_, ?_, spares.assets, spares.lastId⟩
  · rw [← spares.others]
    simp only [Store.descriptionsBeside, Store.deleteDescriptionsOf, Table.remove,
      List.filter_filter]
    refine List.filter_congr fun row _ => ?_
    by_cases other : row.transactionId = transactionId
    · simp [other, own]
    · simp [other]
  · exact fun row member => spares.own row (List.mem_of_mem_filter member)

end Spares

/-! ## What statements write -/

open Work

variable {id : Int}

theorem changeSupply_spares (reaches : Reaches start main transaction id) (delta : Decimal) :
    (changeSupply id delta).Assures (Spares start main transaction) fun _ => True := by
  rw [changeSupply]
  split
  · exact assures_pure trivial
  · refine Assures.bind (fun _ => True) ?_ fun found _ => ?_
    · exact assures_statement trivial fun session spares =>
        ⟨trivial, spares.addSupply reaches delta session.now⟩
    · split
      · exact assures_pure trivial
      · exact assures_fail _

theorem mem_of_withKinds {rows : List Stored.Description}
    {pairs : List (Stored.DescriptionKind × Stored.Description)}
    (named : Stored.Description.withKinds rows = .ok pairs)
    {pair : Stored.DescriptionKind × Stored.Description} (member : pair ∈ pairs) :
    pair.2 ∈ rows := by
  obtain ⟨row, isRow, paired⟩ :=
    exists_of_forall₂_of_mem (mapM_ok_iff.mp named) member
  cases known : row.kind with
  | known kind =>
      rw [known] at paired
      rw [← Except.ok.inj paired]
      exact isRow
  | unknown name =>
      rw [known] at paired
      cases paired

theorem undoDescriptions_spares (own : id ∈ start.idsOfHash transaction.hash) :
    (undoDescriptions id).Assures (Spares start main transaction) fun _ => True := by
  have read : (selectDescriptions (·.descriptionsOf id)).Assures (Spares start main transaction)
      fun pairs => ∀ pair ∈ pairs, Reaches start main transaction pair.2.assetId := by
    refine Assures.bind (fun rows => ∀ row ∈ rows, Reaches start main transaction row.assetId)
      (assures_select (fun _ member => nomatch member) fun store spares row member => ?_)
      fun rows reached => ?_
    · obtain ⟨stored, isOwn⟩ := List.mem_filter.mp (List.mem_mergeSort.mp member)
      rw [decide_eq_true_eq] at isOwn
      exact spares.own row stored (isOwn ▸ own)
    · exact assures_ofExcept fun pairs named pair member =>
        reached pair.2 (mem_of_withKinds named member)
  refine Assures.bind _ read fun pairs reached => ?_
  split
  · exact assures_pure trivial
  · refine Assures.bind _ (Assures.forM (fun _ => True) fun pair member => ?_) fun _ _ => ?_
    · refine Assures.bind (fun asset? => ∀ asset, asset? = some asset →
        asset.id = pair.2.assetId) (assures_select (fun _ none => nomatch none) ?_)
        fun asset? found => ?_
      · intro store _ asset found
        simpa using List.find?_some found
      · refine Assures.bind _ (assures_orFail found) fun asset same => ?_
        rw [same]
        exact changeSupply_spares (reached pair member) _
    · exact assures_statement trivial fun session spares =>
        ⟨trivial, spares.deleteDescriptionsOf own⟩

theorem select_assetByIdentifier_spares {identifier : String}
    (named : Mints main transaction identifier ∨ Burns main transaction identifier) :
    (Work.select .assets none (·.assetByIdentifier? identifier)).Assures
      (Spares start main transaction)
      fun asset? => ∀ asset, asset? = some asset → Reaches start main transaction asset.id := by
  refine assures_select (fun _ none => nomatch none) fun store spares asset found => ?_
  refine spares.reaches_of_named (List.mem_of_find?_eq_some found) ?_
  have same : asset.entry.identifier = identifier := by simpa using List.find?_some found
  rw [same]
  exact named

theorem record_spares (own : id ∈ start.idsOfHash transaction.hash)
    (kind : Stored.DescriptionKind) {asset : Stored.Asset}
    (reaches : Reaches start main transaction asset.id) (value : String) :
    (record id kind asset value).Assures (Spares start main transaction) fun _ => True := by
  rw [record]
  split
  · exact assures_fail _
  · exact assures_pure trivial
  · refine Assures.mapError ?_ _
    refine Assures.bind (fun _ => True) ?_ fun written _ => ?_
    · exact assures_statement trivial fun session spares =>
        ⟨trivial, spares.insertDescription own reaches _ _ _⟩
    · split
      · exact changeSupply_spares reaches _
      · exact assures_fail _

theorem applyMint_spares (own : id ∈ start.idsOfHash transaction.hash) {mint : Report.Mint}
    (mints : Mints main transaction mint.id) :
    (applyMint id mint).Assures (Spares start main transaction) fun _ => True := by
  refine Assures.bind (fun asset => Reaches start main transaction asset.id)
    (Assures.mapError ?_ _) fun asset reaches => record_spares own _ reaches _
  refine Assures.bind (fun _ => True) ?_ fun _ _ => ?_
  · exact assures_statement trivial fun session spares =>
      ⟨trivial, spares.insertAsset mints id session.now⟩
  · exact Assures.bind _ (select_assetByIdentifier_spares (.inl mints)) fun asset? reaches =>
      assures_orFail reaches

theorem applyBurn_spares (own : id ∈ start.idsOfHash transaction.hash) {burn : Report.Burn}
    (burns : Burns main transaction burn.id) :
    (applyBurn id burn).Assures (Spares start main transaction) fun _ => True :=
  Assures.bind _ ((select_assetByIdentifier_spares (.inr burns)).mapError _) fun _ reaches =>
    Assures.bind _ (assures_orFail reaches) fun _ reaches => record_spares own _ reaches _

/-- A reconciliation that succeeds has written to its footprint only. -/
theorem reconcileStatements_spares (start : Store) (main : Bool)
    (transaction : Report.Transaction) :
    (reconcileStatements main transaction).Assures (Spares start main transaction)
      fun _ => True := by
  refine Assures.bind
    (fun row? => ∀ row, row? = some row → row.id ∈ start.idsOfHash transaction.hash)
    (Assures.mapError ?_ _) fun row? found => ?_
  · refine assures_select (fun _ none => nomatch none) fun store spares row found => ?_
    rw [Store.transactionByHash?, spares.chain.transactions] at found
    refine List.mem_map_of_mem (List.mem_filter.mpr ⟨List.mem_of_find?_eq_some found, ?_⟩)
    simpa using List.find?_some found
  refine Assures.bind _ (assures_orFail found) fun row own => ?_
  refine Assures.bind _ ((undoDescriptions_spares own).mapError _) fun _ _ => ?_
  cases main with
  | false => exact assures_pure trivial
  | true =>
      refine Assures.bind _ (Assures.forM (fun _ => True) fun mint member => ?_) fun _ _ => ?_
      · exact applyMint_spares own ⟨rfl, mint, member, rfl⟩
      · refine (Assures.forM (fun _ => True) fun burn member => ?_).mono fun _ _ => trivial
        exact applyBurn_spares own ⟨rfl, burn, member, rfl⟩

theorem Spares.confined (spares : Spares start main transaction store) :
    Confined main transaction start store := by
  obtain ⟨kept, added, rows, each, new⟩ := spares.assets
  refine ⟨spares.chain.blocks, spares.chain.transactions, spares.chain.links, spares.others,
    kept, added, rows, ?_, fun asset member => (new asset member).2⟩
  rw [List.forall₂_iff_zip] at each ⊢
  refine ⟨each.1, fun {old new} pair => ⟨(each.2 pair).1, fun identified outside => ?_⟩⟩
  exact (each.2 pair).2 fun reaches =>
    outside (inFootprint_of_reaches identified (List.of_mem_zip pair).1 reaches)

/-- A reconciliation, whatever its outcome, changes nothing outside its footprint. -/
theorem reconcile_confined (main : Bool) (transaction : Report.Transaction)
    (session : Session) :
    Confined main transaction session.store (reconcile main transaction session).2.store := by
  have start := Spares.refl session.store main transaction
  apply Spares.confined
  rcases ran : reconcile main transaction session with ⟨error | done, after⟩
  · change Spares session.store main transaction after.store
    rw [store_of_atomically_error _ _ ran]
    exact start
  · exact (((reconcileStatements_spares session.store main transaction).atomically .store)
      ran start).2

def neighbour : Report.Transaction where
  hash := "u"
  fee := 0
  size := 1
  mints := [{ id := "A", name := "a", owner := "o", value := "7" },
    { id := "B", name := "b", owner := "o", value := "9" }]

def sharedBlock : Report.Block :=
  { Store.sampleBlock with transactions := [Store.sampleTransaction, neighbour] }

def sharedStore : Store :=
  let uploaded := (Service.upload { blocks := [sharedBlock] } {}).2.session.store
  let sampled := (reconcile true Store.sampleTransaction { store := uploaded }).2.store
  (reconcile true neighbour { store := sampled }).2.store

theorem reachable_reconcile {store : Store} (reachable : store.Reachable) (main : Bool)
    (transaction : Report.Transaction) : (reconcile main transaction { store }).2.store.Reachable :=
  .reconciled main transaction reachable OnlyRefusals.nil

theorem reachable_sharedStore : sharedStore.Reachable := by
  apply reachable_reconcile
  apply reachable_reconcile
  exact .uploaded { blocks := [sharedBlock] } (.empty ⟨rfl, rfl, rfl, rfl, rfl⟩) OnlyRefusals.nil

def burningTransaction : Report.Transaction :=
  { Store.sampleTransaction with mints := [] }

theorem sharedStore_confined :
    sharedStore.assets.Identified (·.id) ∧
      (∃ asset ∈ sharedStore.assets.rows,
        asset.entry.identifier = "B" ∧ ¬InFootprint sharedStore true burningTransaction asset) ∧
      Confined true burningTransaction sharedStore
        (reconcile true burningTransaction { store := sharedStore }).2.store ∧
      sharedStore.assets.rows.map (·.supply) = [.ofNat 10, .ofNat 9] ∧
      (reconcile true burningTransaction { store := sharedStore }).2.store.assets.rows.map
        (·.supply) = [.ofNat 5, .ofNat 9] := by
  have undescribed : ∀ row ∈ sharedStore.descriptions.rows,
      row.transactionId ∈ sharedStore.idsOfHash "t" → row.assetId ≠ 2 := by decide +kernel
  obtain ⟨asset, stored, same, named⟩ :
      ∃ asset ∈ sharedStore.assets.rows, asset.id = 2 ∧ asset.entry.identifier = "B" := by
    decide +kernel
  refine ⟨reachable_sharedStore.identified, ⟨asset, stored, named, ?_⟩,
    reconcile_confined true burningTransaction { store := sharedStore }, by decide +kernel,
    by cbv⟩
  rintro (⟨isStored, own, about⟩ | ⟨-, mint, member, -⟩ | ⟨-, burn, member, isNamed⟩)
  · exact undescribed _ isStored own (about.trans same)
  · cases member
  · rw [List.mem_singleton.mp member, named] at isNamed
    revert isNamed
    decide

end Ledger
end ChainLedger
