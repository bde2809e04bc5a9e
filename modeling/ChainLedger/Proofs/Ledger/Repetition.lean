import ChainLedger.Proofs.Ledger.Reconciling
import ChainLedger.Proofs.Service.Reachable

/-!
# Repeating and reversing

A reconciliation that is repeated changes nothing but ids and times of what it writes anew. One
that records a transaction is reversed by one that does not, but for the assets that it has
registered: they stay, with a supply of zero.
-/

set_option autoImplicit false

namespace ChainLedger

def Stored.Asset.undated (row : Stored.Asset) : Stored.Asset :=
  { row with updatedAt := row.createdAt }

def Stored.Asset.supplied (total : Int → Int) (row : Stored.Asset) : Stored.Asset :=
  { row with supply := .ofSigned (total row.id) 0 }

def Stored.Description.undated (transactionId : Int) (row : Stored.Description) :
    Stored.Description :=
  if row.transactionId = transactionId then { row with id := 0, createdAt := ⟨0⟩ } else row

theorem Stored.Description.net_map_undated (transactionId assetId : Int)
    (rows : List Stored.Description) :
    net (rows.map (undated transactionId)) assetId = net rows assetId := by
  induction rows with
  | nil => rfl
  | cons row rows ih =>
      have asset : (undated transactionId row).assetId = row.assetId := by
        rw [undated]
        split <;> rfl
      have contribution : (undated transactionId row).contribution = row.contribution := by
        rw [undated]
        split <;> rfl
      rw [List.map_cons, net_cons, net_cons, asset, contribution, ih]

namespace Store

variable {store : Store}

theorem map_undated_assets (balanced : store.Balanced) :
    store.assets.rows.map (·.undated) =
      store.registry.map (·.supplied (Stored.Description.net store.descriptions.rows)) := by
  rw [registry, List.map_map]
  apply List.map_congr_left
  intro row member
  rw [Function.comp_apply, Stored.Asset.undated, Stored.Asset.supplied,
    balanced.supplies row member]
  rfl

/-- What a description of a transaction tells is all there is to it but id and time. -/
theorem undated_of_told (balanced : store.Balanced) {transactionId : Int}
    {row : Stored.Description} {posting : Ledger.Posting}
    (told : store.posting? row = some posting) (owner : row.transactionId = transactionId) :
    ∃ asset ∈ store.assets.rows, asset.entry.identifier = posting.identifier ∧
      row.undated transactionId =
        { id := 0, kind := .known posting.kind, value := posting.value, assetId := asset.id,
          transactionId, createdAt := ⟨0⟩ } := by
  rw [posting?] at told
  cases named : row.kind with
  | unknown name => simp [named] at told
  | known kind =>
      simp only [named] at told
      obtain ⟨identifier, found, rfl⟩ := Option.map_eq_some_iff.mp told
      obtain ⟨asset, isFound, rfl⟩ := Option.map_eq_some_iff.mp found
      obtain ⟨member, same⟩ := (find?_key_eq_some balanced.assets.nodup).mp isFound
      refine ⟨asset, member, rfl, ?_⟩
      rw [Stored.Description.undated, if_pos owner, named, same, owner]

theorem undated_eq_of_told (balanced : store.Balanced) {transactionId : Int}
    {row other : Stored.Description} {posting : Ledger.Posting}
    (told : store.posting? row = some posting) (owner : row.transactionId = transactionId)
    (told' : store.posting? other = some posting)
    (owner' : other.transactionId = transactionId) :
    row.undated transactionId = other.undated transactionId := by
  obtain ⟨asset, registered, identifier, form⟩ := undated_of_told balanced told owner
  obtain ⟨asset', registered', identifier', form'⟩ := undated_of_told balanced told' owner'
  have same : asset = asset' :=
    List.inj_on_of_nodup_map balanced.identifiers registered registered'
      (identifier.trans identifier'.symm)
  rw [form, form', same]

theorem map_undated_of_told (balanced : store.Balanced) {transactionId : Int}
    {postings : List Ledger.Posting} :
    ∀ {rows others : List Stored.Description},
      rows.map store.posting? = postings.map some →
      (∀ row ∈ rows, row.transactionId = transactionId) →
      others.map store.posting? = postings.map some →
      (∀ row ∈ others, row.transactionId = transactionId) →
      rows.map (·.undated transactionId) = others.map (·.undated transactionId) := by
  induction postings with
  | nil =>
      intro rows others told _ told' _
      rw [List.map_eq_nil_iff.mp told, List.map_eq_nil_iff.mp told']
  | cons posting postings ih =>
      intro rows others told owners told' owners'
      obtain ⟨row, rows, rfl, tells, rest⟩ := List.map_eq_cons_iff.mp told
      obtain ⟨other, others, rfl, tells', rest'⟩ := List.map_eq_cons_iff.mp told'
      have head := undated_eq_of_told balanced tells (owners row (by simp)) tells'
        (owners' other (by simp))
      have tail := ih rest (fun each member => owners each (by simp [member])) rest'
        fun each member => owners' each (by simp [member])
      rw [List.map_cons, List.map_cons, head, tail]

end Store

namespace Ledger

variable {store : Store} {main : Bool} {transaction : Report.Transaction}
  {row : Stored.Transaction}

/-! ## Success -/

theorem reconcile_of_calm (balanced : store.Balanced)
    (found : store.transactionByHash? transaction.hash = some row)
    (clean : offence? store.identifiers main transaction = none) (now : Instant) :
    ∃ after, reconcile main transaction { store, now } = (.ok (), { store := after, now }) ∧
      Reconciled row main transaction store after := by
  rcases (reconcile_yields balanced main transaction now).of_calm with
    ⟨_, after, ran, other, isFound, -, reconciled⟩ |
    ⟨error, after, -, ⟨missing, -⟩ | ⟨-, offends⟩⟩
  · obtain rfl := Option.some.inj (found.symm.trans isFound)
    exact ⟨after, ran, reconciled⟩
  · rw [found] at missing
    cases missing
  · rw [clean] at offends
    cases offends

theorem Reconciled.identifiers_eq {after : Store}
    (reconciled : Reconciled row main transaction store after) :
    after.identifiers = store.identifiers ++
      (Ledger.registered store.identifiers main transaction).map (·.identifier) := by
  obtain ⟨added, registry, entries, -⟩ := reconciled.registered
  rw [← entries]
  simp [Store.identifiers_eq_registry, registry]

theorem registered_of_registered (known : List String) (main : Bool)
    (transaction : Report.Transaction) :
    registered (known ++ (registered known main transaction).map (·.identifier)) main
      transaction = [] := by
  cases main with
  | false => rfl
  | true =>
      apply firstMints_of_known
      intro mint member
      exact (mem_known_firstMints known transaction.mints mint.id).mpr
        (Or.inr ⟨mint, member, rfl⟩)

theorem offence?_false (known : List String) (transaction : Report.Transaction) :
    offence? known false transaction = none := rfl

theorem offence?_of_registered (known : List String) (main : Bool)
    (transaction : Report.Transaction) :
    offence? (known ++ (registered known main transaction).map (·.identifier)) main
      transaction = offence? known main transaction := by
  cases main with
  | false => rfl
  | true =>
      have same : burnOffence? (known ++ (firstMints known transaction.mints).map
            (·.identifier) ++ transaction.mints.map (·.id)) =
          burnOffence? (known ++ transaction.mints.map (·.id)) := by
        apply burnOffence?_congr
        intro identifier
        rw [List.mem_append, mem_known_firstMints, List.mem_append, List.mem_map]
        tauto
      simp only [offence?, registered, if_true, firstOffence?, same]

/-! ## Repeating -/

/-- One store differs from another at most in ids and times of a transaction's own descriptions,
and in times of assets. -/
structure Repeated (transactionId : Int) (before after : Store) : Prop where
  chain : before.SameChain after
  assets : after.assets.rows.map (·.undated) = before.assets.rows.map (·.undated)
  descriptions : after.descriptions.rows.map (·.undated transactionId) =
    before.descriptions.rows.map (·.undated transactionId)

theorem Reconciled.others {before after : Store}
    (reconciled : Reconciled row main transaction before after) :
    after.descriptions.rows.filter (·.transactionId ≠ row.id) =
      before.descriptions.rows.filter (·.transactionId ≠ row.id) := by
  obtain ⟨rows, isRows, -, owners⟩ := reconciled.described
  have none : rows.filter (·.transactionId ≠ row.id) = [] := by
    apply List.filter_eq_nil_iff.mpr
    intro description member
    simp [owners description member]
  rw [isRows, List.filter_append, none, List.append_nil, List.filter_filter]
  simp

theorem Reconciled.repeated {before after again : Store}
    (once : Reconciled row main transaction before after)
    (twice : Reconciled row main transaction after again) : Repeated row.id after again := by
  obtain ⟨rows, isRows, told, owners⟩ := once.described
  obtain ⟨rows', isRows', told', owners'⟩ := twice.described
  have registry : again.registry = after.registry := by
    obtain ⟨added, registry, entries, -⟩ := twice.registered
    rw [once.identifiers_eq, registered_of_registered, List.map_eq_nil_iff] at entries
    rw [registry, entries, List.append_nil]
  have same : again.posting? = after.posting? := by
    funext description
    simp only [Store.posting?, Store.identifierOf?_eq_registry, registry]
  rw [same] at told'
  have descriptions : again.descriptions.rows.map (·.undated row.id) =
      after.descriptions.rows.map (·.undated row.id) := by
    rw [isRows', once.others, isRows, List.map_append, List.map_append]
    congr 1
    exact Store.map_undated_of_told once.balanced told' owners' told owners
  refine ⟨twice.chain, ?_, descriptions⟩
  have nets : Stored.Description.net again.descriptions.rows =
      Stored.Description.net after.descriptions.rows := by
    funext assetId
    rw [← Stored.Description.net_map_undated row.id, descriptions,
      Stored.Description.net_map_undated]
  rw [Store.map_undated_assets twice.balanced, Store.map_undated_assets once.balanced, registry,
    nets]

/-! ## Reversing -/

/-- One store differs from another at most in times of assets, and in assets behind the others
that a transaction has registered and that have a supply of zero. -/
structure Reversed (transactionId : Int) (entries : List Stored.AssetEntry)
    (direct after : Store) : Prop where
  chain : direct.SameChain after
  descriptions : after.descriptions.rows = direct.descriptions.rows
  assets : ∃ added, after.assets.rows.map (·.undated) =
      direct.assets.rows.map (·.undated) ++ added ∧
    added.map (·.entry) = entries ∧
      ∀ asset ∈ added, asset.supply = .zero ∧ asset.createdTransactionId = transactionId

theorem Reconciled.descriptions_of_withdrawn {before after : Store}
    (reconciled : Reconciled row false transaction before after) :
    after.descriptions.rows =
      before.descriptions.rows.filter (·.transactionId ≠ row.id) := by
  obtain ⟨rows, isRows, told, -⟩ := reconciled.described
  rw [isRows, List.map_eq_nil_iff.mp told, List.append_nil]

theorem Reconciled.registry_of_withdrawn {before after : Store}
    (reconciled : Reconciled row false transaction before after) :
    after.registry = before.registry := by
  obtain ⟨added, registry, entries, -⟩ := reconciled.registered
  rw [registry, List.map_eq_nil_iff.mp entries, List.append_nil]

theorem Reconciled.reversed {before after undone direct : Store}
    (recorded : Reconciled row true transaction before after)
    (withdrawn : Reconciled row false transaction after undone)
    (spared : Reconciled row false transaction before direct) :
    Reversed row.id (firstMints before.identifiers transaction.mints) direct undone := by
  obtain ⟨added, registry, entries, creators⟩ := recorded.registered
  have descriptions : undone.descriptions.rows = direct.descriptions.rows := by
    rw [withdrawn.descriptions_of_withdrawn, spared.descriptions_of_withdrawn, recorded.others]
  have directRegistry := spared.registry_of_withdrawn
  have undoneRegistry : undone.registry = direct.registry ++ added := by
    rw [withdrawn.registry_of_withdrawn, registry, directRegistry]
  have chain : direct.SameChain undone :=
    spared.chain.symm.trans (recorded.chain.trans withdrawn.chain)
  refine ⟨chain, descriptions,
    added.map (·.supplied (Stored.Description.net direct.descriptions.rows)), ?_, ?_, ?_⟩
  · rw [Store.map_undated_assets withdrawn.balanced, Store.map_undated_assets spared.balanced,
      undoneRegistry, descriptions, List.map_append]
  · rw [List.map_map]
    exact entries
  · intro asset member
    obtain ⟨registered, isAdded, rfl⟩ := List.mem_map.mp member
    refine ⟨?_, creators registered isAdded⟩
    -- an id that is given to a new asset is no id of an asset that descriptions are about
    have fresh : ∀ description ∈ direct.descriptions.rows,
        description.assetId ≠ registered.id := by
      intro description isDescription same
      have unique := withdrawn.balanced.assets.nodup
      change undone.assetIds.Nodup at unique
      rw [Store.assetIds_eq_registry, undoneRegistry, List.map_append, List.nodup_append]
        at unique
      have about := (spared.balanced.described description isDescription).asset
      rw [Store.assetIds_eq_registry] at about
      exact unique.2.2 _ about _ (List.mem_map_of_mem isAdded) same
    rw [Stored.Asset.supplied, Stored.Description.net_eq_zero fresh]
    rfl

/-! ## Where no fault is armed -/

theorem reconciled_of_ok (balanced : store.Balanced) {now : Instant} {after : Session}
    (ran : reconcile main transaction { store, now } = (.ok (), after)) :
    ∃ row, store.transactionByHash? transaction.hash = some row ∧
      after.store.transactionByHash? transaction.hash = some row ∧
      offence? after.store.identifiers main transaction = none ∧
      Reconciled row main transaction store after.store := by
  have yields := reconcile_yields balanced main transaction now
  have done := yields [] OnlyRefusals.nil
  rw [ran] at done
  obtain ⟨row, found, clean, reconciled⟩ := done.2
  refine ⟨row, found, ?_, ?_, reconciled⟩
  · rw [reconciled.chain.transactionByHash?]
    exact found
  · rw [reconciled.identifiers_eq, offence?_of_registered]
    exact clean

/-- Reconciling twice is reconciling once, and recording is undone by reconciling the transaction
as one that is not on the main chain. -/
theorem reconcile_repeats_and_reverses {store : Store} (reachable : store.Reachable)
    (transaction : Report.Transaction) (now later : Instant) :
    (∀ main after, reconcile main transaction { store, now } = (.ok (), after) →
      ∃ row again, store.transactionByHash? transaction.hash = some row ∧
        reconcile main transaction { store := after.store, now := later } =
          (.ok (), { store := again, now := later }) ∧
        Repeated row.id after.store again) ∧
    ∀ after, reconcile true transaction { store, now } = (.ok (), after) →
      ∃ row undone direct, store.transactionByHash? transaction.hash = some row ∧
        reconcile false transaction { store := after.store, now := later } =
          (.ok (), { store := undone, now := later }) ∧
        reconcile false transaction { store, now := later } =
          (.ok (), { store := direct, now := later }) ∧
        Reversed row.id (firstMints store.identifiers transaction.mints) direct undone := by
  have balanced := reachable.sound.balanced
  refine ⟨?_, ?_⟩
  · intro main after ran
    obtain ⟨row, found, stays, clean, once⟩ := reconciled_of_ok balanced ran
    obtain ⟨again, ranAgain, twice⟩ := reconcile_of_calm once.balanced stays clean later
    exact ⟨row, again, found, ranAgain, once.repeated twice⟩
  · intro after ran
    obtain ⟨row, found, stays, -, recorded⟩ := reconciled_of_ok balanced ran
    obtain ⟨undone, ranBack, withdrawn⟩ :=
      reconcile_of_calm recorded.balanced stays (offence?_false _ transaction) later
    obtain ⟨direct, ranDirectly, spared⟩ :=
      reconcile_of_calm balanced found (offence?_false _ transaction) later
    exact ⟨row, undone, direct, found, ranBack, ranDirectly, recorded.reversed withdrawn spared⟩

def revisedTransaction : Report.Transaction :=
  { Store.sampleTransaction with
    mints := [{ id := "B", name := "b", owner := "o", value := "4" },
      { id := "A", name := "a", owner := "o", value := "0" }]
    burns := [{ id := "B", value := "1" }] }

theorem revisedTransaction_repeats_and_reverses :
    Store.sampleStore.Reachable ∧
    ∃ after, reconcile true revisedTransaction { store := Store.sampleStore } = (.ok (), after) ∧
      after.store.assets.rows.map (·.supply) = [.zero, .ofNat 3] ∧
      (∃ row again,
        reconcile true revisedTransaction { store := after.store, now := ⟨7⟩ } =
          (.ok (), { store := again, now := ⟨7⟩ }) ∧
        Repeated row after.store again) ∧
      ∃ row undone direct,
        reconcile false revisedTransaction { store := after.store, now := ⟨7⟩ } =
          (.ok (), { store := undone, now := ⟨7⟩ }) ∧
        Reversed row (firstMints Store.sampleStore.identifiers revisedTransaction.mints) direct
          undone := by
  have answered :
      (reconcile true revisedTransaction { store := Store.sampleStore }).1 = .ok () := by
    cbv
  have ran : reconcile true revisedTransaction { store := Store.sampleStore } =
      (.ok (), (reconcile true revisedTransaction { store := Store.sampleStore }).2) :=
    Prod.ext answered rfl
  obtain ⟨repeats, reverses⟩ := reconcile_repeats_and_reverses Store.reachable_sampleStore
    revisedTransaction ⟨0⟩ ⟨7⟩
  obtain ⟨row, again, -, ranAgain, repeated⟩ := repeats true _ ran
  obtain ⟨row', undone, direct, -, ranBack, -, reversed⟩ := reverses _ ran
  exact ⟨Store.reachable_sampleStore, _, ran, by cbv,
    ⟨row.id, again, ranAgain, repeated⟩, row'.id, undone, direct, ranBack, reversed⟩

end Ledger
end ChainLedger
