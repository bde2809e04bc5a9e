import ChainLedger.Proofs.Ledger.Reconciling
import ChainLedger.Proofs.Service.Storing

/-!
# Reachable stores

The stores that uploads and reconciliations lead to from an empty one, whatever they carry and
wherever one of their statements is refused. In all of them the books are balanced: each asset has
the supply that its descriptions account for.
-/

set_option autoImplicit false

namespace ChainLedger.Store

structure Empty (store : Store) : Prop where
  blocks : store.blocks.rows = []
  transactions : store.transactions.rows = []
  links : store.links = []
  assets : store.assets.rows = []
  descriptions : store.descriptions.rows = []

/-- Calls lead from an empty store to a store. Each may fail at any of its statements; it may not
be told that a statement was done that was lost. -/
inductive Reachable : Store → Prop
  | empty {store : Store} : store.Empty → Reachable store
  | uploaded (request : Report.Upload) {state : Service.State} : Reachable state.session.store →
      OnlyRefusals state.session.faults →
        Reachable (Service.upload request state).2.session.store
  | reconciled (main : Bool) (transaction : Report.Transaction) {session : Session} :
      Reachable session.store → OnlyRefusals session.faults →
        Reachable (Ledger.reconcile main transaction session).2.store

/-- The invariant of all calls. -/
structure Sound (store : Store) : Prop where
  chained : store.Chained
  balanced : store.Balanced

theorem Empty.sound {store : Store} (empty : store.Empty) : store.Sound := by
  refine ⟨⟨.of_rows_eq_nil empty.blocks, .of_rows_eq_nil empty.transactions, ?_⟩, ?_⟩
  · rintro blockId transactionId ⟨link, member, -⟩
    simp [empty.links] at member
  · refine ⟨.of_rows_eq_nil empty.assets, ?_, .of_rows_eq_nil empty.descriptions, ?_, ?_, ?_, ?_⟩
    · simp [identifiers, empty.assets]
    · simp [Store.transactionIds, empty.transactions]
    · simp [empty.transactions]
    · simp [empty.descriptions]
    · simp [empty.assets]

/-! ## Steps -/

theorem Sound.reconcile {session : Session} (sound : session.store.Sound)
    (refusals : OnlyRefusals session.faults) (main : Bool) (transaction : Report.Transaction) :
    (Ledger.reconcile main transaction session).2.store.Sound := by
  have yields := Ledger.reconcile_yields sound.balanced main transaction session.now
  refine (Work.Yields.keeps yields refusals sound ?_).1
  rintro _ after ⟨row, -, -, reconciled⟩
  refine ⟨?_, reconciled.balanced⟩
  exact sound.chained.of_sameChain reconciled.chain

theorem Sound.storeBlock {session : Session} (sound : session.store.Sound)
    (refusals : OnlyRefusals session.faults) (block : Report.Block)
    (entry : Report.BlockEntry) :
    (Service.storeBlock block entry session).2.store.Sound ∧
      OnlyRefusals (Service.storeBlock block entry session).2.faults := by
  have yields := Service.storeBlock_yields sound.chained block entry session.now
  refine Work.Yields.keeps yields refusals sound ?_
  rintro row after ⟨-, kept⟩
  exact ⟨kept.chained, kept.grown.balanced kept.chained sound.balanced⟩

theorem keeps_storeBlocks {holds : Store → Prop}
    (step : ∀ (block : Report.Block) (entry : Report.BlockEntry) {session : Session},
      holds session.store → OnlyRefusals session.faults →
        holds (Service.storeBlock block entry session).2.store ∧
          OnlyRefusals (Service.storeBlock block entry session).2.faults)
    (prepared : List (Report.Block × Report.BlockEntry)) :
    ∀ {state : Service.State}, holds state.session.store → OnlyRefusals state.session.faults →
      holds (Service.storeBlocks prepared state).2.session.store := by
  induction prepared with
  | nil => exact fun start _ => start
  | cons pair rest ih =>
      intro state start refusals
      obtain ⟨block, entry⟩ := pair
      have first := step block entry start refusals
      rw [Service.storeBlocks]
      split
      next error session ran =>
        rw [ran] at first
        exact first.1
      next row session ran =>
        rw [ran] at first
        split
        next => exact first.1
        next queue sent =>
          have last : holds (Service.storeBlocks rest { session, queue }).2.session.store :=
            ih first.1 first.2
          split
          next ended =>
            rw [ended] at last
            exact last
          next ended =>
            rw [ended] at last
            exact last

theorem Reachable.sound {store : Store} (reachable : store.Reachable) : store.Sound := by
  induction reachable with
  | empty empty => exact empty.sound
  | reconciled main transaction _ refusals ih => exact ih.reconcile refusals main transaction
  | uploaded request _ refusals ih =>
      rw [Service.upload]
      split
      next => exact ih
      next prepared _ => exact keeps_storeBlocks (fun block entry _ sound refusals =>
        sound.storeBlock refusals block entry) prepared ih refusals

/-! ## Balance -/

/-- What all rows of a store account for. -/
structure Accounted (store : Store) : Prop where
  supplies : ∀ asset ∈ store.assets.rows, asset.supply =
    .ofSigned (store.describedSum .mint asset.id - store.describedSum .burn asset.id) 0
  kinds : ∀ row ∈ store.descriptions.rows, ∃ kind, row.kind = .known kind
  values : ∀ row ∈ store.descriptions.rows,
    ∃ amount ≤ 100000000000000000, row.value = .ofNat amount
  describedAssets : ∀ row ∈ store.descriptions.rows,
    ∃ asset ∈ store.assets.rows, asset.id = row.assetId
  describedTransactions : ∀ row ∈ store.descriptions.rows,
    ∃ transaction ∈ store.transactions.rows, transaction.id = row.transactionId
  identifiers : (store.assets.rows.map (·.entry.identifier)).Nodup
  transactionHashes : (store.transactions.rows.map (·.entry.hash)).Nodup
  blockHashes : (store.blocks.rows.map (·.entry.hash)).Nodup
  blockIds : (store.blocks.rows.map (·.id)).Nodup
  transactionIds : (store.transactions.rows.map (·.id)).Nodup
  assetIds : (store.assets.rows.map (·.id)).Nodup
  descriptionIds : (store.descriptions.rows.map (·.id)).Nodup

/-- Whatever calls have been made, and wherever they have failed, the store is accounted for. -/
theorem accounted_of_reachable {store : Store} (reachable : store.Reachable) :
    store.Accounted := by
  obtain ⟨chained, balanced⟩ := reachable.sound
  refine
    { supplies := ?_
      kinds := fun row member => (balanced.described row member).kind
      values := fun row member => (balanced.described row member).value
      describedAssets := fun row member =>
        List.mem_map.mp (balanced.described row member).asset
      describedTransactions := fun row member =>
        List.mem_map.mp (balanced.described row member).transaction
      identifiers := balanced.identifiers
      transactionHashes := balanced.hashes
      blockHashes := chained.blocks.unique
      blockIds := chained.blocks.numbered.nodup
      transactionIds := balanced.transactions
      assetIds := balanced.assets.nodup
      descriptionIds := balanced.descriptions.nodup }
  intro asset member
  rw [balanced.supplies asset member, store.net_eq_mints_sub_burns]

def sampleTransaction : Report.Transaction where
  hash := "t"
  fee := 0
  size := 1
  mints := [{ id := "A", name := "a", owner := "o", value := "5" }]
  burns := [{ id := "A", value := "2" }]

def sampleBlock : Report.Block where
  hash := "b"
  sequence := 1
  previousBlockHash := "a"
  timestamp := 0
  difficulty := "1"
  operation := .connected
  transactions := [sampleTransaction]

/-- A store with one asset, and a supply of three that one mint and one burn account for. -/
def sampleStore : Store :=
  let uploaded := (Service.upload { blocks := [sampleBlock] } {}).2.session
  (Ledger.reconcile true sampleTransaction uploaded).2.store

theorem reachable_sampleStore : sampleStore.Reachable := by
  refine .reconciled true sampleTransaction ?_ OnlyRefusals.nil
  refine .uploaded { blocks := [sampleBlock] } ?_ OnlyRefusals.nil
  exact .empty ⟨rfl, rfl, rfl, rfl, rfl⟩

theorem accounted_of_sampleStore :
    sampleStore.Reachable ∧ sampleStore.Accounted ∧
      sampleStore.assets.rows.map (·.supply) = [.ofNat 3] ∧
        sampleStore.descriptions.rows.map (·.value) = [.ofNat 5, .ofNat 2] :=
  ⟨reachable_sampleStore, accounted_of_reachable reachable_sampleStore, by decide +kernel,
    by decide +kernel⟩

end ChainLedger.Store
