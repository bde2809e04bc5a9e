import ChainLedger.Proofs.Ledger.Repetition
import ChainLedger.Proofs.Store.Answers

/-!
# All or nothing

A reconciliation that fails leaves the store as it was, at whatever statement it has failed. One
that succeeds has found its transaction, met no offence and no refusal, and leaves all that its
statements wrote. Both hold on every store, balanced or not; only on balanced books can it be
said in full what was written.
-/

set_option autoImplicit false

namespace ChainLedger.Ledger

open Work

/-! ## Steadiness -/

theorem steady_selectDescriptions (view : Store → List Stored.Description) :
    (selectDescriptions view).Steady :=
  (steady_select _ _ _).bind fun _ => steady_ofExcept _

theorem steady_changeSupply (assetId : Int) (delta : Decimal) :
    (changeSupply assetId delta).Steady := by
  rw [changeSupply]
  split
  · exact steady_pure ()
  · refine (steady_statement _ _ fun _ => rfl).bind fun found => ?_
    split
    · exact steady_pure ()
    · exact steady_fail _

theorem steady_undoDescription (kind : Stored.DescriptionKind)
    (description : Stored.Description) : (undoDescription kind description).Steady :=
  (steady_select _ _ _).bind fun _ => (steady_orFail _ _).bind fun _ => steady_changeSupply _ _

theorem steady_undoDescriptions (transactionId : Int) :
    (undoDescriptions transactionId).Steady := by
  refine (steady_selectDescriptions _).bind fun descriptions => ?_
  split
  · exact steady_pure ()
  · refine Steady.bind (.forM fun pair => steady_undoDescription pair.1 pair.2) fun _ => ?_
    exact steady_statement _ _ fun _ => rfl

theorem steady_registerAsset (transactionId : Int) (mint : Report.Mint) :
    (registerAsset transactionId mint).Steady :=
  (steady_statement _ _ fun _ => rfl).bind fun _ =>
    (steady_select _ _ _).bind fun _ => steady_orFail _ _

theorem steady_describe (transactionId : Int) (kind : Stored.DescriptionKind)
    (asset : Stored.Asset) (amount : Nat) : (describe transactionId kind asset amount).Steady := by
  refine (steady_statement _ _ fun _ => rfl).bind fun written => ?_
  split
  · exact steady_changeSupply _ _
  · exact steady_fail _

theorem steady_record (transactionId : Int) (kind : Stored.DescriptionKind)
    (asset : Stored.Asset) (value : String) : (record transactionId kind asset value).Steady := by
  rw [record]
  split
  · exact steady_fail _
  · exact steady_pure ()
  · exact (steady_describe _ _ _ _).mapError _

theorem steady_applyMint (transactionId : Int) (mint : Report.Mint) :
    (applyMint transactionId mint).Steady :=
  ((steady_registerAsset _ _).mapError _).bind fun _ => steady_record _ _ _ _

theorem steady_applyBurn (transactionId : Int) (burn : Report.Burn) :
    (applyBurn transactionId burn).Steady :=
  ((steady_select _ _ _).mapError _).bind fun _ =>
    (steady_orFail _ _).bind fun _ => steady_record _ _ _ _

theorem steady_reconcileStatements (main : Bool) (transaction : Report.Transaction) :
    (reconcileStatements main transaction).Steady := by
  refine ((steady_select _ _ _).mapError _).bind fun row? => ?_
  refine (steady_orFail _ _).bind fun row => ?_
  refine ((steady_undoDescriptions _).mapError _).bind fun _ => ?_
  split
  · refine Steady.bind (.forM fun mint => steady_applyMint _ mint) fun _ => ?_
    exact .forM fun burn => steady_applyBurn _ burn
  · exact steady_pure ()

theorem steady_reconcile (main : Bool) (transaction : Report.Transaction) :
    (reconcile main transaction).Steady :=
  (steady_reconcileStatements main transaction).atomically .store

/-! ## What a success tells -/

structure Within (transactions : Table Stored.Transaction) (known : List String) (store : Store) :
    Prop where
  transactions : store.transactions = transactions
  identifiers : store.identifiers ⊆ known

variable {transactions : Table Stored.Transaction} {known : List String}

theorem Within.addSupply {store : Store} (within : Within transactions known store)
    (assetId : Int) (delta : Decimal) (now : Instant) :
    Within transactions known (store.addSupply assetId delta now) := by
  refine ⟨within.transactions, ?_⟩
  have same : (store.addSupply assetId delta now).identifiers = store.identifiers := by
    simp only [Store.identifiers, Store.addSupply, Table.modify, List.map_map]
    apply List.map_congr_left
    intro row _
    simp only [Function.comp_apply]
    split <;> rfl
  rw [same]
  exact within.identifiers

theorem Within.insertAsset {store : Store} (within : Within transactions known store)
    {entry : Stored.AssetEntry} (isKnown : entry.identifier ∈ known) (transactionId : Int)
    (now : Instant) : Within transactions known (store.insertAsset entry transactionId now) := by
  rw [Store.insertAsset]
  split
  · exact within
  · refine ⟨within.transactions, ?_⟩
    simp only [Store.identifiers, Table.add, List.map_append, List.map_cons, List.map_nil]
    exact List.append_subset.mpr ⟨within.identifiers, by simpa using isKnown⟩

theorem changeSupply_assures (assetId : Int) (delta : Decimal) :
    (changeSupply assetId delta).Assures (Within transactions known) fun _ => True := by
  rw [changeSupply]
  split
  · exact assures_pure trivial
  · refine Assures.bind (fun _ => True) ?_ fun found _ => ?_
    · exact assures_statement trivial fun session within =>
        ⟨trivial, within.addSupply assetId delta session.now⟩
    · split
      · exact assures_pure trivial
      · exact assures_fail _

theorem undoDescriptions_assures (transactionId : Int) :
    (undoDescriptions transactionId).Assures (Within transactions known) fun _ => True := by
  have read : (selectDescriptions (·.descriptionsOf transactionId)).Assures
      (Within transactions known) fun _ => True :=
    Assures.bind (fun _ => True) (assures_select trivial fun _ _ => trivial) fun _ _ =>
      assures_ofExcept fun _ _ => trivial
  refine Assures.bind _ read fun descriptions _ => ?_
  split
  · exact assures_pure trivial
  · refine Assures.bind _ (Assures.forM (fun _ => True) ?_) fun _ _ => ?_
    · intro pair _
      refine Assures.bind (fun _ => True) (assures_select trivial fun _ _ => trivial)
        fun asset? _ => ?_
      exact Assures.bind (fun _ => True) (assures_orFail fun _ _ => trivial) fun asset _ =>
        changeSupply_assures _ _
    · exact assures_statement trivial fun session within =>
        ⟨trivial, within.transactions, within.identifiers⟩

theorem record_assures (transactionId : Int) (kind : Stored.DescriptionKind)
    (asset : Stored.Asset) (value : String) :
    (record transactionId kind asset value).Assures (Within transactions known)
      fun _ => Text.isDigitRun value = true := by
  rw [record]
  by_cases run : Text.isDigitRun value = true
  · split
    · exact assures_fail _
    · exact assures_pure run
    · apply Assures.mapError
      refine Assures.bind (fun _ => True) ?_ fun written _ => ?_
      · exact assures_statement trivial fun session within =>
          ⟨trivial, within.transactions, within.identifiers⟩
      · split
        · exact (changeSupply_assures _ _).mono fun _ _ => run
        · exact assures_fail _
  · rw [Amount.read_of_not_isDigitRun run]
    exact assures_fail _

theorem applyMint_assures (transactionId : Int) {mint : Report.Mint} (isKnown : mint.id ∈ known) :
    (applyMint transactionId mint).Assures (Within transactions known)
      fun _ => mintOffence? mint = none := by
  refine Assures.bind (fun _ => True) (Assures.mapError ?_ _) fun asset _ => ?_
  · refine Assures.bind (fun _ => True) ?_ fun _ _ => ?_
    · exact assures_statement trivial fun session within =>
        ⟨trivial, within.insertAsset isKnown transactionId session.now⟩
    · refine Assures.bind (fun _ => True) (assures_select trivial fun _ _ => trivial)
        fun asset? _ => ?_
      exact assures_orFail fun _ _ => trivial
  · refine (record_assures _ _ _ _).mono fun _ run => ?_
    rw [mintOffence?, if_pos run]

theorem applyBurn_assures (transactionId : Int) (burn : Report.Burn) :
    (applyBurn transactionId burn).Assures (Within transactions known)
      fun _ => burnOffence? known burn = none := by
  refine Assures.bind (fun asset? => asset? ≠ none → burn.id ∈ known) (Assures.mapError ?_ _)
    fun asset? isKnown => ?_
  · refine assures_select (fun found => absurd rfl found) fun store within found => ?_
    apply within.identifiers
    by_contra missing
    exact found (find?_key_eq_none.mpr missing)
  · refine Assures.bind (fun _ => burn.id ∈ known) (assures_orFail ?_) fun asset told => ?_
    · intro asset found
      exact isKnown (by simp [found])
    · refine (record_assures _ _ _ _).mono fun _ run => ?_
      rw [burnOffence?, if_pos told, if_pos run]

/-- A reconciliation that succeeds has found its transaction and met no offence. -/
theorem reconcileStatements_assures (main : Bool) (transaction : Report.Transaction)
    (store : Store) :
    (reconcileStatements main transaction).Assures
      (Within store.transactions (store.identifiers ++ transaction.mints.map (·.id)))
      fun _ => (store.transactionByHash? transaction.hash).isSome ∧
        offence? store.identifiers main transaction = none := by
  refine Assures.bind
    (fun row? => row?.isSome → (store.transactionByHash? transaction.hash).isSome)
    (Assures.mapError ?_ _) fun row? isStored => ?_
  · refine assures_select (fun none => by cases none) fun reached within found => ?_
    rwa [Store.transactionByHash?, within.transactions] at found
  refine Assures.bind (fun _ => (store.transactionByHash? transaction.hash).isSome)
    (assures_orFail ?_) fun row stored => ?_
  · intro row found
    exact isStored (by rw [found]; rfl)
  refine Assures.bind _ ((undoDescriptions_assures row.id).mapError _) fun _ _ => ?_
  cases main with
  | false => exact assures_pure ⟨stored, rfl⟩
  | true =>
      refine Assures.bind _ (Assures.forM (mintOffence? · = none) ?_) fun _ minted => ?_
      · intro mint member
        exact applyMint_assures row.id (by simpa using Or.inr ⟨mint, member, rfl⟩)
      · refine (Assures.forM
          (burnOffence? (store.identifiers ++ transaction.mints.map (·.id)) · = none)
          fun burn _ => applyBurn_assures row.id burn).mono fun _ burnt => ⟨stored, ?_⟩
        rw [offence?, if_pos rfl, firstOffence?, List.findSome?_eq_none_iff.mpr minted,
            Option.none_or, List.findSome?_eq_none_iff.mpr burnt]

/-! ## All or nothing -/

/-- What a reconciliation that succeeds has met and left. -/
structure Completed (main : Bool) (transaction : Report.Transaction) (before after : Session) :
    Prop where
  stored : (before.store.transactionByHash? transaction.hash).isSome
  clean : offence? before.store.identifiers main transaction = none
  committed : ∃ opened worked, boundary .opening before = (.ok (), opened) ∧
    reconcileStatements main transaction opened = (.ok (), worked) ∧
      boundary .commit worked = (.ok (), after)
  spared : OnlyRefusals before.faults → before.Spared after ∧
    reconcileStatements main transaction before.calm = (.ok (), after.calm)
  visible : OnlyRefusals before.faults → before.store.Balanced →
    ∃ row, before.store.transactionByHash? transaction.hash = some row ∧
      Reconciled row main transaction before.store after.store

theorem completed_of_ok {main : Bool} {transaction : Report.Transaction}
    {session after : Session} (ran : reconcile main transaction session = (.ok (), after)) :
    Completed main transaction session after := by
  obtain ⟨opened, worked, opening, works, commits⟩ := statements_of_atomically_ok ran
  have openedStore : opened.store = session.store := by
    rw [← boundary_store .opening session, opening]
  obtain ⟨⟨stored, clean⟩, -⟩ := reconcileStatements_assures main transaction session.store works
    ⟨congrArg Store.transactions openedStore, by
      rw [openedStore]
      exact List.subset_append_left _ _⟩
  refine ⟨stored, clean, ⟨opened, worked, opening, works, commits⟩, ?_, ?_⟩
  · intro refusals
    exact (steady_reconcileStatements main transaction).of_atomically_ok refusals ran
  · intro refusals balanced
    obtain ⟨row, found, -, reconciled⟩ :=
      (reconcile_yields balanced main transaction session.now).of_ok refusals ran
    exact ⟨row, found, reconciled⟩

/-- A reconciliation does all of its work or none. -/
theorem reconcile_all_or_nothing (main : Bool) (transaction : Report.Transaction)
    (session : Session) :
    (∀ error after, reconcile main transaction session = (.error error, after) →
      after.store = session.store) ∧
    ∀ after, reconcile main transaction session = (.ok (), after) →
      Completed main transaction session after :=
  ⟨fun _ _ failed => store_of_atomically_error _ _ failed, fun _ ran => completed_of_ok ran⟩

/-- The transaction of the sample store with a mint of a new asset and a burn of an unknown one. -/
def overburntTransaction : Report.Transaction :=
  { Store.sampleTransaction with
    mints := [{ id := "B", name := "b", owner := "o", value := "4" }]
    burns := [{ id := "B", value := "1" }, { id := "C", value := "1" }] }

/-- A session on the sample store whose commits are refused after some that pass. -/
def refusedCommit (skip : Nat) : Session :=
  { store := Store.sampleStore, faults := [{ statement := .commit, skip, mode := .refused }] }

theorem overburntTransaction_all_or_nothing :
    (∃ after, reconcile true overburntTransaction (refusedCommit 0) =
        (.error (.unknownAsset "C"), after) ∧ after.store = Store.sampleStore) ∧
    (∃ error after, reconcile true revisedTransaction (refusedCommit 0) = (.error error, after) ∧
      after.store = Store.sampleStore) ∧
    ∃ after, reconcile true revisedTransaction (refusedCommit 1) = (.ok (), after) ∧
      Completed true revisedTransaction (refusedCommit 1) after ∧
        after.store.assets.rows.map (·.supply) = [.zero, .ofNat 3] := by
  have overburnt : (reconcile true overburntTransaction (refusedCommit 0)).1 =
      .error (.unknownAsset "C") := by
    cbv
  have refused : (reconcile true revisedTransaction (refusedCommit 0)).1 =
      .error (.store Statement.commit.refusal) := by
    cbv
  have answered : (reconcile true revisedTransaction (refusedCommit 1)).1 = .ok () := by
    cbv
  have overburntKeeps := (reconcile_all_or_nothing true overburntTransaction (refusedCommit 0)).1
  have revisedKeeps := (reconcile_all_or_nothing true revisedTransaction (refusedCommit 0)).1
  have revisedDone := (reconcile_all_or_nothing true revisedTransaction (refusedCommit 1)).2
  exact ⟨⟨_, Prod.ext overburnt rfl, overburntKeeps _ _ (Prod.ext overburnt rfl)⟩,
    ⟨_, _, Prod.ext refused rfl, revisedKeeps _ _ (Prod.ext refused rfl)⟩,
    _, Prod.ext answered rfl, revisedDone _ (Prod.ext answered rfl), by cbv⟩

end ChainLedger.Ledger
