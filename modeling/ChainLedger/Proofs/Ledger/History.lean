import ChainLedger.Proofs.Ledger.Records
import ChainLedger.Queue.Basic

/-!
# Histories of reconciliations

Calls are made one after the other, and some of them fail. What the ledger tells in the end is
decided by the last call that succeeded for each transaction, so calls for different transactions
can change places, and calls that are overtaken can be left out.
-/

set_option autoImplicit false

namespace ChainLedger

namespace Ledger

/-- A reconciliation as it is called, with the faults that are armed by then. -/
structure Call where
  job : Job
  now : Instant := ⟨0⟩
  faults : List ArmedFault := []

/-- Makes calls in order. Answers with the jobs of those that succeeded. -/
def replay : List Call → Store → List Job × Store
  | [], store => ([], store)
  | call :: calls, store =>
    match reconcile call.job.main call.job.transaction
        { store, faults := call.faults, now := call.now } with
    | (.ok (), after) =>
      let (done, last) := replay calls after.store
      (call.job :: done, last)
    | (.error _, after) => replay calls after.store

def lastFor (done : List Job) (hash : String) : Option Job :=
  (done.filter (·.transaction.hash = hash)).getLast?

/-- What the last of the jobs that were done for a hash posts. -/
def outcome (done : List Job) (hash : String) : List Posting :=
  match lastFor done hash with
  | some job => posted job.main job.transaction
  | none => []

theorem outcome_append (done : List Job) (job : Job) :
    outcome (done ++ [job]) =
      Function.update (outcome done) job.transaction.hash (posted job.main job.transaction) := by
  funext hash
  by_cases own : hash = job.transaction.hash
  · subst own
    simp [outcome, lastFor]
  · rw [Function.update_of_ne own]
    simp [outcome, lastFor, Ne.symm own]

end Ledger

open Ledger

/-- The books are balanced, and record what was done last for each hash. -/
structure Store.Follows (store : Store) (done : List Job) : Prop where
  balanced : store.Balanced
  records : store.Records (outcome done)

namespace Store.Follows

variable {store : Store} {done : List Job}

theorem reconcile {job : Job} {session after : Session} (follows : session.store.Follows done)
    (refusals : OnlyRefusals session.faults)
    (ran : Ledger.reconcile job.main job.transaction session = (.ok (), after)) :
    session.store.SameChain after.store ∧ after.store.Follows (done ++ [job]) := by
  have yields := reconcile_yields follows.balanced job.main job.transaction session.now
  obtain ⟨row, found, -, reconciled⟩ := yields.of_ok refusals ran
  refine ⟨reconciled.chain, reconciled.balanced, ?_⟩
  rw [outcome_append]
  exact reconciled.records follows.balanced found follows.records

theorem replay (calls : List Call) :
    ∀ {store : Store} {past : List Job}, store.Follows past →
      (∀ call ∈ calls, OnlyRefusals call.faults) →
        store.SameChain (Ledger.replay calls store).2 ∧
          (Ledger.replay calls store).2.Follows (past ++ (Ledger.replay calls store).1) := by
  -- what was done before the calls is kept apart, so that each success goes behind it
  induction calls with
  | nil =>
      intro store past follows _
      rw [Ledger.replay, List.append_nil]
      exact ⟨.refl store, follows⟩
  | cons call calls ih =>
      intro store past follows refusals
      have first := refusals call (by simp)
      have rest : ∀ other ∈ calls, OnlyRefusals other.faults :=
        fun other member => refusals other (by simp [member])
      rw [Ledger.replay]
      split
      next after ran =>
        obtain ⟨chain, next⟩ := follows.reconcile first ran
        obtain ⟨restChain, last⟩ := ih next rest
        rw [List.append_assoc, List.singleton_append] at last
        exact ⟨chain.trans restChain, last⟩
      next error after ran =>
        have same := Work.store_of_atomically_error _ _ ran
        change after.store = store at same
        rw [same]
        exact ih follows rest

end Store.Follows

/-! ## What a history leaves -/

structure Store.Unrecorded (store : Store) : Prop where
  assets : store.assets.rows = []
  descriptions : store.descriptions.rows = []
  ids : (store.transactions.rows.map (·.id)).Nodup
  hashes : (store.transactions.rows.map (·.entry.hash)).Nodup

theorem Store.Unrecorded.follows {store : Store} (unrecorded : store.Unrecorded) :
    store.Follows [] := by
  have balanced : store.Balanced := by
    refine ⟨.of_rows_eq_nil unrecorded.assets, ?_, .of_rows_eq_nil unrecorded.descriptions,
      unrecorded.ids, unrecorded.hashes, ?_, ?_⟩
    · simp [identifiers, unrecorded.assets]
    · simp [unrecorded.descriptions]
    · simp [unrecorded.assets]
  refine ⟨balanced, ?_⟩
  intro hash
  have none : ∀ id, store.descriptionsOf id = [] := by
    intro id
    simp [store.descriptionsOf_eq_filter balanced.descriptions, unrecorded.descriptions]
  rw [recordedFor]
  split
  · rw [none]
    rfl
  · rfl

/-- The ledger of a store tells what was done last for each transaction, and no more. -/
structure Store.Tells (store : Store) (done : List Job) : Prop where
  descriptions : ∀ row ∈ store.transactions.rows,
    (store.descriptionsOf row.id).map store.posting? =
      (outcome done row.entry.hash).map some
  supplies : ∀ asset ∈ store.assets.rows, asset.supply =
    .ofSigned ((store.transactions.rows.map fun row =>
      Posting.net (outcome done row.entry.hash) asset.entry.identifier).sum) 0

theorem Store.Follows.tells {store : Store} {done : List Job} (follows : store.Follows done) :
    store.Tells done := by
  refine ⟨?_, ?_⟩
  · exact fun row stored => follows.records.told follows.balanced stored
  · intro asset registered
    have found : store.assetByIdentifier? asset.entry.identifier = some asset :=
      find?_key_of_mem follows.balanced.identifiers registered
    rw [← supplyOf_of_records follows.balanced follows.records, supplyOf, found]

/-- Descriptions and supplies are determined by the last success of each transaction. -/
theorem Ledger.replay_tells {store : Store} (unrecorded : store.Unrecorded)
    (calls : List Call) (refusals : ∀ call ∈ calls, OnlyRefusals call.faults) :
    (replay calls store).2.transactions = store.transactions ∧
    (replay calls store).2.Tells (replay calls store).1 ∧
    ∀ others : List Call, (∀ call ∈ others, OnlyRefusals call.faults) →
      (∀ row ∈ store.transactions.rows,
        lastFor (replay calls store).1 row.entry.hash =
          lastFor (replay others store).1 row.entry.hash) →
      (∀ row ∈ store.transactions.rows,
        ((replay calls store).2.descriptionsOf row.id).map (replay calls store).2.posting? =
          ((replay others store).2.descriptionsOf row.id).map
            (replay others store).2.posting?) ∧
      ∀ identifier, (replay calls store).2.supplyOf identifier =
        (replay others store).2.supplyOf identifier := by
  obtain ⟨chain, follows⟩ := unrecorded.follows.replay calls refusals
  refine ⟨chain.transactions, follows.tells, ?_⟩
  intro others refusals' agree
  obtain ⟨chain', follows'⟩ := unrecorded.follows.replay others refusals'
  have same : ∀ row ∈ store.transactions.rows,
      outcome (replay calls store).1 row.entry.hash =
        outcome (replay others store).1 row.entry.hash := by
    intro row stored
    rw [outcome, outcome, agree row stored]
  refine ⟨?_, ?_⟩
  · intro row stored
    have told := follows.tells.descriptions row (chain.transactions ▸ stored)
    have told' := follows'.tells.descriptions row (chain'.transactions ▸ stored)
    rw [List.nil_append] at told told'
    rw [told, told', same row stored]
  · intro identifier
    rw [Store.supplyOf_of_records follows.balanced follows.records,
      Store.supplyOf_of_records follows'.balanced follows'.records, chain.transactions,
      chain'.transactions, List.nil_append, List.nil_append]
    congr 2
    apply List.map_congr_left
    intro row stored
    rw [same row stored]

namespace Ledger

def mintOf (hash identifier value : String) : Job where
  main := true
  transaction :=
    { hash, fee := 0, size := 1, mints := [{ id := identifier, name := "", owner := "", value }] }

def burnOf (hash identifier value : String) : Job where
  main := true
  transaction := { hash, fee := 0, size := 1, burns := [{ id := identifier, value }] }

def pairStore : Store :=
  let entries := [(mintOf "t" "A" "5").transaction, (burnOf "u" "A" "2").transaction]
  entries.foldl (fun store transaction =>
    (store.insertTransaction transaction.toEntry ⟨0⟩).2) {}

/-- The first call fails for its asset, two are overtaken later, and the last is refused. -/
def tangledCalls : List Call :=
  [{ job := burnOf "u" "A" "2" }, { job := mintOf "t" "A" "5" }, { job := burnOf "u" "A" "2" },
    { job := mintOf "t" "B" "1" }, { job := mintOf "t" "A" "7" },
    { job := mintOf "t" "C" "1", faults := [{ statement := .commit, mode := .refused }] }]

def straightCalls : List Call :=
  [{ job := mintOf "t" "A" "7" }, { job := burnOf "u" "A" "2" }]

theorem replay_tells_tangledCalls :
    (replay tangledCalls pairStore).2.Tells (replay tangledCalls pairStore).1 ∧
      (replay tangledCalls pairStore).1.length = 4 ∧
      (replay tangledCalls pairStore).2.supplyOf "A" = .ofNat 5 ∧
      (replay straightCalls pairStore).2.supplyOf "A" = .ofNat 5 := by
  have unrecorded : pairStore.Unrecorded := ⟨rfl, rfl, by decide +kernel, by decide +kernel⟩
  have tangled : ∀ call ∈ tangledCalls, OnlyRefusals call.faults := by
    simp [tangledCalls, OnlyRefusals]
  have straight : ∀ call ∈ straightCalls, OnlyRefusals call.faults := by
    simp [straightCalls, OnlyRefusals]
  obtain ⟨-, tells, determined⟩ := replay_tells unrecorded tangledCalls tangled
  have same := (determined straightCalls straight (by decide +kernel)).2 "A"
  have supply : (replay tangledCalls pairStore).2.supplyOf "A" = .ofNat 5 := by decide +kernel
  exact ⟨tells, by decide +kernel, supply, same.symm.trans supply⟩

end Ledger
end ChainLedger
