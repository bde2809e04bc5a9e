import ChainLedger.Proofs.Ledger.History
import ChainLedger.Proofs.Service.Showing

/-!
# The registry of assets

Uploads and reconciliations are called one after the other, and some of them fail. An asset is
registered by its first mint in a reconciliation that succeeds, and stays registered as it was
then, also when its creating transaction is taken off the main chain.
-/

set_option autoImplicit false

namespace ChainLedger

/-! ## First mints -/

def Job.Mints (job : Job) (identifier : String) : Prop :=
  job.main = true ∧ ∃ mint ∈ job.transaction.mints, mint.id = identifier

/-- Of all mints of its identifier in some jobs, a mint of a job is the first. -/
structure FirstMint (done : List Job) (job : Job) (mint : Report.Mint) : Prop where
  main : job.main = true
  amongJobs : ∃ earlier later, done = earlier ++ job :: later ∧
    ∀ other ∈ earlier, ¬other.Mints mint.id
  amongMints : ∃ before after, job.transaction.mints = before ++ mint :: after ∧
    ∀ other ∈ before, other.id ≠ mint.id

theorem Job.isSome_registers? {job : Job} {identifier : String} :
    (job.registers? identifier).isSome ↔ job.Mints identifier := by
  rw [registers?, Mints]
  split
  next main => simp [main]
  next main => simp [main]

theorem isSome_findSome?_registers? {done : List Job} {identifier : String} :
    (done.findSome? (·.registers? identifier)).isSome ↔ ∃ job ∈ done, job.Mints identifier := by
  simp only [List.findSome?_isSome_iff, Job.isSome_registers?]

/-- What jobs say about an asset is what their first mint of it does. -/
theorem exists_firstMint {done : List Job} {identifier hash : String} {entry : Stored.AssetEntry}
    (registers : done.findSome? (·.registers? identifier) = some (entry, hash)) :
    ∃ job mint, FirstMint done job mint ∧
      Ledger.mintEntry mint = entry ∧ job.transaction.hash = hash := by
  obtain ⟨earlier, job, later, split, ofJob, unminted⟩ := List.findSome?_eq_some_iff.mp registers
  obtain ⟨main, sameHash, mint, found, described⟩ := Job.registers?_eq_some.mp ofJob
  obtain ⟨own, before, after, mints, others⟩ := List.find?_eq_some_iff_append.mp found
  obtain rfl : mint.id = identifier := of_decide_eq_true own
  have first : FirstMint done job mint :=
    { main
      amongJobs := ⟨earlier, later, split, fun other member isMint => by
        have registered := Job.isSome_registers?.mpr isMint
        rw [unminted other member] at registered
        cases registered⟩
      amongMints := ⟨before, after, mints, fun other member => by simpa using others other member⟩ }
  exact ⟨job, mint, first, described, sameHash⟩

/-! ## Calls -/

namespace Service

inductive Call
  | upload (request : Report.Upload) (queue : Queue) (now : Instant) (faults : List ArmedFault)
  | reconcile (call : Ledger.Call)

namespace Call

def Refusing : Call → Prop
  | upload _ _ _ faults => OnlyRefusals faults
  | reconcile call => OnlyRefusals call.faults

/-- Makes a call. Answers with the reconciliations that have succeeded. -/
def run (store : Store) : Call → List Job × Store
  | upload request queue now faults =>
    ([], (Service.upload request { session := { store, faults, now }, queue }).2.session.store)
  | reconcile call => Ledger.replay [call] store

def runAll : List Call → Store → List Job × Store
  | [], store => ([], store)
  | call :: calls, store =>
    let (done, next) := call.run store
    let (others, last) := runAll calls next
    (done ++ others, last)

end Call
end Service

/-! ## Registering -/

namespace Store

/-- Each asset that jobs have minted is registered once, by its first mint among them. -/
structure Registers (store : Store) (done : List Job) : Prop where
  known : ∀ identifier, identifier ∈ store.identifiers ↔ ∃ job ∈ done, job.Mints identifier
  identifiers : store.identifiers.Nodup
  first : ∀ asset ∈ store.assets.rows, ∃ job mint, FirstMint done job mint ∧
    asset.entry = Ledger.mintEntry mint ∧ ∃ row ∈ store.transactions.rows,
      row.id = asset.createdTransactionId ∧ row.entry.hash = job.transaction.hash

structure Registering (past : List Stored.Asset) (done : List Job) (store : Store) : Prop where
  shown : ∃ content, store.Shows content ∧
    ∀ identifier, content.assets identifier = done.findSome? (·.registers? identifier)
  kept : past <+: store.registry

variable {store : Store} {past : List Stored.Asset} {done : List Job}

theorem Registering.registers (registering : store.Registering past done) :
    store.Registers done := by
  obtain ⟨content, shows, assets⟩ := registering.shown
  refine
    { known := fun identifier => ?_
      identifiers := shows.sound.balanced.identifiers
      first := fun asset stored => ?_ }
  · rw [← shows.isSome_assets, assets, isSome_findSome?_registers?]
  · have registered : asset.registration ∈ store.registry := List.mem_map_of_mem stored
    obtain ⟨row, isRow, creator⟩ := List.mem_map.mp (shows.creators _ registered)
    have key : (asset.createdTransactionId, row.entry.hash) ∈ store.transactionKeys :=
      List.mem_map.mpr ⟨row, isRow, Prod.ext creator rfl⟩
    have told : content.assets asset.entry.identifier = some (asset.entry, row.entry.hash) :=
      (shows.assets _ _ _).mpr ⟨_, registered, rfl, rfl, key⟩
    rw [assets] at told
    obtain ⟨job, mint, first, described, sameHash⟩ := exists_firstMint told
    exact ⟨job, mint, first, described.symm, row, isRow, creator, sameHash.symm⟩

theorem Empty.registering (empty : store.Empty) : store.Registering [] [] :=
  ⟨⟨_, empty.shows, fun _ => rfl⟩, List.nil_prefix⟩

theorem Registering.storeBlock {session : Session}
    (registering : session.store.Registering past done) (refusals : OnlyRefusals session.faults)
    (block : Report.Block) (entry : Report.BlockEntry) :
    (Service.storeBlock block entry session).2.store.Registering past done ∧
      OnlyRefusals (Service.storeBlock block entry session).2.faults := by
  obtain ⟨content, shows, assets⟩ := registering.shown
  have yields := (Service.storeBlock_shows shows (block, entry) session.now).and
    (Service.storeBlock_yields shows.sound.chained block entry session.now)
  refine Work.Yields.keeps yields refusals registering ?_
  rintro row after ⟨shown, -, stored⟩
  refine ⟨⟨_, shown, assets⟩, ?_⟩
  rw [registry, stored.grown.assets]
  exact registering.kept

theorem Registering.reconcile (registering : store.Registering past done) {call : Ledger.Call}
    (refusals : OnlyRefusals call.faults) :
    (Ledger.replay [call] store).2.Registering past
      (done ++ (Ledger.replay [call] store).1) := by
  obtain ⟨content, shows, assets⟩ := registering.shown
  rw [Ledger.replay]
  split
  next after ran =>
    have yields := Ledger.reconcile_yields shows.sound.balanced call.job.main
      call.job.transaction call.now
    obtain ⟨row, found, -, reconciled⟩ := yields.of_ok refusals ran
    refine ⟨⟨_, shows.reconciled found reconciled, fun identifier => ?_⟩, ?_⟩
    · change (content.assets identifier).or _ = (done ++ [call.job]).findSome? _
      rw [assets, List.findSome?_append]
    · obtain ⟨added, registry, -⟩ := reconciled.registered
      exact registering.kept.trans ⟨added, registry.symm⟩
  next error after ran =>
    have same := Work.store_of_atomically_error _ _ ran
    change after.store = store at same
    rw [Ledger.replay, List.append_nil, same]
    exact registering

theorem Registering.run (registering : store.Registering past done) {call : Service.Call}
    (refusing : call.Refusing) :
    (call.run store).2.Registering past (done ++ (call.run store).1) := by
  cases call with
  | reconcile call => exact registering.reconcile refusing
  | upload request queue now faults =>
      rw [Service.Call.run, List.append_nil, Service.upload]
      split
      next => exact registering
      next prepared _ =>
        exact keeps_storeBlocks (fun block entry _ kept refusals =>
          kept.storeBlock refusals block entry) prepared registering refusing

theorem Registering.runAll (calls : List Service.Call) :
    ∀ {store : Store} {done : List Job}, store.Registering past done →
      (∀ call ∈ calls, call.Refusing) →
        (Service.Call.runAll calls store).2.Registering past
          (done ++ (Service.Call.runAll calls store).1) := by
  induction calls with
  | nil =>
      intro store done registering _
      rw [Service.Call.runAll, List.append_nil]
      exact registering
  | cons call calls ih =>
      intro store done registering refusing
      obtain ⟨first, rest⟩ := List.forall_mem_cons.mp refusing
      have last := ih (registering.run first) rest
      rw [List.append_assoc] at last
      exact last

end Store

namespace Service.Call

/-- After any calls from an empty store, assets are registered by their first mint in a
reconciliation that has succeeded. Whatever is called from then on, each stays in its row, with the
id, the description, the creating transaction and the time that it was registered with. -/
theorem first_mints_register_for_good {store : Store} (empty : store.Empty)
    {earlier later : List Call} (refusing : ∀ call ∈ earlier ++ later, call.Refusing) :
    let (done, before) := runAll earlier store
    let after := (runAll later before).2
    before.Registers done ∧ before.registry <+: after.registry := by
  obtain ⟨early, late⟩ := List.forall_mem_append.mp refusing
  have before := empty.registering.runAll earlier early
  have onwards : (runAll earlier store).2.Registering (runAll earlier store).2.registry _ :=
    ⟨before.shown, List.prefix_refl _⟩
  exact ⟨before.registers, (onwards.runAll later late).kept⟩

/-- The mints of one transaction: one that is invalid, one above the ceiling and one that counts. -/
def contenders : List Report.Mint :=
  [{ id := "A", name := "first", owner := "o", value := "" },
    { id := "A", name := "second", owner := "o", value := "100000000000000001" },
    { id := "A", name := "third", owner := "o", value := "5" }]

def minting (main : Bool) (mints : List Report.Mint) : Call :=
  .reconcile { job := { main, transaction := { Store.sampleTransaction with mints, burns := [] } } }

/-- The reconciliation of all mints fails, so the second of them is the first that registers the
asset. It stays when the transaction is taken off the main chain. -/
theorem first_mints_register_contender_for_good :
    let earlier := [upload { blocks := [Store.sampleBlock] } {} ⟨0⟩ [], minting true contenders,
      minting true (contenders.drop 1)]
    let later := [minting false []]
    let (done, before) := runAll earlier {}
    let after := (runAll later before).2
    (∀ call ∈ earlier ++ later, call.Refusing) ∧ done.length = 1 ∧
      before.registry.map (·.entry.name) = ["second"] ∧
        before.descriptions.rows.map (·.value) = [.ofNat 5] ∧ after.descriptions.rows = [] ∧
          before.Registers done ∧ before.registry <+: after.registry := by
  intro earlier later
  have refusing : ∀ call ∈ earlier ++ later, call.Refusing := by
    simp [earlier, later, minting, Refusing, OnlyRefusals]
  have empty : Store.Empty {} := ⟨rfl, rfl, rfl, rfl, rfl⟩
  exact ⟨refusing, by decide +kernel, by decide +kernel, by decide +kernel, by decide +kernel,
    first_mints_register_for_good empty refusing⟩

end Service.Call
end ChainLedger
