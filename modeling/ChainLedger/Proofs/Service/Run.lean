import ChainLedger.Proofs.Ledger.History
import ChainLedger.Proofs.Queue.Attempts
import ChainLedger.Proofs.Service.Reachable
import ChainLedger.Proofs.Success

/-!
# Runs of the service

Uploads store blocks and queue their transactions, and the worker takes them from the queue. A run
says which blocks have been reported and which jobs have been done. Jobs are done in the order of
the reports, and the chain of the store reflects the last report of each block.
-/

set_option autoImplicit false

namespace ChainLedger

def Report.Block.jobs (block : Report.Block) : List Job :=
  block.transactions.map (Job.mk block.operation.isMainChain)

def Report.lastOf (reported : List Report.Block) (hash : String) : Option Report.Block :=
  (reported.filter (·.hash = hash)).getLast?

def Report.Block.carries (block : Report.Block) (transactionHash : String) : Bool :=
  block.transactions.any (·.hash = transactionHash)

def Report.lastCarrying (reported : List Report.Block) (transactionHash : String) :
    Option Report.Block :=
  (reported.filter (·.carries transactionHash)).getLast?

namespace Service

/-- Reports and done jobs lead from an empty store and queue to a store and a queue. A block is
stored and its transactions are queued, and in between the worker may deal with jobs. Statements
may be refused on the way as long as each job succeeds within its attempts. -/
inductive Run : List Report.Block → List Job → Store → Queue → Prop
  | start {store : Store} : store.Empty → Run [] [] store {}
  | stored {reported : List Report.Block} {done : List Job} {session after : Session}
      {queue queue' : Queue} {block : Report.Block} {entry : Report.BlockEntry}
      {row : Stored.Block} :
      Run reported done session.store queue → OnlyRefusals session.faults →
      block.toEntry = .ok entry → storeBlock block entry session = (.ok row, after) →
      enqueueAll row.entry.main block.transactions queue = (.ok (), queue') →
      Run (reported ++ [block]) done after.store queue'
  | worked {reported : List Report.Block} {done : List Job} {session after : Session}
      {queue queue' : Queue} {job : Job} {settlement : Worker.Settlement} {maxRetries : UInt32} :
      Run reported done session.store queue → OnlyRefusals session.faults →
      queue.receive? = some (job, queue') →
      Worker.process maxRetries job session = some (settlement, after) →
      settlement.failure = none →
      Run reported (done ++ [job]) after.store
        { queue' with counters := settlement.mark queue'.counters }

/-! ## Uploads -/

theorem prepare_ok {request : Report.Upload} {prepared : List (Report.Block × Report.BlockEntry)}
    (ran : prepare request = .ok prepared) :
    List.Forall₂ (fun block pair => pair.1 = block ∧ block.toEntry = .ok pair.2) request.blocks
      prepared := by
  obtain ⟨-, -, ran⟩ := exists_ok_of_bind_ok ran
  refine (mapM_ok_iff.mp ran).imp fun block pair converted => ?_
  obtain ⟨entry, converts, done⟩ := exists_ok_of_bind_ok converted
  obtain rfl := Except.ok.inj done
  exact ⟨rfl, ok_of_mapError_ok converts⟩

theorem storeBlocks_cons_ok {pair : Report.Block × Report.BlockEntry}
    {rest : List (Report.Block × Report.BlockEntry)} {state after : State}
    {views : List BlockView} (ran : storeBlocks (pair :: rest) state = (.ok views, after)) :
    ∃ row queue session, storeBlock pair.1 pair.2 state.session = (.ok row, session) ∧
      enqueueAll row.entry.main pair.1.transactions state.queue = (.ok (), queue) ∧
      ∃ others, storeBlocks rest { session, queue } = (.ok others, after) ∧
        views = .of row :: others := by
  obtain ⟨block, entry⟩ := pair
  rw [storeBlocks] at ran
  split at ran
  next => cases ran
  next row session kept =>
    split at ran
    next => cases ran
    next queue sent =>
      split at ran
      next others last ended =>
        obtain ⟨same, rfl⟩ := Prod.mk.inj ran
        exact ⟨row, queue, session, kept, sent, others, ended, (Except.ok.inj same).symm⟩
      next => cases ran

theorem enqueueAll_ok {main : Bool} {transactions : List Report.Transaction} :
    ∀ {queue after : Queue}, enqueueAll main transactions queue = (.ok (), after) →
      after.jobs = queue.jobs ++ transactions.map (Job.mk main) := by
  induction transactions with
  | nil =>
      intro queue after ran
      obtain ⟨-, rfl⟩ := Prod.mk.inj ran
      simp
  | cons transaction rest ih =>
      intro queue after ran
      rw [enqueueAll] at ran
      split at ran
      next middle sent =>
        have jobs : middle.jobs = queue.jobs ++ [Job.mk main transaction] := by
          rw [Queue.enqueue, Queue.send] at sent
          split at sent
          · obtain rfl := Except.ok.inj sent
            rfl
          · cases sent
        rw [ih ran, jobs]
        simp
      next => cases ran

theorem toEntry_reads {block : Report.Block} {entry : Report.BlockEntry}
    (converted : block.toEntry = .ok entry) :
    ∃ difficulty work timestamp, entry =
      { hash := block.hash
        sequence := block.sequence
        previousBlockHash := block.previousBlockHash
        main := block.operation.isMainChain
        difficulty
        work
        timestamp
        graffiti := block.graffiti
        size := block.size
        transactionsCount := Int32.ofNat block.transactions.length } := by
  obtain ⟨difficulty, -, converted⟩ := exists_ok_of_bind_ok converted
  obtain ⟨work, -, converted⟩ := exists_ok_of_bind_ok converted
  split at converted
  next => cases converted
  next timestamp _ => exact ⟨difficulty, work, timestamp, (Except.ok.inj converted).symm⟩

theorem toEntry_ok {block : Report.Block} {entry : Report.BlockEntry}
    (converted : block.toEntry = .ok entry) :
    entry.hash = block.hash ∧ entry.main = block.operation.isMainChain := by
  obtain ⟨difficulty, work, timestamp, rfl⟩ := toEntry_reads converted
  exact ⟨rfl, rfl⟩

end Service

/-- A job without a failure has been reconciled in the end, on the store that it met. -/
theorem Worker.settle_ok {job : Job} (retries : Nat) :
    ∀ {session after : Session} {settlement : Settlement}, session.store.Balanced →
      OnlyRefusals session.faults → settle job retries session = (settlement, after) →
      settlement.failure = none →
      ∃ middle : Session, middle.store = session.store ∧ OnlyRefusals middle.faults ∧
        Ledger.reconcile job.main job.transaction middle = (.ok (), after) := by
  induction retries with
  | zero =>
      intro session after settlement balanced refusals ran succeeded
      rw [settle] at ran
      split at ran
      next last attempted =>
        obtain ⟨-, rfl⟩ := Prod.mk.inj ran
        exact ⟨session, rfl, refusals, attempted⟩
      next error last attempted =>
        obtain ⟨rfl, -⟩ := Prod.mk.inj ran
        cases succeeded
  | succ retries ih =>
      intro session after settlement balanced refusals ran succeeded
      rw [settle] at ran
      split at ran
      next last attempted =>
        obtain ⟨-, rfl⟩ := Prod.mk.inj ran
        exact ⟨session, rfl, refusals, attempted⟩
      next error middle attempted =>
        have same := Work.store_of_atomically_error _ _ attempted
        have yields := Ledger.reconcile_yields balanced job.main job.transaction session.now
        have ends := yields.ends refusals
        change Ledger.reconcile job.main job.transaction session = (.error error, middle)
          at attempted
        rw [attempted] at ends
        rw [← same] at balanced
        obtain ⟨rfl, rfl⟩ := Prod.mk.inj ran
        obtain ⟨reached, store, faults, done⟩ :=
          ih balanced ends.1.refusals (Prod.eta _).symm succeeded
        exact ⟨reached, store.trans same, faults, done⟩

theorem Worker.refusals_of_process {job : Job} {maxRetries : UInt32} {session after : Session}
    {settlement : Settlement} (balanced : session.store.Balanced)
    (refusals : OnlyRefusals session.faults)
    (ran : process maxRetries job session = some (settlement, after))
    (succeeded : settlement.failure = none) : OnlyRefusals after.faults := by
  obtain ⟨middle, same, refusals, reconciled⟩ :=
    settle_ok _ balanced refusals (process_eq_some_iff.mp ran).2 succeeded
  rw [← same] at balanced
  have yields := Ledger.reconcile_yields balanced job.main job.transaction middle.now
  have ends := yields.ends refusals
  rw [reconciled] at ends
  exact ends.1.refusals

end ChainLedger
