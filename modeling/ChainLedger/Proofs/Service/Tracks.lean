import ChainLedger.Proofs.Service.Run

/-!
# What a run leaves

The tables of the chain reflect the reports of a run: each block as it was reported last, and each
transaction that any of them carried. The ledger records what was done last for each transaction,
and done and waiting jobs together are those that the reports have sent.
-/

set_option autoImplicit false

namespace ChainLedger

theorem Report.lastOf_append (reported : List Report.Block) (block : Report.Block)
    (hash : String) :
    lastOf (reported ++ [block]) hash =
      if block.hash = hash then some block else lastOf reported hash := by
  by_cases own : block.hash = hash <;> simp [lastOf, own]

namespace Store

/-- The chain of a store is what has been reported. -/
structure Reflects (store : Store) (reported : List Report.Block) : Prop where
  chained : store.Chained
  rows : ∀ row ∈ store.blocks.rows, ∃ block,
    Report.lastOf reported row.entry.hash = some block ∧ block.toEntry = .ok row.entry
  blocks : ∀ hash, hash ∈ store.blocks.rows.map (·.entry.hash) ↔
    ∃ block ∈ reported, block.hash = hash
  transactions : ∀ hash, hash ∈ store.transactions.rows.map (·.entry.hash) ↔
    ∃ block ∈ reported, hash ∈ block.transactions.map (·.hash)
  holds : ∀ blockHash hash, store.Holds blockHash hash ↔
    ∃ block ∈ reported, block.hash = blockHash ∧ hash ∈ block.transactions.map (·.hash)

theorem Empty.reflects {store : Store} (empty : store.Empty) : store.Reflects [] := by
  refine ⟨empty.sound.chained, ?_, ?_, ?_, ?_⟩
  · simp [empty.blocks]
  · simp [empty.blocks]
  · simp [empty.transactions]
  · simp [Holds, Joins, empty.links]

namespace Reflects

variable {before after : Store} {reported : List Report.Block}

theorem of_sameChain (reflects : before.Reflects reported) (same : SameChain before after) :
    after.Reflects reported := by
  refine ⟨reflects.chained.of_sameChain same, ?_, ?_, ?_, ?_⟩
  · rw [same.blocks]
    exact reflects.rows
  · rw [same.blocks]
    exact reflects.blocks
  · rw [same.transactions]
    exact reflects.transactions
  · simp only [Holds, Joins, blockKeys, transactionKeys, same.blocks, same.transactions,
      same.links]
    exact reflects.holds

theorem kept (reflects : before.Reflects reported) {block : Report.Block}
    {row : Stored.Block} (entry : block.toEntry = .ok row.entry)
    (kept : Service.Kept row block.transactions before after) :
    after.Reflects (reported ++ [block]) := by
  have hash := (Service.toEntry_ok entry).1
  refine ⟨kept.chained, ?_, ?_, ?_, ?_⟩
  · intro other stored
    rw [Report.lastOf_append]
    rcases (kept.put.rows other).mp stored with rfl | ⟨old, otherHash⟩
    · exact ⟨block, if_pos hash.symm, entry⟩
    · rw [if_neg (fun same => otherHash (same.symm.trans hash.symm))]
      exact reflects.rows other old
  · intro wanted
    rw [kept.put.mem_keys, reflects.blocks, hash]
    simp only [List.mem_append, List.mem_singleton, or_and_right, exists_or, exists_eq_left]
    simp only [eq_comm]
  · intro wanted
    rw [kept.hashes, reflects.transactions]
    simp only [List.mem_append, List.mem_singleton, or_and_right, exists_or, exists_eq_left]
  · intro someBlock wanted
    rw [kept.holds, reflects.holds, hash]
    simp only [List.mem_append, List.mem_singleton, or_and_right, exists_or, exists_eq_left]
    simp only [eq_comm]

end Reflects

/-- Storing blocks leaves the records alone: new transactions have none. -/
theorem Grown.records {before after : Store} (grown : Grown before after)
    (chained : after.Chained) (balanced : before.Balanced)
    {ledger : String → List Ledger.Posting} (records : before.Records ledger) :
    after.Records ledger := by
  intro hash
  rw [← records hash]
  have told : after.posting? = before.posting? := by
    funext row
    simp only [posting?, identifierOf?, assetById?, grown.assets]
  have own : ∀ id, after.descriptionsOf id = before.descriptionsOf id := by
    intro id
    rw [descriptionsOf, descriptionsOf, grown.descriptions]
  cases found : before.transactionByHash? hash with
  | some row =>
      obtain ⟨stored, rfl⟩ := (find?_key_eq_some balanced.hashes).mp found
      obtain ⟨other, isOther, sameId, sameHash⟩ := grown.transaction_of_mem stored
      rw [recordedFor_of_mem balanced stored, ← sameHash,
        recordedFor_of_mem (grown.balanced chained balanced) isOther, told, own, sameId]
  | none =>
      have unknown := find?_key_eq_none.mp found
      rw [recordedFor, recordedFor, found]
      cases isNew : after.transactionByHash? hash with
      | none => rfl
      | some row =>
          obtain ⟨stored, rfl⟩ := (find?_key_eq_some chained.transactions.unique).mp isNew
          have none : before.descriptionsOf row.id = [] := by
            rw [before.descriptionsOf_eq_filter balanced.descriptions, List.filter_eq_nil_iff]
            intro description member about
            obtain ⟨old, isOld, same⟩ :=
              List.mem_map.mp (balanced.described description member).transaction
            obtain ⟨other, isOther, sameId, sameHash⟩ := grown.transaction_of_mem isOld
            have isRow : other.id = row.id :=
              sameId.trans (same.trans (of_decide_eq_true about))
            rw [← chained.transactions.eq_of_id isOther stored isRow, sameHash] at unknown
            exact unknown (List.mem_map_of_mem isOld)
          change (after.descriptionsOf row.id).map after.posting? = []
          rw [own, none, List.map_nil]

end Store

namespace Service

/-- The invariant of runs. -/
structure Tracks (reported : List Report.Block) (done : List Job) (store : Store)
    (queue : Queue) : Prop where
  reflects : store.Reflects reported
  follows : store.Follows done
  ordered : done ++ queue.jobs = reported.flatMap (·.jobs)

variable {reported : List Report.Block} {done : List Job} {store : Store} {queue : Queue}

namespace Tracks

theorem start (empty : store.Empty) : Tracks [] [] store {} := by
  refine ⟨empty.reflects, ⟨empty.sound.balanced, ?_⟩, rfl⟩
  intro hash
  simp [Store.recordedFor, Store.transactionByHash?, empty.transactions, Ledger.outcome,
    Ledger.lastFor]

theorem stored {session after : Session} {queue' : Queue} {block : Report.Block}
    {entry : Report.BlockEntry} {row : Stored.Block}
    (tracks : Tracks reported done session.store queue) (refusals : OnlyRefusals session.faults)
    (converted : block.toEntry = .ok entry)
    (ran : storeBlock block entry session = (.ok row, after))
    (sent : enqueueAll row.entry.main block.transactions queue = (.ok (), queue')) :
    Tracks (reported ++ [block]) done after.store queue' := by
  have yields := storeBlock_yields tracks.reflects.chained block entry session.now
  obtain ⟨rfl, kept⟩ := yields.of_ok refusals ran
  have balanced := tracks.follows.balanced
  refine ⟨tracks.reflects.kept converted kept, ⟨?_, ?_⟩, ?_⟩
  · exact kept.grown.balanced kept.chained balanced
  · exact kept.grown.records kept.chained balanced tracks.follows.records
  · rw [enqueueAll_ok sent, (toEntry_ok converted).2, ← List.append_assoc, tracks.ordered,
      List.flatMap_append, List.flatMap_singleton]
    rfl

theorem worked {session after : Session} {queue' : Queue} {job : Job}
    {settlement : Worker.Settlement} {maxRetries : UInt32}
    (tracks : Tracks reported done session.store queue) (refusals : OnlyRefusals session.faults)
    (received : queue.receive? = some (job, queue'))
    (ran : Worker.process maxRetries job session = some (settlement, after))
    (succeeded : settlement.failure = none) :
    Tracks reported (done ++ [job]) after.store
      { queue' with counters := settlement.mark queue'.counters } := by
  obtain ⟨middle, same, refusals, reconciled⟩ :=
    Worker.settle_ok _ tracks.follows.balanced refusals (Worker.process_eq_some_iff.mp ran).2
      succeeded
  have follows := tracks.follows
  rw [← same] at follows
  obtain ⟨chain, follows⟩ := follows.reconcile refusals reconciled
  rw [same] at chain
  refine ⟨tracks.reflects.of_sameChain chain, follows, ?_⟩
  rw [← tracks.ordered]
  obtain ⟨jobs, isOpen, counters⟩ := queue
  cases jobs with
  | nil => cases received
  | cons next rest =>
      obtain ⟨rfl, rfl⟩ := Prod.mk.inj (Option.some.inj received)
      exact List.append_assoc done [next] rest

end Tracks

theorem Run.tracks (run : Run reported done store queue) : Tracks reported done store queue := by
  induction run with
  | start empty => exact .start empty
  | stored _ refusals converted ran sent ih => exact ih.stored refusals converted ran sent
  | worked _ refusals received ran succeeded ih =>
      exact ih.worked refusals received ran succeeded

/-! ## Uploads -/

theorem Run.storeBlocks {blocks : List Report.Block}
    {prepared : List (Report.Block × Report.BlockEntry)}
    (pairs : List.Forall₂ (fun block pair => pair.1 = block ∧ block.toEntry = .ok pair.2) blocks
      prepared) :
    ∀ {reported : List Report.Block} {state after : State} {views : List BlockView},
      Run reported done state.session.store state.queue → OnlyRefusals state.session.faults →
      Service.storeBlocks prepared state = (.ok views, after) →
      Run (reported ++ blocks) done after.session.store after.queue := by
  induction pairs with
  | nil =>
      intro reported state after views run _ ran
      obtain ⟨-, rfl⟩ := Prod.mk.inj ran
      rw [List.append_nil]
      exact run
  | @cons block pair blocks rest head tail ih =>
      intro reported state after views run refusals ran
      obtain ⟨rfl, converted⟩ := head
      obtain ⟨row, queue, session, kept, sent, others, ended, -⟩ := storeBlocks_cons_ok ran
      have sound : state.session.store.Sound :=
        ⟨run.tracks.reflects.chained, run.tracks.follows.balanced⟩
      have settled := (sound.storeBlock refusals pair.1 pair.2).2
      rw [kept] at settled
      have next : Run (reported ++ [pair.1]) done session.store queue :=
        run.stored refusals converted kept sent
      have last := @ih _ { session, queue } _ _ next settled ended
      rw [List.append_assoc, List.singleton_append] at last
      exact last

theorem Run.uploaded {request : Report.Upload} {state after : State} {views : List BlockView}
    (run : Run reported done state.session.store state.queue)
    (refusals : OnlyRefusals state.session.faults)
    (ran : upload request state = (.ok views, after)) :
    Run (reported ++ request.blocks) done after.session.store after.queue := by
  rw [upload] at ran
  cases ready : prepare request with
  | error error =>
      rw [ready] at ran
      cases ran
  | ok prepared =>
      rw [ready] at ran
      exact run.storeBlocks (prepare_ok ready) refusals ran

/-! ## Draining -/

theorem Run.processed {maxRetries : UInt32} (below : maxRetries.toNat + 1 < UInt32.size)
    (jobs : List Job) :
    ∀ {done : List Job} {queue drained : Queue} {session last : Session}
      {settlements : List Worker.Settlement},
      queue.jobs = jobs → Run reported done session.store queue → OnlyRefusals session.faults →
      Worker.processAll maxRetries jobs queue session = (settlements, drained, last) →
      (∀ settlement ∈ settlements, settlement.failure = none) →
      Run reported (done ++ jobs) last.store drained ∧ drained.jobs = [] := by
  induction jobs with
  | nil =>
      intro done queue drained session last settlements waiting run _ ran _
      obtain ⟨-, rest⟩ := Prod.mk.inj ran
      obtain ⟨rfl, rfl⟩ := Prod.mk.inj rest
      rw [List.append_nil]
      exact ⟨run, waiting⟩
  | cons job jobs ih =>
      intro done queue drained session last settlements waiting run refusals ran succeeded
      rcases settles : Worker.settle job maxRetries.toNat session with ⟨settlement, after⟩
      have processes := Worker.process_eq_some_iff.mpr ⟨below, settles⟩
      rw [Worker.processAll, processes] at ran
      obtain ⟨rfl, rest⟩ := Prod.mk.inj ran
      have firstSucceeded := succeeded settlement (by simp)
      have received : queue.receive? = some (job, { queue with jobs }) := by
        rw [Queue.receive?, waiting]
      have next := run.worked refusals received processes firstSucceeded
      have settled := Worker.refusals_of_process run.tracks.follows.balanced refusals processes
        firstSucceeded
      have others := ih rfl next settled (congrArg (Prod.mk _) rest)
        fun other member => succeeded other (by simp [member])
      rw [List.append_assoc, List.singleton_append] at others
      exact others

theorem Run.drained {maxRetries : UInt32} (below : maxRetries.toNat + 1 < UInt32.size)
    {queue' : Queue} {session last : Session} {settlements : List Worker.Settlement}
    (run : Run reported done session.store queue) (refusals : OnlyRefusals session.faults)
    (ran : Worker.drain maxRetries queue session = (settlements, queue', last))
    (succeeded : ∀ settlement ∈ settlements, settlement.failure = none) :
    Run reported (done ++ queue.jobs) last.store queue' ∧ queue'.jobs = [] :=
  run.processed below queue.jobs rfl refusals ran succeeded

end Service
end ChainLedger
