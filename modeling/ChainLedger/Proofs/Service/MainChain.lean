import ChainLedger.Proofs.Service.Tracks

/-!
# The ledger and the main chain

Each report of a block sends its transactions to the ledger with the standing of that block, and
the last report that carries a transaction decides. What is recorded for a transaction is
therefore right as long as it is in no block of the main chain, or the last report that carries it
has connected a block. A later report of another block with the same transaction, which is a fork
or has been disconnected, takes its records away while it still is on the main chain.
-/

set_option autoImplicit false

namespace ChainLedger

theorem eq_of_find? {Item : Type} {selects selects' : Item → Bool} {items : List Item}
    {item item' : Item} (found : items.find? selects = some item)
    (found' : items.find? selects' = some item') (also : selects' item = true)
    (also' : selects item' = true) : item = item' := by
  induction items with
  | nil => cases found
  | cons next items ih =>
      by_cases selected : selects next
      · rw [List.find?_cons_of_pos selected] at found
        obtain rfl := Option.some.inj found
        rw [List.find?_cons_of_pos also] at found'
        exact Option.some.inj found'
      · rw [List.find?_cons_of_neg selected] at found
        by_cases selected' : selects' next
        · rw [List.find?_cons_of_pos selected'] at found'
          obtain rfl := Option.some.inj found'
          exact absurd also' selected
        · rw [List.find?_cons_of_neg selected'] at found'
          exact ih found found'

theorem getLast?_filter_of_getLast? {Item : Type} {selects : Item → Bool} {items : List Item}
    {last : Item} (isLast : items.getLast? = some last) (selected : selects last = true) :
    (items.filter selects).getLast? = some last := by
  obtain ⟨earlier, rfl⟩ := List.getLast?_eq_some_iff.mp isLast
  rw [List.filter_append, List.filter_singleton, selected]
  exact List.getLast?_concat

namespace Report

variable {reported : List Block} {hash : String}

theorem isMainChain_iff {operation : Operation} :
    operation.isMainChain = true ↔ operation = .connected := by
  cases operation <;> decide

theorem carries_iff {block : Block} :
    block.carries hash = true ↔ hash ∈ block.transactions.map (·.hash) := by
  simp [Block.carries]

theorem exists_lastCarrying {block : Block} (member : block ∈ reported)
    (carries : block.carries hash = true) : ∃ last, lastCarrying reported hash = some last := by
  apply Option.ne_none_iff_exists'.mp
  rw [lastCarrying, ne_eq, List.getLast?_eq_none_iff, List.filter_eq_nil_iff]
  exact fun none => none block member carries

theorem lastCarrying_append (reported : List Block) (block : Block) (hash : String) :
    lastCarrying (reported ++ [block]) hash =
      if block.carries hash then some block else lastCarrying reported hash := by
  by_cases carries : block.carries hash <;> simp [lastCarrying, carries]

theorem mem_of_lastCarrying {last : Block} (isLast : lastCarrying reported hash = some last) :
    last ∈ reported ∧ last.carries hash = true :=
  List.mem_filter.mp (List.mem_of_getLast? isLast)

theorem lastFor_jobs {last : Block} (isLast : lastCarrying reported hash = some last) :
    ∃ transaction ∈ last.transactions, transaction.hash = hash ∧
      Ledger.lastFor (reported.flatMap (·.jobs)) hash =
        some { main := last.operation.isMainChain, transaction } := by
  induction reported using List.reverseRecOn with
  | nil => cases isLast
  | append_singleton reported block ih =>
      rw [List.flatMap_append, List.flatMap_singleton, Ledger.lastFor, List.filter_append,
        List.getLast?_append]
      rw [lastCarrying_append] at isLast
      by_cases carries : block.carries hash
      · rw [if_pos carries] at isLast
        obtain rfl := Option.some.inj isLast
        obtain ⟨transaction, member, own⟩ := List.mem_map.mp (carries_iff.mp carries)
        have sent : Job.mk block.operation.isMainChain transaction ∈
            block.jobs.filter (·.transaction.hash = hash) := by
          simp [Block.jobs, member, own]
        obtain ⟨job, isJob⟩ := Option.ne_none_iff_exists'.mp
          (mt List.getLast?_eq_none_iff.mp (List.ne_nil_of_mem sent))
        obtain ⟨ofBlock, ofHash⟩ := List.mem_filter.mp (List.mem_of_getLast? isJob)
        obtain ⟨other, isOther, rfl⟩ := List.mem_map.mp ofBlock
        refine ⟨other, isOther, of_decide_eq_true ofHash, ?_⟩
        rw [isJob, Option.some_or]
      · have none : block.jobs.filter (·.transaction.hash = hash) = [] := by
          apply List.filter_eq_nil_iff.mpr
          intro job member
          obtain ⟨transaction, isTransaction, rfl⟩ := List.mem_map.mp member
          intro own
          apply carries
          exact carries_iff.mpr (List.mem_map.mpr ⟨transaction, isTransaction,
            of_decide_eq_true own⟩)
        rw [none, List.getLast?_nil, Option.none_or]
        rw [if_neg carries] at isLast
        exact ih isLast

/-- Blocks are always reported with the same transactions, and transactions with the same mints
and burns. -/
structure Consistent (reported : List Block) : Prop where
  blocks : ∀ block ∈ reported, ∀ other ∈ reported, block.hash = other.hash →
    block.transactions = other.transactions
  transactions : ∀ block ∈ reported, ∀ other ∈ reported,
    ∀ transaction ∈ block.transactions, ∀ same ∈ other.transactions,
      transaction.hash = same.hash →
        transaction.mints = same.mints ∧ transaction.burns = same.burns

theorem Consistent.lastOf_lastCarrying (consistent : Consistent reported) {last : Block}
    (isLast : lastCarrying reported hash = some last) : lastOf reported last.hash = some last := by
  obtain ⟨member, carries⟩ := mem_of_lastCarrying isLast
  have own : last ∈ reported.filter (·.hash = last.hash) :=
    List.mem_filter.mpr ⟨member, decide_eq_true rfl⟩
  obtain ⟨newest, isNewest⟩ := Option.ne_none_iff_exists'.mp
    (mt List.getLast?_eq_none_iff.mp (List.ne_nil_of_mem own))
  obtain ⟨isReported, sameHash⟩ := List.mem_filter.mp (List.mem_of_getLast? isNewest)
  have also : newest.carries hash = true := by
    rw [carries_iff, consistent.blocks newest isReported last member (of_decide_eq_true sameHash),
      ← carries_iff]
    exact carries
  have same : last = newest := by
    rw [List.getLast?_filter] at isNewest
    rw [lastCarrying, List.getLast?_filter] at isLast
    exact eq_of_find? isLast isNewest (decide_eq_true rfl) also
  rw [lastOf, isNewest, same]

end Report

/-! ## Standing on the main chain -/

/-- A transaction stands in a block of the main chain. -/
def Store.OnMainChain (store : Store) (row : Stored.Transaction) : Prop :=
  ∃ block ∈ store.blocks.rows, block.entry.main = true ∧
    ∃ link ∈ store.links, link.blockId = block.id ∧ link.transactionId = row.id

variable {reported : List Report.Block} {done : List Job} {store : Store} {queue : Queue}

theorem Store.Reflects.onMainChain (reflects : store.Reflects reported)
    (consistent : Report.Consistent reported) {row : Stored.Transaction}
    (stored : row ∈ store.transactions.rows) {last : Report.Block}
    (isLast : Report.lastCarrying reported row.entry.hash = some last)
    (connected : last.operation = .connected) : store.OnMainChain row := by
  obtain ⟨isReported, carries⟩ := Report.mem_of_lastCarrying isLast
  have held : store.Holds last.hash row.entry.hash :=
    (reflects.holds last.hash row.entry.hash).mpr
      ⟨last, isReported, rfl, Report.carries_iff.mp carries⟩
  obtain ⟨blockId, transactionId, isBlock, isTransaction, joins⟩ := held
  have isRow := store.transactions.mem_keys_of_mem (·.id) (·.entry.hash) stored
  obtain rfl := reflects.chained.transactions.id_eq_of_key isTransaction isRow
  obtain ⟨block, isStored, same⟩ := List.mem_map.mp isBlock
  obtain ⟨rfl, sameHash⟩ := Prod.mk.inj same
  obtain ⟨report, isNewest, converted⟩ := reflects.rows block isStored
  change block.entry.hash = last.hash at sameHash
  rw [sameHash, consistent.lastOf_lastCarrying isLast] at isNewest
  obtain rfl := Option.some.inj isNewest
  refine ⟨block, isStored, ?_, joins⟩
  exact (Service.toEntry_ok converted).2.trans (Report.isMainChain_iff.mpr connected)

namespace Service

/-- Once the queue is drained, a transaction that is not on the main chain has no descriptions. A
transaction has those of its mints and burns exactly if the last report that carries it has
connected a block, or there is nothing to describe. -/
theorem recorded_iff_last_connected (run : Run reported done store queue)
    (drained : queue.jobs = []) (consistent : Report.Consistent reported)
    {row : Stored.Transaction} (stored : row ∈ store.transactions.rows) :
    ∃ last, Report.lastCarrying reported row.entry.hash = some last ∧
      ∀ block ∈ reported, ∀ transaction ∈ block.transactions,
        transaction.hash = row.entry.hash →
        (¬store.OnMainChain row → store.descriptionsOf row.id = []) ∧
        ((store.descriptionsOf row.id).map store.posting? =
            (Ledger.postings transaction).map some ↔
          last.operation = .connected ∨ Ledger.postings transaction = []) := by
  obtain ⟨reflects, follows, ordered⟩ := run.tracks
  rw [drained, List.append_nil] at ordered
  obtain ⟨carrier, isReported, carried⟩ :=
    (reflects.transactions row.entry.hash).mp (List.mem_map_of_mem stored)
  obtain ⟨last, isLast⟩ :=
    Report.exists_lastCarrying isReported (Report.carries_iff.mpr carried)
  obtain ⟨sent, isSent, sentHash, lastJob⟩ := Report.lastFor_jobs isLast
  refine ⟨last, isLast, ?_⟩
  intro block isBlock transaction isTransaction own
  have same : Ledger.postings sent = Ledger.postings transaction := by
    obtain ⟨mints, burns⟩ := consistent.transactions last (Report.mem_of_lastCarrying isLast).1
      block isBlock sent isSent transaction isTransaction (sentHash.trans own.symm)
    rw [Ledger.postings, Ledger.postings, mints, burns]
  have told : (store.descriptionsOf row.id).map store.posting? =
      (if last.operation.isMainChain then Ledger.postings transaction else []).map some := by
    rw [follows.tells.descriptions row stored, Ledger.outcome, ordered, lastJob, ← same]
    rfl
  refine ⟨?_, ?_⟩
  · intro off
    have unconnected : ¬last.operation.isMainChain = true := fun main =>
      off (reflects.onMainChain consistent stored isLast (Report.isMainChain_iff.mp main))
    rw [if_neg unconnected] at told
    exact List.map_eq_nil_iff.mp told
  · rw [told, ← Report.isMainChain_iff]
    by_cases main : last.operation.isMainChain = true
    · simp [main]
    · rw [if_neg main, List.map_nil, eq_comm, List.map_eq_nil_iff]
      simp [main]

/-- A block of the main chain, and a fork with the same transaction. -/
def forkedReports : List Report.Block :=
  [Store.sampleBlock, { Store.sampleBlock with hash := "c", operation := .fork }]

def forkedUpload : State := (upload { blocks := forkedReports } {}).2

def forkedStore : Store := (Worker.drain 0 forkedUpload.queue forkedUpload.session).2.2.store

theorem run_forkedUpload :
    Run forkedReports [] forkedUpload.session.store forkedUpload.queue := by
  have answered : (upload { blocks := forkedReports } {}).1.toBool = true := by decide +kernel
  have start : Run [] [] ({} : State).session.store ({} : State).queue :=
    .start ⟨rfl, rfl, rfl, rfl, rfl⟩
  cases result : (upload { blocks := forkedReports } {}).1 with
  | error error =>
      rw [result] at answered
      cases answered
  | ok views =>
      have ran : upload { blocks := forkedReports } {} = (.ok views, forkedUpload) := by
        rw [forkedUpload, ← result]
      have uploaded := start.uploaded OnlyRefusals.nil ran
      rw [List.nil_append] at uploaded
      exact uploaded

theorem run_forkedStore : ∃ done queue, queue.jobs = [] ∧
    Run forkedReports done forkedStore queue := by
  have calm : OnlyRefusals forkedUpload.session.faults := by
    have none : forkedUpload.session.faults = [] := by decide +kernel
    rw [none]
    exact OnlyRefusals.nil
  have failures : (Worker.drain 0 forkedUpload.queue forkedUpload.session).1.map (·.failure) =
      [none, none] := by
    cbv
  rw [forkedStore]
  rcases ran : Worker.drain 0 forkedUpload.queue forkedUpload.session with
    ⟨settlements, queue, last⟩
  rw [ran] at failures
  have succeeded : ∀ settlement ∈ settlements, settlement.failure = none := by
    intro settlement member
    have failure : settlement.failure ∈ [none, none] := by
      rw [← failures]
      exact List.mem_map_of_mem member
    simpa using failure
  obtain ⟨run, drained⟩ := run_forkedUpload.drained (by decide) calm ran succeeded
  exact ⟨_, queue, drained, run⟩

theorem onMainChain_forkedStore : ∃ row ∈ forkedStore.transactions.rows,
    row.entry.hash = "t" ∧ forkedStore.OnMainChain row := by
  have rows : forkedStore.transactions.rows.map (fun row => (row.id, row.entry.hash)) =
      [(1, "t")] := by
    cbv
  have blocks : forkedStore.blocks.rows.map (fun row => (row.id, row.entry.main)) =
      [(1, true), (2, false)] := by
    cbv
  have links : forkedStore.links = [⟨1, 1, 0⟩, ⟨2, 1, 0⟩] := by cbv
  obtain ⟨row, others, isRows, same, -⟩ := List.map_eq_cons_iff.mp rows
  obtain ⟨block, otherBlocks, isBlocks, sameBlock, -⟩ := List.map_eq_cons_iff.mp blocks
  obtain ⟨rowId, rowHash⟩ := Prod.mk.inj same
  obtain ⟨blockId, main⟩ := Prod.mk.inj sameBlock
  refine ⟨row, by simp [isRows], rowHash, block, by simp [isBlocks], main, ⟨1, 1, 0⟩,
    by simp [links], ?_⟩
  rw [blockId, rowId]
  exact ⟨rfl, rfl⟩

theorem forkedReports_unrecorded :
    Report.Consistent forkedReports ∧
      (∃ done queue, queue.jobs = [] ∧ Run forkedReports done forkedStore queue) ∧
      ∃ row ∈ forkedStore.transactions.rows, forkedStore.OnMainChain row ∧
        (forkedStore.descriptionsOf row.id).map forkedStore.posting? ≠
          (Ledger.postings Store.sampleTransaction).map some := by
  obtain ⟨done, queue, drained, run⟩ := run_forkedStore
  obtain ⟨row, stored, rowHash, onMain⟩ := onMainChain_forkedStore
  have consistent : Report.Consistent forkedReports := by
    refine ⟨by decide +kernel, by decide +kernel⟩
  obtain ⟨last, isLast, decides⟩ := recorded_iff_last_connected run drained consistent stored
  have decided := (decides Store.sampleBlock (by simp [forkedReports]) Store.sampleTransaction
    (by simp [Store.sampleBlock]) rowHash.symm).2
  rw [rowHash] at isLast
  refine ⟨consistent, ⟨done, queue, drained, run⟩, row, stored, onMain, ?_⟩
  intro told
  rcases decided.mp told with connected | nothing
  · have operation : (Report.lastCarrying forkedReports "t").map (·.operation) = some .fork := by
      decide +kernel
    rw [isLast, Option.map_some, connected] at operation
    cases operation
  · have something : (Ledger.postings Store.sampleTransaction).length = 2 := by decide +kernel
    rw [nothing] at something
    cases something

end Service
end ChainLedger
