import ChainLedger.Proofs.Service.LastReports
import ChainLedger.Proofs.Service.MainChain
import ChainLedger.Proofs.Service.Timing

/-!
# Jobs that overtake each other

A block is stored in one step, and its jobs are queued in later ones. Other clients have their
turns in between, so jobs may be queued in another order than their reports were stored in. The row
of a block is as its newest report says, but its transactions follow the reports whose jobs were
queued last. The two are the same report where jobs are queued in order and the newest report
carries the transaction.
-/

set_option autoImplicit false

namespace ChainLedger

theorem exists_getLast?_filter {Item : Type} {selects : Item → Bool} {items : List Item}
    {item : Item} (member : item ∈ items) (selected : selects item = true) :
    ∃ last, (items.filter selects).getLast? = some last := by
  apply Option.ne_none_iff_exists'.mp
  rw [ne_eq, List.getLast?_eq_none_iff]
  exact List.ne_nil_of_mem (List.mem_filter.mpr ⟨member, selected⟩)

theorem exists_append_of_getLast?_filter {Item : Type} {selects : Item → Bool}
    {items : List Item} {last : Item} (isLast : (items.filter selects).getLast? = some last) :
    ∃ earlier later, items = earlier ++ last :: later ∧ ∀ item ∈ later, ¬selects item = true := by
  rw [List.getLast?_filter, List.find?_eq_some_iff_append] at isLast
  obtain ⟨-, later, earlier, same, others⟩ := isLast
  refine ⟨earlier.reverse, later.reverse, ?_, ?_⟩
  · rw [← List.reverse_reverse items, same]
    simp
  · intro item member
    simpa using others item (List.mem_reverse.mp member)

theorem Store.Shows.recordedFor_of_lastFor {store : Store} {content : Content} {jobs : List Job}
    (shows : store.Shows (content.worked jobs)) {hash : String} {job : Job}
    (isLast : Ledger.lastFor jobs hash = some job) :
    store.recordedFor hash = (Ledger.posted job.main job.transaction).map some := by
  have written : (jobs.map Job.recordWrite).filter (·.1 = hash) =
      (jobs.filter (·.transaction.hash = hash)).map Job.recordWrite := List.filter_map
  have records := shows.records hash
  change _ = (writeAll content.records (jobs.map Job.recordWrite) hash).map some at records
  rw [Ledger.lastFor] at isLast
  rw [records, writeAll_apply, written, List.getLast?_map, isLast]
  rfl

namespace Service

/-- A valid upload reports a block. -/
def Reports (uploads : List (List Report.Upload)) (block : Report.Block) : Prop :=
  ∃ requests ∈ uploads, ∃ request ∈ requests,
    request.validate = .ok () ∧ block ∈ request.blocks

def lastSent (sent : List Dispatch) (hash : String) : Option Dispatch :=
  (sent.filter (·.job.transaction.hash = hash)).getLast?

def lastSettled (settled : List (Job × Worker.Settlement)) (hash : String) :
    Option (Job × Worker.Settlement) :=
  (settled.filter (·.1.transaction.hash = hash)).getLast?

theorem lastFor_succeeded {settled : List (Job × Worker.Settlement)} {hash : String} {job : Job}
    {settlement : Worker.Settlement} (isLast : lastSettled settled hash = some (job, settlement))
    (succeeds : settlement.failure = none) :
    Ledger.lastFor (succeeded settled) hash = some job := by
  have kept : ((settled.filter (·.1.transaction.hash = hash)).filter
      (·.2.failure.isNone)).getLast? = some (job, settlement) :=
    getLast?_filter_of_getLast? isLast (by rw [succeeds]; rfl)
  rw [List.filter_comm] at kept
  rw [Ledger.lastFor, succeeded, List.filter_map, List.getLast?_map]
  exact congrArg (Option.map (·.1)) kept

namespace Traffic

variable {maxRetries : UInt32} {uploads : List (List Report.Upload)} {state : State}
  {turns : List Turn} {traffic : Traffic}

theorem reports_of_stored {pair : Prepared}
    (stored : pair ∈ ((start uploads state).run maxRetries turns).stored) :
    Reports uploads pair.1 := by
  obtain ⟨requests, isUpload, request, isRequest, prepared, ready, member⟩ :=
    prepared_of_stored stored
  exact ⟨requests, isUpload, request, isRequest, (prepare_ok_iff.mp ready).1,
    (valid_of_prepare ready member).1⟩

theorem stored_of_reports (noFaults : state.session.faults = [])
    (calm : ∀ turn ∈ turns, turn.Calm)
    (isOpen : ((start uploads state).run maxRetries turns).state.queue.isOpen = true)
    (finished : ∀ client ∈ ((start uploads state).run maxRetries turns).clients, client.Finished)
    {block : Report.Block} (reports : Reports uploads block) :
    ∃ pair ∈ ((start uploads state).run maxRetries turns).stored, pair.1 = block := by
  obtain ⟨requests, isUpload, request, isRequest, valid, member⟩ := reports
  obtain ⟨prepared, ready⟩ := prepare_of_validate valid
  rw [← blocks_of_prepare ready] at member
  obtain ⟨pair, isPrepared, rfl⟩ := List.mem_map.mp member
  have step : ∀ (traffic : Traffic) (turn : Turn), turn.Calm →
      traffic.state.session.faults = [] ∧
          (traffic.state.queue.isOpen = true → traffic.Plans pair) →
        (traffic.turn maxRetries turn).state.session.faults = [] ∧
          ((traffic.turn maxRetries turn).state.queue.isOpen = true →
            (traffic.turn maxRetries turn).Plans pair) := by
    refine fun traffic turn calm ⟨noFaults, plans⟩ =>
      ⟨turn_faults_eq_nil traffic turn calm noFaults, fun isOpen => ?_⟩
    have wasOpen := isOpen_of_turn isOpen
    exact (plans wasOpen).turn noFaults wasOpen turn
  have planned : (start uploads state).Plans pair :=
    plans_start.mpr ⟨requests, isUpload, request, isRequest, prepared, ready, isPrepared⟩
  obtain ⟨-, plans⟩ := run_keeps step calm ⟨noFaults, fun _ => planned⟩
  rcases plans isOpen with stored | ⟨client, isClient, still⟩
  · exact ⟨pair, stored, rfl⟩
  · rw [(finished client isClient).plan] at still
    cases still

theorem Sending.all_sent (sending : traffic.Sending) (isOpen : traffic.state.queue.isOpen = true)
    (finished : ∀ client ∈ traffic.clients, client.Finished) :
    dispatched 0 traffic.stored ⊆ traffic.sent := by
  intro dispatch member
  rcases sending.complete isOpen dispatch member with sent | ⟨client, isClient, pending⟩
  · exact sent
  · rw [(finished client isClient).pending] at pending
    cases pending

theorem exists_sent {report : Nat} {pair : Prepared} {transaction : String}
    (sent : dispatched 0 traffic.stored ⊆ traffic.sent)
    (place : traffic.stored[report]? = some pair) (carries : pair.1.carries transaction = true) :
    ∃ dispatch ∈ traffic.sent, dispatch.report = report ∧
      dispatch.job.transaction.hash = transaction := by
  obtain ⟨item, isItem, own⟩ := List.mem_map.mp (Report.carries_iff.mp carries)
  have isJob : { main := pair.2.main, transaction := item } ∈ pair.jobs :=
    List.mem_map_of_mem isItem
  exact ⟨⟨report, _⟩, sent (mem_dispatched.mpr ⟨pair, place, isJob⟩), rfl, own⟩

/-- The jobs of a transaction were queued in the order of their reports. -/
def Ordered (traffic : Traffic) (transaction : String) : Prop :=
  (traffic.sent.filter (·.job.transaction.hash = transaction)).Pairwise
    fun earlier later => earlier.report ≤ later.report

/-- What decides on a block and on a transaction of it: the newest report of the block, and the
report whose job was queued last. -/
structure Decided (traffic : Traffic) (block transaction : String) (newest sender : Prepared)
    (last : Dispatch) : Prop where
  isNewest : lastStored traffic.stored block = some newest
  isLast : lastSent traffic.sent transaction = some last
  isSender : traffic.stored[last.report]? = some sender
  isJob : last.job ∈ sender.jobs
  sameBlock : sender.1.hash = block

/-- Where jobs are queued in order and the newest report of a block carries the transaction, it
decides on both. -/
theorem Decided.sender_eq_newest {block transaction : String} {newest sender : Prepared}
    {last : Dispatch} (decided : traffic.Decided block transaction newest sender last)
    (sent : dispatched 0 traffic.stored ⊆ traffic.sent)
    (ordered : traffic.Ordered transaction) (carries : newest.1.carries transaction = true) :
    sender = newest := by
  obtain ⟨earlier, later, same, others⟩ := exists_append_of_getLast?_filter decided.isNewest
  have place : traffic.stored[earlier.length]? = some newest := by simp [same]
  have isSender := decided.isSender
  have newer : earlier.length ≤ last.report := by
    obtain ⟨dispatch, isSent, isNewest, own⟩ := exists_sent sent place carries
    rw [← isNewest]
    have among : dispatch ∈ traffic.sent.filter (·.job.transaction.hash = transaction) :=
      List.mem_filter.mpr ⟨isSent, decide_eq_true own⟩
    obtain ⟨before, ends⟩ := List.getLast?_eq_some_iff.mp decided.isLast
    rw [Ordered, ends] at ordered
    rw [ends] at among
    rcases List.mem_append.mp among with isBefore | isLast
    · exact (List.pairwise_append.mp ordered).2.2 _ isBefore last List.mem_cons_self
    · rw [← List.mem_singleton.mp isLast]
  have older : last.report ≤ earlier.length := by
    by_contra beyond
    rw [same, List.getElem?_append_right (by omega), List.getElem?_cons, if_neg (by omega)]
      at isSender
    exact others sender (List.mem_of_getElem? isSender) (decide_eq_true decided.sameBlock)
  rw [Nat.le_antisymm older newer, place] at isSender
  exact (Option.some.inj isSender).symm

/-- Once all uploads are answered, a transaction that is in no other block has been queued last for
some report of its block. -/
theorem Sending.decided (sending : traffic.Sending) {block transaction : String}
    (sent : dispatched 0 traffic.stored ⊆ traffic.sent)
    (carried : ∃ pair ∈ traffic.stored, pair.1.hash = block ∧
      pair.1.carries transaction = true)
    (only : ∀ pair ∈ traffic.stored, pair.1.carries transaction = true → pair.1.hash = block) :
    ∃ newest sender last, traffic.Decided block transaction newest sender last := by
  obtain ⟨pair, stored, ofBlock, carries⟩ := carried
  obtain ⟨newest, isNewest⟩ : ∃ newest, lastStored traffic.stored block = some newest :=
    exists_getLast?_filter stored (decide_eq_true ofBlock)
  obtain ⟨report, place⟩ := List.mem_iff_getElem?.mp stored
  obtain ⟨dispatch, isSent, -, own⟩ := exists_sent sent place carries
  obtain ⟨last, isLast⟩ : ∃ last, lastSent traffic.sent transaction = some last :=
    exists_getLast?_filter isSent (decide_eq_true own)
  obtain ⟨lastIsSent, ofTransaction⟩ := List.mem_filter.mp (List.mem_of_getLast? isLast)
  obtain ⟨sender, isSender, isJob⟩ :=
    mem_dispatched.mp (sending.traced last (Or.inl lastIsSent))
  refine ⟨newest, sender, last, isNewest, isLast, isSender, isJob, ?_⟩
  apply only sender (List.mem_of_getElem? isSender)
  obtain ⟨other, isOther, same⟩ := List.mem_map.mp isJob
  refine Report.carries_iff.mpr (List.mem_map.mpr ⟨other, isOther, ?_⟩)
  rw [← of_decide_eq_true ofTransaction, ← same]

/-- The job that was queued last is the one that is settled last. -/
theorem Told.settled_last {content : Content} {waiting : List Job}
    (told : traffic.Told content waiting) (isOpen : traffic.state.queue.isOpen = true)
    (free : traffic.task = none)
    (drained : traffic.state.queue.jobs = []) {transaction : String} {last : Dispatch}
    (isLast : lastSent traffic.sent transaction = some last) :
    ∃ settlement, lastSettled traffic.settled transaction = some (last.job, settlement) := by
  have order := told.order_of_open isOpen
  rw [taken, free, drained] at order
  simp only [Option.map_none, Option.toList_none, List.append_nil] at order
  have sentJob : Ledger.lastFor (traffic.sent.map (·.job)) transaction = some last.job := by
    rw [Ledger.lastFor, List.filter_map, List.getLast?_map]
    exact congrArg (Option.map Dispatch.job) isLast
  have lastJob : Ledger.lastFor (traffic.settled.map (·.1)) transaction = some last.job := by
    rw [Ledger.lastFor] at sentJob
    rw [order, Ledger.lastFor, List.filter_append, List.getLast?_append, sentJob]
    rfl
  rw [Ledger.lastFor, List.filter_map, List.getLast?_map, Option.map_eq_some_iff] at lastJob
  obtain ⟨⟨job, settlement⟩, isSettled, rfl⟩ := lastJob
  exact ⟨settlement, isSettled⟩

/-- Where no fault is armed and no worker without a limit of attempts has closed the queue, whatever
the order of turns, the row of a block has the standing of the newest report of the block, and the
last job of a transaction that is in no other block has that of the report it comes from. This is
the newest report too where the jobs of the transaction are queued in order and the newest report
carries it. Once the queue is drained, the last job has been settled last, and if it has succeeded,
what it posts is recorded. -/
theorem last_job_follows_its_report (maxRetries : UInt32) {state : State}
    (reachable : state.session.store.Reachable) (noFaults : state.session.faults = [])
    (isOpen : state.queue.isOpen = true) (uploads : List (List Report.Upload)) {turns : List Turn}
    (calm : ∀ turn ∈ turns, turn.Calm) {block transaction : String}
    (carried : ∃ report, Reports uploads report ∧ report.hash = block ∧
      report.carries transaction = true)
    (only : ∀ report, Reports uploads report → report.carries transaction = true →
      report.hash = block) :
    let traffic := (start uploads state).run maxRetries turns
    (maxRetries.toNat = UInt32.size - 1 → traffic.state.queue.isOpen = true) →
      (∀ client ∈ traffic.clients, client.Finished) →
      ∃ row newest sender last, traffic.state.session.store.blockByHash? block = some row ∧
        traffic.Decided block transaction newest sender last ∧
        row.entry.main = newest.1.operation.isMainChain ∧
        last.job.main = sender.1.operation.isMainChain ∧
        (traffic.Ordered transaction → newest.1.carries transaction = true →
          last.job.main = row.entry.main) ∧
        (traffic.task = none → traffic.state.queue.jobs = [] →
          ∃ settlement, lastSettled traffic.settled transaction = some (last.job, settlement) ∧
            (settlement.failure = none →
              traffic.state.session.store.recordedFor transaction =
                (Ledger.posted last.job.main last.job.transaction).map some)) := by
  intro traffic survives finished
  have stillOpen : traffic.state.queue.isOpen = true := by
    rcases Worker.below_or_greatest maxRetries with below | greatest
    · exact (isOpen_run below turns _).trans isOpen
    · exact survives greatest
  obtain ⟨content, shows⟩ := reachable.shown
  have refusing : ∀ turn ∈ turns, turn.Refusing := fun turn member => (calm turn member).refusing
  obtain ⟨told, sending⟩ :=
    told_run maxRetries shows (noFaults ▸ OnlyRefusals.nil) uploads refusing
  have sent := sending.all_sent stillOpen finished
  have valid : ∀ pair ∈ traffic.stored, pair.Valid := valid_of_stored
  have main : ∀ pair ∈ traffic.stored, pair.2.main = pair.1.operation.isMainChain :=
    fun pair stored => (toEntry_ok (valid pair stored).2).2
  obtain ⟨newest, sender, last, decided⟩ := sending.decided sent
    (by
      obtain ⟨report, reports, ofBlock, carries⟩ := carried
      obtain ⟨pair, stored, rfl⟩ := stored_of_reports noFaults calm stillOpen finished reports
      exact ⟨pair, stored, ofBlock, carries⟩)
    (fun pair stored => only pair.1 (reports_of_stored stored))
  have entries := entry_of_lastStored told.shows valid block
  rw [decided.isNewest] at entries
  obtain ⟨row, found, same⟩ := Option.map_eq_some_iff.mp entries
  have rowMain : row.entry.main = newest.1.operation.isMainChain := by
    rw [same]
    exact main newest (List.mem_filter.mp (List.mem_of_getLast? decided.isNewest)).1
  have jobMain : last.job.main = sender.1.operation.isMainChain := by
    obtain ⟨item, -, isJob⟩ := List.mem_map.mp decided.isJob
    rw [← main sender (List.mem_of_getElem? decided.isSender), ← isJob]
  refine ⟨row, newest, sender, last, found, decided, rowMain, jobMain, ?_, ?_⟩
  · intro ordered carries
    rw [jobMain, rowMain, decided.sender_eq_newest sent ordered carries]
  · intro free drained
    obtain ⟨settlement, isSettled⟩ := told.settled_last stillOpen free drained decided.isLast
    exact ⟨settlement, isSettled, fun succeeds =>
      told.shows.recordedFor_of_lastFor (lastFor_succeeded isSettled succeeds)⟩

/-- Two clients report a block with the same transaction. The first connects it, and the second
disconnects it. -/
def crossed : List (List Report.Upload) :=
  [[{ blocks := [Store.sampleBlock] }],
    [{ blocks := [{ Store.sampleBlock with operation := .disconnected }] }]]

/-- The first client stores its block first and queues its job last. -/
def crossedTurns : List Turn :=
  [.client 0, .client 1, .client 0, .client 1, .client 1, .client 0, .client 0, .client 1] ++
    List.replicate 4 .worker

theorem crossed_follows_older_report :
    let traffic := (start crossed {}).run 0 crossedTurns
    ∃ row newest sender last, traffic.state.session.store.blockByHash? "b" = some row ∧
      traffic.Decided "b" "t" newest sender last ∧
      row.entry.main = false ∧ last.job.main = true ∧
      traffic.state.session.store.recordedFor "t" =
        (Ledger.postings Store.sampleTransaction).map some := by
  intro traffic
  have calm : ∀ turn ∈ crossedTurns, turn.Calm := by simp [crossedTurns, Turn.Calm]
  have empty : ({} : State).session.store.Empty := ⟨rfl, rfl, rfl, rfl, rfl⟩
  have carried : ∃ report, Reports crossed report ∧ report.hash = "b" ∧
      report.carries "t" = true :=
    ⟨Store.sampleBlock, ⟨_, List.mem_cons_self, _, List.mem_cons_self, by decide +kernel,
      List.mem_cons_self⟩, rfl, by decide +kernel⟩
  have only : ∀ report, Reports crossed report → report.carries "t" = true →
      report.hash = "b" := by
    rintro report ⟨requests, isUpload, request, isRequest, -, member⟩ -
    have each : ∀ requests ∈ crossed, ∀ request ∈ requests, ∀ report ∈ request.blocks,
        report.hash = "b" := by
      decide +kernel
    exact each requests isUpload request isRequest report member
  obtain ⟨row, newest, sender, last, found, decided, -, -, -, settled⟩ :=
    last_job_follows_its_report 0 (.empty empty) rfl rfl crossed calm carried only
      (fun greatest => absurd greatest (by decide)) (by decide +kernel)
  have rowMain : (traffic.state.session.store.blockByHash? "b").map (·.entry.main) =
      some false := by
    decide +kernel
  have job : (lastSent traffic.sent "t").map (·.job) =
      some { main := true, transaction := Store.sampleTransaction } := by
    decide +kernel
  have failure : (lastSettled traffic.settled "t").map (·.2.failure) = some none := by
    decide +kernel
  rw [found] at rowMain
  rw [decided.isLast] at job
  have sameJob : last.job = _ := Option.some.inj job
  obtain ⟨settlement, isSettled, recorded⟩ := settled (by decide +kernel) (by decide +kernel)
  rw [isSettled] at failure
  refine ⟨row, newest, sender, last, found, decided, Option.some.inj rowMain, ?_, ?_⟩
  · rw [sameJob]
  · rw [recorded (Option.some.inj failure), sameJob]
    rfl

/-- A newest report that does not carry the transaction leaves its job as it is, also where one
upload is sent after the other. -/
example :
    let dropped : Report.Block :=
      { Store.sampleBlock with operation := .disconnected, transactions := [] }
    let uploads : List (List Report.Upload) :=
      [[{ blocks := [Store.sampleBlock] }], [{ blocks := [Store.sampleBlock, dropped] }]]
    let traffic := (start uploads {}).run 0
      (List.replicate 4 (.client 0) ++ List.replicate 6 (.client 1))
    (traffic.state.session.store.blockByHash? "b").map (·.entry.main) = some false ∧
      (lastSent traffic.sent "t").map (·.job.main) = some true := by
  decide +kernel

/-! ## One client at a time -/

def Exclusive (traffic : Traffic) : Prop :=
  traffic.clients.Pairwise fun first second => first.pending = [] ∨ second.pending = []

theorem Exclusive.of_mem {earlier later : List Client} {client other : Client}
    (exclusive : (earlier ++ client :: later).Pairwise
      fun first second => first.pending = [] ∨ second.pending = [])
    (isOther : other ∈ earlier ++ later) : client.pending = [] ∨ other.pending = [] := by
  obtain ⟨-, afterwards, before⟩ := List.pairwise_append.mp exclusive
  rcases List.mem_append.mp isOther with isEarlier | isLater
  · exact (before other isEarlier client List.mem_cons_self).symm
  · exact (List.pairwise_cons.mp afterwards).1 other isLater

/-- All jobs of the blocks that have been stored are in order, with those that are still to be
queued last. -/
def InOrder (traffic : Traffic) : Prop :=
  traffic.sent ++ traffic.clients.flatMap (·.pending) = dispatched 0 traffic.stored

theorem InOrder.start (uploads : List (List Report.Upload)) (state : State) :
    (Traffic.start uploads state).InOrder := by
  have none : (uploads.map fun requests => ({ requests } : Client)).flatMap (·.pending) = [] := by
    rw [List.flatMap_map]
    exact List.flatMap_eq_nil_iff.mpr fun _ _ => rfl
  exact none

theorem InOrder.serve {client served : Client} {after : Traffic} {index : Nat}
    (inOrder : traffic.InOrder) (refusals : OnlyRefusals traffic.state.session.faults)
    (isOpen : traffic.state.queue.isOpen = true) (found : traffic.clients[index]? = some client)
    (serves : Served traffic client served after) (exclusive : traffic.Exclusive)
    (still : Exclusive { after with clients := traffic.clients.set index served }) :
    InOrder { after with clients := traffic.clients.set index served } := by
  obtain ⟨pairs, stored, same | ⟨closed, -⟩⟩ := serves.dispatches refusals
  swap
  · rw [isOpen] at closed
    cases closed
  obtain ⟨earlier, later, split, replaced⟩ := exists_split_of_getElem? found
  change (traffic.clients.set index served).Pairwise _ at still
  change after.sent ++ (traffic.clients.set index served).flatMap _ = dispatched 0 after.stored
  rw [InOrder, split] at inOrder
  rw [Exclusive, split] at exclusive
  rw [replaced] at still
  rw [replaced, stored, dispatched_append, Nat.zero_add, ← inOrder]
  by_cases others : ∀ other ∈ earlier ++ later, other.pending = []
  · obtain ⟨noneEarlier, noneLater⟩ := List.forall_mem_append.mp others
    simp only [List.flatMap_append, List.flatMap_cons, List.flatMap_eq_nil_iff.mpr noneEarlier,
      List.flatMap_eq_nil_iff.mpr noneLater, List.nil_append, List.append_nil]
    exact same
  · push Not at others
    obtain ⟨other, isOther, busy⟩ := others
    have idle := (Exclusive.of_mem exclusive isOther).resolve_right busy
    have stillIdle := (Exclusive.of_mem still isOther).resolve_right busy
    have sent := serves.sent_eq idle
    rw [sent, idle, stillIdle, List.append_nil] at same
    have none : dispatched traffic.stored.length pairs = [] := List.self_eq_append_right.mp same
    simp [sent, idle, stillIdle, none]

theorem InOrder.turn {turn : Turn} (inOrder : traffic.InOrder)
    (refusals : OnlyRefusals traffic.state.session.faults)
    (isOpen : traffic.state.queue.isOpen = true) (exclusive : traffic.Exclusive)
    (still : (traffic.turn maxRetries turn).Exclusive) :
    (traffic.turn maxRetries turn).InOrder := by
  cases turn with
  | worker =>
      obtain ⟨clients, stored, sent, -⟩ := work_frame maxRetries traffic
      rw [InOrder, Traffic.turn, clients, stored, sent]
      exact inOrder
  | wait now => exact inOrder
  | arm faults => exact inOrder
  | client index =>
      revert still
      exact turn_client index (fun _ => inOrder) fun _ _ _ found serves still =>
        inOrder.serve refusals isOpen found serves exclusive still

theorem pairwise_dispatched (first : Nat) (prepared : List Prepared) :
    (dispatched first prepared).Pairwise fun earlier later => earlier.report ≤ later.report := by
  have increasing : ((prepared.zipIdx first).map (·.2)).Pairwise (· < ·) := by
    rw [List.zipIdx_map_snd]
    exact List.pairwise_lt_range'
  rw [dispatched, List.pairwise_flatMap]
  refine ⟨?_, ?_⟩
  · rintro pair -
    exact List.pairwise_map.mpr (List.pairwise_of_forall fun _ _ => Nat.le_refl _)
  · refine (List.pairwise_map.mp increasing).imp ?_
    rintro first second less earlier isEarlier later isLater
    obtain ⟨-, -, rfl⟩ := List.mem_map.mp isEarlier
    obtain ⟨-, -, rfl⟩ := List.mem_map.mp isLater
    exact Nat.le_of_lt less

/-- Where no client stores a block while another one has jobs to queue, and the queue has stayed
open, jobs are queued in the order of their reports. -/
theorem ordered_of_exclusive (noFaults : state.session.faults = [])
    (isOpen : ((start uploads state).run maxRetries turns).state.queue.isOpen = true)
    (calm : ∀ turn ∈ turns, turn.Calm)
    (exclusive : ∀ early, early <+: turns →
      ((start uploads state).run maxRetries early).Exclusive) (transaction : String) :
    ((start uploads state).run maxRetries turns).Ordered transaction := by
  have inOrder : ((start uploads state).run maxRetries turns).InOrder := by
    induction turns using List.reverseRecOn with
    | nil => exact .start uploads state
    | append_singleton turns turn ih =>
        obtain ⟨calmEarly, -⟩ := List.forall_mem_append.mp calm
        rw [run_append] at isOpen
        have wasOpen := isOpen_of_turn isOpen
        have earlier := ih wasOpen calmEarly fun early isPrefix =>
          exclusive early (isPrefix.trans (List.prefix_append _ _))
        have still := exclusive _ (List.prefix_refl _)
        rw [run_append] at still ⊢
        refine earlier.turn ?_ wasOpen (exclusive turns (List.prefix_append _ _)) still
        rw [run_faults_eq_nil calmEarly noFaults]
        exact OnlyRefusals.nil
  have pairwise := pairwise_dispatched 0 ((start uploads state).run maxRetries turns).stored
  rw [← inOrder] at pairwise
  exact (List.pairwise_append.mp pairwise).1.filter _

end Traffic
end Service
end ChainLedger
