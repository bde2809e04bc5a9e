import ChainLedger.Proofs.Queue.Serving
import ChainLedger.Proofs.Service.Traffic

/-!
# Undisturbed turns

Where one client has all the turns, its uploads are answered as they are in one go, and where the
worker has them, it drains the queue as it does in one go. This holds in every state, whatever
faults are armed.
-/

set_option autoImplicit false

namespace ChainLedger

namespace Worker.Settlement

/-- The settlement of a job at which attempts have failed before. -/
def following (settlement : Settlement) (failed : Nat) : Settlement :=
  { settlement with attempts := failed + settlement.attempts }

theorem following_zero (settlement : Settlement) : settlement.following 0 = settlement := by
  rw [following, Nat.zero_add]

theorem following_succ (settlement : Settlement) (failed : Nat) :
    Settlement.following { settlement with attempts := settlement.attempts + 1 } failed =
      settlement.following (failed + 1) := by
  simp only [following, Settlement.mk.injEq, and_true]
  omega

end Worker.Settlement

namespace Service

def uploadAll : List Report.Upload → State → List (Except Error (List BlockView)) × State
  | [], state => ([], state)
  | request :: requests, state =>
    let (answer, middle) := upload request state
    let (answers, last) := uploadAll requests middle
    (answer :: answers, last)

namespace Traffic

variable {maxRetries : UInt32} {turn : Turn} {before middle after : Traffic}

/-- A number of turns of one kind lead from one traffic to another. -/
def Leads (maxRetries : UInt32) (turn : Turn) (before after : Traffic) : Prop :=
  ∃ count, run maxRetries (List.replicate count turn) before = after

theorem Leads.refl (traffic : Traffic) : Leads maxRetries turn traffic traffic := ⟨0, rfl⟩

theorem Leads.trans (first : Leads maxRetries turn before middle)
    (second : Leads maxRetries turn middle after) : Leads maxRetries turn before after := by
  obtain ⟨count, rfl⟩ := first
  obtain ⟨more, rfl⟩ := second
  exact ⟨count + more, by rw [List.replicate_add, run_append]⟩

theorem leads_turn (same : before.turn maxRetries turn = after) :
    Leads maxRetries turn before after :=
  ⟨1, same⟩

end Traffic

open Traffic

variable {maxRetries : UInt32}

/-! ## A client -/

/-- Turns of a client without others take the client and the state from one to another, whatever
has been stored and queued before. -/
def ServesAlone (maxRetries : UInt32) (client : Client) (state : State) (served : Client)
    (after : State) : Prop :=
  ∀ traffic : Traffic, ∃ stored sent,
    Leads maxRetries (.client 0) { traffic with clients := [client], state }
      { traffic with clients := [served], state := after, stored, sent }

namespace ServesAlone

variable {client middle served : Client} {state reached after : State} {progress : Progress}

theorem refl (client : Client) (state : State) :
    ServesAlone maxRetries client state client state :=
  fun traffic => ⟨traffic.stored, traffic.sent, .refl _⟩

theorem trans (first : ServesAlone maxRetries client state middle reached)
    (second : ServesAlone maxRetries middle reached served after) :
    ServesAlone maxRetries client state served after := by
  intro traffic
  obtain ⟨stored, sent, leads⟩ := first traffic
  obtain ⟨stored', sent', leads'⟩ := second { traffic with stored, sent }
  exact ⟨stored', sent', leads.trans leads'⟩

theorem of_turn (turns : ∀ traffic : Traffic, ∃ stored sent,
    Traffic.turn maxRetries { traffic with clients := [client], state } (.client 0) =
      { traffic with clients := [served], state := after, stored, sent }) :
    ServesAlone maxRetries client state served after := by
  intro traffic
  obtain ⟨stored, sent, same⟩ := turns traffic
  exact ⟨stored, sent, leads_turn same⟩

theorem send {dispatch : Dispatch} {jobs : List Dispatch} {queue : Queue}
    (queued : state.queue.enqueue dispatch.job = .ok queue) :
    ServesAlone maxRetries
      { client with progress := some { progress with jobs := dispatch :: jobs } } state
      { client with progress := some { progress with jobs } } { state with queue } := by
  refine .of_turn fun traffic => ⟨traffic.stored, traffic.sent ++ [dispatch], ?_⟩
  simp only [Traffic.turn, List.getElem?_cons_zero, serve, sendNext, queued]
  rfl

theorem send_error {dispatch : Dispatch} {jobs : List Dispatch} {error : QueueError}
    (failed : state.queue.enqueue dispatch.job = .error error) :
    ServesAlone maxRetries
      { client with progress := some { progress with jobs := dispatch :: jobs } } state
      (client.answer (.error (.ofQueue error))) state := by
  refine .of_turn fun traffic => ⟨traffic.stored, traffic.sent, ?_⟩
  simp only [Traffic.turn, List.getElem?_cons_zero, serve, sendNext, failed]
  rfl

def queued (client : Client) (progress : Progress) : Except QueueError Unit → Client
  | .ok () => { client with progress := some { progress with jobs := [] } }
  | .error error => client.answer (.error (.ofQueue error))

theorem enqueueAll (client : Client) (progress : Progress) (report : Nat) (main : Bool)
    (transactions : List Report.Transaction) :
    ∀ state : State, ServesAlone maxRetries
      { client with
        progress := some { progress with
          jobs := transactions.map fun transaction =>
            { report, job := { main, transaction } } } }
      state (queued client progress (Service.enqueueAll main transactions state.queue).1)
      { state with queue := (Service.enqueueAll main transactions state.queue).2 } := by
  induction transactions with
  | nil => exact .refl _
  | cons transaction rest ih =>
      intro state
      rw [Service.enqueueAll]
      cases taken : state.queue.enqueue { main, transaction } with
      | ok queue => exact .trans (.send taken) (ih { state with queue })
      | error error => exact .send_error taken

theorem store {block : Report.Block} {entry : Report.BlockEntry} {blocks : List Prepared}
    {views : List BlockView} {row : Stored.Block} {session : Session}
    (kept : storeBlock block entry state.session = (.ok row, session))
    (others : ∀ report : Nat, ServesAlone maxRetries
      { client with
        progress := some
          { blocks
            jobs := block.transactions.map fun transaction =>
              { report, job := { main := row.entry.main, transaction } }
            views := views ++ [.of row] } }
      { state with session } served after) :
    ServesAlone maxRetries
      { client with progress := some { blocks := (block, entry) :: blocks, views } } state
      served after := by
  intro traffic
  obtain ⟨stored, sent, leads⟩ := others traffic.stored.length
    { traffic with stored := traffic.stored ++ [(block, entry)] }
  refine ⟨stored, sent, .trans (leads_turn ?_) leads⟩
  simp only [Traffic.turn, List.getElem?_cons_zero, serve, storeNext, kept]
  rfl

theorem store_error {block : Report.Block} {entry : Report.BlockEntry} {blocks : List Prepared}
    {views : List BlockView} {error : StoreError} {session : Session}
    (failed : storeBlock block entry state.session = (.error error, session)) :
    ServesAlone maxRetries
      { client with progress := some { blocks := (block, entry) :: blocks, views } } state
      (client.answer (.error (.ofStore error))) { state with session } := by
  refine .of_turn fun traffic => ⟨traffic.stored, traffic.sent, ?_⟩
  simp only [Traffic.turn, List.getElem?_cons_zero, serve, storeNext, failed]
  rfl

theorem storeBlocks (client : Client) (blocks : List Prepared) :
    ∀ (state : State) (views : List BlockView),
      ServesAlone maxRetries { client with progress := some { blocks, views } } state
        (client.answer ((Service.storeBlocks blocks state).1.map (views ++ ·)))
        (Service.storeBlocks blocks state).2 := by
  induction blocks with
  | nil =>
      intro state views
      refine .of_turn fun traffic => ⟨traffic.stored, traffic.sent, ?_⟩
      simp only [Service.storeBlocks, Except.map, List.append_nil]
      rfl
  | cons pair rest ih =>
      intro state views
      obtain ⟨block, entry⟩ := pair
      rw [Service.storeBlocks]
      rcases kept : storeBlock block entry state.session with ⟨error | row, session⟩
      · exact .store_error kept
      · refine .store kept fun report => ?_
        have queues : ServesAlone maxRetries _ _ _ _ :=
          enqueueAll client { blocks := rest, views := views ++ [.of row] } report row.entry.main
            block.transactions { state with session }
        dsimp only at queues ⊢
        rcases taken : Service.enqueueAll row.entry.main block.transactions state.queue with
          ⟨error | done, queue⟩
        · rw [taken] at queues
          exact queues
        · rw [taken] at queues
          refine queues.trans ?_
          have others := ih { session, queue } (views ++ [.of row])
          rcases ended : Service.storeBlocks rest { session, queue } with ⟨error | rows, last⟩
          · rw [ended] at others
            simp only [ended]
            exact others
          · rw [ended] at others
            simp only [Except.map, List.append_assoc, List.singleton_append] at others
            simp only [ended]
            exact others

theorem upload (request : Report.Upload) (client : Client) (state : State) :
    ServesAlone maxRetries
      { client with requests := request :: client.requests, progress := none } state
      (client.answer (Service.upload request state).1) (Service.upload request state).2 := by
  rw [Service.upload]
  rcases ready : prepare request with error | blocks
  · refine .of_turn fun traffic => ⟨traffic.stored, traffic.sent, ?_⟩
    simp only [Traffic.turn, List.getElem?_cons_zero, serve, Client.take, ready]
    rfl
  · have takes : ServesAlone maxRetries
        { client with requests := request :: client.requests, progress := none } state
        { client with progress := some { blocks } } state := by
      refine .of_turn fun traffic => ⟨traffic.stored, traffic.sent, ?_⟩
      simp only [Traffic.turn, List.getElem?_cons_zero, serve, Client.take, ready]
      rfl
    · have stores := takes.trans (storeBlocks client blocks state [])
      dsimp only
      rcases ended : Service.storeBlocks blocks state with ⟨error | views, after⟩
      · rw [ended] at stores
        exact stores
      · rw [ended] at stores
        exact stores

theorem uploadAll (maxRetries : UInt32) (requests : List Report.Upload) :
    ∀ (answers : List (Except Error (List BlockView))) (state : State),
      ServesAlone maxRetries { requests, answers } state
        { answers := answers ++ (Service.uploadAll requests state).1 }
        (Service.uploadAll requests state).2 := by
  induction requests with
  | nil =>
      intro answers state
      rw [Service.uploadAll, List.append_nil]
      exact .refl _ _
  | cons request requests ih =>
      intro answers state
      have others := ih (answers ++ [(Service.upload request state).1])
        (Service.upload request state).2
      rw [List.append_assoc, List.singleton_append] at others
      exact (upload request { requests, answers } state).trans others

end ServesAlone

/-! ## The worker -/

/-- Turns of the worker take its task and the state from one to another, and settle jobs. -/
def WorksAlone (maxRetries : UInt32) (task : Option Worker.Task) (state : State)
    (settled : List (Job × Worker.Settlement)) (after : State) : Prop :=
  ∀ traffic : Traffic, Leads maxRetries .worker { traffic with task, state }
    { traffic with task := none, state := after, settled := traffic.settled ++ settled }

namespace WorksAlone

variable {state reached after : State} {settled settled' : List (Job × Worker.Settlement)}

theorem refl (state : State) : WorksAlone maxRetries none state [] state := by
  intro traffic
  rw [List.append_nil]
  exact .refl _

theorem trans {task : Option Worker.Task} (first : WorksAlone maxRetries task state settled reached)
    (second : WorksAlone maxRetries none reached settled' after) :
    WorksAlone maxRetries task state (settled ++ settled') after := by
  intro traffic
  have last := second { traffic with settled := traffic.settled ++ settled }
  rw [List.append_assoc] at last
  exact (first traffic).trans last

section

variable (below : maxRetries.toNat + 1 < UInt32.size)

include below

/-- Attempts go on as in `settle`, whatever their number so far is. -/
theorem settle (job : Job) (queue : Queue) (retries : Nat) :
    ∀ (failed : Nat) (session : Session), failed + retries = maxRetries.toNat →
      WorksAlone maxRetries (some { job, failed }) { session, queue }
        [(job, (Worker.settle job retries session).1.following failed)]
        { session := (Worker.settle job retries session).2
          queue := { queue with
            counters := (Worker.settle job retries session).1.mark queue.counters } } := by
  have limited := Worker.attemptLimit_of_below below
  have limit := Worker.toNat_succ below
  -- failed attempts and those that are left make up the limit, so both give up with the same one
  induction retries with
  | zero =>
      intro failed session within traffic
      have none : ¬failed + 1 < (maxRetries + 1).toNat := by omega
      rcases ran : Worker.attempt job session with ⟨error | done, last⟩
      · rw [Worker.settle_zero_of_error ran]
        apply leads_turn
        simp only [Traffic.turn, work, limited, ran, if_neg none]
        rfl
      · rw [Worker.settle_of_ok ran]
        apply leads_turn
        simp only [Traffic.turn, work, limited, ran]
        rfl
  | succ retries ih =>
      intro failed session within traffic
      have left : failed + 1 < (maxRetries + 1).toNat := by omega
      rcases ran : Worker.attempt job session with ⟨error | done, last⟩
      · rw [Worker.settle_succ_of_error ran, Worker.Settlement.following_succ]
        refine .trans (leads_turn ?_) (ih (failed + 1) last (by omega) traffic)
        simp only [Traffic.turn, work, limited, ran, if_pos left]
      · rw [Worker.settle_of_ok ran]
        apply leads_turn
        simp only [Traffic.turn, work, limited, ran]
        rfl

theorem process (job : Job) (jobs : List Job) (session : Session) (queue : Queue) :
    WorksAlone maxRetries none { session, queue := { queue with jobs := job :: jobs } }
      [(job, (Worker.settle job maxRetries.toNat session).1)]
      { session := (Worker.settle job maxRetries.toNat session).2
        queue := { queue with
          jobs
          counters := (Worker.settle job maxRetries.toNat session).1.mark queue.counters } } := by
  intro traffic
  have settles := settle below job { queue with jobs } _ 0 session (Nat.zero_add _) traffic
  rw [Worker.Settlement.following_zero] at settles
  exact .trans (leads_turn rfl) settles

theorem processAll (jobs : List Job) :
    ∀ (session : Session) (queue : Queue), queue.jobs = jobs →
      WorksAlone maxRetries none { session, queue }
        (jobs.zip (Worker.processAll maxRetries jobs queue session).1)
        { session := (Worker.processAll maxRetries jobs queue session).2.2
          queue := (Worker.processAll maxRetries jobs queue session).2.1 } := by
  induction jobs with
  | nil => exact fun _ _ _ => .refl _
  | cons job jobs ih =>
      rintro session ⟨-, isOpen, counters⟩ rfl
      have first := process below job jobs session { isOpen, counters }
      rw [Worker.processAll, Worker.process_eq_some_iff.mpr ⟨below, rfl⟩]
      exact first.trans (ih _ _ rfl)

end

end WorksAlone

/-- The turns of a client and then those of the worker leave what the uploads in order leave, and
then the drained queue. -/
theorem leads_drained (below : maxRetries.toNat + 1 < UInt32.size)
    (requests : List Report.Upload) (state : State) :
    ∃ clients workers stored sent,
      let uploaded := (uploadAll requests state).2
      let drained := Worker.drain maxRetries uploaded.queue uploaded.session
      run maxRetries (List.replicate clients (.client 0) ++ List.replicate workers .worker)
          (start [requests] state) =
        { clients := [{ answers := (uploadAll requests state).1 }]
          state := { session := drained.2.2, queue := drained.2.1 }
          stored
          sent
          settled := uploaded.queue.jobs.zip drained.1 } := by
  obtain ⟨stored, sent, clients, uploads⟩ :=
    ServesAlone.uploadAll maxRetries requests [] state {}
  obtain ⟨workers, works⟩ := WorksAlone.processAll below _ (uploadAll requests state).2.session
    (uploadAll requests state).2.queue rfl
    { clients := [{ answers := (uploadAll requests state).1 }], stored, sent }
  refine ⟨clients, workers, stored, sent, ?_⟩
  dsimp only at uploads ⊢
  rw [List.nil_append] at uploads
  change run maxRetries _ (start [requests] state) = _ at uploads
  rw [run_append, uploads]
  exact works

end Service
end ChainLedger
