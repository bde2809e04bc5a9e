import ChainLedger.Proofs.Service.Alike
import ChainLedger.Proofs.Service.Settling
import ChainLedger.Proofs.Service.Undisturbed

/-!
# The timing of the worker

Where one client sends its uploads one after the other and no fault is armed, the blocks that are
stored and the order of the jobs do not depend on when the worker has its turns. So it leaves the
same settlements and the same store, but for ids and times, as when it only starts once all uploads
are answered.
-/

set_option autoImplicit false

namespace ChainLedger.Service.Traffic

variable {maxRetries : UInt32} {content : Content} {waiting : List Job} {plan : List Prepared}
  {traffic : Traffic} {client : Client} {state : State} {turns : List Turn}

/-- All uploads are answered and all jobs are settled. -/
structure Finished (traffic : Traffic) : Prop where
  clients : ∀ client ∈ traffic.clients, client.Finished
  free : traffic.task = none
  drained : traffic.state.queue.jobs = []

instance (traffic : Traffic) : Decidable traffic.Finished :=
  decidable_of_iff ((∀ client ∈ traffic.clients, client.Finished) ∧ traffic.task = none ∧
      traffic.state.queue.jobs = [])
    ⟨fun ⟨clients, free, drained⟩ => ⟨clients, free, drained⟩,
      fun ⟨clients, free, drained⟩ => ⟨clients, free, drained⟩⟩

/-- There is one client, whose blocks are stored and queued in the order of a plan. -/
structure Follows (plan : List Prepared) (traffic : Traffic) (client : Client) : Prop where
  alone : traffic.clients = [client]
  isOpen : traffic.state.queue.isOpen = true
  plan : traffic.stored ++ client.plan = plan
  dispatches : traffic.sent ++ client.pending = dispatched 0 traffic.stored

theorem Follows.serve {served : Client} {after : Traffic} (follows : traffic.Follows plan client)
    (noFaults : traffic.state.session.faults = [])
    (serves : Served traffic client served after) :
    Follows plan { after with clients := [served] } served := by
  have isOpen := follows.isOpen
  refine ⟨rfl, serves.isOpen.trans isOpen, ?_, ?_⟩
  · exact (serves.plan_of_noFaults noFaults isOpen).trans follows.plan
  · obtain ⟨pairs, stored, same | ⟨closed, -⟩⟩ := serves.dispatches (noFaults ▸ OnlyRefusals.nil)
    · change after.sent ++ served.pending = dispatched 0 after.stored
      rw [stored, dispatched_append, ← follows.dispatches, Nat.zero_add]
      exact same
    · rw [isOpen] at closed
      cases closed

theorem isOpen_work (below : maxRetries.toNat + 1 < UInt32.size) (traffic : Traffic) :
    (traffic.work maxRetries).state.queue.isOpen = traffic.state.queue.isOpen := by
  fun_cases work maxRetries traffic with
  | case2 free job queue received =>
      obtain ⟨rest, -, rfl⟩ := Queue.of_receive?_eq_some received
      rfl
  | case3 task taken unlimited =>
      rw [Worker.attemptLimit_of_below below] at unlimited
      cases unlimited
  | _ => rfl

theorem isOpen_turn (below : maxRetries.toNat + 1 < UInt32.size) (traffic : Traffic)
    (turn : Turn) :
    (traffic.turn maxRetries turn).state.queue.isOpen = traffic.state.queue.isOpen := by
  cases turn with
  | worker => exact isOpen_work below traffic
  | wait now => rfl
  | arm faults => rfl
  | client index => exact turn_client index rfl fun _ _ _ _ serves => serves.isOpen

/-- Only a worker without a limit of attempts closes the queue. -/
theorem isOpen_run (below : maxRetries.toNat + 1 < UInt32.size) (turns : List Turn)
    (traffic : Traffic) :
    (traffic.run maxRetries turns).state.queue.isOpen = traffic.state.queue.isOpen := by
  induction turns generalizing traffic with
  | nil => rfl
  | cons turn turns ih => exact (ih _).trans (isOpen_turn below traffic turn)

theorem Follows.turn {turn : Turn} (below : maxRetries.toNat + 1 < UInt32.size)
    (follows : traffic.Follows plan client) (noFaults : traffic.state.session.faults = []) :
    ∃ client, (traffic.turn maxRetries turn).Follows plan client := by
  cases turn with
  | worker =>
      obtain ⟨clients, stored, sent, -⟩ := work_frame maxRetries traffic
      refine ⟨client, clients.trans follows.alone,
        (isOpen_work below traffic).trans follows.isOpen, ?_, ?_⟩
      · rw [Traffic.turn, stored]
        exact follows.plan
      · rw [Traffic.turn, stored, sent]
        exact follows.dispatches
  | wait now => exact ⟨client, follows.alone, follows.isOpen, follows.plan, follows.dispatches⟩
  | arm faults => exact ⟨client, follows.alone, follows.isOpen, follows.plan, follows.dispatches⟩
  | client index =>
      exact turn_client_alone index follows.alone ⟨client, follows⟩ fun served _ serves =>
        ⟨served, follows.serve noFaults serves⟩

/-- A run that has ended is told by its plan alone: the jobs that waited first and those of all
blocks are settled in order, and the store shows what the blocks and the jobs that succeeded make
of its first content. -/
theorem Calmly.of_finished (calmly : traffic.Calmly maxRetries content waiting)
    (follows : traffic.Follows plan client) (finished : traffic.Finished) :
    let settlements := content.settlements maxRetries (waiting ++ plan.flatMap Prepared.jobs)
    traffic.settled = settlements ∧
      traffic.state.session.store.Shows ((content.stored plan).worked (succeeded settlements)) := by
  have ended := finished.clients client (by simp [follows.alone])
  have stored := follows.plan
  rw [ended.plan, List.append_nil] at stored
  have sent := follows.dispatches
  rw [ended.pending, List.append_nil, stored] at sent
  have order := calmly.told.order_of_open follows.isOpen
  rw [Traffic.taken, finished.free, finished.drained, sent, jobs_dispatched] at order
  have settled := calmly.settling.settled
  have shows := calmly.told.shows
  simp only [Option.map_none, Option.toList_none, List.append_nil] at order
  rw [order] at settled
  rw [settled, stored] at shows
  exact ⟨settled, shows⟩

def planOf (requests : List Report.Upload) : List Prepared := ({ requests } : Client).plan

theorem run_of_finished (below : maxRetries.toNat + 1 < UInt32.size)
    (shows : state.session.store.Shows content) (noFaults : state.session.faults = [])
    (isOpen : state.queue.isOpen = true)
    (known : content.HasAll state.queue.jobs) (requests : List Report.Upload)
    (calm : ∀ turn ∈ turns, turn.Calm)
    (finished : ((start [requests] state).run maxRetries turns).Finished) :
    let settlements := content.settlements maxRetries
      (state.queue.jobs ++ (planOf requests).flatMap Prepared.jobs)
    ((start [requests] state).run maxRetries turns).settled = settlements ∧
      ((start [requests] state).run maxRetries turns).state.session.store.Shows
        ((content.stored (planOf requests)).worked (succeeded settlements)) := by
  have step : ∀ (traffic : Traffic) (turn : Turn), turn.Calm →
      traffic.Calmly maxRetries content state.queue.jobs ∧
        (∃ client, traffic.Follows (planOf requests) client) →
      (traffic.turn maxRetries turn).Calmly maxRetries content state.queue.jobs ∧
        ∃ client, (traffic.turn maxRetries turn).Follows (planOf requests) client :=
    fun _ _ calm ⟨calmly, _, follows⟩ =>
      ⟨calmly.turn below known calm, follows.turn below calmly.noFaults⟩
  obtain ⟨calmly, client, follows⟩ :=
    run_keeps step calm ⟨.start shows noFaults [requests], _, rfl, isOpen, rfl, rfl⟩
  exact calmly.of_finished follows finished

theorem settled_as_drained_of_below (below : maxRetries.toNat + 1 < UInt32.size)
    (reachable : state.session.store.Reachable) (noFaults : state.session.faults = [])
    (isOpen : state.queue.isOpen = true)
    (known : ∀ job ∈ state.queue.jobs,
      (state.session.store.transactionByHash? job.transaction.hash).isSome = true)
    (requests : List Report.Upload) (calm : ∀ turn ∈ turns, turn.Calm)
    (finished : ((start [requests] state).run maxRetries turns).Finished) :
    let interleaved := (start [requests] state).run maxRetries turns
    let uploaded := (uploadAll requests state).2
    let drained := Worker.drain maxRetries uploaded.queue uploaded.session
    interleaved.settled = uploaded.queue.jobs.zip drained.1 ∧
      interleaved.state.session.store.Alike drained.2.2.store := by
  obtain ⟨content, shows⟩ := reachable.shown
  have stored : content.HasAll state.queue.jobs := by
    intro job member
    rw [← shows.transactions, Option.isSome_map]
    exact known job member
  obtain ⟨settled, ends⟩ :=
    run_of_finished below shows noFaults isOpen stored requests calm finished
  -- draining afterwards is a run as well, whose worker has its turns last
  obtain ⟨clients, workers, storedAfter, sentAfter, same⟩ := leads_drained below requests state
  have calmAfter : ∀ turn ∈ List.replicate clients (.client 0) ++ List.replicate workers .worker,
      Turn.Calm turn := by
    intro turn member
    rcases List.mem_append.mp member with isClient | isWorker
    · rw [List.eq_of_mem_replicate isClient]
      trivial
    · rw [List.eq_of_mem_replicate isWorker]
      trivial
  obtain ⟨settledAfter, endsAfter⟩ :=
    run_of_finished below shows noFaults isOpen stored requests calmAfter (by
      rw [same]
      exact ⟨by simp [Client.Finished], rfl, Worker.jobs_drain _ _ _⟩)
  rw [same] at settledAfter endsAfter
  exact ⟨settled.trans settledAfter.symm, ends.alike endsAfter⟩

/-! ## A worker that stops -/

/-- A worker without a limit of attempts keeps the job that it has taken. Until it takes one, it is
like any other. -/
theorem turn_of_greatest (greatest : maxRetries.toNat = UInt32.size - 1) (other : UInt32)
    {turn : Turn} (free : (traffic.turn maxRetries turn).task = none) :
    traffic.task = none ∧ traffic.turn maxRetries turn = traffic.turn other turn ∧
      (traffic.turn maxRetries turn).settled = traffic.settled := by
  cases turn with
  | wait now => exact ⟨free, rfl, rfl⟩
  | arm faults => exact ⟨free, rfl, rfl⟩
  | client index =>
      have kept : (traffic.turn maxRetries (.client index)).task = traffic.task ∧
          (traffic.turn maxRetries (.client index)).settled = traffic.settled :=
        turn_client index ⟨rfl, rfl⟩ fun _ _ _ _ serves => ⟨serves.task, serves.settled⟩
      exact ⟨kept.1.symm.trans free, rfl, kept.2⟩
  | worker =>
      rw [Traffic.turn, Traffic.turn]
      rw [Traffic.turn] at free
      cases held : traffic.task with
      | none =>
          refine ⟨rfl, ?_, ?_⟩
          · simp only [work, held]
          · simp only [work, held]
            split <;> rfl
      | some task =>
          simp only [work, held, Worker.attemptLimit_of_greatest greatest] at free
          cases free

theorem run_of_greatest (greatest : maxRetries.toNat = UInt32.size - 1) (other : UInt32)
    (free : (traffic.run maxRetries turns).task = none) :
    traffic.run maxRetries turns = traffic.run other turns ∧
      (traffic.run maxRetries turns).settled = traffic.settled := by
  induction turns using List.reverseRecOn with
  | nil => exact ⟨rfl, rfl⟩
  | append_singleton turns turn ih =>
      rw [run_append] at free ⊢
      rw [run_append]
      obtain ⟨stillFree, last, kept⟩ := turn_of_greatest greatest other free
      obtain ⟨same, settled⟩ := ih stillFree
      rw [← same]
      exact ⟨last, kept.trans settled⟩

/-- Whenever the worker has its turns between those of a client, it settles the jobs as it does when
it drains the queue after the last upload, and leaves the same store but for ids and times. -/
theorem settled_as_drained_afterwards (maxRetries : UInt32) {state : State}
    (reachable : state.session.store.Reachable) (noFaults : state.session.faults = [])
    (isOpen : state.queue.isOpen = true)
    (known : ∀ job ∈ state.queue.jobs,
      (state.session.store.transactionByHash? job.transaction.hash).isSome = true)
    (requests : List Report.Upload) {turns : List Turn} (calm : ∀ turn ∈ turns, turn.Calm) :
    let interleaved := (start [requests] state).run maxRetries turns
    let uploaded := (uploadAll requests state).2
    let drained := Worker.drain maxRetries uploaded.queue uploaded.session
    interleaved.Finished →
      interleaved.settled = uploaded.queue.jobs.zip drained.1 ∧
        interleaved.state.session.store.Alike drained.2.2.store := by
  intro interleaved uploaded drained finished
  rcases Worker.below_or_greatest maxRetries with below | greatest
  · exact settled_as_drained_of_below below reachable noFaults isOpen known requests calm finished
  · have least : (0 : UInt32).toNat + 1 < UInt32.size := by decide
    obtain ⟨same, none⟩ := run_of_greatest greatest 0 finished.free
    obtain ⟨settled, alike⟩ := settled_as_drained_of_below least reachable noFaults isOpen known
      requests calm (same ▸ finished)
    rw [← same] at settled alike
    have empty : uploaded.queue.jobs = [] := by
      rcases List.zip_eq_nil_iff.mp (settled.symm.trans none) with empty | settledNone
      · exact empty
      · exact Worker.jobs_eq_nil_of_drain least settledNone
    have ends : drained = ([], uploaded.queue, uploaded.session) := Worker.drain_of_empty empty _ _
    rw [Worker.drain_of_empty empty] at settled alike
    rw [ends]
    exact ⟨settled, alike⟩

/-- A block is connected with a transaction that burns too much, and disconnected with another one
of the same hash. -/
def contested : List Report.Upload :=
  [{ blocks := [{ Store.sampleBlock with transactions := [Ledger.overburntTransaction] }] },
    { blocks := [{ Store.sampleBlock with operation := .disconnected }] }]

/-- The second upload is stored between two attempts at the job of the first. -/
def contestedTurns : List Turn :=
  List.replicate 3 (.client 0) ++ [.worker, .worker] ++ List.replicate 3 (.client 0) ++
    [.worker, .client 0, .wait ⟨5⟩, .worker, .client 0, .worker]

def sampleState : State := { session := { store := Store.sampleStore } }

theorem contested_settled_as_drained_afterwards :
    let interleaved := (start [contested] sampleState).run 1 contestedTurns
    let uploaded := (uploadAll contested sampleState).2
    let drained := Worker.drain 1 uploaded.queue uploaded.session
    interleaved.settled.map (·.2) =
        [{ attempts := 2, failure := some (.unknownAsset "C") },
          { attempts := 1, failure := none }] ∧
      interleaved.settled = uploaded.queue.jobs.zip drained.1 ∧
        interleaved.state.session.store.Alike drained.2.2.store := by
  have calm : ∀ turn ∈ contestedTurns, turn.Calm := by simp [contestedTurns, Turn.Calm]
  have reachable : sampleState.session.store.Reachable := Store.reachable_sampleStore
  have ends := settled_as_drained_afterwards 1 reachable rfl rfl (by simp [sampleState]) contested
    calm
  have finished :
      decide ((start [contested] sampleState).run 1 contestedTurns).Finished = true := by
    cbv
  exact ⟨by cbv, ends (of_decide_eq_true finished)⟩

end ChainLedger.Service.Traffic
