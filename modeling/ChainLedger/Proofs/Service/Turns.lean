import ChainLedger.Proofs.Service.Blockwise
import ChainLedger.Proofs.Service.Traffic

/-!
# Turns

What a turn of a client can do, with what it comes from. What is sent or still to be sent are the
jobs of the blocks that have been stored, report by report, unless the queue is closed. Blocks that
are still to be stored are stored in the end, unless an upload is interrupted.
-/

set_option autoImplicit false

namespace ChainLedger.Service

def Turn.Calm : Turn → Prop
  | .arm faults => faults = []
  | _ => True

def Turn.Refusing : Turn → Prop
  | .arm faults => OnlyRefusals faults
  | _ => True

theorem Turn.Calm.refusing {turn : Turn} (calm : turn.Calm) : turn.Refusing := by
  cases turn with
  | arm faults =>
      obtain rfl := (calm : faults = [])
      exact OnlyRefusals.nil
  | _ => trivial

/-! ## Clients -/

namespace Client

variable (client : Client)

def pending : List Dispatch :=
  match client.progress with
  | none => []
  | some progress => progress.jobs

def blocks : List Prepared :=
  match client.progress with
  | none => []
  | some progress => progress.blocks

/-- The blocks that are still to be stored, those of later uploads included. -/
def plan : List Prepared :=
  client.blocks ++ client.requests.flatMap fun request => (prepare request).toOption.getD []

def Finished : Prop := client.requests = [] ∧ client.progress = none

instance : Decidable client.Finished :=
  inferInstanceAs (Decidable (client.requests = [] ∧ client.progress = none))

variable {client}

theorem Finished.pending (finished : client.Finished) : client.pending = [] := by
  rw [Client.pending, finished.2]

theorem Finished.plan (finished : client.Finished) : client.plan = [] := by
  rw [Client.plan, Client.blocks, finished.1, finished.2]
  rfl

end Client

/-- What one turn makes of a client and the rest. -/
inductive Served (traffic : Traffic) (client : Client) : Client → Traffic → Prop
  | idle (free : client.progress = none) (none : client.requests = []) :
      Served traffic client client traffic
  | rejected {request : Report.Upload} {requests : List Report.Upload} {error : Error}
      (free : client.progress = none) (next : client.requests = request :: requests)
      (fails : prepare request = .error error) :
      Served traffic client (Client.answer { client with requests } (.error error)) traffic
  | taken {request : Report.Upload} {requests : List Report.Upload} {blocks : List Prepared}
      (free : client.progress = none) (next : client.requests = request :: requests)
      (ready : prepare request = .ok blocks) :
      Served traffic client { client with requests, progress := some { blocks } } traffic
  | stored {progress : Progress} {block : Report.Block} {entry : Report.BlockEntry}
      {blocks : List Prepared} {row : Stored.Block} {session : Session}
      (busy : client.progress = some progress) (queued : progress.jobs = [])
      (next : progress.blocks = (block, entry) :: blocks)
      (kept : storeBlock block entry traffic.state.session = (.ok row, session)) :
      Served traffic client
        { client with
          progress := some
            { blocks
              jobs := block.transactions.map fun transaction =>
                { report := traffic.stored.length, job := { main := row.entry.main, transaction } }
              views := progress.views ++ [.of row] } }
        { traffic with
          state := { traffic.state with session }
          stored := traffic.stored ++ [(block, entry)] }
  | refused {progress : Progress} {block : Report.Block} {entry : Report.BlockEntry}
      {blocks : List Prepared} {error : StoreError} {session : Session}
      (busy : client.progress = some progress) (queued : progress.jobs = [])
      (next : progress.blocks = (block, entry) :: blocks)
      (failed : storeBlock block entry traffic.state.session = (.error error, session)) :
      Served traffic client (client.answer (.error (.ofStore error)))
        { traffic with state := { traffic.state with session } }
  | sent {progress : Progress} {dispatch : Dispatch} {jobs : List Dispatch}
      (busy : client.progress = some progress) (next : progress.jobs = dispatch :: jobs)
      (isOpen : traffic.state.queue.isOpen = true) :
      Served traffic client { client with progress := some { progress with jobs } }
        { traffic with
          state := { traffic.state with
            queue := { traffic.state.queue with
              jobs := traffic.state.queue.jobs ++ [dispatch.job]
              counters := traffic.state.queue.counters.markEnqueued } }
          sent := traffic.sent ++ [dispatch] }
  | unsent {progress : Progress} {dispatch : Dispatch} {jobs : List Dispatch}
      (busy : client.progress = some progress) (next : progress.jobs = dispatch :: jobs)
      (closed : traffic.state.queue.isOpen = false) :
      Served traffic client (client.answer (.error (.ofQueue .closed))) traffic
  | answered {progress : Progress} (busy : client.progress = some progress)
      (queued : progress.jobs = []) (ended : progress.blocks = []) :
      Served traffic client (client.answer (.ok progress.views)) traffic

namespace Traffic

variable {maxRetries : UInt32} {traffic after : Traffic} {client served : Client}

theorem served_sendNext {progress : Progress} {dispatch : Dispatch} {jobs : List Dispatch}
    (busy : client.progress = some progress) (next : progress.jobs = dispatch :: jobs) :
    Served traffic client (traffic.sendNext client progress dispatch jobs).1
      (traffic.sendNext client progress dispatch jobs).2 := by
  rw [sendNext, Queue.enqueue, Queue.send]
  by_cases isOpen : traffic.state.queue.isOpen = true
  · rw [if_pos isOpen]
    exact .sent busy next isOpen
  · rw [if_neg isOpen]
    exact .unsent busy next (Bool.eq_false_iff.mpr isOpen)

theorem served_storeNext {progress : Progress} {block : Report.Block} {entry : Report.BlockEntry}
    {blocks : List Prepared} (busy : client.progress = some progress)
    (queued : progress.jobs = []) (next : progress.blocks = (block, entry) :: blocks) :
    Served traffic client (traffic.storeNext client progress block entry blocks).1
      (traffic.storeNext client progress block entry blocks).2 := by
  rw [storeNext]
  rcases kept : storeBlock block entry traffic.state.session with ⟨error | row, session⟩
  · exact .refused busy queued next kept
  · exact .stored busy queued next kept

theorem served_serve (traffic : Traffic) (client : Client) :
    Served traffic client (traffic.serve client).1 (traffic.serve client).2 := by
  rw [serve]
  split
  next free none => exact .idle free none
  next request requests free next =>
    rw [Client.take]
    cases ready : prepare request with
    | error error => exact .rejected free next ready
    | ok blocks => exact .taken free next ready
  next progress busy =>
    split
    next dispatch jobs next => exact served_sendNext busy next
    next block entry blocks queued next => exact served_storeNext busy queued next
    next queued ended => exact .answered busy queued ended

end Traffic

namespace Served

variable {traffic after : Traffic} {client served : Client}

theorem clients (serves : Served traffic client served after) :
    after.clients = traffic.clients := by
  cases serves <;> rfl

theorem task (serves : Served traffic client served after) : after.task = traffic.task := by
  cases serves <;> rfl

theorem settled (serves : Served traffic client served after) :
    after.settled = traffic.settled := by
  cases serves <;> rfl

theorem isOpen (serves : Served traffic client served after) :
    after.state.queue.isOpen = traffic.state.queue.isOpen := by
  cases serves <;> rfl

end Served

namespace Traffic

variable {maxRetries : UInt32} {traffic : Traffic}

@[elab_as_elim]
theorem turn_client {holds : Traffic → Prop} (index : Nat) (same : holds traffic)
    (serve : ∀ client served after, traffic.clients[index]? = some client →
      Served traffic client served after →
        holds { after with clients := traffic.clients.set index served }) :
    holds (traffic.turn maxRetries (.client index)) := by
  cases found : traffic.clients[index]? with
  | none =>
      rw [turn, found]
      exact same
  | some client =>
      have serves := served_serve traffic client
      have changed := serve client _ _ found serves
      rw [← serves.clients] at changed
      rw [turn, found]
      exact changed

@[elab_as_elim]
theorem turn_client_alone {holds : Traffic → Prop} {client : Client} (index : Nat)
    (alone : traffic.clients = [client]) (same : holds traffic)
    (serve : ∀ served after, Served traffic client served after →
      holds { after with clients := [served] }) :
    holds (traffic.turn maxRetries (.client index)) := by
  refine turn_client index same fun only served after found serves => ?_
  rw [alone] at found ⊢
  cases index with
  | zero =>
      obtain rfl := Option.some.inj found
      exact serve served after serves
  | succ index => cases found

/-- The worker leaves the clients alone, and what has been stored and queued; it does not open the
queue. -/
theorem work_frame (maxRetries : UInt32) (traffic : Traffic) :
    (traffic.work maxRetries).clients = traffic.clients ∧
      (traffic.work maxRetries).stored = traffic.stored ∧
      (traffic.work maxRetries).sent = traffic.sent ∧
      ((traffic.work maxRetries).state.queue.isOpen = true →
        traffic.state.queue.isOpen = true) := by
  fun_cases work maxRetries traffic with
  | case2 free job queue received =>
      refine ⟨rfl, rfl, rfl, ?_⟩
      obtain ⟨rest, -, rfl⟩ := Queue.of_receive?_eq_some received
      exact id
  | case3 => exact ⟨rfl, rfl, rfl, nofun⟩
  | _ => exact ⟨rfl, rfl, rfl, id⟩

theorem isOpen_of_turn {turn : Turn}
    (isOpen : (traffic.turn maxRetries turn).state.queue.isOpen = true) :
    traffic.state.queue.isOpen = true := by
  revert isOpen
  cases turn with
  | worker => exact (work_frame maxRetries traffic).2.2.2
  | wait now => exact id
  | arm faults => exact id
  | client index =>
      exact turn_client index id fun _ _ _ _ serves isOpen => serves.isOpen.symm.trans isOpen

theorem run_keeps {holds : Traffic → Prop} {allowed : Turn → Prop}
    (step : ∀ traffic turn, allowed turn → holds traffic → holds (traffic.turn maxRetries turn))
    {turns : List Turn} (allow : ∀ turn ∈ turns, allowed turn) (start : holds traffic) :
    holds (traffic.run maxRetries turns) := by
  induction turns generalizing traffic with
  | nil => exact start
  | cons turn turns ih =>
      exact ih (fun other member => allow other (List.mem_cons_of_mem _ member))
        (step traffic turn (allow turn List.mem_cons_self) start)

end Traffic

/-! ## Dispatches -/

/-- The jobs that stored blocks send, where the first of the blocks is the report of a number. -/
def dispatched (first : Nat) (prepared : List Prepared) : List Dispatch :=
  (prepared.zipIdx first).flatMap fun pair => pair.1.jobs.map (Dispatch.mk pair.2)

theorem dispatched_append (first : Nat) (earlier later : List Prepared) :
    dispatched first (earlier ++ later) =
      dispatched first earlier ++ dispatched (first + earlier.length) later := by
  simp only [dispatched, List.zipIdx_append, List.flatMap_append]

theorem dispatched_singleton (first : Nat) (pair : Prepared) :
    dispatched first [pair] = pair.jobs.map (Dispatch.mk first) := by
  simp [dispatched]

theorem mem_dispatched {stored : List Prepared} {dispatch : Dispatch} :
    dispatch ∈ dispatched 0 stored ↔
      ∃ pair, stored[dispatch.report]? = some pair ∧ dispatch.job ∈ pair.jobs := by
  simp only [dispatched, List.mem_flatMap, List.mem_map]
  constructor
  · rintro ⟨⟨pair, report⟩, found, job, isJob, rfl⟩
    exact ⟨pair, List.mem_zipIdx_iff_getElem?.mp found, isJob⟩
  · rintro ⟨pair, found, isJob⟩
    exact ⟨(pair, dispatch.report), List.mem_zipIdx_iff_getElem?.mpr found, dispatch.job, isJob,
      rfl⟩

theorem jobs_dispatched (first : Nat) (prepared : List Prepared) :
    (dispatched first prepared).map (·.job) = prepared.flatMap Prepared.jobs := by
  induction prepared generalizing first with
  | nil => rfl
  | cons pair rest ih =>
      rw [← List.singleton_append, dispatched_append, dispatched_singleton, List.map_append, ih,
        List.map_map, List.flatMap_append, List.flatMap_singleton]
      exact congrArg (· ++ _) (List.map_id _)

namespace Served

variable {traffic after : Traffic} {client served : Client}

theorem dispatches (serves : Served traffic client served after)
    (refusals : OnlyRefusals traffic.state.session.faults) :
    ∃ pairs, after.stored = traffic.stored ++ pairs ∧
      (after.sent ++ served.pending = traffic.sent ++ client.pending ++
          dispatched traffic.stored.length pairs ∨
        traffic.state.queue.isOpen = false ∧ pairs = [] ∧ after.sent = traffic.sent ∧
          served.pending = []) := by
  cases serves with
  | idle => exact ⟨[], by simp [dispatched]⟩
  | rejected free => exact ⟨[], by simp [dispatched, Client.pending, Client.answer, free]⟩
  | taken free => exact ⟨[], by simp [dispatched, Client.pending, free]⟩
  | @stored progress block entry blocks row session busy queued next kept =>
      have main := ((storeBlock_answers _ _ _ _).of_ok refusals kept).1
      refine ⟨[(block, entry)], rfl, Or.inl ?_⟩
      simp [dispatched_singleton, Client.pending, busy, queued, Prepared.jobs, main]
  | refused busy queued =>
      exact ⟨[], by simp [dispatched, Client.pending, Client.answer, busy, queued]⟩
  | sent busy next => exact ⟨[], by simp [dispatched, Client.pending, busy, next]⟩
  | unsent busy next closed =>
      exact ⟨[], by simp, Or.inr ⟨closed, rfl, rfl, rfl⟩⟩
  | answered busy queued =>
      exact ⟨[], by simp [dispatched, Client.pending, Client.answer, busy, queued]⟩

/-- An upload ends before its blocks do: the queue is closed, or a block is not stored. -/
structure Interrupted (traffic : Traffic) (client served : Client) (after : Traffic) : Prop where
  answer : ∃ error, served = client.answer (.error error)
  stored : after.stored = traffic.stored
  cause : traffic.state.queue.isOpen = false ∨ ∃ block entry error session,
    storeBlock block entry traffic.state.session = (.error error, session)

/-- What a client has stored and is still going to store stays the same, unless an upload is
interrupted. -/
theorem plan (serves : Served traffic client served after) :
    after.stored ++ served.plan = traffic.stored ++ client.plan ∨
      Interrupted traffic client served after := by
  cases serves with
  | idle => exact Or.inl rfl
  | rejected free next fails =>
      left
      simp [Client.plan, Client.blocks, Client.answer, free, next, fails, Except.toOption]
  | taken free next ready =>
      left
      simp [Client.plan, Client.blocks, free, next, ready, Except.toOption]
  | stored busy queued next kept =>
      left
      simp [Client.plan, Client.blocks, busy, next]
  | refused busy queued next failed =>
      exact Or.inr ⟨⟨_, rfl⟩, rfl, Or.inr ⟨_, _, _, _, failed⟩⟩
  | sent busy =>
      left
      simp [Client.plan, Client.blocks, busy]
  | unsent busy next closed => exact Or.inr ⟨⟨_, rfl⟩, rfl, Or.inl closed⟩
  | answered busy queued ended =>
      left
      simp [Client.plan, Client.blocks, Client.answer, busy, ended]

theorem plan_of_noFaults (serves : Served traffic client served after)
    (noFaults : traffic.state.session.faults = [])
    (isOpen : traffic.state.queue.isOpen = true) :
    after.stored ++ served.plan = traffic.stored ++ client.plan := by
  rcases serves.plan with same | ⟨-, -, closed | ⟨block, entry, error, session, failed⟩⟩
  · exact same
  · rw [isOpen] at closed
    cases closed
  · obtain ⟨row, after, stores⟩ := stores_of_noFaults noFaults block entry
    rw [stores] at failed
    cases failed

/-- A client stores no block but those that it is going to store. -/
theorem plan_sublist (serves : Served traffic client served after) :
    (after.stored ++ served.plan).Sublist (traffic.stored ++ client.plan) := by
  rcases serves.plan with same | ⟨⟨error, rfl⟩, stored, -⟩
  · rw [same]
  · rw [stored]
    exact (List.sublist_append_right _ _).append_left _

theorem sent_eq (serves : Served traffic client served after) (queued : client.pending = []) :
    after.sent = traffic.sent := by
  cases serves with
  | sent busy next =>
      simp [Client.pending, busy, next] at queued
  | _ => rfl

theorem answers_prefix (serves : Served traffic client served after) :
    client.answers <+: served.answers := by
  cases serves with
  | idle => exact List.prefix_refl _
  | taken => exact List.prefix_refl _
  | stored => exact List.prefix_refl _
  | sent => exact List.prefix_refl _
  | rejected => exact List.prefix_append _ _
  | refused => exact List.prefix_append _ _
  | unsent => exact List.prefix_append _ _
  | answered => exact List.prefix_append _ _

end Served

end ChainLedger.Service
