import ChainLedger.Proofs.Service.Content
import ChainLedger.Queue.Worker

/-!
# Traffic

Clients send uploads, each one when the upload before it is answered, and a worker takes jobs from
the queue. With a turn a client has one block stored or one job queued, and the worker takes one
job or makes one attempt at it; between attempts others have their turns. Where only one client
and then only the worker have turns, uploads are answered and the queue is drained as they are in
one go. A worker without a limit of attempts stops with the first job that it takes: the queue is
closed, and what waits in it is lost.
-/

set_option autoImplicit false

namespace ChainLedger

/-- A job that the worker has taken, and the number of attempts at it that have failed. -/
structure Worker.Task where
  job : Job
  failed : Nat := 0

namespace Service

/-- A job on its way to the queue, with the place of its report among those that were stored. -/
structure Dispatch where
  report : Nat
  job : Job

/-- An upload under way: the blocks that are still to be stored, the jobs of the block stored last
that are still to be queued, and what the answer is going to show. -/
structure Progress where
  blocks : List Prepared
  jobs : List Dispatch := []
  views : List BlockView := []

structure Client where
  requests : List Report.Upload := []
  progress : Option Progress := none
  answers : List (Except Error (List BlockView)) := []

namespace Client

def answer (client : Client) (answer : Except Error (List BlockView)) : Client :=
  { client with progress := none, answers := client.answers ++ [answer] }

def take (client : Client) (request : Report.Upload) (requests : List Report.Upload) : Client :=
  match prepare request with
  | .error error => { client with requests }.answer (.error error)
  | .ok blocks => { client with requests, progress := some { blocks } }

end Client

/-- The service with its clients and its worker, and what is to be told of the past: the blocks in
the order in which they were stored, the jobs in the order in which they were queued, and how jobs
were settled. -/
structure Traffic where
  clients : List Client := []
  task : Option Worker.Task := none
  state : State := {}
  stored : List Prepared := []
  sent : List Dispatch := []
  settled : List (Job × Worker.Settlement) := []

inductive Turn
  | client (index : Nat)
  | worker
  | wait (now : Instant)
  | arm (faults : List ArmedFault)

namespace Traffic

def storeNext (traffic : Traffic) (client : Client) (progress : Progress) (block : Report.Block)
    (entry : Report.BlockEntry) (blocks : List Prepared) : Client × Traffic :=
  match storeBlock block entry traffic.state.session with
  | (.error error, session) =>
    (client.answer (.error (.ofStore error)),
      { traffic with state := { traffic.state with session } })
  | (.ok row, session) =>
    ({ client with
        progress := some
          { blocks
            jobs := block.transactions.map fun transaction =>
              { report := traffic.stored.length, job := { main := row.entry.main, transaction } }
            views := progress.views ++ [.of row] } },
      { traffic with
        state := { traffic.state with session }
        stored := traffic.stored ++ [(block, entry)] })

def sendNext (traffic : Traffic) (client : Client) (progress : Progress) (dispatch : Dispatch)
    (jobs : List Dispatch) : Client × Traffic :=
  match traffic.state.queue.enqueue dispatch.job with
  | .error error => (client.answer (.error (.ofQueue error)), traffic)
  | .ok queue =>
    ({ client with progress := some { progress with jobs } },
      { traffic with
        state := { traffic.state with queue }
        sent := traffic.sent ++ [dispatch] })

def serve (traffic : Traffic) (client : Client) : Client × Traffic :=
  match client.progress, client.requests with
  | none, [] => (client, traffic)
  | none, request :: requests => (client.take request requests, traffic)
  | some progress, _ =>
    match progress.jobs, progress.blocks with
    | dispatch :: jobs, _ => traffic.sendNext client progress dispatch jobs
    | [], (block, entry) :: blocks => traffic.storeNext client progress block entry blocks
    | [], [] => (client.answer (.ok progress.views), traffic)

def settle (traffic : Traffic) (job : Job) (settlement : Worker.Settlement) (session : Session) :
    Traffic :=
  let queue := traffic.state.queue
  { traffic with
    task := none
    state := { session, queue := { queue with counters := settlement.mark queue.counters } }
    settled := traffic.settled ++ [(job, settlement)] }

def work (maxRetries : UInt32) (traffic : Traffic) : Traffic :=
  match traffic.task with
  | none =>
    match traffic.state.queue.receive? with
    | none => traffic
    | some (job, queue) =>
      { traffic with task := some { job }, state := { traffic.state with queue } }
  | some task =>
    match Worker.attemptLimit maxRetries with
    | none => { traffic with state := { traffic.state with queue := traffic.state.queue.close } }
    | some limit =>
      let attempts := task.failed + 1
      match Worker.attempt task.job traffic.state.session with
      | (.ok (), session) => traffic.settle task.job { attempts, failure := none } session
      | (.error error, session) =>
        if attempts < limit.toNat then
          { traffic with
            task := some { task with failed := attempts }
            state := { traffic.state with session } }
        else traffic.settle task.job { attempts, failure := some error } session

def turn (maxRetries : UInt32) (traffic : Traffic) : Turn → Traffic
  | .client index =>
    match traffic.clients[index]? with
    | none => traffic
    | some client =>
      let (served, traffic) := traffic.serve client
      { traffic with clients := traffic.clients.set index served }
  | .worker => traffic.work maxRetries
  | .wait now =>
    { traffic with
      state := { traffic.state with session := { traffic.state.session with now } } }
  | .arm faults =>
    { traffic with
      state := { traffic.state with session := { traffic.state.session with faults } } }

def start (uploads : List (List Report.Upload)) (state : State) : Traffic :=
  { clients := uploads.map fun requests => { requests }, state }

def run (maxRetries : UInt32) (turns : List Turn) (traffic : Traffic) : Traffic :=
  turns.foldl (turn maxRetries) traffic

theorem run_append {maxRetries : UInt32} (first second : List Turn) (traffic : Traffic) :
    run maxRetries (first ++ second) traffic =
      run maxRetries second (run maxRetries first traffic) :=
  List.foldl_append

end Traffic
end Service
end ChainLedger
