import ChainLedger.Report.Basic

/-!
# The queue of reconciliations

Jobs wait in the order in which they were sent. Sending a job and counting it are two steps, and
so are receiving a job and counting it as processed; in between, other steps may happen. A job
that failed for good counts as processed and as an error. Once the receiving end is gone nothing
can be sent.
-/

set_option autoImplicit false

namespace ChainLedger

/-- A transaction to reconcile, and whether it is on the main chain. -/
structure Job where
  main : Bool
  transaction : Report.Transaction
  deriving DecidableEq, Repr

structure Counters where
  enqueued : Nat := 0
  processed : Nat := 0
  errors : Nat := 0
  deriving DecidableEq, Repr

namespace Counters

def markEnqueued (counters : Counters) : Counters :=
  { counters with enqueued := counters.enqueued + 1 }

def markProcessed (counters : Counters) : Counters :=
  { counters with processed := counters.processed + 1 }

def markError (counters : Counters) : Counters :=
  { counters with processed := counters.processed + 1, errors := counters.errors + 1 }

def waiting (counters : Counters) : Nat := counters.enqueued - counters.processed

end Counters

inductive QueueError
  | closed
  deriving DecidableEq, Repr

def QueueError.message : QueueError → String
  | closed => "Asset loader queue channel is closed"

structure Queue where
  jobs : List Job := []
  isOpen : Bool := true
  counters : Counters := {}
  deriving DecidableEq, Repr

namespace Queue

/-- Sends a job, without counting it. -/
def send (queue : Queue) (job : Job) : Except QueueError Queue :=
  if queue.isOpen then .ok { queue with jobs := queue.jobs ++ [job] } else .error .closed

theorem of_send_eq_ok {queue sent : Queue} {job : Job} (sends : queue.send job = .ok sent) :
    queue.isOpen = true ∧ sent = { queue with jobs := queue.jobs ++ [job] } := by
  rw [send] at sends
  split at sends
  next isOpen => exact ⟨isOpen, (Except.ok.inj sends).symm⟩
  next => cases sends

def enqueue (queue : Queue) (job : Job) : Except QueueError Queue := do
  let queue ← queue.send job
  return { queue with counters := queue.counters.markEnqueued }

def receive? (queue : Queue) : Option (Job × Queue) :=
  match queue.jobs with
  | [] => none
  | job :: jobs => some (job, { queue with jobs })

theorem of_receive?_eq_some {queue rest : Queue} {job : Job}
    (receives : queue.receive? = some (job, rest)) :
    ∃ jobs, queue.jobs = job :: jobs ∧ rest = { queue with jobs } := by
  rw [receive?] at receives
  split at receives
  next => cases receives
  next first jobs waiting =>
    obtain ⟨rfl, rfl⟩ := Prod.mk.inj (Option.some.inj receives)
    exact ⟨jobs, waiting, rfl⟩

/-- Takes the receiving end away; the jobs that wait are gone. -/
def close (queue : Queue) : Queue := { queue with jobs := [], isOpen := false }

end Queue
end ChainLedger
