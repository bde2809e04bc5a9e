import ChainLedger.Ledger.Reconcile
import ChainLedger.Queue.Basic

/-!
# The worker

The worker takes jobs from the queue one at a time, in order. A job that fails is attempted
again until it succeeds or the number of attempts is used up; then it is dropped.

The limit of attempts is counted in words of 32 bits. Where it leaves them, the worker stops at the
first job that it takes, before any attempt: the job is lost, and the receiving end goes with the
worker.
-/

set_option autoImplicit false

namespace ChainLedger.Worker

/-- How a job was dealt with: the number of attempts, and the last one's error if none
succeeded. -/
structure Settlement where
  attempts : Nat
  failure : Option Ledger.Error
  deriving DecidableEq, Repr

/-- One more than the number of retries, unless that overflows. -/
def attemptLimit (maxRetries : UInt32) : Option UInt32 :=
  if maxRetries.toNat + 1 < UInt32.size then some (maxRetries + 1) else none

def attempt (job : Job) : Work Ledger.Error Unit :=
  Ledger.reconcile job.main job.transaction

def settle (job : Job) : Nat → Session → Settlement × Session
  | retries, session =>
    match attempt job session with
    | (.ok (), after) => ({ attempts := 1, failure := none }, after)
    | (.error error, after) =>
      match retries with
      | 0 => ({ attempts := 1, failure := some error }, after)
      | retries + 1 =>
        let (settlement, last) := settle job retries after
        ({ settlement with attempts := settlement.attempts + 1 }, last)

/-- Deals with one job within the limit of attempts; the first attempt is always made. There is no
result where the worker stops. -/
def process (maxRetries : UInt32) (job : Job) (session : Session) :
    Option (Settlement × Session) :=
  (attemptLimit maxRetries).map fun limit => settle job (limit.toNat - 1) session

def Settlement.mark (settlement : Settlement) (counters : Counters) : Counters :=
  match settlement.failure with
  | none => counters.markProcessed
  | some _ => counters.markError

/-- Deals with jobs in order, until the worker stops. -/
def processAll (maxRetries : UInt32) :
    List Job → Queue → Session → List Settlement × Queue × Session
  | [], queue, session => ([], queue, session)
  | job :: jobs, queue, session =>
    match process maxRetries job session with
    | none => ([], queue.close, session)
    | some (settlement, after) =>
      let counters := settlement.mark queue.counters
      let (settlements, last) := processAll maxRetries jobs { queue with jobs, counters } after
      (settlement :: settlements, last)

def drain (maxRetries : UInt32) (queue : Queue) (session : Session) :
    List Settlement × Queue × Session :=
  processAll maxRetries queue.jobs queue session

end ChainLedger.Worker
