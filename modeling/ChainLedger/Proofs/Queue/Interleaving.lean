import ChainLedger.Proofs.Queue.Serving
import ChainLedger.Proofs.Service.PageWords
import ChainLedger.Proofs.Success

/-!
# Counting jobs between any two steps

Any number of producers send jobs to one worker. A producer counts a job in a step of its own,
after it has sent it, and the worker may have dealt with the job by then. Whatever the order of the
steps, every job that was sent waits, is in the worker's hand or is counted as processed, and is
counted as enqueued or stands between the two steps of its producer.

The worker gives up the receiving end only while nothing waits. Whether there are producers left
then is not asked, so that the others find the queue closed.
-/

set_option autoImplicit false

namespace ChainLedger.Worker

/-- Where a producer stands: between two jobs, or between the two steps of one. -/
inductive Phase
  | idle
  | uncounted
  deriving DecidableEq, Repr

/-- The producers, the queue and the worker, with all jobs that have been sent and how the worker
has settled them. -/
structure Exchange where
  producers : List Phase := []
  queue : Queue := {}
  hand : Option Job := none
  sent : List Job := []
  settled : List (Job × Settlement) := []

namespace Exchange

def uncounted (exchange : Exchange) : Nat := exchange.producers.count .uncounted

def held (exchange : Exchange) : Nat := exchange.hand.toList.length

/-- One step of one of the producers or of the worker. -/
inductive Step : Exchange → Exchange → Prop
  | joins (exchange : Exchange) :
      Step exchange { exchange with producers := .idle :: exchange.producers }
  | leaves {exchange : Exchange} {before after : List Phase}
      (idle : exchange.producers = before ++ .idle :: after) :
      Step exchange { exchange with producers := before ++ after }
  | sends {exchange : Exchange} {before after : List Phase} {job : Job} {queue : Queue}
      (idle : exchange.producers = before ++ .idle :: after)
      (sends : exchange.queue.send job = .ok queue) :
      Step exchange
        { exchange with
          producers := before ++ .uncounted :: after, queue, sent := exchange.sent ++ [job] }
  | refused {exchange : Exchange} {before after : List Phase} {job : Job} {error : QueueError}
      (idle : exchange.producers = before ++ .idle :: after)
      (refuses : exchange.queue.send job = .error error) : Step exchange exchange
  | counts {exchange : Exchange} {before after : List Phase}
      (uncounted : exchange.producers = before ++ .uncounted :: after) :
      Step exchange
        { exchange with
          producers := before ++ .idle :: after
          queue := { exchange.queue with counters := exchange.queue.counters.markEnqueued } }
  | receives {exchange : Exchange} {job : Job} {queue : Queue} (free : exchange.hand = none)
      (receives : exchange.queue.receive? = some (job, queue)) :
      Step exchange { exchange with hand := some job, queue }
  | settles {exchange : Exchange} {job : Job} (holds : exchange.hand = some job)
      (settlement : Settlement) :
      Step exchange
        { exchange with
          hand := none
          queue := { exchange.queue with counters := settlement.mark exchange.queue.counters }
          settled := exchange.settled ++ [(job, settlement)] }
  | givesUp {exchange : Exchange} (free : exchange.hand = none)
      (empty : exchange.queue.jobs = []) :
      Step exchange { exchange with queue := exchange.queue.close }

/-- Any steps in any order lead here, from an open queue without producers. -/
def Reachable (exchange : Exchange) : Prop := Relation.ReflTransGen Step {} exchange

/-! ## What every step keeps -/

/-- The jobs that were sent are those settled, the one in hand and those that wait, in order. -/
structure Told (exchange : Exchange) : Prop where
  order : exchange.settled.map (·.1) ++ exchange.hand.toList ++ exchange.queue.jobs = exchange.sent
  enqueued : exchange.queue.counters.enqueued + exchange.uncounted = exchange.sent.length
  processed : exchange.queue.counters.processed = exchange.settled.length
  errors : exchange.queue.counters.errors = exchange.settled.countP (·.2.failure.isSome)
  given : exchange.queue.isOpen = false → exchange.hand = none ∧ exchange.queue.jobs = []

variable {exchange next : Exchange}

theorem count_place (before after : List Phase) (phase : Phase) :
    (before ++ phase :: after).count .uncounted =
      (before ++ after).count .uncounted + if phase = .uncounted then 1 else 0 := by
  rw [List.count_append, List.count_cons, List.count_append, Nat.add_assoc]
  simp only [beq_iff_eq]

theorem Told.step (told : exchange.Told) (step : Step exchange next) : next.Told := by
  obtain ⟨order, enqueued, processed, errors, given⟩ := told
  cases step with
  | joins => exact ⟨order, enqueued, processed, errors, given⟩
  | leaves idle =>
      rw [uncounted, idle, count_place] at enqueued
      exact ⟨order, enqueued, processed, errors, given⟩
  | sends idle sends =>
      obtain ⟨isOpen, rfl⟩ := Queue.of_send_eq_ok sends
      rw [uncounted, idle, count_place] at enqueued
      refine ⟨?_, ?_, processed, errors, fun closed => absurd (isOpen.symm.trans closed) nofun⟩
      · rw [← order]
        exact (List.append_assoc _ _ _).symm
      · rw [uncounted, count_place, List.length_append, ← enqueued]
        rfl
  | refused => exact ⟨order, enqueued, processed, errors, given⟩
  | counts stands =>
      rw [uncounted, stands, count_place, ← Nat.add_assoc, Nat.add_right_comm] at enqueued
      refine ⟨order, ?_, processed, errors, given⟩
      rw [uncounted, count_place]
      exact enqueued
  | receives free receives =>
      obtain ⟨jobs, waits, rfl⟩ := Queue.of_receive?_eq_some receives
      rw [free, waits] at order
      refine ⟨?_, enqueued, processed, errors, fun closed => ?_⟩
      · rw [← order, List.append_assoc, List.append_assoc]
        rfl
      · -- the queue has been given up while it was empty, so no job would have been received
        have none := (given closed).2
        rw [waits] at none
        cases none
  | settles holds settlement =>
      rw [holds] at order
      refine ⟨?_, ?_, ?_, ?_, fun closed => ⟨rfl, (given closed).2⟩⟩
      · rw [← order, List.map_append]
        exact congrArg (· ++ _) (List.append_nil _)
      · exact (congrArg (· + _) (Settlement.mark_enqueued _ _)).trans enqueued
      · rw [Settlement.mark_processed, processed, List.length_append, List.length_singleton]
      · rw [Settlement.mark_errors, errors, List.countP_append, List.countP_singleton]
  | givesUp free empty =>
      refine ⟨?_, enqueued, processed, errors, fun _ => ⟨free, rfl⟩⟩
      rw [empty] at order
      exact order

theorem Reachable.told (reachable : exchange.Reachable) : exchange.Told := by
  induction reachable with
  | refl => exact ⟨rfl, rfl, rfl, rfl, nofun⟩
  | tail _ step ih => exact ih.step step

/-! ## Producers and worker without interruption -/

theorem Reachable.enqueue (reachable : exchange.Reachable) {before after : List Phase}
    (idle : exchange.producers = before ++ .idle :: after) {job : Job} {queue : Queue}
    (enqueues : exchange.queue.enqueue job = .ok queue) :
    Reachable { exchange with queue, sent := exchange.sent ++ [job] } := by
  obtain ⟨sent, sends, done⟩ := exists_ok_of_bind_ok enqueues
  obtain rfl := Except.ok.inj done
  have counted := (reachable.tail (.sends idle sends)).tail (.counts rfl)
  rw [← idle] at counted
  exact counted

/-- A worker that is not interrupted drains the queue. -/
theorem Reachable.drain {maxRetries : UInt32} (below : maxRetries.toNat + 1 < UInt32.size)
    (jobs : List Job) :
    ∀ {exchange : Exchange} (session : Session) {last : Session} {settlements : List Settlement}
        {queue : Queue},
      exchange.Reachable → exchange.hand = none → exchange.queue.jobs = jobs →
        Worker.drain maxRetries exchange.queue session = (settlements, queue, last) →
          Reachable
            { exchange with queue, settled := exchange.settled ++ jobs.zip settlements } := by
  induction jobs with
  | nil =>
      intro exchange session last settlements queue reachable _ empty drained
      rw [drain_of_empty empty] at drained
      obtain ⟨rfl, same⟩ := Prod.mk.inj drained
      obtain ⟨rfl, -⟩ := Prod.mk.inj same
      rw [List.zip_nil_left, List.append_nil]
      exact reachable
  | cons job jobs ih =>
      intro exchange session last settlements queue reachable free waits drained
      have receives : exchange.queue.receive? = some (job, { exchange.queue with jobs }) := by
        rw [Queue.receive?, waits]
      rcases settles : settle job maxRetries.toNat session with ⟨settlement, after⟩
      rw [drain_of_cons waits (process_eq_some_iff.mpr ⟨below, settles⟩)] at drained
      obtain ⟨rfl, rest⟩ := Prod.mk.inj drained
      have settled :=
        (reachable.tail (.receives free receives)).tail (.settles rfl settlement)
      have served := ih after settled rfl rfl (congrArg (Prod.mk _) rest)
      rw [← free, List.append_assoc] at served
      exact served

/-! ## What the counters tell -/

def size (exchange : Exchange) : UInt64 :=
  Service.Word.minus (.ofNat exchange.queue.counters.enqueued)
    (.ofNat exchange.queue.counters.processed)

/-- The counters account for every job that was sent. -/
structure Accounts (exchange : Exchange) : Prop where
  sent : exchange.sent.length =
    exchange.queue.jobs.length + exchange.held + exchange.queue.counters.processed
  counted : exchange.sent.length = exchange.queue.counters.enqueued + exchange.uncounted
  errors : exchange.queue.counters.errors ≤ exchange.queue.counters.processed
  waiting : (exchange.queue.counters.waiting : Int) =
    max 0 (exchange.queue.jobs.length + exchange.held - exchange.uncounted)
  settled : exchange.uncounted = 0 →
    exchange.queue.counters.waiting = exchange.queue.jobs.length + exchange.held
  size : exchange.sent.length < UInt64.size →
    exchange.size.toNat = exchange.queue.counters.waiting
  refused : exchange.queue.isOpen = false →
    exchange.sent.length = exchange.queue.counters.processed ∧
      ∀ job, exchange.queue.enqueue job = .error .closed

theorem Told.accounts (told : exchange.Told) : exchange.Accounts := by
  obtain ⟨order, enqueued, processed, errors, given⟩ := told
  have sent := congrArg List.length order
  rw [List.length_append, List.length_append, List.length_map, ← processed] at sent
  change _ + exchange.held + _ = _ at sent
  refine ⟨by omega, enqueued.symm, ?_, ?_, fun none => ?_, fun few => ?_, fun closed => ⟨?_, ?_⟩⟩
  · rw [errors, processed]
    exact List.countP_le_length
  · rw [Counters.waiting]
    omega
  · rw [Counters.waiting]
    omega
  · rw [size, Service.Word.toNat_minus, UInt64.toNat_ofNat_of_lt' (by omega),
      UInt64.toNat_ofNat_of_lt' (by omega), Counters.waiting]
  · obtain ⟨free, empty⟩ := given closed
    rw [held, free, empty] at sent
    exact sent.symm
  · intro job
    rw [Queue.enqueue, Queue.send, closed]
    rfl

/-- In every state that any interleaving leads to, the counters account for every job. -/
theorem accounts_of_reachable (reachable : exchange.Reachable) : exchange.Accounts :=
  reachable.told.accounts

/-- Two producers, of which one has sent a job that the worker has settled before it is counted, and
the other has enqueued one that waits. The size of the queue is told as zero. -/
def hasty : Exchange where
  producers := [.uncounted, .idle]
  queue := { jobs := [withdrawnJob], counters := { enqueued := 1, processed := 1, errors := 1 } }
  sent := [revisedJob, withdrawnJob]
  settled := [revisedJob].zip (Worker.drain 0 { jobs := [revisedJob] } {}).1

theorem reachable_hasty : hasty.Reachable := by
  have joined : Reachable { producers := [.idle, .idle] } :=
    (Relation.ReflTransGen.refl.tail (.joins _)).tail (.joins _)
  have first : [Phase.idle, .idle] = [] ++ .idle :: [.idle] := rfl
  have sends : Queue.send {} revisedJob = .ok { jobs := [revisedJob] } := rfl
  have sent : Reachable _ := joined.tail (.sends first sends)
  have drained : Worker.drain 0 { jobs := [revisedJob] } {} =
      ((Worker.drain 0 { jobs := [revisedJob] } {}).1,
        { counters := { processed := 1, errors := 1 } },
        (Worker.drain 0 { jobs := [revisedJob] } {}).2.2) :=
    Prod.ext rfl (Prod.ext (by decide +kernel) rfl)
  have second : [Phase.uncounted, .idle] = [.uncounted] ++ .idle :: [] := rfl
  exact (sent.drain (by decide) [revisedJob] {} rfl rfl drained).enqueue second rfl

theorem accounts_hasty :
    hasty.Reachable ∧ hasty.sent.length = 2 ∧ hasty.uncounted = 1 ∧
      hasty.queue.counters.waiting = 0 ∧ hasty.Accounts :=
  ⟨reachable_hasty, rfl, rfl, rfl, accounts_of_reachable reachable_hasty⟩

end Exchange
end ChainLedger.Worker
