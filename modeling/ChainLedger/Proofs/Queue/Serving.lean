import ChainLedger.Proofs.Queue.Attempts

/-!
# Serving a queue

A worker serves its queue while jobs are sent to it. A run is told by what was sent and by what
was dealt with, in order. Between any two jobs, further jobs may be sent and counted, faults may
be armed and time may pass. Once all jobs are drained the store is what the jobs that succeeded
make of the first store, one after the other.
-/

set_option autoImplicit false

namespace ChainLedger.Worker

structure Dealing where
  job : Job
  before : Session
  settlement : Settlement
  after : Session

theorem Settlement.mark_enqueued (settlement : Settlement) (counters : Counters) :
    (settlement.mark counters).enqueued = counters.enqueued := by
  rw [Settlement.mark]
  split <;> rfl

theorem Settlement.mark_processed (settlement : Settlement) (counters : Counters) :
    (settlement.mark counters).processed = counters.processed + 1 := by
  rw [Settlement.mark]
  split <;> rfl

theorem Settlement.mark_errors (settlement : Settlement) (counters : Counters) :
    (settlement.mark counters).errors =
      counters.errors + if settlement.failure.isSome then 1 else 0 := by
  rw [Settlement.mark]
  split <;> simp [*, Counters.markProcessed, Counters.markError]

namespace Dealing

def succeeded (dealing : Dealing) : Bool := dealing.settlement.failure.isNone

/-- Each job is dealt with on the store that the one before it has left. -/
def Chained : Store → List Dealing → Store → Prop
  | first, [], last => last = first
  | first, dealing :: dealings, last =>
    dealing.before.store = first ∧ Chained dealing.after.store dealings last

/-- What the jobs that succeeded make of a store, where no fault is armed. -/
def fold (start : Store) (dealings : List Dealing) : Store :=
  (dealings.filter (·.succeeded)).foldl
    (fun store dealing => (attempt dealing.job { store, now := dealing.before.now }).2.store) start

theorem Chained.append {first last : Store} {dealings : List Dealing} {dealing : Dealing}
    (chained : Chained first dealings dealing.before.store) (ends : last = dealing.after.store) :
    Chained first (dealings ++ [dealing]) last := by
  induction dealings generalizing first with
  | nil => exact ⟨chained, ends⟩
  | cons head dealings ih => exact ⟨chained.1, ih chained.2⟩

theorem Chained.eq_fold {maxRetries : Nat} {first last : Store} {dealings : List Dealing}
    (chained : Chained first dealings last)
    (dealt : ∀ dealing ∈ dealings,
      Dealt maxRetries dealing.job dealing.before dealing.settlement dealing.after) :
    last = fold first dealings := by
  induction dealings generalizing first with
  | nil => exact chained
  | cons dealing dealings ih =>
      obtain ⟨starts, chained⟩ := chained
      have rest := ih chained fun other member => dealt other (by simp [member])
      have step := (dealt dealing (by simp)).store_eq
      rw [Session.calm, starts] at step
      rw [rest, fold, fold, List.filter_cons, step, succeeded]
      split <;> rfl

end Dealing

/-- What is to be told of a run: the jobs that were sent, how they were dealt with, how many are
sent and not yet counted, and where queue and session are. -/
structure Scene where
  sent : List Job := []
  dealings : List Dealing := []
  uncounted : Nat := 0
  queue : Queue := {}
  session : Session

namespace Scene

def send (scene : Scene) (job : Job) (queue : Queue) : Scene :=
  { scene with sent := scene.sent ++ [job], uncounted := scene.uncounted + 1, queue }

def work (scene : Scene) (job : Job) (queue : Queue) (settlement : Settlement)
    (after : Session) : Scene :=
  { scene with
    dealings := scene.dealings ++ [{ job, before := scene.session, settlement, after }]
    queue := { queue with counters := settlement.mark queue.counters }
    session := after }

end Scene

/-- The scenes that a worker comes to which starts with an empty queue. -/
inductive Serving (maxRetries : UInt32) (start : Store) : Scene → Prop
  | started {session : Session} (store : session.store = start)
      (refusals : OnlyRefusals session.faults) : Serving maxRetries start { session }
  | sent {scene : Scene} {job : Job} {queue : Queue} (serving : Serving maxRetries start scene)
      (sends : scene.queue.send job = .ok queue) :
      Serving maxRetries start (scene.send job queue)
  | counted {scene : Scene} {uncounted : Nat} (serving : Serving maxRetries start scene)
      (pending : scene.uncounted = uncounted + 1) :
      Serving maxRetries start
        { scene with
          uncounted
          queue := { scene.queue with counters := scene.queue.counters.markEnqueued } }
  | disturbed {scene : Scene} {faults : List ArmedFault} (serving : Serving maxRetries start scene)
      (refusals : OnlyRefusals faults) (now : Instant) :
      Serving maxRetries start { scene with session := { scene.session with faults, now } }
  | worked {scene : Scene} {job : Job} {queue : Queue} {settlement : Settlement}
      {after : Session} (serving : Serving maxRetries start scene)
      (receives : scene.queue.receive? = some (job, queue))
      (processes : process maxRetries job scene.session = some (settlement, after)) :
      Serving maxRetries start (scene.work job queue settlement after)

structure Scene.Told (maxRetries : Nat) (start : Store) (scene : Scene) : Prop where
  order : scene.dealings.map (·.job) ++ scene.queue.jobs = scene.sent
  dealt : ∀ dealing ∈ scene.dealings,
    Dealt maxRetries dealing.job dealing.before dealing.settlement dealing.after
  chained : Dealing.Chained start scene.dealings scene.session.store
  refusals : OnlyRefusals scene.session.faults
  enqueued : scene.queue.counters.enqueued + scene.uncounted = scene.sent.length
  processed : scene.queue.counters.processed = scene.dealings.length
  errors : scene.queue.counters.errors = scene.dealings.countP (!·.succeeded)

namespace Scene.Told

variable {start : Store} {scene : Scene} {job : Job} {queue : Queue}

theorem send {maxRetries : Nat} (told : scene.Told maxRetries start)
    (sends : scene.queue.send job = .ok queue) : (scene.send job queue).Told maxRetries start := by
  obtain ⟨-, rfl⟩ := Queue.of_send_eq_ok sends
  refine ⟨?_, told.dealt, told.chained, told.refusals, ?_, told.processed, told.errors⟩
  · simp only [Scene.send, ← told.order, List.append_assoc]
  · have counted := told.enqueued
    simp only [Scene.send, List.length_append, List.length_singleton]
    omega

theorem work {maxRetries : UInt32} {settlement : Settlement} {after : Session}
    (told : scene.Told maxRetries.toNat start)
    (receives : scene.queue.receive? = some (job, queue))
    (processes : process maxRetries job scene.session = some (settlement, after)) :
    (scene.work job queue settlement after).Told maxRetries.toNat start := by
  obtain ⟨dealt, refusals⟩ := dealt_of_process processes told.refusals
  have order := told.order
  have processed := told.processed
  have errors := told.errors
  obtain ⟨jobs, waits, rfl⟩ := Queue.of_receive?_eq_some receives
  rw [waits] at order
  refine ⟨?_, ?_, told.chained.append rfl, refusals, ?_, ?_, ?_⟩
  · simp [Scene.work, ← order]
  · intro dealing member
    rcases List.mem_append.mp member with member | isNew
    · exact told.dealt dealing member
    · rw [List.mem_singleton.mp isNew]
      exact dealt
  · exact (congrArg (· + _) (Settlement.mark_enqueued _ _)).trans told.enqueued
  · simp [Scene.work, Settlement.mark_processed, processed]
  · simp [Scene.work, Settlement.mark_errors, errors, Dealing.succeeded, List.countP_append,
      List.countP_cons]

end Scene.Told

theorem Serving.told {maxRetries : UInt32} {start : Store} {scene : Scene}
    (serving : Serving maxRetries start scene) : scene.Told maxRetries.toNat start := by
  induction serving with
  | started store refusals =>
      exact ⟨rfl, (fun _ member => nomatch member), store, refusals, rfl, rfl, rfl⟩
  | sent _ sends ih => exact ih.send sends
  | counted _ pending ih =>
      refine ⟨ih.order, ih.dealt, ih.chained, ih.refusals, ?_, ih.processed, ih.errors⟩
      have counted := ih.enqueued
      simp only [Counters.markEnqueued]
      omega
  | disturbed _ refusals now ih =>
      exact ⟨ih.order, ih.dealt, ih.chained, refusals, ih.enqueued, ih.processed, ih.errors⟩
  | worked _ receives processes ih => exact ih.work receives processes

/-! ## Draining -/

theorem Serving.drain {maxRetries : UInt32} (below : maxRetries.toNat + 1 < UInt32.size)
    {start : Store} (jobs : List Job) :
    ∀ {scene : Scene}, Serving maxRetries start scene → scene.queue.jobs = jobs →
      ∃ dealings queue session, Worker.drain maxRetries scene.queue scene.session =
          (dealings.map (·.settlement), queue, session) ∧ queue.jobs = [] ∧
        Serving maxRetries start
          { scene with dealings := scene.dealings ++ dealings, queue, session } := by
  induction jobs with
  | nil =>
      intro scene serving waits
      refine ⟨[], scene.queue, scene.session, drain_of_empty waits _ _, waits, ?_⟩
      rw [List.append_nil]
      exact serving
  | cons job jobs ih =>
      intro scene serving waits
      have receives : scene.queue.receive? = some (job, { scene.queue with jobs }) := by
        rw [Queue.receive?, waits]
      rcases settles : settle job maxRetries.toNat scene.session with ⟨settlement, after⟩
      have processes := process_eq_some_iff.mpr ⟨below, settles⟩
      obtain ⟨dealings, queue, session, drained, empty, served⟩ :=
        ih (serving.worked receives processes) rfl
      refine ⟨{ job, before := scene.session, settlement, after } :: dealings, queue, session, ?_,
        empty, ?_⟩
      · rw [drain_of_cons waits processes]
        exact congrArg (fun drained => (_ :: drained.1, drained.2)) drained
      · rw [Scene.work, List.append_assoc, List.singleton_append] at served
        exact served

structure Scene.Folded (maxRetries : Nat) (start : Store) (scene : Scene) : Prop where
  order : scene.dealings.map (·.job) = scene.sent
  dealt : ∀ dealing ∈ scene.dealings,
    Dealt maxRetries dealing.job dealing.before dealing.settlement dealing.after
  chained : Dealing.Chained start scene.dealings scene.session.store
  ledger : scene.session.store = Dealing.fold start scene.dealings
  empty : scene.queue.jobs = []
  enqueued : scene.queue.counters.enqueued + scene.uncounted = scene.sent.length
  processed : scene.queue.counters.processed = scene.sent.length
  errors : scene.queue.counters.errors = scene.dealings.countP (!·.succeeded)
  waiting : scene.queue.counters.waiting = 0

theorem Scene.Told.folded {maxRetries : Nat} {start : Store} {scene : Scene}
    (told : scene.Told maxRetries start) (empty : scene.queue.jobs = []) :
    scene.Folded maxRetries start := by
  have order := told.order
  rw [empty, List.append_nil] at order
  have processed : scene.queue.counters.processed = scene.sent.length := by
    rw [told.processed, ← order, List.length_map]
  have enqueued := told.enqueued
  refine ⟨order, told.dealt, told.chained, told.chained.eq_fold told.dealt, empty, enqueued,
    processed, told.errors, ?_⟩
  rw [Counters.waiting, processed]
  omega

/-- Whatever was sent while the worker served the queue, and whatever was refused to it, draining
the queue ends with each job dealt with in order and the jobs that succeeded folded into the
store. -/
theorem drain_folds {maxRetries : UInt32} (below : maxRetries.toNat + 1 < UInt32.size)
    {start : Store} {scene : Scene} (serving : Serving maxRetries start scene) :
    ∃ dealings queue session, drain maxRetries scene.queue scene.session =
        (dealings.map (·.settlement), queue, session) ∧
      Scene.Folded maxRetries.toNat start
        { scene with dealings := scene.dealings ++ dealings, queue, session } := by
  obtain ⟨dealings, queue, session, drained, empty, served⟩ := serving.drain below _ rfl
  exact ⟨dealings, queue, session, drained, served.told.folded empty⟩

def revisedJob : Job := { main := true, transaction := Ledger.revisedTransaction }

def overburntJob : Job := { main := true, transaction := Ledger.overburntTransaction }

def withdrawnJob : Job := { main := false, transaction := Store.sampleTransaction }

/-- One job is dealt with at its second attempt, and two others are sent meanwhile. -/
def busyScene : Scene :=
  let idle : Scene := { session := Ledger.refusedCommit 0 }
  let dealt := settle revisedJob 1 idle.session
  let served := (idle.send revisedJob { jobs := [revisedJob] }).work revisedJob {} dealt.1 dealt.2
  let sent := served.send overburntJob { served.queue with jobs := [overburntJob] }
  sent.send withdrawnJob { sent.queue with jobs := [overburntJob, withdrawnJob] }

theorem serving_busyScene : Serving 1 Store.sampleStore busyScene := by
  have refusals : OnlyRefusals (Ledger.refusedCommit 0).faults := .cons rfl .nil
  have processes : process 1 revisedJob (Ledger.refusedCommit 0) =
      some (settle revisedJob 1 (Ledger.refusedCommit 0)) :=
    process_eq_some_iff.mpr ⟨by decide, rfl⟩
  exact .sent (.sent (.worked (.sent (.started rfl refusals) rfl) rfl processes) rfl) rfl

theorem drain_folds_busyScene :
    Serving 1 Store.sampleStore busyScene ∧
    busyScene.dealings.map (·.settlement) = [{ attempts := 2, failure := none }] ∧
    ∃ dealings queue session, drain 1 busyScene.queue busyScene.session =
        (dealings.map (·.settlement), queue, session) ∧
      dealings.map (·.settlement) =
        [{ attempts := 2, failure := some (.unknownAsset "C") },
          { attempts := 1, failure := none }] ∧
      Scene.Folded 1 Store.sampleStore
        { busyScene with dealings := busyScene.dealings ++ dealings, queue, session } := by
  have settlements : (drain 1 busyScene.queue busyScene.session).1 =
      [{ attempts := 2, failure := some (.unknownAsset "C") },
        { attempts := 1, failure := none }] := by
    cbv
  obtain ⟨dealings, queue, session, drained, folded⟩ :=
    drain_folds (by decide) serving_busyScene
  rw [drained] at settlements
  exact ⟨serving_busyScene, by cbv, dealings, queue, session, drained, settlements, folded⟩

end ChainLedger.Worker
