import ChainLedger.Proofs.Service.Alike
import ChainLedger.Proofs.Service.Interruption
import ChainLedger.Proofs.Service.Working

/-!
# Resent uploads

An upload that was interrupted is sent again, as a whole. The blocks before the interruption are
stored once more, and their jobs are queued once more, whether the worker has come to them
meanwhile or not. The store ends with the content that one run of the upload leaves that meets no
fault.
-/

set_option autoImplicit false

namespace ChainLedger.Service

def State.work (maxRetries : UInt32) (state : State) (job : Job) (queue : Queue) : State :=
  match Worker.process maxRetries job state.session with
  | none => { state with queue := queue.close }
  | some (settlement, session) =>
    { session, queue := { queue with counters := settlement.mark queue.counters } }

/-- Time passes, and the worker deals with jobs that wait, or stops at one. -/
inductive Proceeds (maxRetries : UInt32) (start : State) : State → Prop
  | stays : Proceeds maxRetries start start
  | waits {state : State} (proceeds : Proceeds maxRetries start state) (now : Instant) :
      Proceeds maxRetries start { state with session := { state.session with now } }
  | works {state : State} {job : Job} {queue : Queue} (proceeds : Proceeds maxRetries start state)
      (receives : state.queue.receive? = some (job, queue)) :
      Proceeds maxRetries start (state.work maxRetries job queue)

def complete (maxRetries : UInt32) (request : Report.Upload) (state : State) :
    List Worker.Settlement × Queue × Session :=
  Worker.drain maxRetries (upload request state).2.queue (upload request state).2.session

/-- Each of the jobs that wait after an upload is settled, and none fails. -/
def AllSucceed (maxRetries : UInt32) (request : Report.Upload) (state : State) : Prop :=
  (complete maxRetries request state).1.map (·.failure) =
    List.replicate (upload request state).2.queue.jobs.length none

structure Completes (maxRetries : UInt32) (request : Report.Upload) (state : State) : Prop where
  answers : ∃ views, (upload request state).1 = .ok views
  succeed : AllSucceed maxRetries request state

theorem AllSucceed.limited {maxRetries : UInt32} {request : Report.Upload} {state : State}
    (succeed : AllSucceed maxRetries request state)
    (waits : (upload request state).2.queue.jobs ≠ []) : maxRetries.toNat + 1 < UInt32.size := by
  refine (Worker.below_or_greatest maxRetries).resolve_right fun greatest => ?_
  rw [AllSucceed, complete, Worker.drain_of_greatest greatest waits] at succeed
  exact waits (List.eq_nil_of_length_eq_zero ((List.replicate_eq_nil_iff _).mp succeed.symm))

/-- No fault is armed, the queue takes jobs, and it is told what the store shows and which jobs
wait. -/
structure State.Quiet (state : State) (content : Content) (jobs : List Job) : Prop where
  shows : state.session.store.Shows content
  faults : state.session.faults = []
  isOpen : state.queue.isOpen = true
  waits : state.queue.jobs = jobs

variable {prepared : List Prepared} {state after start : State} {rows : List Stored.Block}
  {request : Report.Upload} {content : Content} {jobs : List Job} {maxRetries : UInt32}

theorem Stores.shows (stores : Stores prepared state rows after)
    (refusals : OnlyRefusals state.session.faults) (shows : state.session.store.Shows content) :
    after.session.store.Shows (content.stored prepared) := by
  induction stores generalizing content with
  | nil => exact shows
  | cons kept _ _ ih =>
      have placed := (storeBlock_shows shows (_, _) _).of_ok refusals kept
      rw [← List.singleton_append, Content.stored_append]
      exact ih ((steady_storeBlock _ _).refusals refusals kept) placed

namespace State.Quiet

theorem refusals (quiet : state.Quiet content jobs) : OnlyRefusals state.session.faults := by
  rw [quiet.faults]
  exact .nil

theorem session_eq (quiet : state.Quiet content jobs) :
    state.session = { store := state.session.store, now := state.session.now } := by
  rw [← quiet.faults]

theorem stores (quiet : state.Quiet content jobs) (stores : Stores prepared state rows after) :
    after.Quiet (content.stored prepared) (jobs ++ prepared.flatMap Prepared.jobs) := by
  refine ⟨stores.shows quiet.refusals quiet.shows, ?_, stores.isOpen quiet.isOpen, ?_⟩
  · have same : state.calm = state := by rw [State.calm, Session.calm, ← quiet.faults]
    have calmly := (stores.calm quiet.refusals).1.storeBlocks_eq
    rw [same, stores.storeBlocks_eq] at calmly
    exact congrArg (fun state => state.session.faults) (Prod.mk.inj calmly).2
  · rw [stores.jobs quiet.refusals, quiet.waits]
    rfl

theorem upload (quiet : state.Quiet content jobs) (ready : prepare request = .ok prepared) :
    (∃ views, (upload request state).1 = .ok views) ∧
      (upload request state).2.Quiet (content.stored prepared)
        (jobs ++ prepared.flatMap Prepared.jobs) := by
  rw [upload_of_prepare ready]
  rcases stores_or_stops prepared state quiet.isOpen with ⟨rows, after, stores⟩ |
    ⟨done, block, entry, rest, rows, reached, error, session, rfl, stores, failed⟩
  · rw [stores.storeBlocks_eq]
    exact ⟨⟨_, rfl⟩, quiet.stores stores⟩
  · have reached := quiet.stores stores
    obtain ⟨refused, -, -⟩ := refused_of_storeBlock_error reached.refusals failed
    rw [Session.Refused, reached.faults] at refused
    exact absurd refused (Nat.not_lt_zero _)

/-- What an upload leaves that fails: its first blocks are stored and queued. -/
theorem interrupted (quiet : state.calm.Quiet content jobs)
    (refusals : OnlyRefusals state.session.faults) (ready : prepare request = .ok prepared)
    {error : Error} (failed : Service.upload request state = (.error error, after)) :
    ∃ first second, prepared = first ++ second ∧
      after.calm.Quiet (content.stored first) (jobs ++ first.flatMap Prepared.jobs) := by
  rw [upload_of_prepare ready] at failed
  rcases stores_or_stops prepared state quiet.isOpen with ⟨rows, after, stores⟩ |
    ⟨first, block, entry, rest, rows, reached, error, session, rfl, stores, stopped⟩
  · rw [stores.storeBlocks_eq] at failed
    cases failed
  · obtain ⟨calm, -, reachedRefusals⟩ := stores.calm refusals
    obtain ⟨-, same, -⟩ := refused_of_storeBlock_error reachedRefusals stopped
    rw [stores.stop stopped rest] at failed
    obtain ⟨-, rfl⟩ := Prod.mk.inj failed
    refine ⟨first, _, rfl, ?_⟩
    rw [State.calm, same]
    exact quiet.stores calm

theorem work (below : maxRetries.toNat + 1 < UInt32.size) (quiet : state.Quiet content jobs)
    {job : Job} {queue : Queue} (receives : state.queue.receive? = some (job, queue))
    (stored : content.HasAll jobs) (clean : content.AllClean jobs) :
    ∃ rest, jobs = job :: rest ∧
      (state.work maxRetries job queue).Quiet (content.worked [job]) rest := by
  have waits := quiet.waits
  obtain ⟨rest, waiting, rfl⟩ := Queue.of_receive?_eq_some receives
  rw [waiting] at waits
  obtain rfl := waits
  obtain ⟨after, ran, shows⟩ :=
    quiet.shows.attempt_of_clean (stored job (by simp)) clean.1 state.session.now
  refine ⟨rest, rfl, ?_⟩
  rw [State.work, quiet.session_eq,
    Worker.process_eq_some_iff.mpr ⟨below, Worker.settle_of_ok ran⟩]
  exact ⟨shows, rfl, quiet.isOpen, rfl⟩

/-- The worker does the first of the jobs that wait, where they are clean. -/
theorem proceeds (limited : jobs ≠ [] → maxRetries.toNat + 1 < UInt32.size)
    (quiet : start.Quiet content jobs) (stored : content.HasAll jobs)
    (clean : content.AllClean jobs) (proceeds : Proceeds maxRetries start state) :
    ∃ done waiting, jobs = done ++ waiting ∧ state.Quiet (content.worked done) waiting := by
  induction proceeds with
  | stays =>
      refine ⟨[], jobs, rfl, ?_⟩
      rw [Content.worked_nil]
      exact quiet
  | waits _ now ih =>
      obtain ⟨done, waiting, split, reached⟩ := ih
      exact ⟨done, waiting, split, reached.shows, reached.faults, reached.isOpen, reached.waits⟩
  | @works state job queue _ receives ih =>
      obtain ⟨done, waiting, rfl, reached⟩ := ih
      have waits : done ++ waiting ≠ [] := by
        obtain ⟨rest, first, -⟩ := Queue.of_receive?_eq_some receives
        rw [← reached.waits, first]
        simp
      obtain ⟨rest, rfl, worked⟩ := reached.work (limited waits) receives
        (fun other member => stored other (List.mem_append_right _ member))
        (Content.allClean_append.mp clean).2
      refine ⟨done ++ [job], rest, by simp, ?_⟩
      rw [Content.worked_append]
      exact worked

theorem drain (limited : jobs ≠ [] → maxRetries.toNat + 1 < UInt32.size)
    (quiet : state.Quiet content jobs) (stored : content.HasAll jobs)
    (clean : content.AllClean jobs) :
    (Worker.drain maxRetries state.queue state.session).1.map (·.failure) =
        List.replicate state.queue.jobs.length none ∧
      (Worker.drain maxRetries state.queue state.session).2.2.store.Shows
        (content.worked jobs) := by
  obtain ⟨settlements, drained, after, ran, succeed, shows⟩ := quiet.shows.processAll
    state.session.now state.queue stored clean limited
  rw [Worker.drain, quiet.waits, quiet.session_eq, ran]
  exact ⟨succeed, shows⟩

theorem of_drain (quiet : state.Quiet content jobs)
    (succeed : (Worker.drain maxRetries state.queue state.session).1.map (·.failure) =
      List.replicate state.queue.jobs.length none) :
    content.AllClean jobs ∧
      (Worker.drain maxRetries state.queue state.session).2.2.store.Shows
        (content.worked jobs) := by
  rw [Worker.drain, quiet.waits] at succeed ⊢
  exact quiet.shows.of_processAll quiet.refusals rfl succeed

end State.Quiet

/-! ## Sending again -/

section Resent

variable {first second : List Prepared} {done waiting : List Job}

/-- The blocks and the jobs of an upload that were done before it is sent again make no difference
to the content. -/
theorem content_of_resent (content : Content)
    (split : first.flatMap Prepared.jobs = done ++ waiting) :
    (((content.stored first).worked done).stored (first ++ second)).worked
        (waiting ++ (first ++ second).flatMap Prepared.jobs) =
      (content.stored (first ++ second)).worked ((first ++ second).flatMap Prepared.jobs) := by
  rw [Content.stored_worked, Content.stored_again, ← Content.worked_append, ← List.append_assoc,
    ← split, List.flatMap_append, Content.worked_append, Content.worked_again]

theorem subset_of_resent (split : first.flatMap Prepared.jobs = done ++ waiting) :
    waiting ++ (first ++ second).flatMap Prepared.jobs ⊆
      (first ++ second).flatMap Prepared.jobs := by
  intro job member
  rcases List.mem_append.mp member with waits | isSent
  · rw [List.flatMap_append, split]
    exact List.mem_append_left _ (List.mem_append_right _ waits)
  · exact isSent

theorem clean_of_resent (split : first.flatMap Prepared.jobs = done ++ waiting)
    (clean : (content.stored (first ++ second)).AllClean
      ((first ++ second).flatMap Prepared.jobs)) :
    (((content.stored first).worked done).stored (first ++ second)).AllClean
      (waiting ++ (first ++ second).flatMap Prepared.jobs) := by
  rw [List.flatMap_append, split] at clean ⊢
  have again := clean.again
  rw [List.append_assoc done waiting, Content.allClean_append] at again
  exact again.2.mono fun _ knows => knows

end Resent

/-- An upload whose jobs all succeed where no fault is armed, and which is interrupted by a fault,
is sent again without faults, whatever the worker has done meanwhile. Then the store holds what it
would hold if there had been no interruption. -/
theorem resent_upload_alike (reachable : state.session.store.Reachable)
    (empty : state.queue.jobs = []) (isOpen : state.queue.isOpen = true)
    (refusals : OnlyRefusals state.session.faults) (valid : request.validate = .ok ())
    (succeed : AllSucceed maxRetries request state.calm) {error : Error} {stopped proceeded : State}
    (interrupted : upload request state = (.error error, stopped))
    (proceeds : Proceeds maxRetries stopped.calm proceeded) :
    Completes maxRetries request state.calm ∧ Completes maxRetries request proceeded ∧
      (complete maxRetries request state.calm).2.2.store.Alike
        (complete maxRetries request proceeded).2.2.store := by
  obtain ⟨prepared, ready⟩ := prepare_of_validate valid
  obtain ⟨content, shows⟩ := reachable.shown
  have quiet : state.calm.Quiet content [] := ⟨shows, rfl, isOpen, empty⟩
  obtain ⟨answers, uploaded⟩ := quiet.upload ready
  obtain ⟨clean, shows⟩ := uploaded.of_drain succeed
  obtain ⟨first, second, rfl, afterStop⟩ := quiet.interrupted refusals ready interrupted
  rw [List.nil_append] at clean shows afterStop uploaded
  have cleanFirst : (content.stored first).AllClean (first.flatMap Prepared.jobs) := by
    rw [List.flatMap_append, Content.allClean_append] at clean
    exact clean.1.mono fun _ knows => knows
  have limited : ∀ jobs ⊆ (first ++ second).flatMap Prepared.jobs, jobs ≠ [] →
      maxRetries.toNat + 1 < UInt32.size := by
    intro jobs among waits
    refine succeed.limited ?_
    rw [uploaded.waits]
    exact fun none => waits (List.eq_nil_of_subset_nil (none ▸ among))
  have amongFirst : first.flatMap Prepared.jobs ⊆ (first ++ second).flatMap Prepared.jobs := by
    rw [List.flatMap_append]
    exact List.subset_append_left _ _
  obtain ⟨done, waiting, split, resumed⟩ := afterStop.proceeds (limited _ amongFirst)
    (content.hasAll_stored first) cleanFirst proceeds
  obtain ⟨answersAgain, resent⟩ := resumed.upload ready
  obtain ⟨succeedAgain, showsAgain⟩ :=
    resent.drain (limited _ (subset_of_resent split))
      (fun job member => Content.hasAll_stored _ _ job (subset_of_resent split member))
      (clean_of_resent split clean)
  rw [content_of_resent content split] at showsAgain
  exact ⟨⟨answers, succeed⟩, ⟨answersAgain, succeedAgain⟩, shows.alike showsAgain⟩

def twinReports : List Report.Block :=
  [Store.sampleBlock, { Store.sampleBlock with hash := "c" }]

def stoppedTwins : State := (upload { blocks := twinReports } refusedLink).2

def sampleJob : Job := { main := true, transaction := Store.sampleTransaction }

def resumedTwins : State :=
  stoppedTwins.calm.work 0 sampleJob { stoppedTwins.queue with jobs := [] }

theorem exists_error_of_toBool {ε α β : Type} {ran : Except ε α × β}
    (answered : ran.1.toBool = false) : ∃ error, ran = (.error error, ran.2) := by
  obtain ⟨error | value, after⟩ := ran
  · exact ⟨error, rfl⟩
  · cases answered

theorem resent_twins_alike :
    (∃ error, upload { blocks := twinReports } refusedLink = (.error error, stoppedTwins)) ∧
    Proceeds 0 stoppedTwins.calm resumedTwins ∧ resumedTwins.queue.jobs = [] ∧
    Completes 0 { blocks := twinReports } refusedLink.calm ∧
    Completes 0 { blocks := twinReports } resumedTwins ∧
      (complete 0 { blocks := twinReports } refusedLink.calm).2.2.store.Alike
        (complete 0 { blocks := twinReports } resumedTwins).2.2.store := by
  have reachable : refusedLink.session.store.Reachable := .empty ⟨rfl, rfl, rfl, rfl, rfl⟩
  have refusals : OnlyRefusals refusedLink.session.faults := .cons rfl .nil
  have valid : Report.Upload.validate { blocks := twinReports } = .ok () := by cbv
  have failures : (complete 0 { blocks := twinReports } refusedLink.calm).1.map (·.failure) =
      [none, none] := by
    cbv
  have waiting : (upload { blocks := twinReports } refusedLink.calm).2.queue.jobs.length = 2 := by
    decide +kernel
  have succeed : AllSucceed 0 { blocks := twinReports } refusedLink.calm := by
    rw [AllSucceed, waiting]
    exact failures
  obtain ⟨error, interrupted⟩ := exists_error_of_toBool
    (by decide +kernel : (upload { blocks := twinReports } refusedLink).1.toBool = false)
  have proceeds : Proceeds 0 stoppedTwins.calm resumedTwins := .works .stays (by decide +kernel)
  exact ⟨⟨error, interrupted⟩, proceeds, rfl,
    resent_upload_alike reachable rfl rfl refusals valid succeed interrupted proceeds⟩

end ChainLedger.Service
