import ChainLedger.Proofs.Service.Showing
import ChainLedger.Proofs.Service.Turns
import ChainLedger.Proofs.Queue.Attempts

/-!
# What the past tells

Whatever turns clients and worker have had, the store shows what the blocks that were stored and
the jobs that succeeded make of its first content, and each job that was queued is settled, with the
worker, or still waiting, in the order of the queue, unless it was lost with the queue.
-/

set_option autoImplicit false

namespace ChainLedger

theorem Store.Shows.attempted {session after : Session} {content : Content} {job : Job}
    (shows : session.store.Shows content) (refusals : OnlyRefusals session.faults)
    (ran : Worker.attempt job session = (.ok (), after)) :
    after.store.Shows (content.worked [job]) := by
  have yields :=
    Ledger.reconcile_yields shows.sound.balanced job.main job.transaction session.now
  obtain ⟨row, found, -, reconciled⟩ := yields.of_ok refusals ran
  exact shows.reconciled found reconciled

/-- Where no fault is armed, an attempt at a job whose transaction is stored succeeds, or fails
for an offence and changes nothing. -/
theorem Store.Shows.attempt_cases {session : Session} {content : Content} {job : Job}
    (shows : session.store.Shows content) (noFaults : session.faults = [])
    (isStored : (content.transactions job.transaction.hash).isSome = true) :
    (∃ after, Worker.attempt job session = (.ok (), after) ∧
      Ledger.offence? session.store.identifiers job.main job.transaction = none) ∨
    ∃ error, Worker.attempt job session = (.error error, session) ∧
      Ledger.offence? session.store.identifiers job.main job.transaction = some error := by
  obtain ⟨store, faults, now⟩ := session
  obtain rfl := noFaults
  have yields := Ledger.reconcile_yields shows.sound.balanced job.main job.transaction now
  rcases yields.of_calm with
    ⟨_, after, ran, row, -, clean, -⟩ | ⟨error, after, ran, missing | ⟨-, offends⟩⟩
  · exact Or.inl ⟨_, ran, clean⟩
  · rw [← shows.transactions, missing.1] at isStored
    cases isStored
  · obtain rfl := Worker.eq_of_attempt_error rfl ran
    exact Or.inr ⟨error, ran, offends⟩

namespace Service

def succeeded (settled : List (Job × Worker.Settlement)) : List Job :=
  (settled.filter (·.2.failure.isNone)).map (·.1)

theorem succeeded_append (first second : List (Job × Worker.Settlement)) :
    succeeded (first ++ second) = succeeded first ++ succeeded second := by
  rw [succeeded, List.filter_append, List.map_append]
  rfl

namespace Traffic

def taken (traffic : Traffic) : List Job := (traffic.task.map (·.job)).toList

/-- What the past tells of the state, given the content of the first store and the jobs that waited
in the first queue. -/
structure Told (content : Content) (waiting : List Job) (traffic : Traffic) : Prop where
  refusals : OnlyRefusals traffic.state.session.faults
  shows : traffic.state.session.store.Shows
    ((content.stored traffic.stored).worked (succeeded traffic.settled))
  order : ∃ lost, (traffic.state.queue.isOpen = true → lost = []) ∧
    traffic.settled.map (·.1) ++ traffic.taken ++ traffic.state.queue.jobs ++ lost =
      waiting ++ traffic.sent.map (·.job)

variable {content : Content} {waiting : List Job} {traffic after : Traffic} {client : Client}
  {maxRetries : UInt32}

theorem settled_settle (traffic : Traffic) (job : Job) (settlement : Worker.Settlement)
    (session : Session) :
    (traffic.settle job settlement session).settled = traffic.settled ++ [(job, settlement)] :=
  rfl

namespace Told

/-- No job is lost while the queue is open. -/
theorem order_of_open (told : traffic.Told content waiting)
    (isOpen : traffic.state.queue.isOpen = true) :
    traffic.settled.map (·.1) ++ traffic.taken ++ traffic.state.queue.jobs =
      waiting ++ traffic.sent.map (·.job) := by
  obtain ⟨lost, none, order⟩ := told.order
  rw [none isOpen, List.append_nil] at order
  exact order

theorem mem_of_known (told : traffic.Told content waiting) {job : Job}
    (known : job ∈ traffic.settled.map (·.1) ++ traffic.taken ++ traffic.state.queue.jobs) :
    job ∈ waiting ++ traffic.sent.map (·.job) := by
  obtain ⟨lost, -, order⟩ := told.order
  exact order ▸ List.mem_append_left lost known

theorem start {state : State} (shows : state.session.store.Shows content)
    (refusals : OnlyRefusals state.session.faults) (uploads : List (List Report.Upload)) :
    (Traffic.start uploads state).Told content state.queue.jobs := by
  refine ⟨refusals, ?_, [], fun _ => rfl, rfl⟩
  change state.session.store.Shows (content.worked [])
  rw [Content.worked_nil]
  exact shows

theorem serve {served : Client} (told : traffic.Told content waiting)
    (serves : Served traffic client served after) : after.Told content waiting := by
  cases serves with
  | idle => exact told
  | rejected => exact told
  | taken => exact told
  | unsent => exact told
  | answered => exact told
  | @stored progress block entry blocks row session busy queued next kept =>
      refine ⟨(steady_storeBlock _ _).refusals told.refusals kept, ?_, told.order⟩
      have shows := (storeBlock_shows told.shows (block, entry) _).of_ok told.refusals kept
      rw [Content.stored_worked, ← Content.stored_append] at shows
      exact shows
  | @refused progress block entry blocks error session busy queued next failed =>
      have same : session.store = traffic.state.session.store :=
        Work.store_of_atomically_error _ _ failed
      refine ⟨(steady_storeBlock _ _).refusals told.refusals failed, ?_, told.order⟩
      rw [same]
      exact told.shows
  | sent busy next isOpen =>
      refine ⟨told.refusals, told.shows, [], fun _ => rfl, ?_⟩
      have order := told.order_of_open isOpen
      simp only [taken, List.map_append, List.append_nil, ← List.append_assoc] at order ⊢
      rw [order]
      rfl

theorem settle (told : traffic.Told content waiting) {task : Worker.Task}
    (taken : traffic.task = some task) {settlement : Worker.Settlement} {session : Session}
    (refusals : OnlyRefusals session.faults)
    (shows : session.store.Shows
      ((content.stored traffic.stored).worked
        (succeeded (traffic.settled ++ [(task.job, settlement)])))) :
    (traffic.settle task.job settlement session).Told content waiting := by
  obtain ⟨lost, none, order⟩ := told.order
  refine ⟨refusals, shows, lost, none, ?_⟩
  simp only [Traffic.taken, taken, Option.map_some, Option.toList_some] at order
  rw [settled_settle, List.map_append]
  exact (congrArg (· ++ _ ++ lost) (List.append_nil _)).trans order

theorem work (maxRetries : UInt32) (told : traffic.Told content waiting) :
    (traffic.work maxRetries).Told content waiting := by
  rw [Traffic.work]
  split
  next free =>
    split
    next => exact told
    next job queue received =>
      obtain ⟨lost, none, order⟩ := told.order
      obtain ⟨rest, waits, rfl⟩ := Queue.of_receive?_eq_some received
      refine ⟨told.refusals, told.shows, lost, none, ?_⟩
      simpa [Traffic.taken, free, waits] using order
  next task taken =>
    split
    next =>
      obtain ⟨lost, -, order⟩ := told.order
      refine ⟨told.refusals, told.shows, traffic.state.queue.jobs ++ lost, nofun, ?_⟩
      rw [← order, List.append_assoc _ _ lost]
      exact congrArg (· ++ _) (List.append_nil _)
    next limit _ =>
      dsimp only
      split
      next session ran =>
        have refusals := (Worker.steady_attempt task.job).refusals told.refusals ran
        refine told.settle taken refusals ?_
        rw [succeeded_append, Content.worked_append]
        exact told.shows.attempted told.refusals ran
      next error session ran =>
        have refusals := (Worker.steady_attempt task.job).refusals told.refusals ran
        have shows := told.shows
        rw [← Worker.store_of_attempt_error ran] at shows
        split
        next =>
          refine ⟨refusals, shows, ?_⟩
          have order := told.order
          rw [Traffic.taken, taken] at order
          exact order
        next =>
          refine told.settle taken refusals ?_
          rw [succeeded_append]
          exact (List.append_nil _).symm ▸ shows

theorem turn {turn : Turn} (refusing : turn.Refusing) (told : traffic.Told content waiting) :
    (traffic.turn maxRetries turn).Told content waiting := by
  cases turn with
  | worker => exact told.work maxRetries
  | wait now => exact ⟨told.refusals, told.shows, told.order⟩
  | arm faults => exact ⟨refusing, told.shows, told.order⟩
  | client index =>
      refine turn_client index told fun _ _ _ _ serves => ?_
      obtain ⟨refusals, shows, order⟩ := told.serve serves
      exact ⟨refusals, shows, order⟩

theorem run {turns : List Turn} (refusing : ∀ turn ∈ turns, turn.Refusing)
    (told : traffic.Told content waiting) : (traffic.run maxRetries turns).Told content waiting :=
  run_keeps (fun _ _ refusing told => told.turn refusing) refusing told

end Told

end Traffic

/-! ## Calm -/

variable {traffic after : Traffic} {client served : Client} {maxRetries : UInt32}

theorem Served.faults_eq_nil (serves : Served traffic client served after)
    (calm : traffic.state.session.faults = []) : after.state.session.faults = [] := by
  cases serves with
  | stored _ _ _ kept => exact (steady_storeBlock _ _).faults_eq_nil calm kept
  | refused _ _ _ failed => exact (steady_storeBlock _ _).faults_eq_nil calm failed
  | _ => exact calm

theorem Traffic.work_faults_eq_nil (calm : traffic.state.session.faults = []) :
    (traffic.work maxRetries).state.session.faults = [] := by
  fun_cases Traffic.work maxRetries traffic with
  | case1 => exact calm
  | case2 => exact calm
  | case3 => exact calm
  | case4 task _ _ _ _ session ran => exact (Worker.steady_attempt task.job).faults_eq_nil calm ran
  | case5 task _ _ _ _ _ session ran =>
      exact (Worker.steady_attempt task.job).faults_eq_nil calm ran
  | case6 task _ _ _ _ _ session ran =>
      exact (Worker.steady_attempt task.job).faults_eq_nil calm ran

theorem Traffic.turn_faults_eq_nil (traffic : Traffic) (turn : Turn) (calm : turn.Calm)
    (start : traffic.state.session.faults = []) :
    (traffic.turn maxRetries turn).state.session.faults = [] := by
  cases turn with
  | worker => exact work_faults_eq_nil start
  | wait now => exact start
  | arm faults => exact calm
  | client index =>
      exact turn_client index start fun _ _ _ _ serves => serves.faults_eq_nil start

theorem Traffic.run_faults_eq_nil {turns : List Turn} (calm : ∀ turn ∈ turns, turn.Calm)
    (start : traffic.state.session.faults = []) :
    (traffic.run maxRetries turns).state.session.faults = [] :=
  run_keeps turn_faults_eq_nil calm start

end Service
end ChainLedger
