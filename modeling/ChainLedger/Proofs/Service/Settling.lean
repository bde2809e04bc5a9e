import ChainLedger.Proofs.Service.Dispatching
import ChainLedger.Proofs.Service.Working

/-!
# How jobs are settled

Where no fault is armed, the settlement of each job is a function of the first content and of the
jobs before it in the queue. It does not matter which blocks have been stored when the job's turn
comes, nor what is stored between two attempts at it.
-/

set_option autoImplicit false

namespace ChainLedger

namespace Content

/-- Why a job whose transaction is stored fails, if it does. -/
def failure? (content : Content) (job : Job) : Option Ledger.Error :=
  Ledger.offence? ((job.transaction.burns.map (·.id)).filter fun id => (content.assets id).isSome)
    job.main job.transaction

def settlement (maxRetries : UInt32) (content : Content) (job : Job) : Worker.Settlement :=
  match content.failure? job with
  | none => { attempts := 1, failure := none }
  | some error =>
    { attempts := maxRetries.toNat + 1, failure := some error }

/-- How jobs are settled, one after the other. -/
def settlements (maxRetries : UInt32) : Content → List Job → List (Job × Worker.Settlement)
  | _, [] => []
  | content, job :: jobs =>
    let entry := (job, content.settlement maxRetries job)
    entry :: (content.worked (Service.succeeded [entry])).settlements maxRetries jobs

variable {maxRetries : UInt32}

theorem settlements_append (first second : List Job) : ∀ content : Content,
    content.settlements maxRetries (first ++ second) =
      content.settlements maxRetries first ++
        (content.worked (Service.succeeded (content.settlements maxRetries first))).settlements
          maxRetries second := by
  induction first with
  | nil =>
      intro content
      rw [settlements, Service.succeeded, List.filter_nil, List.map_nil, worked_nil]
      rfl
  | cons job jobs ih =>
      intro content
      rw [List.cons_append, settlements, settlements, ih, ← worked_append,
        ← Service.succeeded_append]
      rfl

end Content

theorem findSome?_eq_of_forall {Item Result : Type} {first second : Item → Option Result}
    {items : List Item} (same : ∀ item ∈ items, first item = second item) :
    items.findSome? first = items.findSome? second := by
  induction items with
  | nil => rfl
  | cons item items ih =>
      obtain ⟨head, rest⟩ := List.forall_mem_cons.mp same
      rw [List.findSome?_cons, List.findSome?_cons, head, ih rest]

theorem Store.Shows.offence?_eq {store : Store} {content : Content} (shows : store.Shows content)
    (job : Job) :
    Ledger.offence? store.identifiers job.main job.transaction = content.failure? job := by
  have burns : ∀ burn ∈ job.transaction.burns,
      Ledger.burnOffence? (store.identifiers ++ job.transaction.mints.map (·.id)) burn =
        Ledger.burnOffence?
          ((job.transaction.burns.map (·.id)).filter (fun id => (content.assets id).isSome) ++
            job.transaction.mints.map (·.id)) burn := by
    intro burn member
    have isBurnt : burn.id ∈ job.transaction.burns.map (·.id) := List.mem_map_of_mem member
    have known : burn.id ∈ store.identifiers ↔ burn.id ∈
        (job.transaction.burns.map (·.id)).filter fun id => (content.assets id).isSome := by
      rw [List.mem_filter, ← shows.isSome_assets]
      exact ⟨fun known => ⟨isBurnt, known⟩, fun ⟨_, known⟩ => known⟩
    simp only [Ledger.burnOffence?, List.mem_append, known]
  rw [Content.failure?, Ledger.offence?, Ledger.offence?, Ledger.firstOffence?,
    Ledger.firstOffence?, findSome?_eq_of_forall burns]

theorem Content.isSome_stored {content : Content} {hash : String}
    (isStored : (content.transactions hash).isSome = true) (prepared : List Prepared) :
    ((content.stored prepared).transactions hash).isSome = true := by
  by_cases written : hash ∈ (prepared.flatMap fun pair =>
      Prepared.transactionWrites pair.1.transactions).map (·.1)
  · obtain ⟨pair, -, among⟩ := List.mem_flatMap.mp (mem_of_writeAll content.transactions written)
    obtain ⟨last, -, same⟩ := List.mem_map.mp among
    exact Option.isSome_iff_exists.mpr ⟨_, (Prod.mk.inj same).2.symm⟩
  · change (writeAll content.transactions _ hash).isSome = true
    rw [writeAll_of_not_mem written]
    exact isStored

namespace Service.Traffic

variable {maxRetries : UInt32} {content : Content} {waiting : List Job} {traffic after : Traffic}

theorem Told.hasAll (told : traffic.Told content waiting) (sending : traffic.Sending)
    (known : content.HasAll waiting) :
    (content.stored traffic.stored).HasAll
      (traffic.settled.map (·.1) ++ traffic.taken ++ traffic.state.queue.jobs) := by
  intro job member
  rcases List.mem_append.mp (told.mem_of_known member) with waits | isSent
  · exact Content.isSome_stored (known job waits) _
  · exact content.hasAll_stored _ job (sending.job_of_sent isSent)

structure Settling (maxRetries : UInt32) (content : Content) (traffic : Traffic) : Prop where
  settled : traffic.settled = content.settlements maxRetries (traffic.settled.map (·.1))
  task : ∀ task, traffic.task = some task → task.failed ≤ maxRetries.toNat ∧
    (task.failed ≠ 0 →
      ∃ error, (content.worked (succeeded traffic.settled)).failure? task.job = some error)

namespace Settling

theorem start (uploads : List (List Report.Upload)) (state : State) :
    (Traffic.start uploads state).Settling maxRetries content :=
  ⟨rfl, fun _ taken => nomatch taken⟩

theorem of_same (settling : traffic.Settling maxRetries content)
    (task : after.task = traffic.task) (settled : after.settled = traffic.settled) :
    after.Settling maxRetries content := by
  refine ⟨?_, ?_⟩
  · rw [settled]
    exact settling.settled
  · rw [task, settled]
    exact settling.task

theorem settle (settling : traffic.Settling maxRetries content) {job : Job}
    {settlement : Worker.Settlement}
    (same : settlement =
      (content.worked (succeeded traffic.settled)).settlement maxRetries job)
    (session : Session) : (traffic.settle job settlement session).Settling maxRetries content := by
  refine ⟨?_, fun _ taken => nomatch taken⟩
  rw [settled_settle, List.map_append, List.map_singleton, Content.settlements_append,
    ← settling.settled, same]
  rfl

theorem work (below : maxRetries.toNat + 1 < UInt32.size)
    (settling : traffic.Settling maxRetries content) (told : traffic.Told content waiting)
    (noFaults : traffic.state.session.faults = [])
    (stored : (content.stored traffic.stored).HasAll traffic.taken) :
    (traffic.work maxRetries).Settling maxRetries content := by
  rw [Traffic.work, Worker.attemptLimit_of_below below]
  split
  next free =>
    split
    next => exact settling
    next job queue received =>
      refine ⟨settling.settled, fun task taken => ?_⟩
      obtain rfl := Option.some.inj taken
      exact ⟨Nat.zero_le _, fun again => absurd rfl again⟩
  next task taken =>
    have isStored := stored task.job (by simp [Traffic.taken, taken])
    obtain ⟨within, earlier⟩ := settling.task task taken
    have failure : Ledger.offence? traffic.state.session.store.identifiers task.job.main
        task.job.transaction = (content.worked (succeeded traffic.settled)).failure? task.job :=
      told.shows.offence?_eq task.job
    dsimp only
    rcases told.shows.attempt_cases noFaults isStored with
      ⟨after, ran, clean⟩ | ⟨error, ran, offends⟩
    · rw [failure] at clean
      rw [ran]
      have first : task.failed = 0 := by
        by_contra again
        obtain ⟨error, fails⟩ := earlier again
        cases clean.symm.trans fails
      refine settling.settle ?_ after
      rw [Content.settlement, clean, first]
    · rw [failure] at offends
      rw [ran, Worker.toNat_succ below]
      dsimp only
      split
      next isLess =>
        refine ⟨settling.settled, fun other isOther => ?_⟩
        obtain rfl := Option.some.inj isOther
        exact ⟨Nat.le_of_lt_succ isLess, fun _ => ⟨error, offends⟩⟩
      next last =>
        refine settling.settle ?_ _
        rw [Content.settlement, offends, Nat.le_antisymm within (by omega)]

theorem turn {turn : Turn} (below : maxRetries.toNat + 1 < UInt32.size)
    (settling : traffic.Settling maxRetries content) (told : traffic.Told content waiting)
    (noFaults : traffic.state.session.faults = [])
    (stored : (content.stored traffic.stored).HasAll traffic.taken) :
    (traffic.turn maxRetries turn).Settling maxRetries content := by
  cases turn with
  | worker => exact settling.work below told noFaults stored
  | wait now => exact settling.of_same rfl rfl
  | arm faults => exact settling.of_same rfl rfl
  | client index =>
      exact turn_client index settling fun _ _ _ _ serves =>
        settling.of_same serves.task serves.settled

end Settling

structure Calmly (maxRetries : UInt32) (content : Content) (waiting : List Job)
    (traffic : Traffic) : Prop where
  noFaults : traffic.state.session.faults = []
  told : traffic.Told content waiting
  sending : traffic.Sending
  settling : traffic.Settling maxRetries content

theorem Calmly.turn {turn : Turn} (below : maxRetries.toNat + 1 < UInt32.size)
    (calmly : traffic.Calmly maxRetries content waiting) (known : content.HasAll waiting)
    (calm : turn.Calm) :
    (traffic.turn maxRetries turn).Calmly maxRetries content waiting := by
  have stored := calmly.told.hasAll calmly.sending known
  exact
    { noFaults := turn_faults_eq_nil traffic turn calm calmly.noFaults
      told := calmly.told.turn calm.refusing
      sending := calmly.sending.turn calmly.told.refusals
      settling := calmly.settling.turn below calmly.told calmly.noFaults
        fun job taken => stored job (List.mem_append_left _ (List.mem_append_right _ taken)) }

theorem Calmly.start {state : State} (shows : state.session.store.Shows content)
    (noFaults : state.session.faults = []) (uploads : List (List Report.Upload)) :
    (Traffic.start uploads state).Calmly maxRetries content state.queue.jobs where
  noFaults
  told := .start shows (noFaults ▸ OnlyRefusals.nil) uploads
  sending := .start uploads state
  settling := .start uploads state

end Service.Traffic
end ChainLedger
