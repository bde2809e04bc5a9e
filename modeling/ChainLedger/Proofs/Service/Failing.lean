import ChainLedger.Proofs.Queue.Serving
import ChainLedger.Proofs.Service.Dispatching
import ChainLedger.Proofs.Service.Working

/-!
# Why jobs fail

A job that an upload has queued names a transaction that is stored, and its values have passed
validation. So an attempt at it succeeds where no fault is armed, unless it burns an asset that
neither the store knows nor the transaction mints.
-/

set_option autoImplicit false

namespace ChainLedger

/-! ## Values -/

def Report.Transaction.Digital (transaction : Report.Transaction) : Prop :=
  (∀ mint ∈ transaction.mints, Text.isDigitRun mint.value = true) ∧
    ∀ burn ∈ transaction.burns, Text.isDigitRun burn.value = true

theorem Service.digital_of_validate {block : Report.Block} (valid : block.validate = .ok ())
    {transaction : Report.Transaction} (member : transaction ∈ block.transactions) :
    transaction.Digital := by
  simp only [Report.Block.validate, andThen_ok_iff, forM_ok_iff] at valid
  obtain ⟨-, -, -, -, -, -, -, -, transactions⟩ := valid
  have own := transactions transaction member
  simp only [Report.Transaction.validate, andThen_ok_iff, forM_ok_iff, Report.Mint.validate,
    Report.Burn.validate, require_ok_iff] at own
  obtain ⟨-, -, -, mints, burns⟩ := own
  exact ⟨fun mint isMint => (mints mint isMint).2, fun burn isBurn => (burns burn isBurn).2⟩

/-- The offence of a transaction with such values is a burn of an asset that is not known. -/
theorem Ledger.unknownBurn_of_offence {known : List String} {main : Bool}
    {transaction : Report.Transaction} (digital : transaction.Digital) {error : Error}
    (offends : offence? known main transaction = some error) :
    ∃ burn ∈ transaction.burns, error = .unknownAsset burn.id ∧ burn.id ∉ known ∧
      ∀ mint ∈ transaction.mints, mint.id ≠ burn.id := by
  have mints : transaction.mints.findSome? mintOffence? = none := by
    rw [List.findSome?_eq_none_iff]
    intro mint member
    rw [mintOffence?, if_pos (digital.1 mint member)]
  rw [offence?] at offends
  split at offends
  next =>
    rw [firstOffence?, mints, Option.none_or] at offends
    obtain ⟨burn, member, burnOffends⟩ := List.exists_of_findSome?_eq_some offends
    rw [burnOffence?, if_pos (digital.2 burn member)] at burnOffends
    split at burnOffends
    next => cases burnOffends
    next unknown =>
      rw [List.mem_append, List.mem_map, not_or] at unknown
      refine ⟨burn, member, (Option.some.inj burnOffends).symm, unknown.1, ?_⟩
      exact fun mint isMint same => unknown.2 ⟨mint, isMint, same⟩
  next => cases offends

/-! ## Attempts -/

/-- An attempt at a job succeeds, or fails for a burn of an asset that neither the store knows nor
the job's transaction mints. Then it changes nothing. -/
inductive Worker.Attempted (job : Job) (session : Session) : Prop
  | done (after : Session) (succeeds : attempt job session = (.ok (), after))
  | unknownBurn (burn : Report.Burn) (isBurn : burn ∈ job.transaction.burns)
      (fails : attempt job session = (.error (.unknownAsset burn.id), session))
      (unknown : session.store.assetByIdentifier? burn.id = none)
      (unminted : ∀ mint ∈ job.transaction.mints, mint.id ≠ burn.id)

theorem Store.Shows.attempted_of_digital {session : Session} {content : Content} {job : Job}
    (shows : session.store.Shows content) (noFaults : session.faults = [])
    (isStored : (content.transactions job.transaction.hash).isSome = true)
    (digital : job.transaction.Digital) : Worker.Attempted job session := by
  rcases shows.attempt_cases noFaults isStored with ⟨after, ran, -⟩ | ⟨error, ran, offends⟩
  · exact .done after ran
  · obtain ⟨burn, isBurn, rfl, unknown, unminted⟩ := Ledger.unknownBurn_of_offence digital offends
    exact .unknownBurn burn isBurn ran (find?_key_eq_none.mpr unknown) unminted

namespace Service.Traffic

variable {turns : List Turn} {state : State}

theorem digital_of_sent {traffic : Traffic} (sending : traffic.Sending)
    (valid : ∀ pair ∈ traffic.stored, pair.Valid) {job : Job}
    (sent : job ∈ traffic.sent.map (·.job)) : job.transaction.Digital := by
  obtain ⟨pair, stored, isJob⟩ := List.mem_flatMap.mp (sending.job_of_sent sent)
  obtain ⟨transaction, member, same⟩ := List.mem_map.mp isJob
  rw [← same]
  exact digital_of_validate (valid pair stored).1 member

/-- From an empty store, whatever clients upload and in whatever order clients and worker have
their turns, an attempt at a job that an upload has queued succeeds at any time, or fails for a
burn of an asset that is not known. The jobs that the worker takes are such jobs. -/
theorem queued_jobs_fail_for_unknown_burns (maxRetries : UInt32)
    (empty : state.session.store.Empty) (noFaults : state.session.faults = [])
    (idle : state.queue.jobs = []) (uploads : List (List Report.Upload))
    (calm : ∀ turn ∈ turns, turn.Calm) :
    let traffic := (start uploads state).run maxRetries turns
    (∀ task, traffic.task = some task → task.job ∈ traffic.sent.map (·.job)) ∧
      ∀ job ∈ traffic.sent.map (·.job), Worker.Attempted job traffic.state.session := by
  intro traffic
  have refusing : ∀ turn ∈ turns, turn.Refusing := fun turn member => (calm turn member).refusing
  obtain ⟨told, sending⟩ :=
    told_run maxRetries empty.shows (noFaults ▸ OnlyRefusals.nil) uploads refusing
  have stillCalm : traffic.state.session.faults = [] := run_faults_eq_nil calm noFaults
  have valid : ∀ pair ∈ traffic.stored, pair.Valid := valid_of_stored
  refine ⟨?_, ?_⟩
  · intro task taken
    have isTaken : task.job ∈ traffic.taken := by
      rw [Traffic.taken, taken]
      exact List.mem_singleton_self _
    have member := told.mem_of_known (List.mem_append_left _ (List.mem_append_right _ isTaken))
    rw [idle, List.nil_append] at member
    exact member
  · intro job sent
    exact told.shows.attempted_of_digital stillCalm
      (Content.hasAll_stored _ _ job (sending.job_of_sent sent))
      (digital_of_sent sending valid sent)

def overburntUploads : List (List Report.Upload) :=
  [[{ blocks := [Store.sampleBlock] }],
    [{ blocks :=
      [{ Store.sampleBlock with hash := "c", transactions := [Ledger.overburntTransaction] }] }]]

/-- The second client is the first to queue its job, and the worker has taken it. -/
def overburntTurns : List Turn :=
  [.client 0, .client 1, .client 0, .client 1, .client 1, .worker, .client 0]

theorem overburntUploads_fail_for_unknown_burn :
    let traffic := (start overburntUploads {}).run 0 overburntTurns
    traffic.task.map (·.job) = some Worker.overburntJob ∧
      (Worker.attempt Worker.overburntJob traffic.state.session).1 =
        .error (.unknownAsset "C") ∧
      traffic.sent.map (·.job) =
        [Worker.overburntJob, { main := true, transaction := Store.sampleTransaction }] ∧
      ∀ job ∈ traffic.sent.map (·.job), Worker.Attempted job traffic.state.session := by
  have calm : ∀ turn ∈ overburntTurns, turn.Calm := by simp [overburntTurns, Turn.Calm]
  have empty : ({} : State).session.store.Empty := ⟨rfl, rfl, rfl, rfl, rfl⟩
  have ends := queued_jobs_fail_for_unknown_burns 0 empty rfl rfl overburntUploads calm
  exact ⟨by decide +kernel, by decide +kernel, by decide +kernel, ends.2⟩

end Service.Traffic
end ChainLedger
