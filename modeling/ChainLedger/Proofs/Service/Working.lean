import ChainLedger.Proofs.Queue.Attempts
import ChainLedger.Proofs.Service.Showing

/-!
# Jobs and content

A job succeeds when its transaction is stored and it is clean: its values are digit runs, and it
burns only what is known or what it mints itself. What is known only grows, so jobs that were
clean once are clean again later.
-/

set_option autoImplicit false

namespace ChainLedger

/-- No mint or burn of a job offends, given what is known before it. -/
def Job.Clean (known : String → Prop) (job : Job) : Prop :=
  job.main = true →
    (∀ mint ∈ job.transaction.mints, Ledger.mintOffence? mint = none) ∧
      ∀ burn ∈ job.transaction.burns, Text.isDigitRun burn.value = true ∧
        (known burn.id ∨ ∃ mint ∈ job.transaction.mints, mint.id = burn.id)

theorem Job.Clean.mono {known known' : String → Prop} {job : Job} (clean : job.Clean known)
    (grows : ∀ identifier, known identifier → known' identifier) : job.Clean known' := by
  intro main
  obtain ⟨mints, burns⟩ := clean main
  exact ⟨mints, fun burn member =>
    ⟨(burns burn member).1, (burns burn member).2.imp_left (grows burn.id)⟩⟩

theorem Ledger.burnOffence?_eq_none {known : List String} {burn : Report.Burn} :
    burnOffence? known burn = none ↔ Text.isDigitRun burn.value = true ∧ burn.id ∈ known := by
  rw [burnOffence?]
  split
  next isKnown => split <;> simp [*]
  next isKnown => simp [isKnown]

theorem Job.clean_iff {known : List String} {job : Job} :
    Ledger.offence? known job.main job.transaction = none ↔ job.Clean (· ∈ known) := by
  rw [Ledger.offence?, Clean]
  split
  next main =>
    simp only [main, true_implies, Ledger.firstOffence?, Option.or_eq_none_iff,
      List.findSome?_eq_none_iff, Ledger.burnOffence?_eq_none, List.mem_append, List.mem_map]
  next main => simp [main]

namespace Content

def Knows (content : Content) (identifier : String) : Prop :=
  (content.assets identifier).isSome = true

def AllClean : Content → List Job → Prop
  | _, [] => True
  | content, job :: jobs => job.Clean content.Knows ∧ (content.worked [job]).AllClean jobs

variable {content other : Content}

theorem knows_worked (content : Content) (jobs : List Job) (identifier : String) :
    (content.worked jobs).Knows identifier ↔
      content.Knows identifier ∨ (jobs.findSome? (·.registers? identifier)).isSome = true := by
  simp only [Knows, worked, Option.isSome_or, Bool.or_eq_true]

theorem AllClean.mono {jobs : List Job} : ∀ {content other : Content}, content.AllClean jobs →
    (∀ identifier, content.Knows identifier → other.Knows identifier) →
      other.AllClean jobs := by
  induction jobs with
  | nil => exact fun _ _ => trivial
  | cons job jobs ih =>
      intro content other clean grows
      refine ⟨clean.1.mono grows, ih clean.2 fun identifier => ?_⟩
      rw [knows_worked, knows_worked]
      exact Or.imp_left (grows identifier)

theorem allClean_append {first second : List Job} : ∀ {content : Content},
    content.AllClean (first ++ second) ↔
      content.AllClean first ∧ (content.worked first).AllClean second := by
  induction first with
  | nil =>
      intro content
      rw [worked_nil, List.nil_append]
      exact ⟨fun clean => ⟨trivial, clean⟩, fun clean => clean.2⟩
  | cons job jobs ih =>
      intro content
      have step := content.worked_append [job] jobs
      rw [List.singleton_append] at step
      rw [List.cons_append, AllClean, AllClean, ih, step, and_assoc]

/-- What is clean is clean again once some of it has been done. -/
theorem AllClean.again {first second : List Job} (clean : content.AllClean (first ++ second)) :
    content.AllClean (first ++ (first ++ second)) := by
  refine allClean_append.mpr ⟨(allClean_append.mp clean).1, clean.mono fun identifier knows => ?_⟩
  rw [knows_worked]
  exact Or.inl knows

def HasAll (content : Content) (jobs : List Job) : Prop :=
  ∀ job ∈ jobs, (content.transactions job.transaction.hash).isSome = true

theorem hasAll_stored (content : Content) (prepared : List Prepared) :
    (content.stored prepared).HasAll (prepared.flatMap Prepared.jobs) := by
  intro job member
  obtain ⟨pair, isPrepared, sent⟩ := List.mem_flatMap.mp member
  obtain ⟨transaction, isCarried, rfl⟩ := List.mem_map.mp sent
  have written : (transaction.hash, some transaction.toEntry) ∈
      prepared.flatMap fun pair => Prepared.transactionWrites pair.1.transactions :=
    List.mem_flatMap.mpr ⟨pair, isPrepared, List.mem_map_of_mem isCarried⟩
  have found := mem_of_writeAll content.transactions (List.mem_map_of_mem written)
  obtain ⟨_, -, among⟩ := List.mem_flatMap.mp found
  obtain ⟨last, -, same⟩ := List.mem_map.mp among
  exact Option.isSome_iff_exists.mpr ⟨_, (Prod.mk.inj same).2.symm⟩

end Content

namespace Store.Shows

variable {store : Store} {content : Content} {job : Job}

theorem clean_iff (shows : store.Shows content) :
    Ledger.offence? store.identifiers job.main job.transaction = none ↔
      job.Clean content.Knows := by
  rw [Job.clean_iff]
  have same : (· ∈ store.identifiers) = content.Knows :=
    funext fun identifier => propext (shows.isSome_assets identifier).symm
  rw [same]

theorem attempt_of_clean (shows : store.Shows content)
    (isStored : (content.transactions job.transaction.hash).isSome = true)
    (clean : job.Clean content.Knows) (now : Instant) :
    ∃ after, Worker.attempt job { store, now } = (.ok (), { store := after, now }) ∧
      after.Shows (content.worked [job]) := by
  rw [← shows.transactions, Option.isSome_map] at isStored
  obtain ⟨row, found⟩ := Option.isSome_iff_exists.mp isStored
  obtain ⟨after, ran, reconciled⟩ :=
    Ledger.reconcile_of_calm shows.sound.balanced found (shows.clean_iff.mpr clean) now
  exact ⟨after, ran, shows.reconciled found reconciled⟩

theorem processAll {maxRetries : UInt32} (now : Instant) {jobs : List Job} :
    ∀ {store : Store} {content : Content} (queue : Queue), store.Shows content →
      content.HasAll jobs → content.AllClean jobs →
      (jobs ≠ [] → maxRetries.toNat + 1 < UInt32.size) → ∃ settlements drained after,
        Worker.processAll maxRetries jobs queue { store, now } =
          (settlements, drained, { store := after, now }) ∧
        settlements.map (·.failure) = List.replicate jobs.length none ∧
          after.Shows (content.worked jobs) := by
  induction jobs with
  | nil =>
      intro store content queue shows _ _ _
      refine ⟨[], queue, store, rfl, rfl, ?_⟩
      rw [Content.worked_nil]
      exact shows
  | cons job jobs ih =>
      intro store content queue shows stored clean limited
      have below := limited (List.cons_ne_nil job jobs)
      obtain ⟨middle, ran, showsMiddle⟩ :=
        shows.attempt_of_clean (stored job (by simp)) clean.1 now
      obtain ⟨settlements, drained, after, rest, succeed, showsAfter⟩ :=
        ih { queue with jobs, counters := queue.counters.markProcessed } showsMiddle
          (fun other member => stored other (by simp [member])) clean.2 fun _ => below
      refine ⟨{ attempts := 1, failure := none } :: settlements, drained, after, ?_, ?_, ?_⟩
      · rw [Worker.processAll,
          Worker.process_eq_some_iff.mpr ⟨below, Worker.settle_of_ok ran⟩]
        exact congrArg (fun rest => (_ :: rest.1, rest.2)) rest
      · exact congrArg (List.cons none) succeed
      · rw [← List.singleton_append, Content.worked_append]
        exact showsAfter

theorem of_processAll {maxRetries : UInt32} {jobs : List Job} :
    ∀ {session last : Session} {content : Content} {queue drained : Queue}
      {settlements : List Worker.Settlement}, session.store.Shows content →
      OnlyRefusals session.faults →
      Worker.processAll maxRetries jobs queue session = (settlements, drained, last) →
      settlements.map (·.failure) = List.replicate jobs.length none →
        content.AllClean jobs ∧ last.store.Shows (content.worked jobs) := by
  induction jobs with
  | nil =>
      intro session last content queue drained settlements shows _ ran _
      obtain ⟨-, rest⟩ := Prod.mk.inj ran
      obtain ⟨-, rfl⟩ := Prod.mk.inj rest
      rw [Content.worked_nil]
      exact ⟨trivial, shows⟩
  | cons job jobs ih =>
      intro session last content queue drained settlements shows refusals ran succeed
      rw [Worker.processAll] at ran
      split at ran
      next =>
        obtain ⟨rfl, -⟩ := Prod.mk.inj ran
        cases succeed
      next settlement middle processes =>
        obtain ⟨rfl, rest⟩ := Prod.mk.inj ran
        obtain ⟨succeeded, succeed⟩ := List.cons.inj succeed
        obtain ⟨reached, same, reachedRefusals, reconciled⟩ :=
          Worker.settle_ok _ shows.sound.balanced refusals
            (Worker.process_eq_some_iff.mp processes).2 succeeded
        rw [← same] at shows
        obtain ⟨row, found, clean, step⟩ := (Ledger.reconcile_yields shows.sound.balanced job.main
          job.transaction reached.now).of_ok reachedRefusals reconciled
        have kept := (Ledger.steady_reconcile job.main job.transaction).refusals reachedRefusals
          reconciled
        have others := ih (shows.reconciled found step) kept (congrArg (Prod.mk _) rest) succeed
        refine ⟨⟨shows.clean_iff.mp clean, others.1⟩, ?_⟩
        rw [← List.singleton_append, Content.worked_append]
        exact others.2

end Store.Shows
end ChainLedger
