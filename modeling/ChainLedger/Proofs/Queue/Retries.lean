import ChainLedger.Proofs.Queue.Serving
import ChainLedger.Settings.Environment

/-!
# Retries as configured

The limit of attempts is one more than the configured number of retries, in words of 32 bits. For
the greatest word it overflows, so that the worker stops at the first job that waits; for all
others jobs are attempted exactly as often as the settings say.
-/

set_option autoImplicit false

namespace ChainLedger

namespace Settings

theorem Environment.number_lt (environment : Environment) (name : String) {size default : Nat}
    (within : default < size) : environment.number name size default < size := by
  rw [Environment.number]
  cases read : (environment.get? name).bind (Text.readUnsigned? size) with
  | none => exact within
  | some number =>
      obtain ⟨text, -, reads⟩ := Option.bind_eq_some_iff.mp read
      exact of_decide_eq_true (Option.filter_eq_some_iff.mp reads).2

theorem maxRetries_lt (environment : Environment) :
    (ofEnvironment environment).retrying.maxRetries < UInt32.size :=
  environment.number_lt "ASSET_LOADER_MAX_RETRIES" (by decide)

end Settings

namespace Worker

/-! ## Counting in words -/

/-- Attempts a job while the count of attempts is below the limit, with the count in a word; there
is no result if the count leaves the words. -/
def countAttempts (job : Job) (limit made : UInt32) (session : Session) :
    Option (Settlement × Session) :=
  if made.toNat + 1 < UInt32.size then
    match attempt job session with
    | (.ok (), after) => some ({ attempts := (made + 1).toNat, failure := none }, after)
    | (.error error, after) =>
      if made + 1 < limit then countAttempts job limit (made + 1) after
      else some ({ attempts := (made + 1).toNat, failure := some error }, after)
  else none
termination_by UInt32.size - made.toNat
decreasing_by
  rw [toNat_succ ‹_›]
  omega

theorem countAttempts_eq_settle (job : Job) {limit : UInt32} (retries : Nat) :
    ∀ (made : UInt32) (session : Session), limit.toNat = made.toNat + retries + 1 →
      countAttempts job limit made session =
        some ({ (settle job retries session).1 with
          attempts := made.toNat + (settle job retries session).1.attempts },
          (settle job retries session).2) := by
  have limited : limit.toNat < UInt32.size := limit.toNat_lt
  -- the attempts that are made and those that are left make up the limit
  induction retries with
  | zero =>
      intro made session within
      have fits : made.toNat + 1 < UInt32.size := by omega
      have none : ¬made + 1 < limit := by
        rw [UInt32.lt_iff_toNat_lt, toNat_succ fits]
        omega
      rw [countAttempts, if_pos fits]
      rcases ran : attempt job session with ⟨error | value, after⟩
      · rw [settle_zero_of_error ran, toNat_succ fits]
        exact if_neg none
      · rw [settle_of_ok ran, toNat_succ fits]
  | succ retries ih =>
      intro made session within
      have fits : made.toNat + 1 < UInt32.size := by omega
      have left : made + 1 < limit := by
        rw [UInt32.lt_iff_toNat_lt, toNat_succ fits]
        omega
      rw [countAttempts, if_pos fits]
      rcases ran : attempt job session with ⟨error | value, after⟩
      · have rest := ih (made + 1) after (by rw [toNat_succ fits]; omega)
        rw [settle_succ_of_error ran]
        refine (if_pos left).trans (rest.trans ?_)
        rw [toNat_succ fits, Nat.add_right_comm, Nat.add_assoc]
      · rw [settle_of_ok ran, toNat_succ fits]

theorem countAttempts_eq_process {maxRetries : UInt32}
    (below : maxRetries.toNat + 1 < UInt32.size) (job : Job) (session : Session) :
    countAttempts job (maxRetries + 1) 0 session = process maxRetries job session := by
  rw [process_eq_some_iff.mpr ⟨below, rfl⟩, countAttempts_eq_settle job maxRetries.toNat 0 session
    (by rw [UInt32.toNat_zero, Nat.zero_add, toNat_succ below]), UInt32.toNat_zero, Nat.zero_add]

/-! ## More retries -/

section

variable {job : Job} {session : Session} {fewer retries : Nat} {settlement other : Settlement}

theorem Tried.attempts_mono (tried : Tried fewer job session settlement)
    (more : Tried retries job session other) (le : fewer ≤ retries) :
    settlement.attempts ≤ other.attempts := by
  rcases first_success_or_exhausted job session fewer with
    ⟨earlier, within, fails, succeeds⟩ | ⟨error, fails, last⟩
  · rw [tried.succeeded earlier within fails succeeds,
      more.succeeded earlier (within.trans le) fails succeeds]
  · rw [tried.exhausted error fails last]
    rcases first_success_or_exhausted job session retries with
      ⟨earlier, within, fails', succeeds⟩ | ⟨error', fails', last'⟩
    · have later : fewer ≤ earlier := by
        by_contra before
        obtain ⟨error', failed⟩ := fails earlier (Nat.lt_of_not_le before)
        cases succeeds.symm.trans failed
      rw [more.succeeded earlier within fails' succeeds]
      exact Nat.succ_le_succ later
    · rw [more.exhausted error' fails' last']
      exact Nat.succ_le_succ le

end

/-! ## One job after the other -/

/-- Jobs are tried in order, each from where the attempts at the one before have left the
session. -/
inductive InTurn (retries : Nat) : List Job → Session → List Settlement → Session → Prop
  | none {session : Session} : InTurn retries [] session [] session
  | next {job : Job} {jobs : List Job} {session last : Session} {settlement : Settlement}
      {settlements : List Settlement} (tried : Tried retries job session settlement)
      (rest : InTurn retries jobs (attempted job settlement.attempts session) settlements last) :
      InTurn retries (job :: jobs) session (settlement :: settlements) last

theorem inTurn_processAll {maxRetries : UInt32} (below : maxRetries.toNat + 1 < UInt32.size)
    (jobs : List Job) : ∀ (queue : Queue) (session : Session),
      InTurn maxRetries.toNat jobs session (processAll maxRetries jobs queue session).1
        (processAll maxRetries jobs queue session).2.2 := by
  induction jobs with
  | nil => exact fun _ _ => .none
  | cons job jobs ih =>
      intro queue session
      obtain ⟨tried, ends⟩ := tried_settle job maxRetries.toNat session
      rw [processAll, process_eq_some_iff.mpr ⟨below, rfl⟩]
      refine .next tried ?_
      rw [← ends]
      exact ih _ _

/-- A worker tries the jobs of any queue in turn, with a number of retries. -/
def TriesInTurn (maxRetries : UInt32) (retries : Nat) : Prop :=
  ∀ queue session, InTurn retries queue.jobs session (drain maxRetries queue session).1
    (drain maxRetries queue session).2.2

/-- What a worker with fewer retries settles is settled with no fewer attempts. -/
def TriesMost (maxRetries : UInt32) : Prop :=
  ∀ fewer ≤ maxRetries, ∀ job session settlement after,
    process fewer job session = some (settlement, after) →
      ∃ other last, process maxRetries job session = some (other, last) ∧
        settlement.attempts ≤ other.attempts

theorem triesMost {maxRetries : UInt32} (below : maxRetries.toNat + 1 < UInt32.size) :
    TriesMost maxRetries := by
  intro fewer le job session settlement after processes
  obtain ⟨-, settles⟩ := process_eq_some_iff.mp processes
  have tried := (tried_settle job fewer.toNat session).1
  rw [settles] at tried
  exact ⟨_, _, process_eq_some_iff.mpr ⟨below, rfl⟩,
    tried.attempts_mono (tried_settle job maxRetries.toNat session).1
      (UInt32.le_iff_toNat_le.mp le)⟩

/-! ## The greatest number of retries -/

section

variable {maxRetries : UInt32} (greatest : maxRetries.toNat = UInt32.size - 1)

include greatest

theorem not_triesInTurn_of_greatest (retries : Nat) : ¬TriesInTurn maxRetries retries := by
  intro inTurn
  have turn := inTurn { jobs := [revisedJob] } {}
  rw [drain_of_greatest greatest (List.cons_ne_nil _ _)] at turn
  cases turn

theorem not_triesMost_of_greatest : ¬TriesMost maxRetries := by
  intro most
  have least : 0 ≤ maxRetries := UInt32.zero_le
  obtain ⟨other, last, processes, -⟩ := most 0 least revisedJob {} _ _
    (process_eq_some_iff.mpr ⟨by decide, rfl⟩)
  rw [process_of_greatest greatest] at processes
  cases processes

end

/-- Whatever the environment says, the number of retries fits in a word, and where there is a limit
of attempts it is one more and attempts are counted without overflow. There is a limit, the jobs of
every queue are tried in turn as often as configured, and more retries mean no fewer attempts, each
exactly where the greatest number of retries is not configured. With that number the worker stops
at the first job that waits: none is attempted, and the queue is closed. -/
theorem tried_as_configured_iff (environment : Settings.Environment) :
    let retries := (Settings.ofEnvironment environment).retrying.maxRetries
    let maxRetries := UInt32.ofNat retries
    maxRetries.toNat = retries ∧
      (∀ limit, attemptLimit maxRetries = some limit → limit.toNat = retries + 1 ∧
        ∀ job session, countAttempts job limit 0 session = process maxRetries job session) ∧
      ((attemptLimit maxRetries).isSome = true ↔ retries ≠ UInt32.size - 1) ∧
      (TriesInTurn maxRetries retries ↔ retries ≠ UInt32.size - 1) ∧
      (TriesMost maxRetries ↔ retries ≠ UInt32.size - 1) ∧
      (retries = UInt32.size - 1 → ∀ queue session, queue.jobs ≠ [] →
        drain maxRetries queue session = ([], queue.close, session)) := by
  intro retries maxRetries
  have fits : retries < UInt32.size := Settings.maxRetries_lt environment
  have same : maxRetries.toNat = retries := UInt32.toNat_ofNat_of_lt fits
  rw [← same]
  rcases below_or_greatest maxRetries with below | greatest
  · have other : maxRetries.toNat ≠ UInt32.size - 1 := by omega
    refine ⟨rfl, ?_, iff_of_true ?_ other, iff_of_true ?_ other,
      iff_of_true (triesMost below) other, fun greatest => absurd greatest other⟩
    · intro limit limited
      rw [attemptLimit_of_below below] at limited
      obtain rfl := Option.some.inj limited
      exact ⟨toNat_succ below, countAttempts_eq_process below⟩
    · rw [attemptLimit_of_below below]
      rfl
    · exact fun queue => inTurn_processAll below queue.jobs queue
  · rw [attemptLimit_of_greatest greatest]
    exact ⟨rfl, (fun _ limited => nomatch limited), iff_of_false nofun (not_not.mpr greatest),
      iff_of_false (not_triesInTurn_of_greatest greatest _) (not_not.mpr greatest),
      iff_of_false (not_triesMost_of_greatest greatest) (not_not.mpr greatest),
      fun _ _ session waits => drain_of_greatest greatest waits session⟩

def greatestEnvironment : Settings.Environment := [("ASSET_LOADER_MAX_RETRIES", "4294967295")]

theorem revisedJob_lost_where_greatest_configured :
    let retries := (Settings.ofEnvironment greatestEnvironment).retrying.maxRetries
    let maxRetries := UInt32.ofNat retries
    let queue : Queue := { jobs := [revisedJob] }
    retries = UInt32.size - 1 ∧ ¬TriesInTurn maxRetries retries ∧ ¬TriesMost maxRetries ∧
      attemptLimit maxRetries = none ∧
      drain maxRetries queue (Ledger.refusedCommit 0) =
        ([], queue.close, Ledger.refusedCommit 0) ∧
      (drain (maxRetries - 1) queue (Ledger.refusedCommit 0)).1 =
        [{ attempts := 2, failure := none }] := by
  intro retries maxRetries queue
  have isGreatest : retries = UInt32.size - 1 := by decide
  obtain ⟨-, -, limited, inTurn, most, stops⟩ := tried_as_configured_iff greatestEnvironment
  refine ⟨isGreatest, fun tries => inTurn.mp tries isGreatest,
    fun tries => most.mp tries isGreatest, ?_, stops isGreatest _ _ (List.cons_ne_nil _ _), ?_⟩
  · exact Option.not_isSome_iff_eq_none.mp fun isLimited => limited.mp isLimited isGreatest
  · have word : maxRetries = .ofNat (UInt32.size - 1) := congrArg UInt32.ofNat isGreatest
    rw [word]
    cbv

end Worker
end ChainLedger
