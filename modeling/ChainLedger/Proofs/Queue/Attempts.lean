import ChainLedger.Proofs.Ledger.Atomicity
import ChainLedger.Queue.Worker

/-!
# Attempts at a job

A job is attempted until an attempt succeeds or the limit is reached. Attempts that fail leave the
store as it was, so the one that succeeds meets the store that the first one met, and does what it
would have done at once if no fault had been armed.
-/

set_option autoImplicit false

namespace ChainLedger.Worker

open Work

def attempted (job : Job) : Nat → Session → Session
  | 0, session => session
  | count + 1, session => attempted job count (attempt job session).2

def FailsAfter (job : Job) (session : Session) (count : Nat) : Prop :=
  ∃ error, (attempt job (attempted job count session)).1 = .error error

/-- How a job is dealt with from one session to another. -/
inductive Dealt (maxRetries : Nat) (job : Job) (before : Session) : Settlement → Session → Prop
  | applied {earlier : Nat} (within : earlier ≤ maxRetries)
      (fails : ∀ count < earlier, FailsAfter job before count)
      (succeeds : (attempt job (attempted job earlier before)).1 = .ok ())
      (once : attempt job before.calm = (.ok (), (attempted job (earlier + 1) before).calm)) :
      Dealt maxRetries job before { attempts := earlier + 1, failure := none }
        (attempted job (earlier + 1) before)
  | dropped {error : Ledger.Error} (fails : ∀ count < maxRetries, FailsAfter job before count)
      (last : (attempt job (attempted job maxRetries before)).1 = .error error)
      (traceless : (attempted job (maxRetries + 1) before).store = before.store) :
      Dealt maxRetries job before { attempts := maxRetries + 1, failure := some error }
        (attempted job (maxRetries + 1) before)

theorem steady_attempt (job : Job) : (attempt job).Steady :=
  Ledger.steady_reconcile job.main job.transaction

variable {job : Job} {session after : Session} {error : Ledger.Error} {retries : Nat}

theorem store_of_attempt_error (failed : attempt job session = (.error error, after)) :
    after.store = session.store :=
  store_of_atomically_error _ _ failed

/-- An attempt that fails changes nothing but the faults. -/
theorem calm_of_attempt_error (refusals : OnlyRefusals session.faults)
    (failed : attempt job session = (.error error, after)) : after.calm = session.calm := by
  obtain ⟨result, reached, ran, settled, -⟩ := steady_attempt job session refusals
  rw [failed] at ran
  obtain ⟨-, rfl⟩ := Prod.mk.inj ran
  rw [Session.calm, Session.calm, store_of_attempt_error failed, settled.clock]

theorem eq_of_attempt_error (noFaults : session.faults = [])
    (failed : attempt job session = (.error error, after)) : after = session := by
  have same := calm_of_attempt_error (noFaults ▸ OnlyRefusals.nil) failed
  have none := (steady_attempt job).faults_eq_nil noFaults failed
  obtain ⟨store, faults, now⟩ := session
  obtain ⟨store', faults', now'⟩ := after
  obtain rfl := noFaults
  obtain rfl := none
  exact same

/-! ## Settling -/

theorem settle_of_ok (succeeds : attempt job session = (.ok (), after)) :
    settle job retries session = ({ attempts := 1, failure := none }, after) := by
  cases retries <;> rw [settle, succeeds]

theorem settle_zero_of_error (failed : attempt job session = (.error error, after)) :
    settle job 0 session = ({ attempts := 1, failure := some error }, after) := by
  rw [settle, failed]

theorem settle_succ_of_error (failed : attempt job session = (.error error, after)) :
    settle job (retries + 1) session =
      ({ (settle job retries after).1 with attempts := (settle job retries after).1.attempts + 1 },
        (settle job retries after).2) := by
  rw [settle, failed]

/-- A job is attempted until an attempt succeeds, and otherwise once more than it is retried. -/
structure Tried (retries : Nat) (job : Job) (session : Session) (settlement : Settlement) :
    Prop where
  succeeded : ∀ earlier ≤ retries, (∀ count < earlier, FailsAfter job session count) →
    (attempt job (attempted job earlier session)).1 = .ok () →
      settlement = { attempts := earlier + 1, failure := none }
  exhausted : ∀ error, (∀ count < retries, FailsAfter job session count) →
    (attempt job (attempted job retries session)).1 = .error error →
      settlement = { attempts := retries + 1, failure := some error }

namespace Tried

theorem of_ok (succeeds : attempt job session = (.ok (), after)) :
    Tried retries job session { attempts := 1, failure := none } := by
  have first : (attempt job session).1 = .ok () := congrArg Prod.fst succeeds
  constructor
  · rintro (_ | earlier) - fails -
    · rfl
    · obtain ⟨error, failed⟩ := fails 0 (Nat.succ_pos earlier)
      cases first.symm.trans failed
  · rintro error fails last
    cases retries with
    | zero => cases first.symm.trans last
    | succ retries =>
        obtain ⟨error, failed⟩ := fails 0 (Nat.succ_pos retries)
        cases first.symm.trans failed

theorem of_error (failed : attempt job session = (.error error, after)) :
    Tried 0 job session { attempts := 1, failure := some error } := by
  have first : (attempt job session).1 = .error error := congrArg Prod.fst failed
  constructor
  · rintro earlier within - succeeds
    obtain rfl := Nat.le_zero.mp within
    cases first.symm.trans succeeds
  · rintro error - last
    obtain rfl := Except.error.inj (first.symm.trans last)
    rfl

theorem retry {settlement : Settlement} (failed : attempt job session = (.error error, after))
    (tried : Tried retries job after settlement) :
    Tried (retries + 1) job session
      { settlement with attempts := settlement.attempts + 1 } := by
  have first : (attempt job session).1 = .error error := congrArg Prod.fst failed
  obtain rfl : (attempt job session).2 = after := congrArg Prod.snd failed
  constructor
  · rintro (_ | earlier) within fails succeeds
    · cases first.symm.trans succeeds
    · rw [tried.succeeded earlier (Nat.le_of_succ_le_succ within)
        (fun count before => fails (count + 1) (Nat.succ_lt_succ before)) succeeds]
  · intro error fails last
    rw [tried.exhausted error (fun count before => fails (count + 1) (Nat.succ_lt_succ before))
      last]

end Tried

theorem tried_settle (job : Job) (retries : Nat) : ∀ session : Session,
    Tried retries job session (settle job retries session).1 ∧
      (settle job retries session).2 =
        attempted job (settle job retries session).1.attempts session := by
  induction retries with
  | zero =>
      intro session
      rcases ran : attempt job session with ⟨error | value, after⟩
      · rw [settle_zero_of_error ran]
        exact ⟨.of_error ran, (congrArg Prod.snd ran).symm⟩
      · rw [settle_of_ok ran]
        exact ⟨.of_ok ran, (congrArg Prod.snd ran).symm⟩
  | succ retries ih =>
      intro session
      rcases ran : attempt job session with ⟨error | value, after⟩
      · rw [settle_succ_of_error ran]
        obtain ⟨tried, ends⟩ := ih after
        refine ⟨tried.retry ran, ends.trans ?_⟩
        rw [attempted, ran]
      · rw [settle_of_ok ran]
        exact ⟨.of_ok ran, (congrArg Prod.snd ran).symm⟩

theorem first_success_or_exhausted (job : Job) (session : Session) (retries : Nat) :
    (∃ earlier ≤ retries, (∀ count < earlier, FailsAfter job session count) ∧
      (attempt job (attempted job earlier session)).1 = .ok ()) ∨
    ∃ error, (∀ count < retries, FailsAfter job session count) ∧
      (attempt job (attempted job retries session)).1 = .error error := by
  by_cases fails : ∀ count < retries, FailsAfter job session count
  · cases last : (attempt job (attempted job retries session)).1 with
    | error error => exact .inr ⟨error, fails, rfl⟩
    | ok value => exact .inl ⟨retries, le_rfl, fails, last⟩
  · classical
    have early : ∃ count, count < retries ∧ ¬FailsAfter job session count := by
      push Not at fails
      exact fails
    obtain ⟨within, succeeds⟩ := Nat.find_spec early
    refine .inl ⟨Nat.find early, within.le, fun count before => ?_, ?_⟩
    · exact not_not.mp fun done => Nat.find_min early before ⟨before.trans within, done⟩
    · cases first : (attempt job (attempted job (Nat.find early) session)).1 with
      | error error => exact absurd ⟨error, first⟩ succeeds
      | ok value => rfl

/-! ## Attempts while statements may be refused -/

theorem attempted_succ (job : Job) (count : Nat) : ∀ session : Session,
    attempted job (count + 1) session = (attempt job (attempted job count session)).2 := by
  induction count with
  | zero => exact fun _ => rfl
  | succ count ih => exact fun session => ih (attempt job session).2

theorem refusals_attempted (refusals : OnlyRefusals session.faults) (count : Nat) :
    OnlyRefusals (attempted job count session).faults := by
  induction count with
  | zero => exact refusals
  | succ count ih =>
      rw [attempted_succ]
      exact (steady_attempt job).refusals ih rfl

theorem calm_attempted (refusals : OnlyRefusals session.faults) {earlier : Nat}
    (fails : ∀ count < earlier, FailsAfter job session count) :
    (attempted job earlier session).calm = session.calm := by
  induction earlier with
  | zero => rfl
  | succ earlier ih =>
      obtain ⟨error, failed⟩ := fails earlier (Nat.lt_succ_self earlier)
      have before := ih fun count within => fails count (Nat.lt_succ_of_lt within)
      rw [attempted_succ, ← before]
      exact calm_of_attempt_error (refusals_attempted refusals earlier) (Prod.ext failed rfl)

/-- The store after a job is what one attempt makes of it where no fault is armed, or else the store
before. -/
theorem Dealt.store_eq {before : Session} {settlement : Settlement}
    (dealt : Dealt retries job before settlement after) :
    after.store = if settlement.failure.isNone then (attempt job before.calm).2.store
      else before.store := by
  cases dealt with
  | applied within fails succeeds once =>
      rw [once]
      rfl
  | dropped fails last traceless => exact traceless

theorem dealt_of_settle (job : Job) (retries : Nat) {session : Session}
    (refusals : OnlyRefusals session.faults) :
    Dealt retries job session (settle job retries session).1 (settle job retries session).2 ∧
      OnlyRefusals (settle job retries session).2.faults := by
  obtain ⟨tried, ends⟩ := tried_settle job retries session
  rw [ends]
  refine ⟨?_, refusals_attempted refusals _⟩
  rcases first_success_or_exhausted job session retries with
    ⟨earlier, within, fails, succeeds⟩ | ⟨error, fails, last⟩
  · have once : attempt job session.calm =
        (.ok (), (attempted job (earlier + 1) session).calm) := by
      rw [attempted_succ, ← calm_attempted refusals fails]
      exact ((steady_attempt job).of_ok (refusals_attempted refusals earlier)
        (Prod.ext succeeds rfl)).2
    rw [tried.succeeded earlier within fails succeeds]
    exact .applied within fails succeeds once
  · have traceless : (attempted job (retries + 1) session).store = session.store := by
      have unchanged := congrArg Session.store (calm_attempted refusals fails)
      rw [attempted_succ, store_of_attempt_error (Prod.ext last rfl)]
      exact unchanged
    rw [tried.exhausted error fails last]
    exact .dropped fails last traceless

/-! ## The limit -/

theorem toNat_succ {word : UInt32} (below : word.toNat + 1 < UInt32.size) :
    (word + 1).toNat = word.toNat + 1 := by
  rw [UInt32.toNat_add]
  exact Nat.mod_eq_of_lt below

theorem below_or_greatest (maxRetries : UInt32) :
    maxRetries.toNat + 1 < UInt32.size ∨ maxRetries.toNat = UInt32.size - 1 := by
  have word : maxRetries.toNat < UInt32.size := maxRetries.toNat_lt
  omega

theorem attemptLimit_of_below {maxRetries : UInt32} (below : maxRetries.toNat + 1 < UInt32.size) :
    attemptLimit maxRetries = some (maxRetries + 1) :=
  if_pos below

theorem attemptLimit_of_greatest {maxRetries : UInt32}
    (greatest : maxRetries.toNat = UInt32.size - 1) : attemptLimit maxRetries = none :=
  if_neg (by omega)

theorem process_eq_some_iff {maxRetries : UInt32} {dealt : Settlement × Session} :
    process maxRetries job session = some dealt ↔
      maxRetries.toNat + 1 < UInt32.size ∧ settle job maxRetries.toNat session = dealt := by
  rw [process]
  rcases below_or_greatest maxRetries with below | greatest
  · rw [attemptLimit_of_below below, Option.map_some, Option.some_inj, toNat_succ below,
      Nat.add_sub_cancel]
    exact (and_iff_right below).symm
  · rw [attemptLimit_of_greatest greatest]
    exact iff_of_false nofun fun ⟨below, _⟩ => by omega

theorem process_of_greatest {maxRetries : UInt32} (greatest : maxRetries.toNat = UInt32.size - 1)
    (job : Job) (session : Session) : process maxRetries job session = none := by
  rw [process, attemptLimit_of_greatest greatest]
  rfl

theorem dealt_of_process {maxRetries : UInt32} {settlement : Settlement}
    (processes : process maxRetries job session = some (settlement, after))
    (refusals : OnlyRefusals session.faults) :
    Dealt maxRetries.toNat job session settlement after ∧ OnlyRefusals after.faults := by
  have dealt := dealt_of_settle job maxRetries.toNat refusals
  rw [(process_eq_some_iff.mp processes).2] at dealt
  exact dealt

/-! ## Draining -/

theorem drain_of_empty {queue : Queue} (empty : queue.jobs = []) (maxRetries : UInt32)
    (session : Session) : drain maxRetries queue session = ([], queue, session) := by
  rw [drain, empty, processAll]

theorem drain_of_cons {maxRetries : UInt32} {queue : Queue} {job : Job} {jobs : List Job}
    {session after : Session} {settlement : Settlement} (waits : queue.jobs = job :: jobs)
    (processes : process maxRetries job session = some (settlement, after)) :
    drain maxRetries queue session =
      let rest := { queue with jobs, counters := settlement.mark queue.counters }
      let drained := drain maxRetries rest after
      (settlement :: drained.1, drained.2) := by
  rw [drain, waits, processAll, processes]
  rfl

theorem jobs_eq_nil_of_drain {maxRetries : UInt32} (below : maxRetries.toNat + 1 < UInt32.size)
    {queue : Queue} (none : (drain maxRetries queue session).1 = []) : queue.jobs = [] := by
  cases waits : queue.jobs with
  | nil => rfl
  | cons job jobs =>
      rw [drain_of_cons waits (process_eq_some_iff.mpr ⟨below, rfl⟩)] at none
      cases none

theorem drain_of_greatest {maxRetries : UInt32} (greatest : maxRetries.toNat = UInt32.size - 1)
    {queue : Queue} (waits : queue.jobs ≠ []) (session : Session) :
    drain maxRetries queue session = ([], queue.close, session) := by
  obtain ⟨job, jobs, waiting⟩ := List.exists_cons_of_ne_nil waits
  rw [drain, waiting, processAll, process_of_greatest greatest]

theorem jobs_processAll (maxRetries : UInt32) (jobs : List Job) :
    ∀ (queue : Queue) (session : Session), queue.jobs = jobs →
      (processAll maxRetries jobs queue session).2.1.jobs = [] := by
  induction jobs with
  | nil => exact fun _ _ empty => empty
  | cons job jobs ih =>
      intro queue session _
      rw [processAll]
      split
      next => rfl
      next => exact ih _ _ rfl

theorem jobs_drain (maxRetries : UInt32) (queue : Queue) (session : Session) :
    (drain maxRetries queue session).2.1.jobs = [] :=
  jobs_processAll maxRetries queue.jobs queue session rfl

end ChainLedger.Worker
