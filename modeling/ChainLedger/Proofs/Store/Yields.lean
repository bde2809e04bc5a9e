import Mathlib
import ChainLedger.Store.Session

/-!
# What work yields

A statement can be refused at any point. `Yields` says what work does all the same: when it
answers, then with an answer and a store as described, and when it fails, then either because a
fault was armed or with an error of its own. It leaves the clock alone and arms no fault. Lost
statements stand outside of this: they are reported as done.
-/

set_option autoImplicit false

namespace ChainLedger

/-- Each armed fault refuses its statement. None makes the store report a statement as done that
it has not done. -/
def OnlyRefusals (faults : List ArmedFault) : Prop :=
  ∀ fault ∈ faults, fault.mode = .refused

theorem OnlyRefusals.nil : OnlyRefusals [] := by
  intro fault member
  cases member

theorem OnlyRefusals.cons {fault : ArmedFault} {others : List ArmedFault}
    (head : fault.mode = .refused) (tail : OnlyRefusals others) :
    OnlyRefusals (fault :: others) := by
  intro other member
  rcases List.mem_cons.mp member with rfl | member
  · exact head
  · exact tail other member

theorem OnlyRefusals.ask {faults : List ArmedFault} (statement : Statement)
    (refusals : OnlyRefusals faults) :
    ((ArmedFault.ask statement faults).1 = none ∨
      (ArmedFault.ask statement faults).1 = some .refused) ∧
      OnlyRefusals (ArmedFault.ask statement faults).2 := by
  induction faults with
  | nil => exact ⟨Or.inl rfl, OnlyRefusals.nil⟩
  | cons fault others ih =>
      have head : fault.mode = .refused := refusals fault (by simp)
      have tail : OnlyRefusals others := fun other member => refusals other (by simp [member])
      obtain ⟨answer, rest⟩ := ih tail
      rw [ArmedFault.ask]
      split
      · split
        · exact ⟨answer, OnlyRefusals.cons head rest⟩
        · exact ⟨answer, rest⟩
        · exact ⟨Or.inr (congrArg some head), tail⟩
        · exact ⟨Or.inr (congrArg some head), OnlyRefusals.cons head tail⟩
      · exact ⟨answer, OnlyRefusals.cons head rest⟩

structure Session.Settled (faults : List ArmedFault) (now : Instant) (after : Session) :
    Prop where
  clock : after.now = now
  refusals : OnlyRefusals after.faults
  calm : faults = [] → after.faults = []

namespace Session.Settled

variable {faults : List ArmedFault} {now : Instant}

theorem start (store : Store) (refusals : OnlyRefusals faults) :
    Settled faults now { store, faults, now } :=
  ⟨rfl, refusals, id⟩

theorem trans {middle after : Session} (first : Settled faults now middle)
    (second : Settled middle.faults now after) : Settled faults now after :=
  ⟨second.clock, second.refusals, fun none => second.calm (first.calm none)⟩

theorem ask (store : Store) (now : Instant) (statement : Statement)
    (refusals : OnlyRefusals faults) :
    Settled faults now { store, faults := (ArmedFault.ask statement faults).2, now } := by
  refine ⟨rfl, (refusals.ask statement).2, ?_⟩
  rintro rfl
  rfl

end Session.Settled

namespace Work

variable {ε ε' α β : Type}

def Ends (faults : List ArmedFault) (now : Instant) (answered : α → Store → Prop)
    (failed : ε → Prop) : Except ε α × Session → Prop
  | (.ok value, after) => after.Settled faults now ∧ answered value after.store
  | (.error error, after) => after.Settled faults now ∧ (faults ≠ [] ∨ failed error)

/-- What follows on settled work ends as if it had started with the first faults. -/
theorem Ends.after {faults : List ArmedFault} {now : Instant} {middle : Session}
    {answered : α → Store → Prop} {failed : ε → Prop} {ending : Except ε α × Session}
    (ends : Ends middle.faults middle.now answered failed ending)
    (settled : middle.Settled faults now) : Ends faults now answered failed ending := by
  rw [settled.clock] at ends
  obtain ⟨result, after⟩ := ending
  cases result with
  | ok value => exact ⟨settled.trans ends.1, ends.2⟩
  | error error =>
      refine ⟨settled.trans ends.1, ends.2.imp_left ?_⟩
      exact fun armed none => armed (settled.calm none)

/-- What work does to a store, whatever statements are refused. -/
def Yields (work : Work ε α) (store : Store) (now : Instant)
    (answered : α → Store → Prop) (failed : ε → Prop) : Prop :=
  ∀ faults, OnlyRefusals faults → Ends faults now answered failed (work { store, faults, now })

variable {store : Store} {now : Instant} {answered : α → Store → Prop} {failed : ε → Prop}

theorem Yields.ends {work : Work ε α} {session : Session}
    (yields : work.Yields session.store session.now answered failed)
    (refusals : OnlyRefusals session.faults) :
    Ends session.faults session.now answered failed (work session) :=
  yields session.faults refusals

theorem yields_pure {value : α} (holds : answered value store) :
    (pure value : Work ε α).Yields store now answered failed :=
  fun _ refusals => ⟨.start store refusals, holds⟩

theorem yields_fail {error : ε} (holds : failed error) :
    (fail error : Work ε α).Yields store now answered failed :=
  fun _ refusals => ⟨.start store refusals, Or.inr holds⟩

theorem Yields.bind {work : Work ε α} {next : α → Work ε β} {answered : β → Store → Prop}
    (middle : α → Store → Prop) (first : work.Yields store now middle failed)
    (rest : ∀ value after, middle value after → (next value).Yields after now answered failed) :
    (work >>= next).Yields store now answered failed := by
  intro faults refusals
  have firstRun := first faults refusals
  rw [bind_apply]
  cases ran : work { store, faults, now } with
  | mk result reached =>
      rw [ran] at firstRun
      cases result with
      | error error => exact firstRun
      | ok value =>
          obtain ⟨settled, holds⟩ := firstRun
          have restYields := rest value reached.store holds
          rw [← settled.clock] at restYields
          exact (restYields.ends settled.refusals).after settled

theorem Yields.mono {work : Work ε α} {answered' : α → Store → Prop} {failed' : ε → Prop}
    (yields : work.Yields store now answered failed)
    (answers : ∀ value after, answered value after → answered' value after)
    (fails : ∀ error, failed error → failed' error) :
    work.Yields store now answered' failed' := by
  intro faults refusals
  have run := yields faults refusals
  cases ran : work { store, faults, now } with
  | mk result after =>
      rw [ran] at run
      cases result with
      | ok value => exact ⟨run.1, answers value after.store run.2⟩
      | error error => exact ⟨run.1, run.2.imp_right (fails error)⟩

theorem Yields.and {work : Work ε α} {answered' : α → Store → Prop} {failed' : ε → Prop}
    (first : work.Yields store now answered failed)
    (second : work.Yields store now answered' failed') :
    work.Yields store now (fun value after => answered value after ∧ answered' value after)
      failed := by
  intro faults refusals
  have run := first faults refusals
  have again := second faults refusals
  cases ran : work { store, faults, now } with
  | mk result after =>
      rw [ran] at run again
      cases result with
      | ok value => exact ⟨run.1, run.2, again.2⟩
      | error error => exact run

theorem Yields.mapError {work : Work ε α} {wrap : ε → ε'} {failed' : ε' → Prop}
    (yields : work.Yields store now answered failed)
    (fails : ∀ error, failed error → failed' (wrap error)) :
    (work.mapError wrap).Yields store now answered failed' := by
  intro faults refusals
  have run := yields faults refusals
  simp only [Work.mapError]
  cases ran : work { store, faults, now } with
  | mk result after =>
      rw [ran] at run
      cases result with
      | ok value => exact run
      | error error => exact ⟨run.1, run.2.imp_right (fails error)⟩

theorem ask_of_calm {faults : List ArmedFault} {statement : Statement} {mode : FaultMode}
    (hit : (ArmedFault.ask statement faults).1 = some mode) : faults ≠ [] := by
  rintro rfl
  cases hit

theorem yields_statement {statement : Statement} {lost : α} {effect : Session → α × Store}
    {answered : α → Store → Prop} {failed : StoreError → Prop}
    (holds : ∀ faults, answered (effect { store, faults, now }).1
      (effect { store, faults, now }).2) :
    (Work.statement statement lost effect).Yields store now answered failed := by
  intro faults refusals
  have asked := refusals.ask statement
  have settled := Session.Settled.ask store now statement refusals
  rw [Work.statement]
  rcases answer : ArmedFault.ask statement faults with ⟨mode, rest⟩
  rw [answer] at asked settled
  rcases asked.1 with rfl | rfl
  · exact ⟨⟨settled.clock, settled.refusals, settled.calm⟩, holds faults⟩
  · exact ⟨settled, Or.inl (ask_of_calm (congrArg Prod.fst answer))⟩

theorem yields_select {table : TableName} {lost : α} {view : Store → α}
    {answered : α → Store → Prop} {failed : StoreError → Prop}
    (holds : answered (view store) store) :
    (Work.select table lost view).Yields store now answered failed :=
  yields_statement fun _ => holds

theorem yields_orFail {value : Option α} {error : ε}
    (answers : ∀ found, value = some found → answered found store)
    (fails : value = none → failed error) :
    (orFail value error).Yields store now answered failed := by
  cases value with
  | none => exact yields_fail (fails rfl)
  | some found => exact yields_pure (answers found rfl)

theorem boundary_yields (store : Store) (now : Instant) (statement : Statement) :
    (boundary statement).Yields store now (fun _ after => after = store) fun _ => False := by
  intro faults refusals
  have asked := refusals.ask statement
  have settled := Session.Settled.ask store now statement refusals
  rw [boundary]
  rcases answer : ArmedFault.ask statement faults with ⟨mode, rest⟩
  rw [answer] at asked settled
  rcases asked.1 with rfl | rfl
  · exact ⟨settled, rfl⟩
  · exact ⟨settled, Or.inl (ask_of_calm (congrArg Prod.fst answer))⟩

/-- A unit of work yields what its statements yield. -/
theorem Yields.atomically {wrap : StoreError → ε} {work : Work ε α}
    (yields : work.Yields store now answered failed) :
    (Work.atomically wrap work).Yields store now answered failed := by
  intro faults refusals
  simp only [Work.atomically]
  have opening := boundary_yields store now .opening faults refusals
  cases opened : boundary .opening { store, faults, now } with
  | mk result session =>
      rw [opened] at opening
      cases result with
      | error error => exact ⟨opening.1, opening.2.imp_right False.elim⟩
      | ok value =>
          obtain ⟨settled, rfl⟩ := opening
          rw [← settled.clock] at yields
          have run := (yields.ends settled.refusals).after settled
          dsimp only
          cases ran : work session with
          | mk result after =>
              rw [ran] at run
              cases result with
              | error error => exact ⟨⟨run.1.clock, run.1.refusals, run.1.calm⟩, run.2⟩
              | ok value =>
                  have closing := ((boundary_yields after.store after.now .commit).ends
                    run.1.refusals).after run.1
                  dsimp only
                  cases closed : boundary .commit after with
                  | mk result last =>
                      rw [closed] at closing
                      cases result with
                      | ok done =>
                          obtain ⟨ended, same⟩ := closing
                          have holds : answered value after.store := run.2
                          rw [← same] at holds
                          exact ⟨ended, holds⟩
                      | error error =>
                          obtain ⟨ended, armed⟩ := closing
                          refine ⟨⟨ended.clock, ended.refusals, ended.calm⟩, ?_⟩
                          exact armed.imp_right False.elim

/-- A unit of work keeps what its answers keep, since it changes nothing when it fails. -/
theorem Yields.keeps {wrap : StoreError → ε} {work : Work ε α} {session : Session}
    {holds : Store → Prop}
    (yields : (Work.atomically wrap work).Yields session.store session.now answered failed)
    (refusals : OnlyRefusals session.faults) (start : holds session.store)
    (answers : ∀ value after, answered value after → holds after) :
    holds (Work.atomically wrap work session).2.store ∧
      OnlyRefusals (Work.atomically wrap work session).2.faults := by
  have run := yields.ends refusals
  cases ran : Work.atomically wrap work session with
  | mk result after =>
      rw [ran] at run
      cases result with
      | ok value => exact ⟨answers value after.store run.2, run.1.refusals⟩
      | error error =>
          refine ⟨?_, run.1.refusals⟩
          rw [store_of_atomically_error wrap work ran]
          exact start

theorem Yields.of_ok {work : Work ε α} {session after : Session} {value : α}
    (yields : work.Yields session.store session.now answered failed)
    (refusals : OnlyRefusals session.faults) (ran : work session = (.ok value, after)) :
    answered value after.store := by
  have run := yields.ends refusals
  rw [ran] at run
  exact run.2

/-- Where no fault is armed, work answers or fails with an error of its own. -/
theorem Yields.of_calm {work : Work ε α}
    (yields : work.Yields store now answered failed) :
    (∃ value after, work { store, now } = (.ok value, { store := after, now }) ∧
      answered value after) ∨
    ∃ error after, work { store, now } = (.error error, after) ∧ failed error := by
  have run := yields [] OnlyRefusals.nil
  cases ran : work { store, now } with
  | mk result after =>
      rw [ran] at run
      cases result with
      | error error => exact Or.inr ⟨error, after, rfl, run.2.resolve_left (· rfl)⟩
      | ok value =>
          obtain ⟨settled, holds⟩ := run
          refine Or.inl ⟨value, after.store, ?_, holds⟩
          rw [← settled.clock, ← settled.calm rfl]

end Work
end ChainLedger
