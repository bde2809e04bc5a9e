import ChainLedger.Proofs.Store.Yields

/-!
# What work passes through

Work stops at a statement that is refused, and leaves the store as the statements before it have
made it. The stores that work can end in are therefore those that it passes through, behind each
of its statements. `Throughout` says that all of them have a property, and is shown along the
structure of the work.
-/

set_option autoImplicit false

namespace ChainLedger.Work

variable {ε ε' α β : Type}

/-- Work is on a store when it stops at one of its statements or has come to its end. -/
def PassesThrough (work : Work ε α) (store : Store) (now : Instant) (middle : Store) : Prop :=
  ∃ faults, OnlyRefusals faults ∧ (work { store, faults, now }).2.store = middle

/-- All stores that work passes through have a property. -/
def Throughout (work : Work ε α) (store : Store) (now : Instant) (holds : Store → Prop) : Prop :=
  ∀ middle, work.PassesThrough store now middle → holds middle

variable {store : Store} {now : Instant} {holds : Store → Prop}

theorem Throughout.ends {work : Work ε α} {session : Session}
    (throughout : work.Throughout session.store session.now holds)
    (refusals : OnlyRefusals session.faults) : holds (work session).2.store :=
  throughout _ ⟨session.faults, refusals, rfl⟩

theorem throughout_pure {value : α} (start : holds store) :
    (pure value : Work ε α).Throughout store now holds := by
  rintro _ ⟨faults, -, rfl⟩
  exact start

theorem throughout_fail {error : ε} (start : holds store) :
    (fail error : Work ε α).Throughout store now holds := by
  rintro _ ⟨faults, -, rfl⟩
  exact start

theorem throughout_orFail {value : Option α} {error : ε} (start : holds store) :
    (orFail value error).Throughout store now holds := by
  cases value with
  | none => exact throughout_fail start
  | some found => exact throughout_pure start

theorem throughout_ofExcept {result : Except ε α} (start : holds store) :
    (ofExcept result).Throughout store now holds := by
  rintro _ ⟨faults, -, rfl⟩
  exact start

theorem throughout_statement {statement : Statement} {lost : α} {effect : Session → α × Store}
    (start : holds store) (done : ∀ faults, holds (effect { store, faults, now }).2) :
    (Work.statement statement lost effect).Throughout store now holds := by
  rintro _ ⟨faults, -, rfl⟩
  rw [Work.statement]
  rcases ArmedFault.ask statement faults with ⟨_ | _ | _, rest⟩
  · exact done faults
  · exact start
  · exact start

theorem throughout_select {table : TableName} {lost : α} {view : Store → α}
    (start : holds store) : (Work.select table lost view).Throughout store now holds :=
  throughout_statement start fun _ => start

theorem Throughout.mapError {work : Work ε α} (throughout : work.Throughout store now holds)
    (wrap : ε → ε') : (work.mapError wrap).Throughout store now holds := by
  rintro _ ⟨faults, refusals, rfl⟩
  have ends := throughout _ ⟨faults, refusals, rfl⟩
  rw [Work.mapError]
  cases ran : work { store, faults, now } with
  | mk result after =>
      rw [ran] at ends
      cases result with
      | ok value => exact ends
      | error error => exact ends

theorem Yields.answers {work : Work ε α} {answered : α → Store → Prop} {failed : ε → Prop}
    (yields : work.Yields store now answered failed) :
    work.Yields store now answered fun _ => True :=
  yields.mono (fun _ _ => id) fun _ _ => trivial

/-- Work that goes on has a property throughout if it has it up to its first answer, and then
from whatever store there may be with that answer. -/
theorem Throughout.bind {work : Work ε α} {next : α → Work ε β} (middle : α → Store → Prop)
    (throughout : work.Throughout store now holds)
    (yields : work.Yields store now middle fun _ => True)
    (rest : ∀ value after, middle value after → holds after →
      (next value).Throughout after now holds) :
    (work >>= next).Throughout store now holds := by
  rintro _ ⟨faults, refusals, rfl⟩
  have ends := throughout _ ⟨faults, refusals, rfl⟩
  have run := yields faults refusals
  rw [bind_apply]
  cases ran : work { store, faults, now } with
  | mk result reached =>
      rw [ran] at ends run
      cases result with
      | error error => exact ends
      | ok value =>
          obtain ⟨settled, answered⟩ := run
          have onward := rest value reached.store answered ends
          rw [← settled.clock] at onward
          exact onward.ends settled.refusals

end ChainLedger.Work
