import Mathlib
import ChainLedger.Proofs.Store.Yields

/-!
# Refused statements

Work fails at the first of its statements that is refused. Work of which no statement is refused
does what it does where no fault is armed. `Steady` says that there is no third way, on any store;
how many refusals are left afterwards tells which of the two it was.
-/

set_option autoImplicit false

namespace ChainLedger

def ArmedFault.refusalsLeft (faults : List ArmedFault) : Nat :=
  (faults.map fun fault => if fault.mode = .refused then fault.count else 0).sum

open ArmedFault

theorem ArmedFault.refusalsLeft_cons (fault : ArmedFault) (others : List ArmedFault) :
    refusalsLeft (fault :: others) =
      (if fault.mode = .refused then fault.count else 0) + refusalsLeft others := rfl

/-- A refusal uses up one of those that are left, and nothing else does. -/
theorem ArmedFault.refusalsLeft_ask (statement : Statement) (faults : List ArmedFault) :
    refusalsLeft (ask statement faults).2 +
      (if (ask statement faults).1 = some .refused then 1 else 0) = refusalsLeft faults := by
  induction faults with
  | nil => rfl
  | cons fault others ih =>
      obtain ⟨asked, skip, count, mode⟩ := fault
      rw [ask]
      split
      next =>
        rcases skip with _ | skip
        · rcases count with _ | _ | count
          · simpa [refusalsLeft_cons] using ih
          · cases mode <;> simp [refusalsLeft_cons, Nat.add_comm]
          · cases mode
            · simp [refusalsLeft_cons]
              omega
            · simp [refusalsLeft_cons]
        · simp only [refusalsLeft_cons, ← ih]
          omega
      next =>
        simp only [refusalsLeft_cons, ← ih]
        omega

namespace Session

def calm (session : Session) : Session := { session with faults := [] }

def Refused (before after : Session) : Prop :=
  refusalsLeft after.faults < refusalsLeft before.faults

def Spared (before after : Session) : Prop :=
  refusalsLeft after.faults = refusalsLeft before.faults

theorem Spared.trans {before middle after : Session} (first : before.Spared middle)
    (second : middle.Spared after) : before.Spared after :=
  Eq.trans second first

theorem Spared.refused {before middle after : Session} (first : before.Spared middle)
    (second : middle.Refused after) : before.Refused after :=
  Nat.lt_of_lt_of_eq second first

end Session

namespace Work

variable {ε ε' α β : Type}

/-- Work fails when one of its statements is refused, and otherwise ends as it does where no fault
is armed. -/
def Steady (work : Work ε α) : Prop :=
  ∀ session : Session, OnlyRefusals session.faults → ∃ result after,
    work session = (result, after) ∧ after.Settled session.faults session.now ∧
      ((∃ error, result = .error error) ∧ session.Refused after ∨
        session.Spared after ∧ work session.calm = (result, after.calm))

theorem steady_ofExcept (result : Except ε α) : (ofExcept result).Steady :=
  fun session refusals =>
    ⟨result, session, rfl, .start session.store refusals, Or.inr ⟨rfl, rfl⟩⟩

theorem steady_pure (value : α) : (pure value : Work ε α).Steady :=
  steady_ofExcept (.ok value)

theorem steady_fail (error : ε) : (fail error : Work ε α).Steady :=
  steady_ofExcept (.error error)

theorem steady_orFail (value : Option α) (error : ε) : (orFail value error).Steady := by
  cases value with
  | none => exact steady_fail error
  | some value => exact steady_pure value

theorem steady_statement (statement : Statement) (lost : α) {effect : Session → α × Store}
    (blind : ∀ session : Session, effect session.calm = effect session) :
    (Work.statement statement lost effect).Steady := by
  intro session refusals
  have asked := (refusals.ask statement).1
  have settled := Session.Settled.ask session.store session.now statement refusals
  have left := refusalsLeft_ask statement session.faults
  rcases answer : ask statement session.faults with ⟨mode, rest⟩
  rw [answer] at asked settled left
  rcases asked with rfl | rfl
  · refine ⟨.ok (effect session).1, { session with store := (effect session).2, faults := rest },
      ?_, ⟨settled.clock, settled.refusals, settled.calm⟩, Or.inr ⟨left, ?_⟩⟩
    · simp only [Work.statement, answer]
    · rw [← blind session]
      rfl
  · refine ⟨.error statement.refusal, { session with faults := rest }, ?_, settled,
      Or.inl ⟨⟨_, rfl⟩, Nat.lt_of_succ_le (Nat.le_of_eq left)⟩⟩
    simp only [Work.statement, answer]

theorem steady_select (table : TableName) (lost : α) (view : Store → α) :
    (Work.select table lost view).Steady :=
  steady_statement _ lost fun _ => rfl

theorem steady_boundary (statement : Statement) : (boundary statement).Steady := by
  intro session refusals
  have asked := (refusals.ask statement).1
  have settled := Session.Settled.ask session.store session.now statement refusals
  have left := refusalsLeft_ask statement session.faults
  rcases answer : ask statement session.faults with ⟨mode, rest⟩
  rw [answer] at asked settled left
  rcases asked with rfl | rfl
  · refine ⟨.ok (), { session with faults := rest }, ?_, settled, Or.inr ⟨left, rfl⟩⟩
    simp only [boundary, answer]
  · refine ⟨.error statement.refusal, { session with faults := rest }, ?_, settled,
      Or.inl ⟨⟨_, rfl⟩, Nat.lt_of_succ_le (Nat.le_of_eq left)⟩⟩
    simp only [boundary, answer]

/-- What follows on work that has met no refusal is as steady as if it had started there. -/
theorem Steady.bind {work : Work ε α} {next : α → Work ε β} (first : work.Steady)
    (rest : ∀ value, (next value).Steady) : (work >>= next).Steady := by
  intro session refusals
  obtain ⟨result, after, ran, settled, ⟨⟨error, rfl⟩, refused⟩ | ⟨spared, calm⟩⟩ :=
    first session refusals
  · exact ⟨.error error, after, by rw [bind_apply, ran], settled, Or.inl ⟨⟨error, rfl⟩, refused⟩⟩
  · cases result with
    | error error =>
        refine ⟨.error error, after, by rw [bind_apply, ran], settled, Or.inr ⟨spared, ?_⟩⟩
        rw [bind_apply, calm]
    | ok value =>
        obtain ⟨result, last, ranNext, settledNext, ends⟩ := rest value after settled.refusals
        rw [settled.clock] at settledNext
        refine ⟨result, last, by rw [bind_apply, ran, ← ranNext], settled.trans settledNext, ?_⟩
        rcases ends with ⟨failed, refused⟩ | ⟨sparedNext, calmNext⟩
        · exact Or.inl ⟨failed, spared.refused refused⟩
        · exact Or.inr ⟨spared.trans sparedNext, by rw [bind_apply, calm, ← calmNext]⟩

theorem Steady.mapError {work : Work ε α} (steady : work.Steady) (wrap : ε → ε') :
    (work.mapError wrap).Steady := by
  intro session refusals
  obtain ⟨result, after, ran, settled, ends⟩ := steady session refusals
  refine ⟨result.mapError wrap, after, ?_, settled, ?_⟩
  · cases result <;> simp only [Work.mapError, ran, Except.mapError]
  · rcases ends with ⟨⟨error, rfl⟩, refused⟩ | ⟨spared, calm⟩
    · exact Or.inl ⟨⟨wrap error, rfl⟩, refused⟩
    · refine Or.inr ⟨spared, ?_⟩
      cases result <;> simp only [Work.mapError, calm, Except.mapError]

theorem Steady.forM {Item : Type} {items : List Item} {work : Item → Work ε Unit}
    (steady : ∀ item, (work item).Steady) : (items.forM work).Steady := by
  induction items with
  | nil => exact steady_pure ()
  | cons item items ih =>
      rw [List.forM]
      exact (steady item).bind fun _ => ih

theorem Steady.refusals {work : Work ε α} (steady : work.Steady) {session after : Session}
    {result : Except ε α} (refusals : OnlyRefusals session.faults)
    (ran : work session = (result, after)) : OnlyRefusals after.faults := by
  obtain ⟨result, reached, ranSteadily, settled, -⟩ := steady session refusals
  rw [ran] at ranSteadily
  obtain ⟨-, rfl⟩ := Prod.mk.inj ranSteadily
  exact settled.refusals

theorem Steady.faults_eq_nil {work : Work ε α} (steady : work.Steady) {session after : Session}
    {result : Except ε α} (calm : session.faults = []) (ran : work session = (result, after)) :
    after.faults = [] := by
  have refusals : OnlyRefusals session.faults := calm ▸ OnlyRefusals.nil
  obtain ⟨result, reached, ranSteadily, settled, -⟩ := steady session refusals
  rw [ran] at ranSteadily
  obtain ⟨-, rfl⟩ := Prod.mk.inj ranSteadily
  exact settled.calm calm

theorem Steady.of_ok {work : Work ε α} (steady : work.Steady) {session after : Session}
    {value : α} (refusals : OnlyRefusals session.faults)
    (ran : work session = (.ok value, after)) :
    session.Spared after ∧ work session.calm = (.ok value, after.calm) := by
  obtain ⟨result, reached, ranSteadily, -, ends⟩ := steady session refusals
  rw [ran] at ranSteadily
  obtain ⟨rfl, rfl⟩ := Prod.mk.inj ranSteadily
  exact ends.resolve_left fun ⟨⟨_, failed⟩, _⟩ => by cases failed

/-! ## Units of work -/

def restoring (work : Work ε α) : Work ε α := fun session =>
  match work session with
  | (.ok value, after) => (.ok value, after)
  | (.error error, after) => (.error error, { after with store := session.store })

def bounded (wrap : StoreError → ε) (work : Work ε α) : Work ε α := do
  (boundary .opening).mapError wrap
  let value ← work
  (boundary .commit).mapError wrap
  return value

theorem atomically_eq_restoring (wrap : StoreError → ε) (work : Work ε α) :
    atomically wrap work = restoring (bounded wrap work) := by
  funext session
  have same := boundary_store .opening session
  simp only [atomically, restoring, bounded, bind_apply, Work.mapError]
  rcases ranOpening : boundary .opening session with ⟨error | value, opened⟩
  · rw [ranOpening] at same
    simp only [← same]
  · rcases ran : work opened with ⟨error | value, after⟩
    · simp only [ran]
    · simp only [ran]
      rcases boundary .commit after with ⟨error | value, closed⟩ <;> rfl

theorem Steady.restoring {work : Work ε α} (steady : work.Steady) : (restoring work).Steady := by
  intro session refusals
  obtain ⟨result, after, ran, settled, ends⟩ := steady session refusals
  cases result with
  | ok value =>
      refine ⟨.ok value, after, by simp only [Work.restoring, ran], settled, ?_⟩
      rcases ends with ⟨⟨error, failed⟩, -⟩ | ⟨spared, calm⟩
      · cases failed
      · exact Or.inr ⟨spared, by simp only [Work.restoring, calm]⟩
  | error error =>
      refine ⟨.error error, { after with store := session.store },
        by simp only [Work.restoring, ran], ⟨settled.clock, settled.refusals, settled.calm⟩, ?_⟩
      rcases ends with ⟨-, refused⟩ | ⟨spared, calm⟩
      · exact Or.inl ⟨⟨error, rfl⟩, refused⟩
      · exact Or.inr ⟨spared, by simp only [Work.restoring, calm]; rfl⟩

theorem Steady.atomically {work : Work ε α} (steady : work.Steady) (wrap : StoreError → ε) :
    (Work.atomically wrap work).Steady := by
  rw [atomically_eq_restoring]
  refine Steady.restoring (((steady_boundary .opening).mapError wrap).bind fun _ => ?_)
  refine steady.bind fun value => ?_
  exact ((steady_boundary .commit).mapError wrap).bind fun _ => steady_pure value

theorem statements_of_atomically_ok {wrap : StoreError → ε} {work : Work ε α}
    {session after : Session} {value : α}
    (ran : atomically wrap work session = (.ok value, after)) :
    ∃ opened worked, boundary .opening session = (.ok (), opened) ∧
      work opened = (.ok value, worked) ∧ boundary .commit worked = (.ok (), after) := by
  simp only [atomically] at ran
  split at ran
  next => cases ran
  next opened opening =>
    split at ran
    next => cases ran
    next answer worked works =>
      split at ran
      next => cases ran
      next closed commits =>
        obtain ⟨same, rfl⟩ := Prod.mk.inj ran
        obtain rfl := Except.ok.inj same
        exact ⟨opened, worked, opening, works, commits⟩

theorem boundary_of_noFaults (statement : Statement) {session : Session}
    (noFaults : session.faults = []) : boundary statement session = (.ok (), session) := by
  obtain ⟨store, faults, now⟩ := session
  obtain rfl := noFaults
  rfl

theorem Steady.of_atomically_ok {wrap : StoreError → ε} {work : Work ε α} (steady : work.Steady)
    {session after : Session} {value : α} (refusals : OnlyRefusals session.faults)
    (ran : Work.atomically wrap work session = (.ok value, after)) :
    session.Spared after ∧ work session.calm = (.ok value, after.calm) := by
  obtain ⟨spared, calm⟩ := (steady.atomically wrap).of_ok refusals ran
  obtain ⟨opened, worked, opening, works, commits⟩ := statements_of_atomically_ok calm
  rw [boundary_of_noFaults .opening rfl] at opening
  obtain ⟨-, rfl⟩ := Prod.mk.inj opening
  obtain ⟨result, reached, ranSteadily, settled, -⟩ := steady session.calm OnlyRefusals.nil
  obtain ⟨-, rfl⟩ := Prod.mk.inj (works.symm.trans ranSteadily)
  rw [boundary_of_noFaults .commit (settled.calm rfl)] at commits
  obtain ⟨-, rfl⟩ := Prod.mk.inj commits
  exact ⟨spared, works⟩

end Work
end ChainLedger
