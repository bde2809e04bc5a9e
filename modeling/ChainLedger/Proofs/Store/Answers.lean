import ChainLedger.Proofs.Store.Refusals

/-!
# What an answer says

Work that answers has come through all of its statements, whatever faults are armed. `Assures`
says what that tells: a fact about the store that no statement breaks, and another one about the
answer. Lost statements are among those that work comes through, so nothing is said of effects.
-/

set_option autoImplicit false

namespace ChainLedger.Work

variable {ε ε' α β : Type}

/-- Whenever work answers, a fact about the store goes on holding and another one is granted about
the answer. -/
def Assures (holds : Store → Prop) (granted : α → Prop) (work : Work ε α) : Prop :=
  ∀ ⦃session value after⦄, work session = (.ok value, after) → holds session.store →
    granted value ∧ holds after.store

variable {holds : Store → Prop} {granted : α → Prop}

theorem assures_ofExcept {result : Except ε α}
    (grants : ∀ value, result = .ok value → granted value) :
    (ofExcept result).Assures holds granted := by
  intro session value after ran start
  obtain ⟨rfl, rfl⟩ := Prod.mk.inj ran
  exact ⟨grants value rfl, start⟩

theorem assures_pure {value : α} (grants : granted value) :
    (pure value : Work ε α).Assures holds granted :=
  assures_ofExcept fun _ same => Except.ok.inj same ▸ grants

theorem assures_fail (error : ε) : (fail error : Work ε α).Assures holds granted :=
  assures_ofExcept fun _ failed => by cases failed

theorem assures_orFail {value : Option α} {error : ε}
    (grants : ∀ found, value = some found → granted found) :
    (orFail value error).Assures holds granted := by
  cases value with
  | none => exact assures_fail error
  | some found => exact assures_pure (grants found rfl)

theorem assures_statement {statement : Statement} {lost : α} {effect : Session → α × Store}
    (grantsLost : granted lost)
    (grants : ∀ session : Session, holds session.store →
      granted (effect session).1 ∧ holds (effect session).2) :
    (Work.statement statement lost effect).Assures holds granted := by
  intro session value after ran start
  rw [Work.statement] at ran
  rcases asked : ArmedFault.ask statement session.faults with ⟨mode, rest⟩
  simp only [asked] at ran
  rcases mode with _ | _ | _
  · obtain ⟨answered, rfl⟩ := Prod.mk.inj ran
    obtain rfl := Except.ok.inj answered
    exact grants session start
  · cases ran
  · obtain ⟨answered, rfl⟩ := Prod.mk.inj ran
    obtain rfl := Except.ok.inj answered
    exact ⟨grantsLost, start⟩

theorem assures_select {table : TableName} {lost : α} {view : Store → α}
    (grantsLost : granted lost) (grants : ∀ store, holds store → granted (view store)) :
    (Work.select table lost view).Assures holds granted :=
  assures_statement grantsLost fun session start => ⟨grants session.store start, start⟩

theorem assures_boundary (statement : Statement) :
    (boundary statement).Assures holds fun _ => True := by
  intro session value after ran start
  have same := boundary_store statement session
  rw [ran] at same
  change after.store = session.store at same
  rw [same]
  exact ⟨trivial, start⟩

theorem bind_ok {work : Work ε α} {next : α → Work ε β} {session after : Session} {answer : β}
    (ran : (work >>= next) session = (.ok answer, after)) :
    ∃ value middle, work session = (.ok value, middle) ∧
      next value middle = (.ok answer, after) := by
  rw [bind_apply] at ran
  rcases worked : work session with ⟨error | value, middle⟩
  · rw [worked] at ran
    cases ran
  · rw [worked] at ran
    exact ⟨value, middle, rfl, ran⟩

theorem Assures.bind {work : Work ε α} {next : α → Work ε β} {granted' : β → Prop}
    (granted : α → Prop) (first : work.Assures holds granted)
    (rest : ∀ value, granted value → (next value).Assures holds granted') :
    (work >>= next).Assures holds granted' := by
  intro session answer after ran start
  obtain ⟨value, middle, worked, went⟩ := bind_ok ran
  obtain ⟨grants, kept⟩ := first worked start
  exact rest value grants went kept

theorem Assures.mono {work : Work ε α} {granted' : α → Prop} (assures : work.Assures holds granted)
    (implies : ∀ value, granted value → granted' value) : work.Assures holds granted' :=
  fun _ _ _ ran start => (assures ran start).imp_left (implies _)

theorem Assures.mapError {work : Work ε α} (assures : work.Assures holds granted)
    (wrap : ε → ε') : (work.mapError wrap).Assures holds granted := by
  intro session value after ran start
  rw [Work.mapError] at ran
  rcases ranFirst : work session with ⟨error | middle, reached⟩
  · rw [ranFirst] at ran
    cases ran
  · rw [ranFirst] at ran
    obtain ⟨answered, rfl⟩ := Prod.mk.inj ran
    obtain rfl := Except.ok.inj answered
    exact assures ranFirst start

theorem Assures.forM {Item : Type} {items : List Item} {work : Item → Work ε Unit}
    (granted : Item → Prop)
    (assures : ∀ item ∈ items, (work item).Assures holds fun _ => granted item) :
    (items.forM work).Assures holds fun _ => ∀ item ∈ items, granted item := by
  induction items with
  | nil => exact assures_pure fun _ member => by cases member
  | cons item items ih =>
      rw [List.forM]
      refine Assures.bind _ (assures item (by simp)) fun _ first => ?_
      refine (ih fun other member => assures other (by simp [member])).mono ?_
      intro _ rest other member
      rcases List.mem_cons.mp member with rfl | member
      · exact first
      · exact rest other member

theorem Assures.atomically {work : Work ε α} (assures : work.Assures holds granted)
    (wrap : StoreError → ε) : (Work.atomically wrap work).Assures holds granted := by
  rw [atomically_eq_restoring]
  have inner : (bounded wrap work).Assures holds granted := by
    refine Assures.bind _ ((assures_boundary .opening).mapError wrap) fun _ _ => ?_
    refine Assures.bind _ assures fun value grants => ?_
    exact Assures.bind _ ((assures_boundary .commit).mapError wrap) fun _ _ => assures_pure grants
  intro session value after ran start
  rw [restoring] at ran
  rcases ranInner : bounded wrap work session with ⟨error | middle, reached⟩
  · rw [ranInner] at ran
    cases ran
  · rw [ranInner] at ran
    obtain ⟨answered, rfl⟩ := Prod.mk.inj ran
    obtain rfl := Except.ok.inj answered
    exact inner ranInner start

end ChainLedger.Work
