import ChainLedger.Proofs.Schema.Standing

/-!
# Histories of the schema

The migrator is asked for one step after the other, and a change may fail in each of them. A step
that makes all it plans moves the record and the tables on together; one in which a planned change
fails leaves both where they were.
-/

set_option autoImplicit false

namespace ChainLedger.Schema

/-! ## One step -/

/-- A step that is asked for, and the text of the change that is to fail in it. -/
structure Attempt where
  step : Step
  failOn : Option String := none

namespace Attempt

variable {attempt : Attempt} {count : Nat} {database : Database}

def report (attempt : Attempt) (database : Database) : StepReport :=
  attempt.step.run attempt.failOn database

def Strikes (attempt : Attempt) (change : Change) : Prop :=
  ∃ text, attempt.failOn = some text ∧ Text.contains text.toList change.text.toList = true

theorem strikes_iff_fails (database : Database) {change : Change} :
    attempt.Strikes change ↔ Run.fails { database, failOn := attempt.failOn } change = true := by
  rw [Strikes, Run.fails]
  cases attempt.failOn with
  | none => simp
  | some text => simp

theorem strikes_of_own_text {step : Step} {change : Change} :
    ({ step, failOn := some change.text } : Attempt).Strikes change := by
  refine ⟨change.text, rfl, ?_⟩
  cases change.text.toList with
  | nil => rfl
  | cons character rest => simp [Text.contains]

/-- What a step comes to where so many migrations have been applied: it makes its plan, or stops
at the first planned change that fails. -/
inductive Comes (attempt : Attempt) (count : Nat) : StepReport → Prop
  | done (spared : ∀ change ∈ attempt.step.plan count, ¬attempt.Strikes change) :
      Comes attempt count
        { database := .standing (migrations.take (attempt.step.target count))
          changes := attempt.step.plan count
          error := none }
  | stopped {made rest : List Change} {change : Change}
      (split : attempt.step.plan count = made ++ change :: rest)
      (spared : ∀ earlier ∈ made, ¬attempt.Strikes earlier)
      (strikes : attempt.Strikes change) :
      Comes attempt count
        { database := .standing (migrations.take count)
          changes := made
          error := some .injected }

theorem report_comes (stands : database.Stands count) (migrates : attempt.step.Migrates) :
    attempt.Comes count (attempt.report database) := by
  have makes : Run.Makes { database, failOn := attempt.failOn } _ _ _ :=
    Run.makes_progress stands migrates
  have spares {changes : List Change} (spared : ∀ change ∈ changes,
      Run.fails { database, failOn := attempt.failOn } change = false) :
      ∀ change ∈ changes, ¬attempt.Strikes change := by
    intro change member
    rw [strikes_iff_fails database, spared change member]
    exact Bool.false_ne_true
  rw [report, Step.run]
  generalize attempt.step.progress _ = progress at makes
  cases makes with
  | done spared =>
      have whole := (List.take_append_drop (attempt.step.target count) migrations).symm
      simp only [Run.after, Database.checkRecord_standing whole, errorOf]
      exact .done (spares spared)
  | stopped split spared fails changes =>
      have kept := stands.reached
      rw [Database.StandsAt] at kept
      simp only [kept, changes]
      exact .stopped split (spares spared) ((strikes_iff_fails database).mpr fails)

end Attempt

/-! ## Step after step -/

namespace Database

def afterAll (database : Database) (attempts : List Attempt) : Database :=
  attempts.foldl (fun database attempt => (attempt.report database).database) database

def schemaTables (database : Database) : List String :=
  database.tables.filter (· ≠ recordTable)

/-- The record names the first so many migrations, and the tables are the ones they make. -/
structure InStep (database : Database) (count : Nat) : Prop where
  bounded : count ≤ migrations.length
  applied : database.applied = (migrations.take count).map (·.name)
  tables : database.schemaTables = (migrations.take count).map (·.table.name)

variable {database : Database} {count : Nat}

theorem schemaTables_install : (Run.install { database }).database.schemaTables =
    database.schemaTables := by
  rw [Run.install]
  split
  · rfl
  · simp [schemaTables]

theorem applied_install : (Run.install { database }).database.applied = database.applied := by
  rw [Run.install]
  split <;> rfl

theorem schemaTables_standing (applied : List Migration) (distinct : Distinct applied) :
    (standing applied).schemaTables = applied.map (·.table.name) := by
  have others := (List.nodup_cons.mp distinct.tables).1
  rw [standing, schemaTables, List.filter_cons_of_neg (by simp), List.filter_eq_self]
  intro name member
  simpa using ne_of_mem_of_not_mem member others

theorem Stands.inStep (stands : database.Stands count) : database.InStep count := by
  have reached := stands.reached
  rw [StandsAt] at reached
  refine ⟨stands.bounded, ?_, ?_⟩
  · rw [← applied_install, reached, standing]
  · rw [← schemaTables_install, reached, schemaTables_standing _ (distinct_take count)]

end Database

/-- A step that can make its whole plan leads to its target; another one changes nothing. -/
structure Attempt.Moves (attempt : Attempt) (count : Nat) (before : Database) : Prop where
  moved : (∀ change ∈ attempt.step.plan count, ¬attempt.Strikes change) →
    (attempt.report before).error = none ∧
      (attempt.report before).database.InStep (attempt.step.target count)
  kept : (∃ change ∈ attempt.step.plan count, attempt.Strikes change) →
    (attempt.report before).error = some .injected ∧
      (attempt.report before).database.applied = before.applied ∧
      (attempt.report before).database.schemaTables = before.schemaTables

namespace Database

variable {database : Database} {count : Nat}

/-- Where the first so many migrations have been applied, so many have been after any step. -/
theorem Stands.report (stands : database.Stands count) {attempt : Attempt}
    (migrates : attempt.step.Migrates) :
    ∃ next, (attempt.report database).database.Stands next := by
  have comes := attempt.report_comes stands migrates
  generalize attempt.report database = report at comes
  cases comes with
  | done => exact ⟨_, stands_standing (attempt.step.target_le stands.bounded)⟩
  | stopped => exact ⟨count, stands_standing stands.bounded⟩

theorem Stands.afterAll (stands : database.Stands count) (attempts : List Attempt)
    (migrate : ∀ attempt ∈ attempts, attempt.step.Migrates) :
    ∃ last, (database.afterAll attempts).Stands last := by
  induction attempts generalizing database count with
  | nil => exact ⟨count, stands⟩
  | cons attempt attempts ih =>
      obtain ⟨migrates, others⟩ := List.forall_mem_cons.mp migrate
      obtain ⟨next, stands⟩ := stands.report migrates
      exact ih stands others

theorem Stands.moves (stands : database.Stands count) {attempt : Attempt}
    (migrates : attempt.step.Migrates) : attempt.Moves count database := by
  have comes := attempt.report_comes stands migrates
  have before := stands.inStep
  have kept := (stands_standing stands.bounded).inStep
  have moved := (stands_standing (attempt.step.target_le stands.bounded)).inStep
  generalize reported : attempt.report database = report at comes
  constructor
  · intro spared
    rw [reported]
    cases comes with
    | done => exact ⟨rfl, moved⟩
    | stopped split _ strikes => exact (spared _ (by simp [split]) strikes).elim
  · rintro ⟨change, member, strikes⟩
    rw [reported, before.applied, before.tables]
    cases comes with
    | done spared => exact (spared change member strikes).elim
    | stopped => exact ⟨rfl, kept.applied, kept.tables⟩

/-- Whatever steps are taken from an empty database and fail, the record names the first so many
migrations and the tables are theirs. The next step moves both on or leaves both as they are. -/
theorem record_and_tables_in_step (attempts : List Attempt) (next : Attempt)
    (migrate : ∀ attempt ∈ next :: attempts, attempt.step.Migrates) :
    ∃ count, (afterAll {} attempts).InStep count ∧ next.Moves count (afterAll {} attempts) := by
  obtain ⟨migrates, others⟩ := List.forall_mem_cons.mp migrate
  obtain ⟨count, stands⟩ := stands_empty.afterAll attempts others
  exact ⟨count, stands.inStep, stands.moves migrates⟩

end Database

/-- Three migrations are applied, a refresh fails, all are applied afresh and a revert fails. -/
def unsteadyAttempts : List Attempt :=
  [{ step := .up (some 3) },
   { step := .refresh, failOn := some (Change.createTable createAssets.table).text },
   { step := .fresh },
   { step := .down (some 9), failOn := some (Change.dropTable "blocks").text }]

def haltedRefresh : Attempt :=
  { step := .refresh
    failOn := some (Change.createIndex { table := "assets", columns := ["name"] }).text }

namespace Database

theorem unsteadyAttempts_in_step :
    (∀ attempt ∈ haltedRefresh :: unsteadyAttempts, attempt.step.Migrates) ∧
      ∃ count, (afterAll {} unsteadyAttempts).InStep count ∧
        (haltedRefresh.report (afterAll {} unsteadyAttempts)).error = some .injected ∧
        (haltedRefresh.report (afterAll {} unsteadyAttempts)).database.InStep count := by
  have migrate : ∀ attempt ∈ haltedRefresh :: unsteadyAttempts, attempt.step.Migrates := by
    simp [haltedRefresh, unsteadyAttempts, Step.Migrates]
  obtain ⟨count, inStep, moves⟩ := record_and_tables_in_step unsteadyAttempts haltedRefresh migrate
  have halts : ∃ change ∈ haltedRefresh.step.plan count, haltedRefresh.Strikes change :=
    ⟨.createIndex { table := "assets", columns := ["name"] },
      List.mem_append_right _ (by decide), Attempt.strikes_of_own_text⟩
  obtain ⟨failed, applied, tables⟩ := moves.kept halts
  exact ⟨migrate, count, inStep, failed, inStep.bounded, applied.trans inStep.applied,
    tables.trans inStep.tables⟩

end Database

end ChainLedger.Schema
