import Mathlib
import ChainLedger.Schema.Migrator

/-!
# Where the schema stands

Whatever steps the migrator takes from an empty database, its record names the first so many
migrations, and the tables are those that these migrations make. `Run.Makes` says what a step does
with its planned changes: it makes all of them, or fails at the first that is to fail.
-/

set_option autoImplicit false

namespace ChainLedger.Schema

/-! ## Migrations that can be told apart -/

/-- Migrations with names of their own that make tables with names of their own. -/
structure Distinct (list : List Migration) : Prop where
  names : (list.map (·.name)).Nodup
  tables : (recordTable :: list.map (·.table.name)).Nodup

theorem distinct_migrations : Distinct migrations := ⟨by decide, by decide⟩

theorem Distinct.of_prefix {before after : List Migration} (distinct : Distinct (before ++ after)) :
    Distinct before := by
  refine ⟨distinct.names.sublist ?_, distinct.tables.sublist ?_⟩
  · exact (List.sublist_append_left before after).map _
  · exact ((List.sublist_append_left before after).map _).cons_cons _

theorem Distinct.not_mem_names {before : List Migration} {migration : Migration}
    (distinct : Distinct (before ++ [migration])) : migration.name ∉ before.map (·.name) := by
  have names := distinct.names
  rw [List.map_append, List.nodup_append] at names
  exact fun member => names.2.2 _ member _ (by simp) rfl

theorem Distinct.not_mem_tables {before : List Migration} {migration : Migration}
    (distinct : Distinct (before ++ [migration])) :
    migration.table.name ∉ recordTable :: before.map (·.table.name) := by
  have tables := distinct.tables
  rw [List.map_append, ← List.cons_append, List.nodup_append] at tables
  exact fun member => tables.2.2 _ member _ (by simp) rfl

namespace Database

def standing (applied : List Migration) : Database :=
  { tables := recordTable :: applied.map (·.table.name), applied := applied.map (·.name) }

/-- The given migrations have been applied, whether or not the migrator's own table is made yet. -/
def StandsAt (database : Database) (applied : List Migration) : Prop :=
  (Run.install { database }).database = standing applied

theorem standing_snoc (applied : List Migration) (migration : Migration) :
    standing (applied ++ [migration]) =
      { tables := recordTable :: applied.map (·.table.name) ++ [migration.table.name]
        applied := applied.map (·.name) ++ [migration.name] } := by
  simp [standing]

theorem standsAt_empty : StandsAt {} [] := rfl

theorem standsAt_standing (applied : List Migration) : (standing applied).StandsAt applied := by
  simp [StandsAt, Run.install, standing]

variable {before after : List Migration}

theorem isApplied_standing {migration : Migration} (member : migration ∈ before) :
    (standing before).isApplied migration = true := by
  simpa [isApplied, standing] using ⟨migration, member, rfl⟩

theorem not_isApplied_standing (distinct : Distinct (before ++ after)) {migration : Migration}
    (member : migration ∈ after) : (standing before).isApplied migration = false := by
  have names := distinct.names
  rw [List.map_append, List.nodup_append] at names
  apply Bool.eq_false_iff.mpr
  intro applied
  have named : migration.name ∈ before.map (·.name) := by
    simpa [isApplied, standing] using applied
  exact names.2.2 _ named _ (List.mem_map_of_mem member) rfl

theorem appliedMigrations_standing (whole : migrations = before ++ after) :
    (standing before).appliedMigrations = before := by
  have distinct := distinct_migrations
  rw [whole] at distinct
  have applied : before.filter (standing before).isApplied = before :=
    List.filter_eq_self.mpr fun _ => isApplied_standing
  have unapplied : after.filter (standing before).isApplied = [] := by
    simpa [List.filter_eq_nil_iff] using fun _ => not_isApplied_standing distinct
  rw [appliedMigrations, whole, List.filter_append, applied, unapplied, List.append_nil]

theorem pendingMigrations_standing (whole : migrations = before ++ after) :
    (standing before).pendingMigrations = after := by
  have distinct := distinct_migrations
  rw [whole] at distinct
  have applied : before.filter (fun migration => !(standing before).isApplied migration) = [] := by
    simpa [List.filter_eq_nil_iff] using fun _ => isApplied_standing
  have unapplied : after.filter (fun migration => !(standing before).isApplied migration) =
      after := by
    simpa [List.filter_eq_self] using fun _ => not_isApplied_standing distinct
  rw [pendingMigrations, whole, List.filter_append, applied, unapplied, List.nil_append]

theorem checkRecord_standing (whole : migrations = before ++ after) :
    (standing before).checkRecord = .ok () := by
  have known : (standing before).missingNames = [] := by
    apply List.filter_eq_nil_iff.mpr
    intro name member
    have isName : name ∈ migrations.map (·.name) := by
      rw [whole, List.map_append]
      exact List.mem_append_left _ member
    simpa using isName
  rw [checkRecord, known]
  rfl

end Database

/-! ## Making planned changes -/

namespace Run

theorem install_of_standsAt {run : Run} {applied : List Migration}
    (stands : run.database.StandsAt applied) :
    run.install = { run with database := .standing applied } := by
  rw [Database.StandsAt] at stands
  rw [← stands, install, install]
  by_cases present : run.database.tables.contains recordTable = true
  · rw [if_pos present, if_pos present]
  · rw [if_neg present, if_neg present]

def after (run : Run) (made : List Change) (database : Database) : Run :=
  { run with database, changes := run.changes ++ made }

theorem after_nil (run : Run) : run.after [] run.database = run := by
  rw [after, List.append_nil]

theorem after_after (run : Run) (first second : List Change) (middle last : Database) :
    (run.after first middle).after second last = run.after (first ++ second) last := by
  simp [after]

/-- What comes of planned changes that lead to a database: all of them are made, or those in front
of the first that is to fail. -/
inductive Makes (run : Run) (planned : List Change) (target : Database) : Progress → Prop
  | done (spared : ∀ change ∈ planned, run.fails change = false) :
      Makes run planned target (.ok (), run.after planned target)
  | stopped {made rest : List Change} {change : Change} {reached : Run}
      (split : planned = made ++ change :: rest)
      (spared : ∀ earlier ∈ made, run.fails earlier = false)
      (fails : run.fails change = true) (changes : reached.changes = run.changes ++ made) :
      Makes run planned target (.error .injected, reached)

namespace Makes

variable {run : Run} {first second : List Change} {middle target : Database}
  {progress : Progress}

theorem nothing (run : Run) : run.Makes [] run.database (.ok (), run) := by
  have made : run.Makes [] run.database _ := .done (by simp)
  rwa [after_nil] at made

/-- What is made does not hang on the database that a run starts with. -/
theorem startingFrom (makes : run.Makes first target progress) (database : Database) :
    ({ run with database } : Run).Makes first target progress := by
  cases makes with
  | done spared => exact .done spared
  | stopped split spared fails changes => exact .stopped split spared fails changes

theorem append (spared : ∀ change ∈ first, run.fails change = false)
    (rest : (run.after first middle).Makes second target progress) :
    run.Makes (first ++ second) target progress := by
  have both {made : List Change}
      (others : ∀ change ∈ made, (run.after first middle).fails change = false) :
      ∀ change ∈ first ++ made, run.fails change = false := fun change member =>
    (List.mem_append.mp member).elim (spared change) (others change)
  cases rest with
  | done others =>
      rw [after_after]
      exact .done (both others)
  | stopped split others fails changes =>
      rw [split, ← List.append_assoc]
      exact .stopped rfl (both others) fails (by rw [changes, after, List.append_assoc])

theorem andThen {next : Run → Progress} (starts : run.Makes first middle progress)
    (start : Database)
    (goes : (run.after first start).Makes second target (next (run.after first middle))) :
    run.Makes (first ++ second) target (Run.andThen progress next) := by
  cases starts with
  | done spared => exact append spared (goes.startingFrom middle)
  | stopped split spared fails changes =>
      rw [split, List.append_assoc, List.cons_append]
      exact .stopped rfl spared fails changes

end Makes

theorem makes_make (changes : List Change) : ∀ (run : Run),
    run.Makes changes ⟨changes.foldl Change.apply run.database.tables, run.database.applied⟩
      (make changes run) := by
  induction changes with
  | nil => exact Makes.nothing
  | cons change changes ih =>
      intro run
      rw [make]
      by_cases fails : run.fails change = true
      · rw [if_pos fails]
        refine .stopped (List.nil_append _).symm ?_ fails (List.append_nil _).symm
        simp
      · have spared : ∀ first ∈ [change], run.fails first = false := by simpa using fails
        rw [if_neg fails]
        exact Makes.append spared (ih (run.after [change]
          ⟨change.apply run.database.tables, run.database.applied⟩))

/-! ## Applying and reverting -/

theorem foldl_apply_indexes (indexes : List IndexDefinition) (tables : List String) :
    (indexes.map Change.createIndex).foldl Change.apply tables = tables := by
  induction indexes with
  | nil => rfl
  | cons index indexes ih => exact ih

theorem foldl_apply_up {migration : Migration} {tables : List String}
    (new : migration.table.name ∉ tables) :
    migration.up.foldl Change.apply tables = tables ++ [migration.table.name] := by
  rw [Migration.up, List.foldl_cons, foldl_apply_indexes, Change.apply, if_neg]
  simpa using new

theorem filter_ne_append {names : List String} {name : String} (new : name ∉ names) :
    (names ++ [name]).filter (· ≠ name) = names := by
  have kept : names.filter (· ≠ name) = names := by
    rw [List.filter_eq_self]
    intro other member
    simpa using ne_of_mem_of_not_mem member new
  rw [List.filter_append, kept]
  simp

theorem makes_applyAll (chosen : List Migration) : ∀ (before : List Migration) (run : Run),
    Distinct (before ++ chosen) → run.database = .standing before →
      run.Makes (chosen.flatMap Migration.up) (.standing (before ++ chosen))
        (applyAll chosen run) := by
  induction chosen with
  | nil =>
      intro before run _ stands
      rw [List.append_nil, ← stands]
      exact .nothing run
  | cons migration chosen ih =>
      intro before run distinct stands
      rw [← List.singleton_append, ← List.append_assoc] at distinct ⊢
      have made := makes_make migration.up run
      rw [stands, Database.standing, foldl_apply_up distinct.of_prefix.not_mem_tables] at made
      have rest := ih _ (run.after migration.up (.standing (before ++ [migration]))) distinct rfl
      rw [List.singleton_append, List.flatMap_cons, applyAll]
      apply made.andThen (.standing (before ++ [migration]))
      rw [Database.standing_snoc] at rest ⊢
      exact rest

theorem forget_after {names : List String} {name : String} (new : name ∉ names) (run : Run)
    (made : List Change) (tables : List String) :
    forget name (run.after made ⟨tables, names ++ [name]⟩) = run.after made ⟨tables, names⟩ := by
  simp only [forget, after, filter_ne_append new]

theorem makes_revertAll (chosen : List Migration) : ∀ (kept : List Migration) (run : Run),
    Distinct (kept ++ chosen.reverse) → run.database = .standing (kept ++ chosen.reverse) →
      run.Makes (chosen.flatMap Migration.down) (.standing kept) (revertAll chosen run) := by
  induction chosen with
  | nil =>
      intro kept run _ stands
      rw [List.reverse_nil, List.append_nil] at stands
      rw [← stands]
      exact .nothing run
  | cons migration chosen ih =>
      intro kept run distinct stands
      rw [List.reverse_cons, ← List.append_assoc] at distinct stands
      have made := makes_make migration.down run
      rw [stands, Database.standing_snoc, Migration.down, List.foldl_cons, List.foldl_nil,
        Change.apply, filter_ne_append distinct.not_mem_tables] at made
      have rest := ih _ (run.after migration.down (.standing (kept ++ chosen.reverse)))
        distinct.of_prefix rfl
      rw [List.flatMap_cons, revertAll]
      apply made.andThen (.standing (kept ++ chosen.reverse))
      rw [forget_after distinct.not_mem_names]
      exact rest

/-! ## Dropping everything -/

theorem foldl_apply_drops (names tables : List String) :
    (names.map Change.dropWithDependents).foldl Change.apply tables =
      tables.filter (· ∉ names) := by
  induction names generalizing tables with
  | nil => simp
  | cons name names ih =>
      rw [List.map_cons, List.foldl_cons, ih, Change.apply, List.filter_filter]
      apply List.filter_congr
      simp [Bool.and_comm]

theorem makes_dropAll (run : Run) :
    run.Makes (run.database.tables.map .dropWithDependents) {} run.dropAll := by
  have none : run.database.tables.filter (· ∉ run.database.tables) = [] := by
    simp [List.filter_eq_nil_iff]
  have made := makes_make (run.database.tables.map .dropWithDependents) run
  rw [foldl_apply_drops, none] at made
  have rest : (run.after (run.database.tables.map .dropWithDependents) {}).Makes [] {} _ :=
    .nothing _
  have whole : run.Makes (_ ++ []) {} run.dropAll := made.andThen {} rest
  rwa [List.append_nil] at whole

end Run

/-! ## Steps -/

/-- A step of the migrator itself. To mark a migration as applied without applying it is none. -/
def Step.Migrates : Step → Prop
  | .markApplied _ => False
  | .up _ | .down _ | .fresh | .refresh | .reset | .status => True

def Step.target (count : Nat) : Step → Nat
  | .up none | .fresh | .refresh => migrations.length
  | .up (some steps) => min (count + steps) migrations.length
  | .down none | .reset => 0
  | .down (some steps) => count - steps
  | .status | .markApplied _ => count

def Step.plan (count : Nat) : Step → List Change
  | .up steps => (Run.limited steps (migrations.drop count)).flatMap Migration.up
  | .down steps => (Run.limited steps (migrations.take count).reverse).flatMap Migration.down
  | .reset => (migrations.take count).reverse.flatMap Migration.down
  | .refresh =>
    (migrations.take count).reverse.flatMap Migration.down ++ migrations.flatMap Migration.up
  | .fresh =>
    (recordTable :: (migrations.take count).map (·.table.name)).map .dropWithDependents
      ++ migrations.flatMap Migration.up
  | .status | .markApplied _ => []

theorem Step.target_le {count : Nat} (bounded : count ≤ migrations.length) (step : Step) :
    step.target count ≤ migrations.length := by
  unfold target
  split <;> omega

theorem take_append_limited (count : Nat) (steps : Option Nat) :
    migrations.take count ++ Run.limited steps (migrations.drop count) =
      migrations.take ((Step.up steps).target count) := by
  cases steps with
  | none => simp [Run.limited, Step.target]
  | some steps =>
      rw [Run.limited, Step.target, ← List.take_add, List.take_eq_take_iff]
      omega

theorem take_append_limited_reverse {count : Nat} (bounded : count ≤ migrations.length)
    (steps : Option Nat) :
    migrations.take ((Step.down steps).target count) ++
      (Run.limited steps (migrations.take count).reverse).reverse = migrations.take count := by
  cases steps with
  | none => simp [Run.limited, Step.target]
  | some steps =>
      have short : migrations.take (count - steps) =
          (migrations.take count).take (count - steps) := by
        rw [List.take_take, min_eq_left (Nat.sub_le count steps)]
      rw [Run.limited, Step.target, List.take_reverse, List.reverse_reverse, List.length_take,
        min_eq_left bounded, short, List.take_append_drop]

theorem distinct_take (count : Nat) : Distinct (migrations.take count) := by
  have distinct := distinct_migrations
  rw [← List.take_append_drop count migrations] at distinct
  exact distinct.of_prefix

structure Database.Stands (database : Database) (count : Nat) : Prop where
  bounded : count ≤ migrations.length
  reached : database.StandsAt (migrations.take count)

theorem Database.stands_empty : Database.Stands {} 0 := ⟨Nat.zero_le _, standsAt_empty⟩

theorem Database.stands_standing {count : Nat} (bounded : count ≤ migrations.length) :
    (standing (migrations.take count)).Stands count :=
  ⟨bounded, standsAt_standing _⟩

namespace Run

variable {run : Run} {count : Nat}

theorem checked_of_standing {before after : List Migration} (whole : migrations = before ++ after)
    (stands : run.database = .standing before) (next : Run → Progress) :
    run.checked next = next run := by
  rw [checked, stands, Database.checkRecord_standing whole]

theorem makes_up (stands : run.database.Stands count) (steps : Option Nat) :
    run.Makes ((Step.up steps).plan count)
      (.standing (migrations.take ((Step.up steps).target count))) (run.up steps) := by
  have whole := (List.take_append_drop count migrations).symm
  have chosen := take_append_limited count steps
  have made := makes_applyAll (limited steps (migrations.drop count)) (migrations.take count)
    { run with database := .standing (migrations.take count) } (chosen ▸ distinct_take _) rfl
  rw [up, install_of_standsAt stands.reached, checked_of_standing whole rfl,
    Database.pendingMigrations_standing whole, ← chosen]
  exact made.startingFrom run.database

theorem makes_down (stands : run.database.Stands count) (steps : Option Nat) :
    run.Makes ((Step.down steps).plan count)
      (.standing (migrations.take ((Step.down steps).target count))) (run.down steps) := by
  have whole := (List.take_append_drop count migrations).symm
  have chosen := take_append_limited_reverse stands.bounded steps
  have distinct := distinct_take count
  rw [← chosen] at distinct
  have made := makes_revertAll _ _ { run with database := .standing (migrations.take count) }
    distinct (by rw [chosen])
  rw [down, install_of_standsAt stands.reached, checked_of_standing whole rfl,
    Database.appliedMigrations_standing whole]
  exact made.startingFrom run.database

/-- A step makes its plan, in whichever of the places it may stand. -/
theorem makes_progress (stands : run.database.Stands count) {step : Step}
    (migrates : step.Migrates) :
    run.Makes (step.plan count) (.standing (migrations.take (step.target count)))
      (step.progress run) := by
  cases step with
  | up steps => exact makes_up stands steps
  | down steps => exact makes_down stands steps
  | fresh =>
      have dropped := makes_dropAll { run with database := .standing (migrations.take count) }
      rw [Step.progress, install_of_standsAt stands.reached]
      have made : Run.Makes _ _ _ (Run.andThen _ (Run.up none)) :=
        dropped.andThen {} (makes_up Database.stands_empty none)
      exact made.startingFrom run.database
  | refresh =>
      have reverted := makes_down stands none
      have stands := Database.stands_standing (Nat.zero_le _)
      have again : (run.after ((Step.down none).plan count) (.standing (migrations.take 0))).Makes
          ((Step.up none).plan 0) _ _ := makes_up stands none
      exact reverted.andThen _ again
  | reset => exact makes_down stands none
  | status =>
      have made := Makes.nothing { run with database := .standing (migrations.take count) }
      rw [Step.progress, install_of_standsAt stands.reached]
      exact made.startingFrom run.database
  | markApplied name => exact migrates.elim

end Run

end ChainLedger.Schema
