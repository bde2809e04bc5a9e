import ChainLedger.Proofs.Schema.Histories

/-!
# Dependencies between tables

A foreign key needs the table that it refers to, and an index its own table. Each migration refers
to tables of earlier ones only, so that no change of any step is ever made where it may not be.
-/

set_option autoImplicit false

namespace ChainLedger.Schema

/-! ## Changes in a catalog -/

abbrev Catalog := List TableDefinition

namespace Catalog

def names (catalog : Catalog) : List String := catalog.map (·.name)

/-- The catalog after a change. Dropping a table with its dependents takes away the foreign keys
that refer to it. -/
def after (catalog : Catalog) : Change → Catalog
  | .createTable table => if catalog.names.contains table.name then catalog else catalog ++ [table]
  | .createIndex _ => catalog
  | .dropTable name => catalog.filter (·.name ≠ name)
  | .dropWithDependents name => (catalog.filter (·.name ≠ name)).map fun table =>
      { table with foreignKeys := table.foreignKeys.filter (·.target ≠ name) }

/-- No dependency stands against a change: foreign keys refer to tables that exist, an index is on
a table that exists, and a table that is dropped exists and no other one refers to it. -/
def Allows (catalog : Catalog) : Change → Prop
  | .createTable table => ∀ key ∈ table.foreignKeys, key.target ∈ catalog.names
  | .createIndex index => index.table ∈ catalog.names
  | .dropTable name => name ∈ catalog.names ∧
      ∀ table ∈ catalog, table.name ≠ name → ∀ key ∈ table.foreignKeys, key.target ≠ name
  | .dropWithDependents _ => True

def AllowsAll (catalog : Catalog) : List Change → Prop
  | [] => True
  | change :: rest => catalog.Allows change ∧ (catalog.after change).AllowsAll rest

/-- Changes are allowed in turn and lead to another catalog. -/
structure Leads (catalog : Catalog) (changes : List Change) (reached : Catalog) : Prop where
  allowed : catalog.AllowsAll changes
  reaches : changes.foldl after catalog = reached

variable {catalog middle reached : Catalog} {first second : List Change}

theorem allowsAll_append : catalog.AllowsAll (first ++ second) ↔
    catalog.AllowsAll first ∧ Catalog.AllowsAll (first.foldl after catalog) second := by
  induction first generalizing catalog with
  | nil => simp [AllowsAll]
  | cons change first ih =>
      rw [List.cons_append, AllowsAll, AllowsAll, ih, List.foldl_cons, and_assoc]

theorem Leads.nil (catalog : Catalog) : catalog.Leads [] catalog := ⟨trivial, rfl⟩

theorem Leads.cons {change : Change} (allows : catalog.Allows change)
    (rest : (catalog.after change).Leads second reached) :
    catalog.Leads (change :: second) reached :=
  ⟨⟨allows, rest.allowed⟩, rest.reaches⟩

theorem Leads.append (starts : catalog.Leads first middle) (rest : middle.Leads second reached) :
    catalog.Leads (first ++ second) reached := by
  obtain ⟨allowed, reaches⟩ := starts
  subst reaches
  exact ⟨allowsAll_append.mpr ⟨allowed, rest.allowed⟩, by rw [List.foldl_append, rest.reaches]⟩

theorem AllowsAll.of_prefix (allowed : catalog.AllowsAll (first ++ second)) :
    catalog.AllowsAll first :=
  (allowsAll_append.mp allowed).1

end Catalog

/-! ## Migrations in their order -/

/-- Distinct migrations that refer to tables of earlier ones only, and put indexes on their own
tables only. -/
structure Ordered (list : List Migration) : Prop extends Distinct list where
  refers : ∀ (before : List Migration) (migration : Migration) (after : List Migration),
    list = before ++ migration :: after →
      ∀ key ∈ migration.table.foreignKeys, key.target ∈ before.map (·.table.name)
  indexes : ∀ migration ∈ list, ∀ index ∈ migration.indexes, index.table = migration.table.name

theorem ordered_migrations : Ordered migrations := by
  refine ⟨distinct_migrations, fun before migration after split => ?_, by decide⟩
  have refers : ∀ index (short : index < migrations.length),
      ∀ key ∈ migrations[index].table.foreignKeys,
        key.target ∈ (migrations.take index).map (·.table.name) := by decide
  have short : before.length < migrations.length := by simp [split]
  have here := refers before.length short
  simpa [split] using here

theorem Ordered.of_prefix {before after : List Migration} (ordered : Ordered (before ++ after)) :
    Ordered before := by
  refine ⟨ordered.toDistinct.of_prefix, fun first migration rest split => ?_,
    fun migration member => ?_⟩
  · exact ordered.refers first migration (rest ++ after) (by simp [split])
  · exact ordered.indexes migration (List.mem_append_left _ member)

theorem ordered_take (count : Nat) : Ordered (migrations.take count) := by
  have ordered := ordered_migrations
  rw [← List.take_append_drop count migrations] at ordered
  exact ordered.of_prefix

/-! ## Applying and reverting -/

namespace Catalog

def ofMigrations (list : List Migration) : Catalog := list.map (·.table)

variable {before : List Migration} {migration : Migration}

theorem names_ofMigrations (list : List Migration) :
    (ofMigrations list).names = list.map (·.table.name) := by
  simp [names, ofMigrations]

theorem leads_indexes {catalog : Catalog} (indexes : List IndexDefinition)
    (own : ∀ index ∈ indexes, index.table ∈ catalog.names) :
    catalog.Leads (indexes.map .createIndex) catalog := by
  induction indexes with
  | nil => exact .nil catalog
  | cons index indexes ih =>
      obtain ⟨here, others⟩ := List.forall_mem_cons.mp own
      exact .cons here (ih others)

theorem leads_up (ordered : Ordered (before ++ [migration])) :
    (ofMigrations before).Leads migration.up (ofMigrations (before ++ [migration])) := by
  have new : migration.table.name ∉ (ofMigrations before).names := by
    rw [names_ofMigrations]
    exact List.not_mem_of_not_mem_cons ordered.not_mem_tables
  have made : (ofMigrations before).after (.createTable migration.table) =
      ofMigrations (before ++ [migration]) := by
    rw [after, if_neg (by simpa using new), ofMigrations, ofMigrations, List.map_append]
    rfl
  have allows : (ofMigrations before).Allows (.createTable migration.table) := by
    rw [Allows, names_ofMigrations]
    exact ordered.refers before migration [] rfl
  apply Leads.cons allows
  rw [made]
  apply leads_indexes
  intro index member
  rw [ordered.indexes migration (by simp) index member, names_ofMigrations]
  simp

theorem refers_of_last (ordered : Ordered (before ++ [migration])) {earlier : Migration}
    (member : earlier ∈ before) :
    ∀ key ∈ earlier.table.foreignKeys, key.target ≠ migration.table.name := by
  intro key referring
  obtain ⟨first, rest, split⟩ := List.append_of_mem member
  have target := ordered.refers first earlier (rest ++ [migration]) (by simp [split]) key referring
  have others := List.not_mem_of_not_mem_cons ordered.not_mem_tables
  refine ne_of_mem_of_not_mem ?_ others
  rw [split, List.map_append]
  exact List.mem_append_left _ target

theorem leads_down (ordered : Ordered (before ++ [migration])) :
    (ofMigrations (before ++ [migration])).Leads migration.down (ofMigrations before) := by
  have others : ∀ earlier ∈ before, earlier.table.name ≠ migration.table.name := by
    intro earlier member
    refine ne_of_mem_of_not_mem ?_ (List.not_mem_of_not_mem_cons ordered.not_mem_tables)
    exact List.mem_map_of_mem member
  have dropped : (ofMigrations (before ++ [migration])).after (.dropTable migration.table.name) =
      ofMigrations before := by
    have kept : (ofMigrations before).filter (·.name ≠ migration.table.name) =
        ofMigrations before := by
      simpa [ofMigrations, List.filter_eq_self] using others
    rw [ofMigrations, List.map_append, ← ofMigrations, after, List.filter_append, kept]
    simp
  have allows : (ofMigrations (before ++ [migration])).Allows
      (.dropTable migration.table.name) := by
    refine ⟨by simp [names_ofMigrations], fun table member other => ?_⟩
    obtain ⟨earlier, among, rfl⟩ := List.mem_map.mp member
    obtain earlierOne | last := List.mem_append.mp among
    · exact refers_of_last ordered earlierOne
    · exact (other (by rw [List.mem_singleton.mp last])).elim
  apply Leads.cons allows
  rw [dropped]
  exact .nil _

theorem leads_ups (chosen : List Migration) : ∀ {before : List Migration},
    Ordered (before ++ chosen) →
      (ofMigrations before).Leads (chosen.flatMap Migration.up)
        (ofMigrations (before ++ chosen)) := by
  induction chosen with
  | nil =>
      intro before _
      rw [List.append_nil]
      exact .nil _
  | cons migration chosen ih =>
      intro before ordered
      rw [← List.singleton_append, ← List.append_assoc] at ordered ⊢
      exact (leads_up ordered.of_prefix).append (ih ordered)

theorem leads_downs (chosen : List Migration) : ∀ {kept : List Migration},
    Ordered (kept ++ chosen.reverse) →
      (ofMigrations (kept ++ chosen.reverse)).Leads (chosen.flatMap Migration.down)
        (ofMigrations kept) := by
  induction chosen with
  | nil =>
      intro kept _
      rw [List.reverse_nil, List.append_nil]
      exact .nil _
  | cons migration chosen ih =>
      intro kept ordered
      rw [List.reverse_cons, ← List.append_assoc] at ordered ⊢
      exact (leads_down ordered).append (ih ordered.of_prefix)

theorem leads_drops (dropped : List String) : ∀ {catalog : Catalog},
    (∀ name ∈ catalog.names, name ∈ dropped) →
      catalog.Leads (dropped.map .dropWithDependents) [] := by
  induction dropped with
  | nil =>
      intro catalog all
      have empty : catalog = [] := by simpa [names, List.eq_nil_iff_forall_not_mem] using all
      rw [empty]
      exact .nil []
  | cons name dropped ih =>
      intro catalog all
      have allows : catalog.Allows (.dropWithDependents name) := trivial
      apply Leads.cons allows
      apply ih
      simp only [names, List.forall_mem_map, List.mem_cons] at all
      intro other member
      obtain ⟨table, kept, rfl⟩ : ∃ table ∈ catalog.filter (·.name ≠ name), table.name = other := by
        simpa [names, after] using member
      obtain ⟨stays, different⟩ := List.mem_filter.mp kept
      exact (all table stays).resolve_left (by simpa using different)

theorem leads_plan {count : Nat} (bounded : count ≤ migrations.length) {step : Step}
    (migrates : step.Migrates) :
    (ofMigrations (migrations.take count)).Leads (step.plan count)
      (ofMigrations (migrations.take (step.target count))) := by
  have ups (count : Nat) (steps : Option Nat) : (ofMigrations (migrations.take count)).Leads
      ((Step.up steps).plan count)
      (ofMigrations (migrations.take ((Step.up steps).target count))) := by
    have chosen := take_append_limited count steps
    rw [← chosen]
    exact leads_ups _ (chosen ▸ ordered_take _)
  have downs (steps : Option Nat) : (ofMigrations (migrations.take count)).Leads
      ((Step.down steps).plan count)
      (ofMigrations (migrations.take ((Step.down steps).target count))) := by
    have chosen := take_append_limited_reverse bounded steps
    have ordered := ordered_take count
    rw [← chosen] at ordered
    have leads := leads_downs _ ordered
    rwa [chosen] at leads
  cases step with
  | up steps => exact ups count steps
  | down steps => exact downs steps
  | fresh =>
      refine Leads.append (leads_drops _ ?_) (ups 0 none)
      rw [names_ofMigrations]
      exact fun name => List.mem_cons_of_mem recordTable
  | refresh => exact (downs none).append (ups 0 none)
  | reset => exact downs none
  | status => exact .nil _
  | markApplied name => exact migrates.elim

end Catalog

/-! ## Step after step -/

structure Surveyed where
  database : Database := {}
  catalog : Catalog := []

namespace Surveyed

/-- Takes a step. What it has made before it fails is rolled back. -/
def take (surveyed : Surveyed) (attempt : Attempt) : Surveyed :=
  let report := attempt.report surveyed.database
  { database := report.database
    catalog :=
      match report.error with
      | none => report.changes.foldl Catalog.after surveyed.catalog
      | some _ => surveyed.catalog }

def takeAll (surveyed : Surveyed) (attempts : List Attempt) : Surveyed :=
  attempts.foldl take surveyed

/-- The first so many migrations have been applied, and the tables are as these made them. -/
structure Stands (surveyed : Surveyed) (count : Nat) : Prop where
  database : surveyed.database.Stands count
  catalog : surveyed.catalog = .ofMigrations (migrations.take count)

variable {surveyed : Surveyed} {count : Nat}

theorem Stands.take (stands : surveyed.Stands count) {attempt : Attempt}
    (migrates : attempt.step.Migrates) : ∃ next, (surveyed.take attempt).Stands next := by
  have bounded := stands.database.bounded
  have comes := attempt.report_comes stands.database migrates
  have leads := Catalog.leads_plan bounded migrates
  rw [Surveyed.take]
  generalize attempt.report surveyed.database = report at comes
  cases comes with
  | done =>
      have moved := Database.stands_standing (attempt.step.target_le bounded)
      refine ⟨attempt.step.target count, moved, ?_⟩
      rw [stands.catalog]
      exact leads.reaches
  | stopped => exact ⟨count, Database.stands_standing bounded, stands.catalog⟩

theorem Stands.takeAll (stands : surveyed.Stands count) (attempts : List Attempt)
    (migrate : ∀ attempt ∈ attempts, attempt.step.Migrates) :
    ∃ last, (surveyed.takeAll attempts).Stands last := by
  induction attempts generalizing surveyed count with
  | nil => exact ⟨count, stands⟩
  | cons attempt attempts ih =>
      obtain ⟨migrates, others⟩ := List.forall_mem_cons.mp migrate
      obtain ⟨next, stands⟩ := stands.take migrates
      exact ih stands others

/-- The next step is allowed each change when it makes it. One that fails was allowed as well, and
is the change that would come next. -/
structure Permits (surveyed : Surveyed) (attempt : Attempt) : Prop where
  tables : surveyed.catalog.names = surveyed.database.schemaTables
  made : surveyed.catalog.AllowsAll (attempt.report surveyed.database).changes
  failed : ∀ error, (attempt.report surveyed.database).error = some error →
    ∃ change rest, attempt.Strikes change ∧
      (Attempt.report { step := attempt.step } surveyed.database).changes =
        (attempt.report surveyed.database).changes ++ change :: rest ∧
      surveyed.catalog.AllowsAll ((attempt.report surveyed.database).changes ++ [change])

/-- Where nothing is to fail, a step makes its whole plan. -/
theorem Stands.changes_of_spared (stands : surveyed.Stands count) {step : Step}
    (migrates : step.Migrates) :
    (Attempt.report { step } surveyed.database).changes = step.plan count := by
  have comes : Attempt.Comes { step } count _ :=
    Attempt.report_comes stands.database migrates
  generalize Attempt.report { step } surveyed.database = report at comes
  cases comes with
  | done => rfl
  | stopped _ _ strikes => simp [Attempt.Strikes] at strikes

theorem Stands.permits (stands : surveyed.Stands count) {attempt : Attempt}
    (migrates : attempt.step.Migrates) : surveyed.Permits attempt := by
  have inStep := stands.database.inStep
  have allowed := (Catalog.leads_plan stands.database.bounded migrates).allowed
  have comes := attempt.report_comes stands.database migrates
  generalize reported : attempt.report surveyed.database = report at comes
  rw [← stands.catalog] at allowed
  refine ⟨?_, ?_, ?_⟩
  · rw [stands.catalog, Catalog.names_ofMigrations, inStep.tables]
  · rw [reported]
    cases comes with
    | done => exact allowed
    | stopped split =>
        rw [split] at allowed
        exact allowed.of_prefix
  · intro error failed
    rw [reported] at failed ⊢
    cases comes with
    | done => cases failed
    | @stopped made rest change split _ strikes =>
        refine ⟨change, rest, strikes, (stands.changes_of_spared migrates).trans split, ?_⟩
        rw [split, ← List.singleton_append, ← List.append_assoc] at allowed
        exact allowed.of_prefix

/-- Whatever steps are taken from an empty database and fail, the next step makes no change that a
dependency between tables stands against. -/
theorem no_dependency_violated (attempts : List Attempt) (next : Attempt)
    (migrate : ∀ attempt ∈ next :: attempts, attempt.step.Migrates) :
    (takeAll {} attempts).Permits next := by
  obtain ⟨migrates, others⟩ := List.forall_mem_cons.mp migrate
  have empty : Stands {} 0 := ⟨Database.stands_empty, rfl⟩
  obtain ⟨count, stands⟩ := empty.takeAll attempts others
  exact stands.permits migrates

theorem haltedRefresh_violates_no_dependency :
    (∀ attempt ∈ haltedRefresh :: unsteadyAttempts, attempt.step.Migrates) ∧
      (takeAll {} unsteadyAttempts).Permits haltedRefresh := by
  have migrate : ∀ attempt ∈ haltedRefresh :: unsteadyAttempts, attempt.step.Migrates := by
    simp [haltedRefresh, unsteadyAttempts, Step.Migrates]
  exact ⟨migrate, no_dependency_violated unsteadyAttempts haltedRefresh migrate⟩

end Surveyed

end ChainLedger.Schema
