import ChainLedger.Proofs.Service.Working

/-!
# Which transactions can be reconciled

A reconciliation without faults is told by the store and the report alone. It succeeds when the
transaction is stored and, on the main chain, no mint or burn of it offends; otherwise it fails
for the first that does, and all mints come before all burns. Taking back never fails.
-/

set_option autoImplicit false

namespace ChainLedger.Ledger

/-- An asset exists already, or the transaction mints it, by whatever value. -/
def Known (store : Store) (transaction : Report.Transaction) (identifier : String) : Prop :=
  (∃ asset ∈ store.assets.rows, asset.entry.identifier = identifier) ∨
    ∃ mint ∈ transaction.mints, mint.id = identifier

def IsStored (store : Store) (transaction : Report.Transaction) : Prop :=
  ∃ row ∈ store.transactions.rows, row.entry.hash = transaction.hash

/-! ## Entries -/

inductive Entry
  | mint (mint : Report.Mint)
  | burn (burn : Report.Burn)

def entries (transaction : Report.Transaction) : List Entry :=
  transaction.mints.map .mint ++ transaction.burns.map .burn

/-- Why an entry cannot be recorded. A burn of an unknown asset offends by that only. -/
inductive Entry.Offends (known : String → Prop) : Entry → Error → Prop
  | mintValue {mint : Report.Mint} (invalid : ¬DigitRun mint.value) :
      Offends known (.mint mint) (.invalidValue mint.value)
  | unknownAsset {burn : Report.Burn} (unknown : ¬known burn.id) :
      Offends known (.burn burn) (.unknownAsset burn.id)
  | burnValue {burn : Report.Burn} (isKnown : known burn.id) (invalid : ¬DigitRun burn.value) :
      Offends known (.burn burn) (.invalidValue burn.value)

namespace Entry

def offence? (known : List String) : Entry → Option Error
  | .mint reported => mintOffence? reported
  | .burn reported => burnOffence? known reported

variable {known : List String} {store : Store} {transaction : Report.Transaction}

theorem offence?_eq_some {entry : Entry} {error : Error} :
    entry.offence? known = some error ↔ entry.Offends (· ∈ known) error := by
  cases entry with
  | mint mint =>
      rw [offence?, mintOffence?]
      constructor
      · intro offends
        split at offends
        next => cases offends
        next invalid =>
          obtain rfl := Option.some.inj offends
          exact .mintValue (invalid ∘ isDigitRun_iff.mpr)
      · intro offends
        cases offends with
        | mintValue invalid => rw [if_neg (invalid ∘ isDigitRun_iff.mp)]
  | burn burn =>
      rw [offence?, burnOffence?]
      constructor
      · intro offends
        split at offends
        next isKnown =>
          split at offends
          next => cases offends
          next invalid =>
            obtain rfl := Option.some.inj offends
            exact .burnValue isKnown (invalid ∘ isDigitRun_iff.mpr)
        next unknown =>
          obtain rfl := Option.some.inj offends
          exact .unknownAsset unknown
      · intro offends
        cases offends with
        | unknownAsset unknown => rw [if_neg unknown]
        | burnValue isKnown invalid =>
            rw [if_pos isKnown, if_neg (invalid ∘ isDigitRun_iff.mp)]

theorem offence?_eq_none {entry : Entry} :
    entry.offence? known = none ↔ ∀ error, ¬entry.Offends (· ∈ known) error := by
  simp only [Option.eq_none_iff_forall_ne_some, ne_eq, offence?_eq_some]

end Entry

/-! ## Verdicts -/

variable {store : Store} {transaction : Report.Transaction} {main : Bool} {error : Error}

/-- What a reconciliation asks of the store and of a report. -/
structure Reconcilable (store : Store) (main : Bool) (transaction : Report.Transaction) :
    Prop where
  stored : IsStored store transaction
  mints : main = true → ∀ mint ∈ transaction.mints, DigitRun mint.value
  burns : main = true → ∀ burn ∈ transaction.burns,
    Known store transaction burn.id ∧ DigitRun burn.value

/-- The first that stands against a reconciliation: that the transaction is not stored, or an
offence of an entry behind entries without any. -/
inductive FirstOffence (store : Store) (main : Bool) (transaction : Report.Transaction) :
    Error → Prop
  | unknownTransaction (missing : ¬IsStored store transaction) :
      FirstOffence store main transaction (.unknownTransaction transaction.hash)
  | entry {before after : List Entry} {entry : Entry} {error : Error}
      (stored : IsStored store transaction) (onMain : main = true)
      (split : entries transaction = before ++ entry :: after)
      (clean : ∀ earlier ∈ before, ∀ other, ¬earlier.Offends (Known store transaction) other)
      (offends : entry.Offends (Known store transaction) error) :
      FirstOffence store main transaction error

theorem isStored_iff :
    IsStored store transaction ↔ (store.transactionByHash? transaction.hash).isSome = true := by
  simp [IsStored, Store.transactionByHash?, List.find?_isSome]

theorem mem_known : (· ∈ store.identifiers ++ transaction.mints.map (·.id)) =
    Known store transaction := by
  funext identifier
  simp [Known, Store.identifiers]

theorem firstOffence?_eq_findSome? : firstOffence? store.identifiers transaction =
    (entries transaction).findSome?
      (Entry.offence? (store.identifiers ++ transaction.mints.map (·.id))) := by
  rw [firstOffence?, entries, List.findSome?_append, List.findSome?_map, List.findSome?_map]
  rfl

theorem offence?_eq_some_iff : offence? store.identifiers main transaction = some error ↔
    main = true ∧ ∃ before entry after, entries transaction = before ++ entry :: after ∧
      (∀ earlier ∈ before, ∀ other, ¬earlier.Offends (Known store transaction) other) ∧
        entry.Offends (Known store transaction) error := by
  rw [offence?]
  cases main with
  | false => simp
  | true =>
      simp only [if_true, firstOffence?_eq_findSome?, List.findSome?_eq_some_iff,
        Entry.offence?_eq_some, Entry.offence?_eq_none, mem_known, true_and]
      constructor
      · rintro ⟨before, entry, after, split, offends, clean⟩
        exact ⟨before, entry, after, split, clean, offends⟩
      · rintro ⟨before, entry, after, split, clean, offends⟩
        exact ⟨before, entry, after, split, offends, clean⟩

theorem firstOffence_iff : FirstOffence store main transaction error ↔
    (store.transactionByHash? transaction.hash = none ∧
        error = .unknownTransaction transaction.hash ∨
      (store.transactionByHash? transaction.hash).isSome ∧
        offence? store.identifiers main transaction = some error) := by
  rw [← Option.not_isSome_iff_eq_none, ← isStored_iff, offence?_eq_some_iff]
  constructor
  · intro first
    cases first with
    | unknownTransaction missing => exact Or.inl ⟨missing, rfl⟩
    | entry stored onMain split clean offends =>
        exact Or.inr ⟨stored, onMain, _, _, _, split, clean, offends⟩
  · intro told
    cases told with
    | inl unknown =>
        obtain ⟨missing, named⟩ := unknown
        rw [named]
        exact .unknownTransaction missing
    | inr known =>
        obtain ⟨stored, onMain, _, _, _, split, clean, offends⟩ := known
        exact .entry stored onMain split clean offends

theorem reconcilable_iff : Reconcilable store main transaction ↔
    (store.transactionByHash? transaction.hash).isSome = true ∧
      offence? store.identifiers main transaction = none := by
  have clean := @Job.clean_iff store.identifiers { main, transaction }
  have mintClean (mint : Report.Mint) : mintOffence? mint = none ↔ DigitRun mint.value := by
    rw [mintOffence?, ← isDigitRun_iff]
    split <;> simp [*]
  rw [← isStored_iff, clean, Job.Clean]
  simp only [isDigitRun_iff, mintClean, Store.identifiers, List.mem_map]
  constructor
  · rintro ⟨stored, mints, burns⟩
    exact ⟨stored, fun onMain => ⟨mints onMain, fun burn member => (burns onMain burn member).symm⟩⟩
  · rintro ⟨stored, both⟩
    exact ⟨stored, fun onMain => (both onMain).1,
      fun onMain burn member => ((both onMain).2 burn member).symm⟩

/-- Where no fault is armed, the store and the report decide whether a reconciliation succeeds,
and for which entry it fails. What was recorded can always be taken back. -/
theorem verdict_of_reachable (reachable : store.Reachable) (main : Bool)
    (transaction : Report.Transaction) (now : Instant) :
    ((reconcile main transaction { store, now }).1 = .ok () ↔
        Reconcilable store main transaction) ∧
      (∀ error, (reconcile main transaction { store, now }).1 = .error error ↔
        FirstOffence store main transaction error) ∧
      ∀ transactionId, ∃ after,
        undoDescriptions transactionId { store, now } = (.ok (), { store := after, now }) := by
  have balanced := reachable.sound.balanced
  have undone (transactionId : Int) : ∃ after,
      undoDescriptions transactionId { store, now } = (.ok (), { store := after, now }) := by
    obtain ⟨_, after, ran, -⟩ | ⟨_, _, _, fails⟩ :=
      (undoDescriptions_yields balanced transactionId now).of_calm
    · exact ⟨after, ran⟩
    · exact fails.elim
  simp only [reconcilable_iff, firstOffence_iff]
  obtain ⟨_, after, ran, row, found, clean, -⟩ | ⟨error, after, ran, fails⟩ :=
    (reconcile_yields balanced main transaction now).of_calm
  · rw [ran, found, clean]
    exact ⟨by simp, by simp, undone⟩
  · rw [ran]
    obtain ⟨missing, told⟩ | ⟨stored, offends⟩ := fails
    · rw [missing, told]
      exact ⟨by simp, by simp [eq_comm], undone⟩
    · have present := Option.isSome_iff_ne_none.mp stored
      rw [offends]
      exact ⟨by simp, by simp [present, stored], undone⟩

/-- The transaction of the sample store with entries above the ceiling: the mint makes its asset
known, and the burn behind it has an unknown one, before a burn with a value of no digits. -/
def overCeilingTransaction : Report.Transaction :=
  { Store.sampleTransaction with
    mints := [{ id := "B", name := "b", owner := "o", value := "100000000000000001" }]
    burns := [{ id := "B", value := "007" }, { id := "C", value := "100000000000000001" },
      { id := "A", value := "x" }] }

theorem verdict_of_overCeilingTransaction :
    Store.sampleStore.Reachable ∧
      FirstOffence Store.sampleStore true overCeilingTransaction (.unknownAsset "C") ∧
      Reconcilable Store.sampleStore false overCeilingTransaction := by
  have onMain : (reconcile true overCeilingTransaction { store := Store.sampleStore }).1 =
      .error (.unknownAsset "C") := by
    cbv
  have off : (reconcile false overCeilingTransaction { store := Store.sampleStore }).1 =
      .ok () := by
    cbv
  have reachable := Store.reachable_sampleStore
  obtain ⟨_, fails, _⟩ := verdict_of_reachable reachable true overCeilingTransaction ⟨0⟩
  obtain ⟨succeeds, _, _⟩ := verdict_of_reachable reachable false overCeilingTransaction ⟨0⟩
  exact ⟨reachable, (fails _).mp onMain, succeeds.mp off⟩

end ChainLedger.Ledger
