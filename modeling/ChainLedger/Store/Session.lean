import ChainLedger.Store.Tables

/-!
# Sessions: work on the store

Work is made of statements on tables. A statement can be refused, or lost: then it does nothing
and meets no row. Which statements are is decided by faults that are armed beforehand, each for
one kind of statement, with a number of statements to let pass and a number to hit.

A unit of work is atomic. It opens, does its statements and commits; when any of this fails, the
store is as it was before, while the faults that were used stay used.
-/

set_option autoImplicit false

namespace ChainLedger

inductive TableName
  | blocks
  | transactions
  | links
  | assets
  | descriptions
  deriving DecidableEq, Repr

inductive Statement
  | opening
  | select (table : TableName)
  | insert (table : TableName)
  | update (table : TableName)
  | delete (table : TableName)
  | commit
  deriving DecidableEq, Repr

inductive Inconsistency
  | missingAsset (assetId descriptionId : Int)
  | unwrittenAsset (identifier : String)
  | vanishedAsset (assetId : Int)
  | reported (detail : String)
  deriving DecidableEq, Repr

def Inconsistency.message : Inconsistency → String
  | missingAsset assetId descriptionId =>
    "asset " ++ toString assetId ++ " referenced by description " ++ toString descriptionId
      ++ " is missing"
  | unwrittenAsset identifier => "asset " ++ identifier ++ " missing after upsert"
  | vanishedAsset assetId => "asset " ++ toString assetId ++ " vanished while updating supply"
  | reported detail => detail

inductive StoreError
  | connection (detail : String)
  | query (detail : String)
  | inconsistent (fact : Inconsistency)
  deriving DecidableEq, Repr

def StoreError.message : StoreError → String
  | connection detail => "Database connection error: " ++ detail
  | query detail => "Database query error: " ++ detail
  | inconsistent fact => "Database consistency error: " ++ fact.message

def StoreError.lostInsert : StoreError :=
  .query "RecordNotFound Error: Failed to find inserted item"

def StoreError.lostUpdate : StoreError := .query "None of the records are updated"

def StoreError.unknownKind (name : String) : StoreError :=
  .query ("Type Error: unexpected value for AssetDescriptionType enum: " ++ name)

/-- Pairs descriptions with their kinds. One of an unknown kind makes all of them unreadable. -/
def Stored.Description.withKinds (rows : List Stored.Description) :
    Except StoreError (List (Stored.DescriptionKind × Stored.Description)) :=
  rows.mapM fun row =>
    match row.kind with
    | .known kind => .ok (kind, row)
    | .unknown name => .error (.unknownKind name)

def Statement.refusal : Statement → StoreError
  | opening => .connection "connection refused"
  | select _ => .query "Query Error: injected fault"
  | insert _ | update _ | delete _ | commit => .query "Execution Error: injected fault"

inductive FaultMode
  | refused
  | lost
  deriving DecidableEq, Repr

/-- Hits `count` statements of one kind after letting `skip` of them pass. -/
structure ArmedFault where
  statement : Statement
  skip : Nat := 0
  count : Nat := 1
  mode : FaultMode
  deriving DecidableEq, Repr

/-- Asks the armed faults about a statement, in the order in which they were armed. Each that
still lets statements pass counts this one; the first that is ready hits it. -/
def ArmedFault.ask (statement : Statement) : List ArmedFault → Option FaultMode × List ArmedFault
  | [] => (none, [])
  | fault :: others =>
    if fault.statement = statement then
      match fault.skip, fault.count with
      | skip + 1, _ =>
        let (mode, others) := ask statement others
        (mode, { fault with skip } :: others)
      | 0, 0 => ask statement others
      | 0, 1 => (some fault.mode, others)
      | 0, count + 2 => (some fault.mode, { fault with count := count + 1 } :: others)
    else
      let (mode, others) := ask statement others
      (mode, fault :: others)

structure Session where
  store : Store := {}
  faults : List ArmedFault := []
  now : Instant := ⟨0⟩

/-- Work that answers or fails, and leaves the session changed. -/
def Work (ε α : Type) : Type := Session → Except ε α × Session

namespace Work

variable {ε α β : Type}

instance : Monad (Work ε) where
  pure value := fun session => (.ok value, session)
  bind work next := fun session =>
    match work session with
    | (.ok value, after) => next value after
    | (.error error, after) => (.error error, after)

@[simp]
theorem pure_apply (value : α) (session : Session) :
    (pure value : Work ε α) session = (.ok value, session) := rfl

theorem bind_apply (work : Work ε α) (next : α → Work ε β) (session : Session) :
    (work >>= next) session =
      match work session with
      | (.ok value, after) => next value after
      | (.error error, after) => (.error error, after) := rfl

def fail (error : ε) : Work ε α := fun session => (.error error, session)

def orFail (value : Option α) (error : ε) : Work ε α :=
  match value with
  | some value => pure value
  | none => fail error

def ofExcept (result : Except ε α) : Work ε α := fun session => (result, session)

def mapError {ε' : Type} (wrap : ε → ε') (work : Work ε α) : Work ε' α := fun session =>
  match work session with
  | (.ok value, after) => (.ok value, after)
  | (.error error, after) => (.error (wrap error), after)

/-- Does one statement. A lost one answers `lost` and changes nothing. -/
def statement (statement : Statement) (lost : α) (effect : Session → α × Store) :
    Work StoreError α := fun session =>
  let (mode, faults) := ArmedFault.ask statement session.faults
  match mode with
  | some .refused => (.error statement.refusal, { session with faults })
  | some .lost => (.ok lost, { session with faults })
  | none =>
    let (value, store) := effect session
    (.ok value, { session with store, faults })

def select (table : TableName) (lost : α) (view : Store → α) : Work StoreError α :=
  statement (.select table) lost fun session => (view session.store, session.store)

def selectDescriptions (view : Store → List Stored.Description) :
    Work StoreError (List (Stored.DescriptionKind × Stored.Description)) := do
  let rows ← select .descriptions [] view
  ofExcept (Stored.Description.withKinds rows)

def boundary (statement : Statement) : Work StoreError Unit := fun session =>
  let (mode, faults) := ArmedFault.ask statement session.faults
  match mode with
  | some _ => (.error statement.refusal, { session with faults })
  | none => (.ok (), { session with faults })

@[simp]
theorem boundary_store (statement : Statement) (session : Session) :
    (boundary statement session).2.store = session.store := by
  simp only [boundary]
  split <;> rfl

def atomically (wrap : StoreError → ε) (work : Work ε α) : Work ε α := fun session =>
  match boundary .opening session with
  | (.error error, opened) => (.error (wrap error), opened)
  | (.ok (), opened) =>
    match work opened with
    | (.error error, after) => (.error error, { after with store := session.store })
    | (.ok value, after) =>
      match boundary .commit after with
      | (.error error, closed) => (.error (wrap error), { closed with store := session.store })
      | (.ok (), closed) => (.ok value, closed)

/-- A unit of work that fails leaves the store as it was. -/
theorem store_of_atomically_error (wrap : StoreError → ε) (work : Work ε α)
    {session after : Session} {error : ε}
    (failed : atomically wrap work session = (.error error, after)) :
    after.store = session.store := by
  have opening := boundary_store .opening session
  simp only [atomically] at failed
  split at failed
  next opened openEq =>
    rw [openEq] at opening
    obtain ⟨-, rfl⟩ := Prod.mk.inj failed
    exact opening
  next opened openEq =>
    split at failed
    next =>
      obtain ⟨-, rfl⟩ := Prod.mk.inj failed
      rfl
    next =>
      split at failed
      next =>
        obtain ⟨-, rfl⟩ := Prod.mk.inj failed
        rfl
      next => cases failed

end Work
end ChainLedger
