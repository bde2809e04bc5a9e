import ChainLedger.Proofs.Ledger.Atomicity
import ChainLedger.Proofs.Service.Reachable
import ChainLedger.Proofs.Store.Passing

/-!
# The range of supplies

In between the statements of a reconciliation the supplies are what some of the stored
descriptions add up to: those of the transaction that are not taken back yet, those that are
recorded so far, and those of all others. No description tells an amount above the ceiling and
there are no more descriptions than ids, so all supplies on the way are integers far below the
bound of decimals, and all additions that lead from one to the next are exact.
-/

set_option autoImplicit false

namespace ChainLedger

open Stored (Description)

def greatestRowId : Nat := 2147483647

namespace Store

def PartlyBalanced (store : Store) : Prop :=
  ∃ live, live.Subperm store.descriptions.rows ∧ store.Orderly (Description.net live)

theorem Balanced.partly {store : Store} (balanced : store.Balanced) : store.PartlyBalanced :=
  ⟨_, .refl _, balanced⟩

def supplyAt (store : Store) (assetId : Int) : Decimal :=
  ((store.assetById? assetId).map (·.supply)).getD .zero

end Store

namespace Ledger

open Decimal (natAbs_signed)

/-! ## Additions -/

/-- The changes of supply that a reconciliation makes, each with the number that it stands for:
what is stored for the transaction is taken back, and what it posts is added. -/
inductive Moves (start : Store) (main : Bool) (transaction : Report.Transaction) :
    Int → Decimal → Prop
  | takenBack {record : Stored.Transaction} {row : Description} {kind : Stored.DescriptionKind}
      (found : start.transactionByHash? transaction.hash = some record)
      (stored : row ∈ start.descriptions.rows) (own : row.transactionId = record.id)
      (named : row.kind = .known kind) :
      Moves start main transaction (-row.contribution) (kind.reversingDelta row.value)
  | posted {posting : Posting} (member : posting ∈ posted main transaction) :
      Moves start main transaction posting.contribution
        (posting.kind.appliedDelta posting.value)

def Adds (start : Store) (main : Bool) (transaction : Report.Transaction)
    (before after : Decimal) : Prop :=
  ∃ number delta, Moves start main transaction number delta ∧ after = before.add delta

structure Moved (start : Store) (main : Bool) (transaction : Report.Transaction)
    (store : Store) : Prop where
  kept : start.assetIds ⊆ store.assetIds
  supplies : ∀ asset ∈ store.assets.rows,
    Relation.ReflTransGen (Adds start main transaction) (start.supplyAt asset.id) asset.supply

structure Underway (start : Store) (main : Bool) (transaction : Report.Transaction)
    (store : Store) : Prop where
  partly : store.PartlyBalanced
  moved : Moved start main transaction store

variable {start store : Store} {main : Bool} {transaction : Report.Transaction}
  {number : Int} {delta : Decimal}

namespace Moved

theorem refl (assets : start.assets.Numbered (·.id)) :
    Moved start main transaction start := by
  refine ⟨List.Subset.refl _, fun asset stored => ?_⟩
  rw [Store.supplyAt, Store.assetById?, find?_key_of_mem assets.nodup stored]
  exact .refl

theorem of_assets_eq (moved : Moved start main transaction store) {after : Store}
    (same : after.assets = store.assets) : Moved start main transaction after := by
  obtain ⟨kept, supplies⟩ := moved
  rw [Store.assetIds, Store.assetIds, ← same] at kept
  rw [← same] at supplies
  exact ⟨kept, supplies⟩

theorem shiftSupply (moved : Moved start main transaction store)
    (moves : Moves start main transaction number delta) (assetId : Int) (now : Instant) :
    Moved start main transaction (store.shiftSupply assetId delta now) := by
  have registry := (store.sameBooks_shiftSupply assetId delta now).registry
  refine ⟨?_, ?_⟩
  · rw [Store.assetIds_eq_registry (store.shiftSupply assetId delta now), registry,
      ← Store.assetIds_eq_registry]
    exact moved.kept
  · rw [Store.shiftSupply]
    split
    · exact moved.supplies
    · intro changed member
      obtain ⟨asset, stored, rfl⟩ := List.mem_map.mp member
      split
      · exact (moved.supplies asset stored).tail ⟨number, delta, moves, rfl⟩
      · exact moved.supplies asset stored

theorem insertAsset (moved : Moved start main transaction store)
    (assets : store.assets.Numbered (·.id)) (entry : Stored.AssetEntry) (transactionId : Int)
    (now : Instant) :
    Moved start main transaction (store.insertAsset entry transactionId now) := by
  have fresh := store.assets_lastId_lt_nextId
  rw [Store.insertAsset]
  split
  · exact moved
  · refine ⟨?_, ?_⟩
    · simp only [Store.assetIds, Table.add, List.map_append]
      exact List.subset_append_of_subset_left _ moved.kept
    · intro asset member
      rcases List.mem_append.mp member with stored | isNew
      · exact moved.supplies asset stored
      · -- a new id is no id of an asset that was there at the start
        have unknown : store.nextId store.assets.lastId ∉ start.assetIds := by
          intro known
          obtain ⟨old, isOld, same⟩ := List.mem_map.mp (moved.kept known)
          have bounded := assets.bounded old isOld
          change old.id ≤ store.assets.lastId at bounded
          omega
        rw [List.mem_singleton.mp isNew, Store.supplyAt, Store.assetById?,
          find?_key_eq_none.mpr unknown]
        exact .refl

end Moved

/-! ## Stores on the way -/

open Work

variable {transactionId : Int} {now : Instant}

theorem changeSupply_throughout {holds : Store → Prop} {assetId : Int} (start : holds store)
    (done : holds (store.shiftSupply assetId delta now)) :
    (changeSupply assetId delta).Throughout store now holds := by
  rw [Store.shiftSupply] at done
  rw [changeSupply]
  split
  next => exact throughout_pure start
  next moving =>
    rw [if_neg moving] at done
    refine Throughout.bind (fun _ after => holds after)
      (throughout_statement start fun _ => done) (yields_statement fun _ => done) ?_
    intro found after reached _
    split
    · exact throughout_pure reached
    · exact throughout_fail reached

theorem undoDescription_throughout {holds : Store → Prop} {kind : Stored.DescriptionKind}
    {row : Description} (start : holds store)
    (done : holds (store.shiftSupply row.assetId (kind.reversingDelta row.value) now)) :
    (undoDescription kind row).Throughout store now holds := by
  rw [undoDescription]
  refine Throughout.bind
    (fun asset? after => asset? = store.assetById? row.assetId ∧ store = after)
    (throughout_select start) (yields_select ⟨rfl, rfl⟩) ?_
  rintro asset? after ⟨rfl, rfl⟩ -
  refine Throughout.bind (fun asset after => store = after ∧ asset.id = row.assetId)
    (throughout_orFail start) (yields_orFail (fun asset found => ⟨rfl, ?_⟩) fun _ => trivial) ?_
  · simpa using List.find?_some found
  · rintro asset after ⟨rfl, same⟩ -
    rw [same]
    exact changeSupply_throughout start done

/-- While descriptions are taken back, the supplies are what the rest of them adds up to, together
with the others. -/
theorem undoAll_throughout (others : List Description) (now : Instant)
    (pairs : List (Stored.DescriptionKind × Description)) : ∀ {store : Store},
      (pairs.map (·.2) ++ others).Subperm store.descriptions.rows →
      store.Orderly (Description.net (pairs.map (·.2) ++ others)) →
      Moved start main transaction store →
      (∀ pair ∈ pairs, store.Describes pair.2 ∧ pair.2.kind = .known pair.1) →
      (∀ pair ∈ pairs, Moves start main transaction (-pair.2.contribution)
        (pair.1.reversingDelta pair.2.value)) →
      (pairs.forM fun pair => undoDescription pair.1 pair.2).Throughout store now
        (Underway start main transaction) := by
  induction pairs with
  | nil =>
      intro store stored orderly moved _ _
      exact throughout_pure ⟨⟨_, stored, orderly⟩, moved⟩
  | cons pair pairs ih =>
      intro store stored orderly moved known moves
      obtain ⟨describes, named⟩ := known pair List.mem_cons_self
      have same := store.sameBooks_shiftSupply pair.2.assetId
        (pair.1.reversingDelta pair.2.value) now
      have movedOn := moved.shiftSupply (moves pair List.mem_cons_self) pair.2.assetId now
      have storedOn : (pairs.map (·.2) ++ others).Subperm
          (store.shiftSupply pair.2.assetId (pair.1.reversingDelta pair.2.value)
            now).descriptions.rows := by
        rw [same.descriptions]
        exact (List.sublist_cons_self _ _).subperm.trans stored
      have orderlyOn : (store.shiftSupply pair.2.assetId (pair.1.reversingDelta pair.2.value)
          now).Orderly (Description.net (pairs.map (·.2) ++ others)) := by
        refine (orderly_undo orderly describes named now).congr fun asset _ => ?_
        rw [List.map_cons, List.cons_append, Description.net_cons]
        omega
      rw [List.forM]
      refine Throughout.bind _ (undoDescription_throughout ⟨⟨_, stored, orderly⟩, moved⟩
        ⟨⟨_, storedOn, orderlyOn⟩, movedOn⟩) (undoDescription_yields describes now).answers ?_
      rintro _ after rfl -
      refine ih storedOn orderlyOn movedOn ?_ ?_
      · intro other member
        obtain ⟨describes, named⟩ := known other (List.mem_cons_of_mem _ member)
        exact ⟨describes.of_sameBooks same, named⟩
      · exact fun other member => moves other (List.mem_cons_of_mem _ member)

theorem undoDescriptions_throughout (balanced : start.Balanced) {record : Stored.Transaction}
    (found : start.transactionByHash? transaction.hash = some record) (now : Instant) :
    (undoDescriptions record.id).Throughout start now (Underway start main transaction) := by
  have begun : Underway start main transaction start :=
    ⟨balanced.partly, Moved.refl balanced.assets⟩
  rw [undoDescriptions]
  refine Throughout.bind _ ?_ (selectDescriptions_yields balanced record.id now).answers ?_
  · refine Throughout.bind (fun _ after => start = after) (throughout_select begun)
      (yields_select rfl) ?_
    rintro rows after rfl -
    exact throughout_ofExcept begun
  rintro pairs after ⟨rfl, same, known⟩ -
  split
  · exact throughout_pure begun
  have parts := List.filter_append_perm (·.transactionId = record.id) start.descriptions.rows
  rw [← same] at parts
  have orderly : start.Orderly (Description.net (pairs.map (·.2) ++
      start.descriptions.rows.filter fun row => !decide (row.transactionId = record.id))) := by
    refine balanced.congr fun asset _ => ?_
    rw [Description.net_append, same, Description.net_filter_add_net_filter_not]
  have moves : ∀ pair ∈ pairs, Moves start main transaction (-pair.2.contribution)
      (pair.1.reversingDelta pair.2.value) := by
    intro pair member
    have isOwn := List.mem_map_of_mem (f := (·.2)) member
    rw [same, List.mem_filter, decide_eq_true_eq] at isOwn
    exact .takenBack found isOwn.1 isOwn.2 (known pair member).2
  refine Throughout.bind _
    (undoAll_throughout _ now pairs parts.subperm orderly begun.moved known moves)
    (undoAll_yields pairs now balanced known).answers ?_
  rintro _ after ⟨books, undone⟩ underway
  rw [same] at undone
  refine throughout_statement underway fun _ => ⟨?_, underway.moved.of_assets_eq rfl⟩
  exact (retracted_of_undone books undone).balanced.partly

theorem describe_throughout (balanced : store.Balanced) (kind : Stored.DescriptionKind)
    {asset : Stored.Asset} (stored : asset ∈ store.assets.rows)
    (present : transactionId ∈ store.transactionIds) {amount : Nat}
    (bounded : amount ≤ amountCeiling) (moved : Moved start main transaction store)
    (moves : Moves start main transaction number (kind.appliedDelta (.ofNat amount)))
    (now : Instant) :
    (describe transactionId kind asset amount).Throughout store now
      (Underway start main transaction) := by
  have inserted : Underway start main transaction
      (store.insertDescription kind (.ofNat amount) asset.id transactionId now) := by
    refine ⟨⟨store.descriptions.rows, ?_, ?_⟩, moved.of_assets_eq rfl⟩
    · exact (List.sublist_append_left _ _).subperm
    · exact balanced.insertDescription kind bounded (List.mem_map_of_mem stored) present now
  rw [describe]
  refine Throughout.bind (fun written after => written = true ∧
      after = store.insertDescription kind (.ofNat amount) asset.id transactionId now)
    (throughout_statement ⟨balanced.partly, moved⟩ fun _ => inserted)
    (yields_statement fun _ => ⟨rfl, rfl⟩) ?_
  rintro written after ⟨rfl, rfl⟩ -
  rw [if_pos rfl]
  refine changeSupply_throughout inserted ⟨?_, inserted.moved.shiftSupply moves _ now⟩
  exact (balanced_describe balanced kind stored present bounded now).balanced.partly

theorem record_throughout (balanced : store.Balanced) (kind : Stored.DescriptionKind)
    {asset : Stored.Asset} (stored : asset ∈ store.assets.rows)
    (present : transactionId ∈ store.transactionIds) (value : String)
    (moved : Moved start main transaction store)
    (posts : ∀ posting, Posting.of? kind asset.entry.identifier value = some posting →
      posting ∈ posted main transaction) (now : Instant) :
    (record transactionId kind asset value).Throughout store now
      (Underway start main transaction) := by
  have underway : Underway start main transaction store := ⟨balanced.partly, moved⟩
  rw [record]
  by_cases run : Text.isDigitRun value = true
  · rw [Amount.read_of_isDigitRun run]
    rw [Posting.of?] at posts
    by_cases bounded : Text.digitsValue value.toList ≤ amountCeiling
    · rw [if_pos bounded] at posts
      simp only [if_pos bounded]
      exact (describe_throughout balanced kind stored present bounded moved
        (.posted (posts _ rfl)) now).mapError _
    · simp only [if_neg bounded]
      exact throughout_pure underway
  · rw [Amount.read_of_not_isDigitRun run]
    exact throughout_fail underway

theorem applyMint_throughout (balanced : store.Balanced)
    (present : transactionId ∈ store.transactionIds) (mint : Report.Mint)
    (moved : Moved start main transaction store)
    (posts : ∀ posting, mintPosting? mint = some posting → posting ∈ posted main transaction)
    (now : Instant) :
    (applyMint transactionId mint).Throughout store now (Underway start main transaction) := by
  have registered := recorded_insertAsset balanced transactionId mint now
  have inserted : Underway start main transaction
      (store.insertAsset (mintEntry mint) transactionId now) :=
    ⟨registered.balanced.partly,
      moved.insertAsset balanced.assets (mintEntry mint) transactionId now⟩
  rw [applyMint]
  refine Throughout.bind _ (Throughout.mapError ?_ _)
    ((registerAsset_yields balanced transactionId mint now).mapError fun _ _ => trivial) ?_
  · rw [registerAsset]
    refine Throughout.bind
      (fun _ after => after = store.insertAsset (mintEntry mint) transactionId now)
      (throughout_statement ⟨balanced.partly, moved⟩ fun _ => inserted)
      (yields_statement fun _ => rfl) ?_
    rintro _ after rfl -
    refine Throughout.bind
      (fun _ after => after = store.insertAsset (mintEntry mint) transactionId now)
      (throughout_select inserted) (yields_select rfl) ?_
    rintro asset? after rfl -
    exact throughout_orFail inserted
  · rintro asset after ⟨stored, same, recorded⟩ underway
    rw [← recorded.transactionIds] at present
    rw [mintPosting?, ← same] at posts
    exact record_throughout recorded.balanced .mint stored present mint.value underway.moved
      posts now

theorem applyBurn_throughout (balanced : store.Balanced)
    (present : transactionId ∈ store.transactionIds) (burn : Report.Burn)
    (moved : Moved start main transaction store)
    (posts : ∀ posting, burnPosting? burn = some posting → posting ∈ posted main transaction)
    (now : Instant) :
    (applyBurn transactionId burn).Throughout store now (Underway start main transaction) := by
  have underway : Underway start main transaction store := ⟨balanced.partly, moved⟩
  rw [applyBurn]
  refine Throughout.bind
    (fun asset? after => asset? = store.assetByIdentifier? burn.id ∧ store = after)
    ((throughout_select underway).mapError _)
    (Yields.mapError (yields_select ⟨rfl, rfl⟩) fun _ (_ : True) => trivial) ?_
  rintro asset? after ⟨rfl, rfl⟩ -
  refine Throughout.bind (fun asset after => store = after ∧ asset ∈ store.assets.rows ∧
    asset.entry.identifier = burn.id) (throughout_orFail underway) ?_ ?_
  · exact yields_orFail
      (fun asset found => ⟨rfl, (find?_key_eq_some balanced.identifiers).mp found⟩)
      fun _ => trivial
  · rintro asset after ⟨rfl, stored, same⟩ -
    rw [burnPosting?, ← same] at posts
    exact record_throughout balanced .burn stored present burn.value moved posts now

theorem applyAll_throughout {Item : Type} {apply : Item → Work Error Unit} {items : List Item}
    (apply_throughout : ∀ {store : Store}, store.Balanced →
      transactionId ∈ store.transactionIds → Moved start main transaction store →
        ∀ item ∈ items, (apply item).Throughout store now (Underway start main transaction))
    (apply_yields : ∀ {store : Store}, store.Balanced → transactionId ∈ store.transactionIds →
      ∀ item ∈ items, (apply item).Yields store now
        (fun _ after => after.Balanced ∧ after.transactionIds = store.transactionIds)
        fun _ => True) : ∀ {store : Store}, store.Balanced →
      transactionId ∈ store.transactionIds → Moved start main transaction store →
        (items.forM apply).Throughout store now (Underway start main transaction) := by
  induction items with
  | nil => exact fun balanced _ moved => throughout_pure ⟨balanced.partly, moved⟩
  | cons item items ih =>
      intro store balanced present moved
      rw [List.forM]
      refine Throughout.bind _ (apply_throughout balanced present moved item List.mem_cons_self)
        (apply_yields balanced present item List.mem_cons_self) ?_
      rintro _ after ⟨balancedOn, same⟩ underway
      rw [← same] at present
      refine ih ?_ ?_ balancedOn present underway.moved
      · exact fun balanced present moved item member =>
          apply_throughout balanced present moved item (List.mem_cons_of_mem _ member)
      · exact fun balanced present item member =>
          apply_yields balanced present item (List.mem_cons_of_mem _ member)

/-- Behind each of its statements, a reconciliation that started on balanced books has moved
supplies by its own changes only, and they are what some of the descriptions add up to. -/
theorem reconcileStatements_throughout (balanced : start.Balanced) (main : Bool)
    (transaction : Report.Transaction) (now : Instant) :
    (reconcileStatements main transaction).Throughout start now
      (Underway start main transaction) := by
  have begun : Underway start main transaction start :=
    ⟨balanced.partly, Moved.refl balanced.assets⟩
  rw [reconcileStatements]
  refine Throughout.bind
    (fun row? after => row? = start.transactionByHash? transaction.hash ∧ start = after)
    ((throughout_select begun).mapError _)
    (Yields.mapError (yields_select ⟨rfl, rfl⟩) fun _ (_ : True) => trivial) ?_
  rintro row? after ⟨rfl, rfl⟩ -
  refine Throughout.bind (fun record after =>
    start.transactionByHash? transaction.hash = some record ∧ start = after)
    (throughout_orFail begun) (yields_orFail (fun _ found => ⟨found, rfl⟩) fun _ => trivial) ?_
  rintro record after ⟨found, rfl⟩ -
  have present : record.id ∈ start.transactionIds :=
    List.mem_map_of_mem (List.mem_of_find?_eq_some found)
  refine Throughout.bind _ ((undoDescriptions_throughout balanced found now).mapError _)
    ((undoDescriptions_yields balanced record.id now).mapError fun _ _ => trivial) ?_
  rintro _ middle retracted underway
  rw [← retracted.chain.transactionIds] at present
  cases main with
  | false => exact throughout_pure underway
  | true =>
      refine Throughout.bind _ ?_
        (applyMints_yields transaction.mints now retracted.balanced present).answers ?_
      · refine applyAll_throughout ?_ ?_ retracted.balanced present underway.moved
        · intro store balanced present moved mint member
          refine applyMint_throughout balanced present mint moved (fun posting posts => ?_) now
          exact List.mem_append_left _ (List.mem_filterMap.mpr ⟨mint, member, posts⟩)
        · intro store balanced present mint member
          refine (applyMint_yields balanced present mint now).mono ?_ fun _ _ => trivial
          exact fun _ after done => ⟨done.2.balanced, done.2.transactionIds⟩
      · rintro _ after ⟨-, minted⟩ underway
        rw [← minted.transactionIds] at present
        refine applyAll_throughout ?_ ?_ minted.balanced present underway.moved
        · intro store balanced present moved burn member
          refine applyBurn_throughout balanced present burn moved (fun posting posts => ?_) now
          exact List.mem_append_right _ (List.mem_filterMap.mpr ⟨burn, member, posts⟩)
        · intro store balanced present burn member
          refine (applyBurn_yields balanced present burn now).mono ?_ fun _ _ => trivial
          exact fun _ after done => ⟨done.2.balanced, done.2.transactionIds⟩

/-! ## Bounds -/

theorem natAbs_net_le {rows : List Description} {bound : Nat}
    (each : ∀ row ∈ rows, row.contribution.natAbs ≤ bound) (assetId : Int) :
    (Description.net rows assetId).natAbs ≤ rows.length * bound := by
  induction rows with
  | nil => exact Nat.zero_le _
  | cons row rows ih =>
      have first := each row List.mem_cons_self
      have others := ih fun other member => each other (List.mem_cons_of_mem _ member)
      rw [Description.net_cons, List.length_cons, Nat.succ_mul]
      split <;> omega

theorem natAbs_contribution_le {row : Description} (describes : store.Describes row) :
    row.contribution.natAbs ≤ amountCeiling := by
  obtain ⟨kind, named⟩ := describes.kind
  obtain ⟨amount, bounded, value⟩ := describes.value
  cases kind with
  | mint =>
      rw [Description.contribution, named, natAbs_signed, value]
      exact bounded
  | burn =>
      rw [Description.contribution, named, Int.natAbs_neg, natAbs_signed, value]
      exact bounded

theorem Posting.contribution_eq (posting : Posting) :
    posting.contribution = (posting.kind.appliedDelta posting.value).signed := by
  rw [Posting.contribution]
  cases posting.kind with
  | mint => rfl
  | burn => exact (Decimal.signed_neg posting.value).symm

theorem value_of_posted {posting : Posting} (member : posting ∈ posted main transaction) :
    ∃ amount ≤ amountCeiling, posting.value = .ofNat amount := by
  have posts : ∃ kind identifier value, Posting.of? kind identifier value = some posting := by
    cases main with
    | false => cases member
    | true =>
        rcases List.mem_append.mp member with isMint | isBurn
        · obtain ⟨mint, -, posts⟩ := List.mem_filterMap.mp isMint
          exact ⟨_, _, _, posts⟩
        · obtain ⟨burn, -, posts⟩ := List.mem_filterMap.mp isBurn
          exact ⟨_, _, _, posts⟩
  obtain ⟨kind, identifier, value, posts⟩ := posts
  rw [Posting.of?] at posts
  split at posts
  next bounded =>
    obtain rfl := Option.some.inj posts
    exact ⟨_, bounded, rfl⟩
  next => cases posts

theorem Moves.exact (balanced : start.Balanced)
    (moves : Moves start main transaction number delta) :
    delta.scale = 0 ∧ delta.signed = number ∧ delta.coefficient ≤ amountCeiling := by
  rw [← natAbs_signed]
  cases moves with
  | @takenBack record row kind found stored own named =>
      have describes := balanced.described row stored
      obtain ⟨amount, -, value⟩ := describes.value
      have small := natAbs_contribution_le describes
      rw [Stored.DescriptionKind.signed_reversingDelta,
        ← Description.contribution_of_known named, Int.natAbs_neg]
      refine ⟨?_, rfl, small⟩
      rw [Stored.DescriptionKind.scale_reversingDelta, value]
      rfl
  | @posted posting member =>
      obtain ⟨amount, bounded, value⟩ := value_of_posted member
      refine ⟨?_, posting.contribution_eq.symm, ?_⟩
      · rw [Stored.DescriptionKind.scale_appliedDelta, value]
        rfl
      · rw [← posting.contribution_eq, Posting.contribution, value]
        cases posting.kind with
        | mint => exact (natAbs_signed _).trans_le bounded
        | burn => exact (Int.natAbs_neg _).trans_le ((natAbs_signed _).trans_le bounded)

/-- The supplies of a store on the way, and what they have come from and may be moved by. -/
structure InRange (start : Store) (main : Bool) (transaction : Report.Transaction)
    (store : Store) : Prop where
  partly : ∃ live, live.Subperm store.descriptions.rows ∧
    ∀ asset ∈ store.assets.rows, asset.supply = .ofSigned (Description.net live asset.id) 0
  bounded : ∀ asset ∈ store.assets.rows, asset.supply.scale = 0 ∧
    asset.supply.coefficient ≤ greatestRowId * amountCeiling ∧
    asset.supply.coefficient < Decimal.coefficientBound
  moved : ∀ asset ∈ store.assets.rows,
    Relation.ReflTransGen (Adds start main transaction) (start.supplyAt asset.id) asset.supply
  sums : ∀ asset ∈ store.assets.rows, ∀ number delta,
    Moves start main transaction number delta →
      delta.scale = 0 ∧ delta.signed = number ∧ delta.coefficient < Decimal.coefficientBound ∧
      asset.supply.add delta = .ofSigned (asset.supply.signed + number) 0 ∧
      (asset.supply.add delta).coefficient < Decimal.coefficientBound

theorem Underway.inRange (balanced : start.Balanced)
    (underway : Underway start main transaction store)
    (few : store.descriptions.rows.length ≤ greatestRowId) :
    InRange start main transaction store := by
  obtain ⟨live, isLive, orderly⟩ := underway.partly
  have small : ∀ asset ∈ store.assets.rows,
      asset.supply.coefficient ≤ greatestRowId * amountCeiling := by
    intro asset stored
    have each : ∀ row ∈ live, row.contribution.natAbs ≤ amountCeiling := fun row member =>
      natAbs_contribution_le (orderly.described row (isLive.subset member))
    rw [orderly.supplies asset stored]
    calc (Description.net live asset.id).natAbs ≤ live.length * amountCeiling :=
          natAbs_net_le each asset.id
      _ ≤ greatestRowId * amountCeiling :=
          Nat.mul_le_mul_right _ (isLive.length_le.trans few)
  have fits : greatestRowId * amountCeiling + amountCeiling < Decimal.coefficientBound := by
    decide
  refine ⟨⟨live, isLive, orderly.supplies⟩, fun asset stored => ?_, underway.moved.supplies,
    fun asset stored number delta moves => ?_⟩
  · have bounded := small asset stored
    refine ⟨?_, bounded, by omega⟩
    rw [orderly.supplies asset stored]
    rfl
  · obtain ⟨integer, stands, bounded⟩ := moves.exact balanced
    have smallSupply := small asset stored
    have sum : asset.supply.add delta = .ofSigned (asset.supply.signed + number) 0 := by
      rw [orderly.supplies asset stored, Decimal.ofSigned_add _ integer, stands,
        Decimal.signed_ofSigned]
    refine ⟨integer, stands, by omega, sum, ?_⟩
    rw [← natAbs_signed] at bounded smallSupply
    rw [stands] at bounded
    rw [sum]
    change (asset.supply.signed + number).natAbs < _
    omega

/-- From a reachable store, a reconciliation passes through stores whose supplies are integers in
range, as long as there are no more descriptions than ids: all that it adds up is exact. -/
theorem supplies_in_range (reachable : start.Reachable) (main : Bool)
    (transaction : Report.Transaction) (now : Instant) :
    (∀ faults, OnlyRefusals faults → (reconcileStatements main transaction).PassesThrough start
      now (reconcile main transaction { store := start, faults, now }).2.store) ∧
    ∀ middle, (reconcileStatements main transaction).PassesThrough start now middle →
      middle.descriptions.rows.length ≤ greatestRowId →
        InRange start main transaction middle := by
  have balanced := reachable.sound.balanced
  refine ⟨fun faults refusals => ?_, fun middle passes few => ?_⟩
  · rcases ran : reconcile main transaction { store := start, faults, now } with
      ⟨error | done, after⟩
    · -- nothing is left of a failed reconciliation, and it may have failed at its first statement
      have same := store_of_atomically_error _ _ ran
      refine ⟨[{ statement := .select .transactions, mode := .refused }], ?_, same.symm⟩
      exact .cons rfl .nil
    · have worked := (steady_reconcileStatements main transaction).of_atomically_ok refusals ran
      exact ⟨[], .nil, congrArg (·.2.store) worked.2⟩
  · exact (reconcileStatements_throughout balanced main transaction now middle passes).inRange
      balanced few

def halfwayStore : Store :=
  (reconcileStatements true Store.sampleTransaction
    { store := Store.sampleStore
      faults := [{ statement := .update .assets, skip := 1, mode := .refused }] }).2.store

/-- On the way a supply may fall below zero. -/
theorem supplies_in_range_of_halfwayStore :
    Store.sampleStore.Reachable ∧
      (reconcileStatements true Store.sampleTransaction).PassesThrough Store.sampleStore ⟨0⟩
        halfwayStore ∧
      halfwayStore.descriptions.rows.length ≤ greatestRowId ∧
      InRange Store.sampleStore true Store.sampleTransaction halfwayStore ∧
      halfwayStore.assets.rows.map (·.supply) = [.ofSigned (-2) 0] := by
  have passes : (reconcileStatements true Store.sampleTransaction).PassesThrough
      Store.sampleStore ⟨0⟩ halfwayStore :=
    ⟨[{ statement := .update .assets, skip := 1, mode := .refused }], .cons rfl .nil, rfl⟩
  have count : halfwayStore.descriptions.rows.length = 2 := by cbv
  have few : halfwayStore.descriptions.rows.length ≤ greatestRowId := by
    rw [count]
    decide
  refine ⟨Store.reachable_sampleStore, passes, few, ?_, by cbv⟩
  exact (supplies_in_range Store.reachable_sampleStore true Store.sampleTransaction ⟨0⟩).2 _
    passes few

end Ledger
end ChainLedger
