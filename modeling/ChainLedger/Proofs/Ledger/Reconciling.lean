import ChainLedger.Proofs.Ledger.Recording
import ChainLedger.Proofs.Success

/-!
# Reconciling on balanced books

What one reconciliation yields. `Retracted` says what taking back leaves: all supplies less what
the transaction's descriptions add up to, and those descriptions gone. `Reconciled` says what the
whole unit of work leaves, and `reconcile_yields` that it succeeds exactly when the transaction is
stored and has no offence.
-/

set_option autoImplicit false

namespace ChainLedger.Ledger

variable {store : Store} {now : Instant}

/-! ## Taking back -/

theorem undoDescription_yields {kind : Stored.DescriptionKind} {row : Stored.Description}
    (describes : store.Describes row) (now : Instant) :
    (undoDescription kind row).Yields store now
      (fun _ after =>
        after = store.shiftSupply row.assetId (kind.reversingDelta row.value) now)
      fun _ => False := by
  rw [undoDescription]
  apply Work.Yields.bind fun asset? after =>
    asset? = store.assetById? row.assetId ∧ store = after
  · exact Work.yields_select ⟨rfl, rfl⟩
  · rintro asset? after ⟨rfl, rfl⟩
    apply Work.Yields.bind fun asset after => store = after ∧ asset.id = row.assetId
    · apply Work.yields_orFail
      · intro asset found
        exact ⟨rfl, by simpa using List.find?_some found⟩
      · intro missing
        exact find?_key_eq_none.mp missing describes.asset
    · rintro asset after ⟨rfl, same⟩
      rw [same]
      exact changeSupply_yields describes.asset _ now

theorem orderly_undo {total : Int → Int} (orderly : store.Orderly total)
    {kind : Stored.DescriptionKind} {row : Stored.Description} (describes : store.Describes row)
    (named : row.kind = .known kind) (now : Instant) :
    (store.shiftSupply row.assetId (kind.reversingDelta row.value) now).Orderly fun id =>
      total id - if row.assetId = id then row.contribution else 0 := by
  have integer : (kind.reversingDelta row.value).scale = 0 := by
    obtain ⟨amount, -, value⟩ := describes.value
    rw [Stored.DescriptionKind.scale_reversingDelta, value]
    rfl
  apply (orderly.shiftSupply row.assetId integer now).congr
  intro asset member
  rw [Stored.Description.contribution_of_known named,
    Stored.DescriptionKind.signed_reversingDelta]
  by_cases own : row.assetId = asset.id
  · simp only [if_pos own, if_pos own.symm]
    omega
  · simp only [if_neg own, if_neg (Ne.symm own)]
    omega

theorem undoAll_yields (pairs : List (Stored.DescriptionKind × Stored.Description))
    (now : Instant) : ∀ {store : Store} {total : Int → Int}, store.Orderly total →
      (∀ pair ∈ pairs, store.Describes pair.2 ∧ pair.2.kind = .known pair.1) →
      (pairs.forM fun pair => undoDescription pair.1 pair.2).Yields store now
        (fun _ after => store.SameBooks after ∧ after.Orderly fun id =>
          total id - Stored.Description.net (pairs.map (·.2)) id)
        fun _ => False := by
  -- the descriptions stay until all supplies are moved, so the totals are ahead of their net
  induction pairs with
  | nil =>
      intro store total orderly _
      refine Work.yields_pure ⟨.refl store, orderly.congr ?_⟩
      intro row member
      exact Int.sub_zero _
  | cons pair pairs ih =>
      intro store total orderly known
      obtain ⟨describes, named⟩ := known pair (by simp)
      have same := store.sameBooks_shiftSupply pair.2.assetId
        (pair.1.reversingDelta pair.2.value) now
      rw [List.forM]
      apply Work.Yields.bind _ (undoDescription_yields describes now)
      rintro _ after rfl
      refine (ih (orderly_undo orderly describes named now) ?_).mono ?_ fun _ => id
      · intro other member
        obtain ⟨describes, named⟩ := known other (by simp [member])
        exact ⟨describes.of_sameBooks same, named⟩
      · rintro _ last ⟨rest, books⟩
        refine ⟨same.trans rest, books.congr ?_⟩
        intro row member
        rw [List.map_cons, Stored.Description.net_cons]
        omega

theorem withKinds_of_pairs {pairs : List (Stored.DescriptionKind × Stored.Description)}
    (named : ∀ pair ∈ pairs, pair.2.kind = .known pair.1) :
    Stored.Description.withKinds (pairs.map (·.2)) = .ok pairs := by
  refine mapM_ok_iff.mpr (List.forall₂_map_left_iff.mpr (List.forall₂_same.mpr ?_))
  intro pair member
  rw [named pair member]

theorem exists_pairs_of_known {rows : List Stored.Description}
    (known : ∀ row ∈ rows, ∃ kind, row.kind = .known kind) :
    ∃ pairs : List (Stored.DescriptionKind × Stored.Description),
      pairs.map (·.2) = rows ∧ ∀ pair ∈ pairs, pair.2.kind = .known pair.1 := by
  induction rows with
  | nil => exact ⟨[], rfl, fun _ member => by cases member⟩
  | cons row rows ih =>
      obtain ⟨⟨kind, named⟩, others⟩ := List.forall_mem_cons.mp known
      obtain ⟨pairs, same, kinds⟩ := ih others
      exact ⟨(kind, row) :: pairs, by rw [List.map_cons, same],
        List.forall_mem_cons.mpr ⟨named, kinds⟩⟩

theorem withKinds_of_known {rows : List Stored.Description}
    (known : ∀ row ∈ rows, ∃ kind, row.kind = .known kind) :
    ∃ pairs, Stored.Description.withKinds rows = .ok pairs ∧ pairs.map (·.2) = rows ∧
      ∀ pair ∈ pairs, pair.2.kind = .known pair.1 := by
  obtain ⟨pairs, same, named⟩ := exists_pairs_of_known known
  have read := withKinds_of_pairs named
  rw [same] at read
  exact ⟨pairs, read, same, named⟩

/-- What is left when all that was recorded for a transaction is taken back. -/
structure Retracted (transactionId : Int) (before after : Store) : Prop where
  chain : before.SameChain after
  balanced : after.Balanced
  registry : after.registry = before.registry
  descriptions : after.descriptions.rows =
    before.descriptions.rows.filter (·.transactionId ≠ transactionId)

theorem retracted_of_undone {after : Store} {transactionId : Int} (books : store.SameBooks after)
    (orderly : after.Orderly fun id => Stored.Description.net store.descriptions.rows id -
      Stored.Description.net
        (store.descriptions.rows.filter (·.transactionId = transactionId)) id) :
    Retracted transactionId store (after.deleteDescriptionsOf transactionId) := by
  have kept : (after.deleteDescriptionsOf transactionId).descriptions.rows =
      store.descriptions.rows.filter (·.transactionId ≠ transactionId) := by
    simp [Store.deleteDescriptionsOf, Table.remove, books.descriptions]
  refine ⟨books.toSameChain.trans ⟨rfl, rfl, rfl, rfl⟩, ?_, books.registry, kept⟩
  rw [Store.Balanced, kept]
  apply (orderly.deleteDescriptionsOf transactionId).congr
  intro row member
  have parts := Stored.Description.net_filter_add_net_filter_not
    (·.transactionId = transactionId) store.descriptions.rows row.id
  simp only [ne_eq, decide_not] at parts ⊢
  omega

theorem selectDescriptions_yields (balanced : store.Balanced) (transactionId : Int)
    (now : Instant) :
    (Work.selectDescriptions (·.descriptionsOf transactionId)).Yields store now
      (fun pairs after => store = after ∧
        pairs.map (·.2) = store.descriptions.rows.filter (·.transactionId = transactionId) ∧
        ∀ pair ∈ pairs, store.Describes pair.2 ∧ pair.2.kind = .known pair.1)
      fun _ => False := by
  have own := store.descriptionsOf_eq_filter balanced.descriptions transactionId
  have described : ∀ row ∈ store.descriptionsOf transactionId, store.Describes row := by
    intro row member
    rw [own] at member
    exact balanced.described row (List.mem_of_mem_filter member)
  obtain ⟨pairs, read, same, kinds⟩ :=
    withKinds_of_known fun row member => (described row member).kind
  rw [Work.selectDescriptions]
  apply Work.Yields.bind fun rows after =>
    rows = store.descriptionsOf transactionId ∧ store = after
  · exact Work.yields_select ⟨rfl, rfl⟩
  rintro rows after ⟨rfl, rfl⟩
  rw [read]
  refine Work.yields_pure ⟨rfl, same.trans own, fun pair member => ?_⟩
  refine ⟨described pair.2 ?_, kinds pair member⟩
  rw [← same]
  exact List.mem_map_of_mem member

theorem undoDescriptions_yields (balanced : store.Balanced) (transactionId : Int)
    (now : Instant) :
    (undoDescriptions transactionId).Yields store now
      (fun _ after => Retracted transactionId store after) fun _ => False := by
  rw [undoDescriptions]
  apply Work.Yields.bind _ (selectDescriptions_yields balanced transactionId now)
  rintro pairs after ⟨rfl, same, known⟩
  by_cases nothing : pairs.isEmpty
  · rw [if_pos nothing]
    refine Work.yields_pure ⟨.refl store, balanced, rfl, ?_⟩
    rw [List.isEmpty_iff.mp nothing, List.map_nil, eq_comm, List.filter_eq_nil_iff] at same
    refine (List.filter_eq_self.mpr ?_).symm
    simpa using same
  · rw [if_neg nothing]
    apply Work.Yields.bind _ (undoAll_yields pairs now balanced known)
    rintro _ after ⟨books, orderly⟩
    rw [same] at orderly
    exact Work.yields_statement fun _ => retracted_of_undone books orderly

/-! ## Recording anew -/

/-- What reconciling the transaction of a row leaves: of the descriptions those of the others, and
behind them its own. -/
structure Reconciled (row : Stored.Transaction) (main : Bool) (transaction : Report.Transaction)
    (before after : Store) : Prop where
  chain : before.SameChain after
  balanced : after.Balanced
  registered : ∃ added, after.registry = before.registry ++ added ∧
    added.map (·.entry) = Ledger.registered before.identifiers main transaction ∧
      ∀ asset ∈ added, asset.createdTransactionId = row.id
  described : ∃ added, after.descriptions.rows =
      before.descriptions.rows.filter (·.transactionId ≠ row.id) ++ added ∧
    added.map after.posting? = (posted main transaction).map some ∧
      ∀ description ∈ added, description.transactionId = row.id

theorem Retracted.identifiers {transactionId : Int} {before after : Store}
    (retracted : Retracted transactionId before after) :
    after.identifiers = before.identifiers := by
  rw [Store.identifiers_eq_registry, retracted.registry, Store.identifiers_eq_registry]

theorem Retracted.reconciled {row : Stored.Transaction} {main : Bool}
    {transaction : Report.Transaction} {before middle after : Store}
    (retracted : Retracted row.id before middle)
    (recorded : Recorded row.id middle after
      (registered middle.identifiers main transaction) (posted main transaction)) :
    Reconciled row main transaction before after := by
  obtain ⟨assets, registry, entries, creators⟩ := recorded.registered
  obtain ⟨rows, descriptions, postings, owners⟩ := recorded.described
  rw [retracted.registry] at registry
  rw [retracted.identifiers] at entries
  rw [retracted.descriptions] at descriptions
  exact ⟨retracted.chain.trans recorded.chain, recorded.balanced,
    ⟨assets, registry, entries, creators⟩, ⟨rows, descriptions, postings, owners⟩⟩

/-- Recording a transaction stops at its first offence. -/
theorem applyAll_yields (balanced : store.Balanced) {transactionId : Int}
    (present : transactionId ∈ store.transactionIds) (transaction : Report.Transaction)
    (now : Instant) :
    (do
      transaction.mints.forM (applyMint transactionId)
      transaction.burns.forM (applyBurn transactionId) : Work Error Unit).Yields store now
      (fun _ after => firstOffence? store.identifiers transaction = none ∧
        Recorded transactionId store after (firstMints store.identifiers transaction.mints)
          (postings transaction))
      fun error => firstOffence? store.identifiers transaction = some error := by
  have known : burnOffence? (store.identifiers ++
        (firstMints store.identifiers transaction.mints).map (·.identifier)) =
      burnOffence? (store.identifiers ++ transaction.mints.map (·.id)) := by
    apply burnOffence?_congr
    intro identifier
    rw [mem_known_firstMints, List.mem_append, List.mem_map]
  apply Work.Yields.bind _ ((applyMints_yields transaction.mints now balanced present).mono
    (fun _ _ => id) fun error offends => by rw [firstOffence?, offends, Option.some_or])
  rintro _ after ⟨clean, minted⟩
  rw [← minted.transactionIds] at present
  have burns := applyBurns_yields transaction.burns now minted.balanced present
  rw [minted.identifiers, known] at burns
  refine burns.mono ?_ ?_
  · rintro _ last ⟨burnsClean, burnt⟩
    have whole := minted.trans burnt
    rw [List.append_nil] at whole
    exact ⟨by rw [firstOffence?, clean, burnsClean, Option.none_or], whole⟩
  · intro error offends
    rw [firstOffence?, clean, offends, Option.none_or]

/-- A reconciliation succeeds when the transaction is stored and has no offence, and does all of
its work then. -/
theorem reconcile_yields (balanced : store.Balanced) (main : Bool)
    (transaction : Report.Transaction) (now : Instant) :
    (reconcile main transaction).Yields store now
      (fun _ after => ∃ row, store.transactionByHash? transaction.hash = some row ∧
        offence? store.identifiers main transaction = none ∧
          Reconciled row main transaction store after)
      fun error =>
        store.transactionByHash? transaction.hash = none ∧
          error = .unknownTransaction transaction.hash ∨
        (store.transactionByHash? transaction.hash).isSome ∧
          offence? store.identifiers main transaction = some error := by
  apply Work.Yields.atomically
  rw [reconcileStatements]
  apply Work.Yields.bind fun row? after =>
    row? = store.transactionByHash? transaction.hash ∧ store = after
  · apply Work.Yields.mapError (Work.yields_select ⟨rfl, rfl⟩)
    exact fun _ => False.elim
  rintro row? after ⟨rfl, rfl⟩
  apply Work.Yields.bind fun row after =>
    store.transactionByHash? transaction.hash = some row ∧ store = after
  · apply Work.yields_orFail
    · exact fun row found => ⟨found, rfl⟩
    · exact fun missing => Or.inl ⟨missing, rfl⟩
  rintro row after ⟨found, rfl⟩
  have present : row.id ∈ store.transactionIds :=
    List.mem_map_of_mem (List.mem_of_find?_eq_some found)
  apply Work.Yields.bind _
    ((undoDescriptions_yields balanced row.id now).mapError fun _ => False.elim)
  rintro _ middle retracted
  rw [← retracted.chain.transactionIds] at present
  cases main with
  | false =>
      refine Work.yields_pure ⟨row, found, rfl, ?_⟩
      exact retracted.reconciled (Recorded.refl retracted.balanced)
  | true =>
      have applied := applyAll_yields retracted.balanced present transaction now
      rw [retracted.identifiers] at applied
      refine applied.mono ?_ ?_
      · rintro _ after ⟨clean, recorded⟩
        refine ⟨row, found, clean, retracted.reconciled ?_⟩
        rw [retracted.identifiers]
        exact recorded
      · intro error offends
        exact Or.inr ⟨by rw [found]; rfl, offends⟩

end ChainLedger.Ledger
