import ChainLedger.Proofs.Ledger.Posting
import ChainLedger.Proofs.Store.Yields

/-!
# Recording mints and burns

What the statements that record a transaction yield on balanced books. `Recorded` says what they
have left behind so far: assets registered behind the old ones, descriptions that tell the
postings behind the old ones, and the books balanced. What is recorded step by step adds up,
because an asset keeps its id and identifier.
-/

set_option autoImplicit false

namespace ChainLedger

namespace Store

def identifierOf? (store : Store) (assetId : Int) : Option String :=
  (store.assetById? assetId).map (·.entry.identifier)

/-- What a description tells, where its kind is known and its asset is stored. -/
def posting? (store : Store) (row : Stored.Description) : Option Ledger.Posting :=
  match row.kind with
  | .known kind =>
    (store.identifierOf? row.assetId).map fun identifier => { kind, value := row.value, identifier }
  | .unknown _ => none

theorem identifierOf?_eq_registry (store : Store) (assetId : Int) :
    store.identifierOf? assetId =
      (store.registry.find? (·.id = assetId)).map (·.entry.identifier) := by
  simp only [identifierOf?, assetById?, registry, List.find?_map, Option.map_map]
  rfl

theorem identifierOf?_of_mem {store : Store} {total : Int → Int} (orderly : store.Orderly total)
    {asset : Stored.Asset} (stored : asset ∈ store.assets.rows) :
    store.identifierOf? asset.id = some asset.entry.identifier := by
  rw [identifierOf?, assetById?, find?_key_of_mem orderly.assets.nodup stored]
  rfl

theorem posting?_of_registered {before after : Store} {added : List Stored.Asset}
    (registered : after.registry = before.registry ++ added) {row : Stored.Description}
    {posting : Ledger.Posting} (told : before.posting? row = some posting) :
    after.posting? row = some posting := by
  rw [posting?] at told ⊢
  cases named : row.kind with
  | unknown name => simp [named] at told
  | known kind =>
      simp only [named] at told ⊢
      obtain ⟨identifier, found, rfl⟩ := Option.map_eq_some_iff.mp told
      apply Option.map_eq_some_iff.mpr
      refine ⟨identifier, ?_, rfl⟩
      rw [identifierOf?_eq_registry] at found ⊢
      obtain ⟨asset, isFound, rfl⟩ := Option.map_eq_some_iff.mp found
      rw [registered, List.find?_append, isFound]
      rfl

theorem posting?_of_described {store : Store} {total : Int → Int}
    (orderly : store.Orderly total) {row : Stored.Description}
    (member : row ∈ store.descriptions.rows) :
    ∃ posting asset, store.posting? row = some posting ∧
      posting.contribution = row.contribution ∧ asset ∈ store.assets.rows ∧
        asset.id = row.assetId ∧ posting.identifier = asset.entry.identifier := by
  have describes := orderly.described row member
  obtain ⟨kind, known⟩ := describes.kind
  obtain ⟨asset, stored, same⟩ := List.mem_map.mp describes.asset
  have found := identifierOf?_of_mem orderly stored
  rw [same] at found
  refine ⟨{ kind, value := row.value, identifier := asset.entry.identifier }, asset, ?_, ?_,
    stored, same, rfl⟩
  · simp [posting?, known, found]
  · cases kind <;> simp [Ledger.Posting.contribution, Stored.Description.contribution, known]

end Store

namespace Ledger

/-- What has been recorded for a transaction from one store to another. -/
structure Recorded (transactionId : Int) (before after : Store)
    (entries : List Stored.AssetEntry) (postings : List Posting) : Prop where
  chain : before.SameChain after
  balanced : after.Balanced
  registered : ∃ added, after.registry = before.registry ++ added ∧
    added.map (·.entry) = entries ∧ ∀ asset ∈ added, asset.createdTransactionId = transactionId
  described : ∃ added, after.descriptions.rows = before.descriptions.rows ++ added ∧
    added.map after.posting? = postings.map some ∧
      ∀ row ∈ added, row.transactionId = transactionId

namespace Recorded

variable {transactionId : Int} {before middle after : Store}
  {entries entries' : List Stored.AssetEntry} {postings postings' : List Posting}

theorem refl (balanced : before.Balanced) : Recorded transactionId before before [] [] := by
  refine ⟨.refl before, balanced, ⟨[], ?_, rfl, ?_⟩, ⟨[], ?_, rfl, ?_⟩⟩ <;> simp

theorem trans (first : Recorded transactionId before middle entries postings)
    (second : Recorded transactionId middle after entries' postings') :
    Recorded transactionId before after (entries ++ entries') (postings ++ postings') := by
  obtain ⟨assets, registry, entriesEq, creators⟩ := first.registered
  obtain ⟨assets', registry', entriesEq', creators'⟩ := second.registered
  obtain ⟨rows, descriptions, postingsEq, owners⟩ := first.described
  obtain ⟨rows', descriptions', postingsEq', owners'⟩ := second.described
  refine ⟨first.chain.trans second.chain, second.balanced, ⟨assets ++ assets', ?_, ?_, ?_⟩,
    ⟨rows ++ rows', ?_, ?_, ?_⟩⟩
  · rw [registry', registry, List.append_assoc]
  · rw [List.map_append, entriesEq, entriesEq']
  · intro asset member
    exact (List.mem_append.mp member).elim (creators asset) (creators' asset)
  · rw [descriptions', descriptions, List.append_assoc]
  · have kept : rows.map after.posting? = rows.map middle.posting? := by
      apply List.map_congr_left
      intro row member
      have told : middle.posting? row ∈ postings.map some := by
        rw [← postingsEq]
        exact List.mem_map_of_mem member
      obtain ⟨posting, -, same⟩ := List.mem_map.mp told
      rw [← same, Store.posting?_of_registered registry' same.symm]
    rw [List.map_append, List.map_append, kept, postingsEq, postingsEq']
  · intro row member
    exact (List.mem_append.mp member).elim (owners row) (owners' row)

theorem identifiers (recorded : Recorded transactionId before after entries postings) :
    after.identifiers = before.identifiers ++ entries.map (·.identifier) := by
  obtain ⟨added, registry, rfl, -⟩ := recorded.registered
  simp [Store.identifiers_eq_registry, registry]

theorem transactionIds (recorded : Recorded transactionId before after entries postings) :
    after.transactionIds = before.transactionIds :=
  recorded.chain.transactionIds

end Recorded

/-! ## One posting -/

variable {store : Store} {transactionId : Int}

theorem changeSupply_yields {assetId : Int} (known : assetId ∈ store.assetIds)
    (delta : Decimal) (now : Instant) :
    (changeSupply assetId delta).Yields store now
      (fun _ after => after = store.shiftSupply assetId delta now) fun _ => False := by
  rw [changeSupply, Store.shiftSupply]
  split
  · exact Work.yields_pure rfl
  · have stored : (store.assetById? assetId).isSome := by
      rw [Option.isSome_iff_ne_none, Store.assetById?]
      intro none
      exact find?_key_eq_none.mp none known
    apply Work.Yields.bind fun found after =>
      found = true ∧ after = store.addSupply assetId delta now
    · exact Work.yields_statement fun _ => ⟨stored, rfl⟩
    · rintro found after ⟨rfl, rfl⟩
      exact Work.yields_pure rfl

theorem balanced_describe (balanced : store.Balanced) (kind : Stored.DescriptionKind)
    {asset : Stored.Asset} (stored : asset ∈ store.assets.rows)
    (present : transactionId ∈ store.transactionIds) {amount : Nat}
    (bounded : amount ≤ amountCeiling) (now : Instant) :
    Recorded transactionId store
      ((store.insertDescription kind (.ofNat amount) asset.id transactionId now).shiftSupply
        asset.id (kind.appliedDelta (.ofNat amount)) now)
      [] [{ kind, value := .ofNat amount, identifier := asset.entry.identifier }] := by
  have integer : (kind.appliedDelta (.ofNat amount)).scale = 0 :=
    kind.scale_appliedDelta (.ofNat amount)
  have chain : store.SameChain
      (store.insertDescription kind (.ofNat amount) asset.id transactionId now) :=
    ⟨rfl, rfl, rfl, rfl⟩
  have inserted := balanced.insertDescription kind bounded
    (List.mem_map_of_mem stored) present now
  have shifted := inserted.shiftSupply asset.id integer now
  have same := Store.sameBooks_shiftSupply
    (store.insertDescription kind (.ofNat amount) asset.id transactionId now) asset.id
    (kind.appliedDelta (.ofNat amount)) now
  have registry := same.registry
  change _ = store.registry at registry
  refine ⟨chain.trans same.toSameChain, ?_,
    ⟨[], by rw [registry, List.append_nil], rfl, by simp⟩,
    ⟨[_], congrArg Table.rows same.descriptions, ?_, ?_⟩⟩
  · rw [Store.Balanced, same.descriptions]
    apply shifted.congr
    intro row member
    change Stored.Description.net (store.descriptions.rows ++ [_]) row.id = _
    rw [Stored.Description.net_append, Stored.Description.net_cons,
      Stored.Description.contribution_of_known rfl, Stored.Description.net_nil, Int.add_zero]
    simp only [eq_comm]
  · have found := Store.identifierOf?_of_mem balanced stored
    rw [Store.identifierOf?_eq_registry, ← registry, ← Store.identifierOf?_eq_registry] at found
    simp [Store.posting?, found]
  · intro row member
    rw [List.mem_singleton.mp member]

theorem describe_yields (balanced : store.Balanced) (kind : Stored.DescriptionKind)
    {asset : Stored.Asset} (stored : asset ∈ store.assets.rows)
    (present : transactionId ∈ store.transactionIds) {amount : Nat}
    (bounded : amount ≤ amountCeiling) (now : Instant) :
    (describe transactionId kind asset amount).Yields store now
      (fun _ after => Recorded transactionId store after []
        [{ kind, value := .ofNat amount, identifier := asset.entry.identifier }])
      fun _ => False := by
  rw [describe]
  apply Work.Yields.bind fun written after => written = true ∧
    after = store.insertDescription kind (.ofNat amount) asset.id transactionId now
  · exact Work.yields_statement fun _ => ⟨rfl, rfl⟩
  · rintro written after ⟨rfl, rfl⟩
    have known : asset.id ∈ (store.insertDescription kind (.ofNat amount) asset.id
        transactionId now).assetIds := List.mem_map_of_mem stored
    rw [if_pos rfl]
    refine (changeSupply_yields known _ now).mono ?_ fun _ => id
    rintro _ after rfl
    exact balanced_describe balanced kind stored present bounded now

theorem record_yields (balanced : store.Balanced) (kind : Stored.DescriptionKind)
    {asset : Stored.Asset} (stored : asset ∈ store.assets.rows)
    (present : transactionId ∈ store.transactionIds) (value : String) (now : Instant) :
    (record transactionId kind asset value).Yields store now
      (fun _ after => Text.isDigitRun value = true ∧ Recorded transactionId store after []
        (Posting.of? kind asset.entry.identifier value).toList)
      fun error => Text.isDigitRun value = false ∧ error = .invalidValue value := by
  rw [record]
  by_cases run : Text.isDigitRun value = true
  · rw [Amount.read_of_isDigitRun run, Posting.of?]
    by_cases bounded : Text.digitsValue value.toList ≤ amountCeiling
    · simp only [if_pos bounded]
      apply Work.Yields.mapError ((describe_yields balanced kind stored present bounded now).mono
        (fun _ after recorded => ⟨run, recorded⟩) fun _ => id)
      exact fun _ => False.elim
    · simp only [if_neg bounded]
      exact Work.yields_pure ⟨run, Recorded.refl balanced⟩
  · rw [Amount.read_of_not_isDigitRun run]
    exact Work.yields_fail ⟨Bool.eq_false_iff.mpr run, rfl⟩

/-! ## Mints -/

theorem recorded_insertAsset (balanced : store.Balanced) (transactionId : Int)
    (mint : Report.Mint) (now : Instant) :
    Recorded transactionId store (store.insertAsset (mintEntry mint) transactionId now)
      (firstMints store.identifiers [mint]) [] := by
  by_cases known : mint.id ∈ store.identifiers
  · rw [Store.insertAsset_of_known known, firstMints, if_pos known]
    exact Recorded.refl balanced
  · have new : (mintEntry mint).identifier ∉ store.identifiers := known
    obtain ⟨row, registration, entry, creator, rows, descriptions, chain, orderly⟩ :=
      balanced.insertAsset_of_new new transactionId now
        fun _ fresh => balanced.net_eq_zero_of_fresh fresh
    refine ⟨chain, ?_, ⟨[row], ?_, ?_, ?_⟩, ⟨[], ?_, rfl, by simp⟩⟩
    · rw [Store.Balanced, descriptions]
      exact orderly
    · rw [Store.registry, rows, List.map_append, List.map_cons, registration]
      rfl
    · rw [firstMints, if_neg known, List.map_cons, entry]
      rfl
    · intro asset member
      rw [List.mem_singleton.mp member, creator]
    · rw [descriptions, List.append_nil]

theorem registerAsset_yields (balanced : store.Balanced) (transactionId : Int)
    (mint : Report.Mint) (now : Instant) :
    (registerAsset transactionId mint).Yields store now
      (fun asset after => asset ∈ after.assets.rows ∧ asset.entry.identifier = mint.id ∧
        Recorded transactionId store after (firstMints store.identifiers [mint]) [])
      fun _ => False := by
  have recorded := recorded_insertAsset balanced transactionId mint now
  rw [registerAsset]
  apply Work.Yields.bind fun _ after =>
    after = store.insertAsset (mintEntry mint) transactionId now
  · exact Work.yields_statement fun _ => rfl
  rintro _ after rfl
  apply Work.Yields.bind fun asset? after =>
    asset? = after.assetByIdentifier? mint.id ∧
      after = store.insertAsset (mintEntry mint) transactionId now
  · exact Work.yields_select ⟨rfl, rfl⟩
  rintro asset? after ⟨rfl, rfl⟩
  apply Work.yields_orFail
  · intro asset found
    obtain ⟨member, same⟩ := (find?_key_eq_some recorded.balanced.identifiers).mp found
    exact ⟨member, same, recorded⟩
  · intro missing
    have known := (mem_known_firstMints store.identifiers [mint] mint.id).mpr
      (Or.inr ⟨mint, by simp, rfl⟩)
    rw [← recorded.identifiers] at known
    exact find?_key_eq_none.mp missing known

theorem applyMint_yields (balanced : store.Balanced)
    (present : transactionId ∈ store.transactionIds) (mint : Report.Mint) (now : Instant) :
    (applyMint transactionId mint).Yields store now
      (fun _ after => mintOffence? mint = none ∧ Recorded transactionId store after
        (firstMints store.identifiers [mint]) (mintPosting? mint).toList)
      fun error => mintOffence? mint = some error := by
  rw [applyMint]
  apply Work.Yields.bind _
    ((registerAsset_yields balanced transactionId mint now).mapError fun _ => False.elim)
  rintro asset after ⟨stored, same, registered⟩
  rw [← registered.transactionIds] at present
  refine (record_yields registered.balanced .mint stored present mint.value now).mono ?_ ?_
  · rintro _ last ⟨run, recorded⟩
    have whole := registered.trans recorded
    rw [List.append_nil, List.nil_append, same] at whole
    exact ⟨by simp [mintOffence?, run], whole⟩
  · rintro error ⟨run, rfl⟩
    simp [mintOffence?, run]

theorem firstMints_cons (known : List String) (mint : Report.Mint) (mints : List Report.Mint) :
    firstMints known (mint :: mints) =
      firstMints known [mint] ++
        firstMints (known ++ (firstMints known [mint]).map (·.identifier)) mints := by
  simp only [firstMints]
  split
  · simp
  · rfl

/-- Mints are recorded in order up to the first that offends. -/
theorem applyMints_yields (mints : List Report.Mint) (now : Instant) :
    ∀ {store : Store}, store.Balanced → transactionId ∈ store.transactionIds →
      (mints.forM (applyMint transactionId)).Yields store now
        (fun _ after => mints.findSome? mintOffence? = none ∧
          Recorded transactionId store after (firstMints store.identifiers mints)
            (mints.filterMap mintPosting?))
        fun error => mints.findSome? mintOffence? = some error := by
  induction mints with
  | nil =>
      intro store balanced _
      exact Work.yields_pure ⟨rfl, Recorded.refl balanced⟩
  | cons mint mints ih =>
      intro store balanced present
      rw [List.forM]
      apply Work.Yields.bind _ ((applyMint_yields balanced present mint now).mono
        (fun _ _ => id) fun error offends => by rw [List.findSome?_cons, offends])
      rintro _ after ⟨clean, recorded⟩
      rw [← recorded.transactionIds] at present
      refine (ih recorded.balanced present).mono ?_ ?_
      · rintro _ last ⟨restClean, restRecorded⟩
        have whole := recorded.trans restRecorded
        rw [recorded.identifiers, ← firstMints_cons,
          toList_append_filterMap] at whole
        exact ⟨by rw [List.findSome?_cons, clean, restClean], whole⟩
      · intro error offends
        rw [List.findSome?_cons, clean, offends]

/-! ## Burns -/

theorem applyBurn_yields (balanced : store.Balanced)
    (present : transactionId ∈ store.transactionIds) (burn : Report.Burn) (now : Instant) :
    (applyBurn transactionId burn).Yields store now
      (fun _ after => burnOffence? store.identifiers burn = none ∧
        Recorded transactionId store after [] (burnPosting? burn).toList)
      fun error => burnOffence? store.identifiers burn = some error := by
  rw [applyBurn]
  apply Work.Yields.bind fun asset? after =>
    asset? = store.assetByIdentifier? burn.id ∧ store = after
  · apply Work.Yields.mapError (Work.yields_select ⟨rfl, rfl⟩)
    exact fun _ => False.elim
  · rintro asset? after ⟨rfl, rfl⟩
    apply Work.Yields.bind fun asset after =>
      store = after ∧ asset ∈ store.assets.rows ∧ asset.entry.identifier = burn.id
    · apply Work.yields_orFail
      · intro asset found
        exact ⟨rfl, (find?_key_eq_some balanced.identifiers).mp found⟩
      · intro missing
        have unknown : burn.id ∉ store.identifiers := find?_key_eq_none.mp missing
        rw [burnOffence?, if_neg unknown]
    · rintro asset after ⟨rfl, stored, same⟩
      have known : burn.id ∈ store.identifiers := same ▸ List.mem_map_of_mem stored
      refine (record_yields balanced .burn stored present burn.value now).mono ?_ ?_
      · rintro _ last ⟨run, recorded⟩
        rw [same] at recorded
        exact ⟨by rw [burnOffence?, if_pos known, if_pos run], recorded⟩
      · rintro error ⟨run, rfl⟩
        rw [burnOffence?, if_pos known, if_neg (Bool.eq_false_iff.mp run)]

theorem applyBurns_yields (burns : List Report.Burn) (now : Instant) :
    ∀ {store : Store}, store.Balanced → transactionId ∈ store.transactionIds →
      (burns.forM (applyBurn transactionId)).Yields store now
        (fun _ after => burns.findSome? (burnOffence? store.identifiers) = none ∧
          Recorded transactionId store after [] (burns.filterMap burnPosting?))
        fun error => burns.findSome? (burnOffence? store.identifiers) = some error := by
  induction burns with
  | nil =>
      intro store balanced _
      exact Work.yields_pure ⟨rfl, Recorded.refl balanced⟩
  | cons burn burns ih =>
      intro store balanced present
      rw [List.forM]
      apply Work.Yields.bind _ ((applyBurn_yields balanced present burn now).mono
        (fun _ _ => id) fun error offends => by rw [List.findSome?_cons, offends])
      rintro _ after ⟨clean, recorded⟩
      have same : after.identifiers = store.identifiers := by simp [recorded.identifiers]
      rw [← recorded.transactionIds] at present
      refine (ih recorded.balanced present).mono ?_ ?_
      · rintro _ last ⟨restClean, restRecorded⟩
        have whole := recorded.trans restRecorded
        rw [List.nil_append, toList_append_filterMap] at whole
        rw [same] at restClean
        exact ⟨by rw [List.findSome?_cons, clean, restClean], whole⟩
      · intro error offends
        rw [same] at offends
        rw [List.findSome?_cons, clean, offends]

end Ledger
end ChainLedger
