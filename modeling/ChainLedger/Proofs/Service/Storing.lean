import ChainLedger.Proofs.Service.Chain
import ChainLedger.Proofs.Store.Yields
import ChainLedger.Service.Upload

/-!
# Storing blocks

What storing a block with its transactions yields: the block is stored as it was reported last, it
holds its transactions, and whatever was held before still is.
-/

set_option autoImplicit false

namespace ChainLedger.Service

variable {store : Store} {now : Instant}

theorem returning_yields {Row : Type} {statement : Statement}
    {effect : Session → Option Row × Store} {error : StoreError} {answered : Row → Store → Prop}
    (returns : ∀ faults, ∃ row after,
      effect { store, faults, now } = (some row, after) ∧ answered row after) :
    (Work.statement statement none effect >>= fun row? => Work.orFail row? error).Yields store now
      answered fun _ => False := by
  apply Work.Yields.bind fun row? after => ∃ row, row? = some row ∧ answered row after
  · apply Work.yields_statement
    intro faults
    obtain ⟨row, after, ran, holds⟩ := returns faults
    rw [ran]
    exact ⟨row, rfl, holds⟩
  · rintro row? after ⟨row, rfl, holds⟩
    exact Work.yields_pure holds

theorem refresh_entry {row : Stored.Block} {entry : Report.BlockEntry}
    (same : row.entry.hash = entry.hash) (now : Instant) :
    (row.refresh entry now).entry = entry := by
  rw [Stored.Block.refresh, same]

theorem putBlock_yields (chained : store.Chained) (entry : Report.BlockEntry) (now : Instant) :
    (putBlock entry).Yields store now
      (fun row after => row.entry = entry ∧ ∃ blocks, after = { store with blocks } ∧
        store.blocks.Put (·.id) (·.entry.hash) row blocks)
      fun _ => False := by
  rw [putBlock]
  apply Work.Yields.bind fun row? after =>
    row? = store.blockByHash? entry.hash ∧ store = after
  · exact Work.yields_select ⟨rfl, rfl⟩
  rintro row? after ⟨rfl, rfl⟩
  cases found : store.blockByHash? entry.hash with
  | some row =>
      obtain ⟨stored, same⟩ := (find?_key_eq_some chained.blocks.unique).mp found
      have put := chained.blocks.put_modify stored (·.refresh entry now) (fun _ => rfl)
        fun _ => rfl
      have isFound := find?_key_of_mem put.keyed.numbered.nodup put.stored
      apply returning_yields
      exact fun _ => ⟨_, _, Prod.ext isFound rfl, refresh_entry same now, _, rfl, put⟩
  | none =>
      have new : entry.hash ∉ store.blocks.rows.map (·.entry.hash) := find?_key_eq_none.mp found
      have put : store.blocks.Put _ _ (store.insertBlock entry now).1 _ :=
        chained.blocks.put_add new store.blocks_lastId_lt_nextId
      apply returning_yields
      exact fun _ => ⟨_, _, rfl, rfl, _, rfl, put⟩

theorem refresh_transactionEntry {row : Stored.Transaction} {entry : Report.TransactionEntry}
    (same : row.entry.hash = entry.hash) (now : Instant) :
    (row.refresh entry now).entry = entry := by
  rw [Stored.Transaction.refresh, same]

theorem putTransaction_yields (chained : store.Chained) (entry : Report.TransactionEntry)
    (now : Instant) :
    (putTransaction entry).Yields store now
      (fun row after => row.entry = entry ∧
        ∃ transactions, after = { store with transactions } ∧
          store.transactions.Put (·.id) (·.entry.hash) row transactions)
      fun _ => False := by
  rw [putTransaction]
  apply Work.Yields.bind fun row? after =>
    row? = store.transactionByHash? entry.hash ∧ store = after
  · exact Work.yields_select ⟨rfl, rfl⟩
  rintro row? after ⟨rfl, rfl⟩
  cases found : store.transactionByHash? entry.hash with
  | some row =>
      obtain ⟨stored, same⟩ := (find?_key_eq_some chained.transactions.unique).mp found
      have put := chained.transactions.put_modify stored (·.refresh entry now) (fun _ => rfl)
        fun _ => rfl
      have isFound := find?_key_of_mem put.keyed.numbered.nodup put.stored
      apply returning_yields
      exact fun _ =>
        ⟨_, _, Prod.ext isFound rfl, refresh_transactionEntry same now, _, rfl, put⟩
  | none =>
      have new : entry.hash ∉ store.transactions.rows.map (·.entry.hash) :=
        find?_key_eq_none.mp found
      have put : store.transactions.Put _ _ (store.insertTransaction entry now).1 _ :=
        chained.transactions.put_add new store.transactions_lastId_lt_nextId
      apply returning_yields
      exact fun _ => ⟨_, _, rfl, rfl, _, rfl, put⟩

/-! ## The transactions of a block -/

structure Filled (blockHash : String) (transactions : List Report.Transaction)
    (before after : Store) : Prop where
  grown : before.Grown after
  chained : after.Chained
  blocks : after.blocks = before.blocks
  hashes : ∀ hash, hash ∈ after.transactions.rows.map (·.entry.hash) ↔
    hash ∈ before.transactions.rows.map (·.entry.hash) ∨ hash ∈ transactions.map (·.hash)
  holds : ∀ someBlock hash, after.Holds someBlock hash ↔
    before.Holds someBlock hash ∨ someBlock = blockHash ∧ hash ∈ transactions.map (·.hash)

namespace Filled

variable {blockHash : String} {transactions transactions' : List Report.Transaction}
  {before middle after : Store}

theorem refl (chained : before.Chained) : Filled blockHash [] before before := by
  refine ⟨.refl before, chained, rfl, ?_, ?_⟩ <;> simp

theorem trans (first : Filled blockHash transactions before middle)
    (second : Filled blockHash transactions' middle after) :
    Filled blockHash (transactions ++ transactions') before after := by
  refine ⟨first.grown.trans second.grown, second.chained, second.blocks.trans first.blocks,
    ?_, ?_⟩
  · intro hash
    rw [second.hashes, first.hashes, List.map_append, List.mem_append, or_assoc]
  · intro someBlock hash
    rw [second.holds, first.holds, List.map_append, List.mem_append, and_or_left, or_assoc]

theorem putLink (chained : before.Chained) {row : Stored.Transaction}
    {table : Table Stored.Transaction}
    (put : before.transactions.Put (·.id) (·.entry.hash) row table)
    {transaction : Report.Transaction} (same : row.entry.hash = transaction.hash)
    {link : Stored.Link} (block : (link.blockId, blockHash) ∈ before.blockKeys)
    (linked : link.transactionId = row.id) :
    Filled blockHash [transaction] before
      ({ before with transactions := table }.putLink link) := by
  have grown : before.Grown { before with transactions := table } :=
    ⟨rfl, rfl, List.prefix_refl _, put.grown⟩
  have middle : { before with transactions := table }.Chained :=
    grown.chained chained chained.blocks put.keyed rfl
  have key : (link.transactionId, row.entry.hash) ∈
      { before with transactions := table }.transactionKeys := by
    rw [linked]
    exact table.mem_keys_of_mem _ _ put.stored
  refine ⟨⟨rfl, rfl, List.prefix_refl _, put.grown⟩, middle.putLink block key, rfl, ?_, ?_⟩
  · intro hash
    rw [List.map_singleton, List.mem_singleton, ← same]
    exact put.mem_keys hash
  · intro someBlock hash
    rw [middle.holds_putLink block key, grown.holds chained chained.blocks put.keyed rfl,
      List.map_singleton, List.mem_singleton, same]

end Filled

theorem putTransactions_yields {blockId : Int} {blockHash : String}
    (transactions : List Report.Transaction) (now : Instant) :
    ∀ (index : Nat) {store : Store}, store.Chained →
      (blockId, blockHash) ∈ store.blockKeys →
      (putTransactions blockId index transactions).Yields store now
        (fun _ after => Filled blockHash transactions store after) fun _ => False := by
  induction transactions with
  | nil =>
      intro index store chained _
      exact Work.yields_pure (Filled.refl chained)
  | cons transaction rest ih =>
      intro index store chained block
      rw [putTransactions]
      apply Work.Yields.bind _ (putTransaction_yields chained transaction.toEntry now)
      rintro row _ ⟨same, table, rfl, put⟩
      apply Work.Yields.bind fun _ after => Filled blockHash [transaction] store after ∧
        (blockId, blockHash) ∈ after.blockKeys
      · apply Work.yields_statement
        exact fun _ => ⟨Filled.putLink chained put (congrArg (·.hash) same) block rfl, block⟩
      · rintro _ after ⟨filled, block⟩
        refine (ih (index + 1) filled.chained block).mono ?_ fun _ => id
        intro _ last others
        exact filled.trans others

/-! ## Blocks -/

/-- A block is stored as a row that holds its transactions, beside what was held before. -/
structure Kept (row : Stored.Block) (transactions : List Report.Transaction)
    (before after : Store) : Prop where
  grown : before.Grown after
  chained : after.Chained
  put : before.blocks.Put (·.id) (·.entry.hash) row after.blocks
  hashes : ∀ hash, hash ∈ after.transactions.rows.map (·.entry.hash) ↔
    hash ∈ before.transactions.rows.map (·.entry.hash) ∨ hash ∈ transactions.map (·.hash)
  holds : ∀ someBlock hash, after.Holds someBlock hash ↔
    before.Holds someBlock hash ∨
      someBlock = row.entry.hash ∧ hash ∈ transactions.map (·.hash)

theorem storeBlock_yields (chained : store.Chained) (block : Report.Block)
    (entry : Report.BlockEntry) (now : Instant) :
    (storeBlock block entry).Yields store now
      (fun row after => row.entry = entry ∧ Kept row block.transactions store after)
      fun _ => False := by
  apply Work.Yields.atomically
  apply Work.Yields.bind _ (putBlock_yields chained entry now)
  rintro row _ ⟨same, blocks, rfl, put⟩
  have grown : store.Grown { store with blocks } :=
    ⟨rfl, rfl, put.grown, List.prefix_refl _⟩
  have middle : { store with blocks }.Chained :=
    grown.chained chained put.keyed chained.transactions rfl
  have key : (row.id, row.entry.hash) ∈ { store with blocks }.blockKeys :=
    blocks.mem_keys_of_mem _ _ put.stored
  apply Work.Yields.bind _ (putTransactions_yields block.transactions now 0 middle key)
  rintro _ after filled
  refine Work.yields_pure ⟨same, grown.trans filled.grown, filled.chained, ?_, filled.hashes, ?_⟩
  · rw [filled.blocks]
    exact put
  · intro someBlock hash
    rw [filled.holds, grown.holds chained put.keyed chained.transactions rfl]

end ChainLedger.Service
