import ChainLedger.Proofs.Service.Telling
import ChainLedger.Proofs.Store.Answers

/-!
# What lasts

A row of a block or of a transaction keeps its id, its hash and the time of its creation from when
it is first stored, whatever is reported anew and whatever is done to the ledger.
-/

set_option autoImplicit false

namespace ChainLedger

/-- What is never changed about a block once it is stored. -/
def Stored.Block.stamp (row : Stored.Block) : Int × String × Instant :=
  (row.id, row.entry.hash, row.createdAt)

def Stored.Transaction.stamp (row : Stored.Transaction) : Int × String × Instant :=
  (row.id, row.entry.hash, row.createdAt)

theorem Table.map_modify {Row Value : Type} (table : Table Row) (selects : Row → Bool)
    {change : Row → Row} {value : Row → Value} (keeps : ∀ row, value (change row) = value row) :
    (table.modify selects change).rows.map value = table.rows.map value := by
  rw [Table.modify, List.map_map]
  apply List.map_congr_left
  intro row member
  rw [Function.comp_apply]
  split
  · exact keeps row
  · rfl

namespace Store

/-- The blocks and transactions of one store are in another one, as they were first stored. -/
structure Lasts (before after : Store) : Prop where
  blocks : before.blocks.rows.map (·.stamp) <+: after.blocks.rows.map (·.stamp)
  transactions : before.transactions.rows.map (·.stamp) <+: after.transactions.rows.map (·.stamp)

namespace Lasts

variable {before middle after store : Store}

theorem refl (store : Store) : Lasts store store := ⟨List.prefix_refl _, List.prefix_refl _⟩

theorem trans (first : Lasts before middle) (second : Lasts middle after) : Lasts before after :=
  ⟨first.blocks.trans second.blocks, first.transactions.trans second.transactions⟩

theorem of_sameChain (same : SameChain before after) : Lasts before after := by
  refine ⟨?_, ?_⟩
  · rw [same.blocks]
  · rw [same.transactions]

theorem insertBlock (store : Store) (entry : Report.BlockEntry) (now : Instant) :
    store.Lasts (store.insertBlock entry now).2 := by
  refine ⟨?_, List.prefix_refl _⟩
  simp only [Store.insertBlock, Table.add, List.map_append]
  exact List.prefix_append _ _

theorem updateBlock (store : Store) (id : Int) (entry : Report.BlockEntry) (now : Instant) :
    store.Lasts (store.updateBlock id entry now).2 := by
  refine ⟨?_, List.prefix_refl _⟩
  have same := store.blocks.map_modify (·.id = id) fun row : Stored.Block =>
    (rfl : (row.refresh entry now).stamp = row.stamp)
  exact ⟨[], (List.append_nil _).trans same.symm⟩

theorem insertTransaction (store : Store) (entry : Report.TransactionEntry) (now : Instant) :
    store.Lasts (store.insertTransaction entry now).2 := by
  refine ⟨List.prefix_refl _, ?_⟩
  simp only [Store.insertTransaction, Table.add, List.map_append]
  exact List.prefix_append _ _

theorem updateTransaction (store : Store) (id : Int) (entry : Report.TransactionEntry)
    (now : Instant) : store.Lasts (store.updateTransaction id entry now).2 := by
  refine ⟨List.prefix_refl _, ?_⟩
  have same := store.transactions.map_modify (·.id = id) fun row : Stored.Transaction =>
    (rfl : (row.refresh entry now).stamp = row.stamp)
  exact ⟨[], (List.append_nil _).trans same.symm⟩

end Lasts
end Store

namespace Service

open Work

variable {start : Store}

namespace Traffic

variable {content : Content} {waiting : List Job} {traffic after : Traffic}
  {client served : Client} {maxRetries : UInt32}

end Traffic
end Service
end ChainLedger
