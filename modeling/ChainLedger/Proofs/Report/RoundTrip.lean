import ChainLedger.Proofs.Report.Spellings

/-!
# Reports that are written and read

All numbers of a report are whole, and the value that it is written with is among its spellings. So
a block is read back from the text that it is written with, whatever its strings hold.
-/

set_option autoImplicit false

namespace ChainLedger.Report

open Json

theorem Block.reader_node (block : Block) (room : Nat) :
    reader room block.toValue.node = .ok block :=
  honours.reads block.spells_toValue room

theorem integral_list {α : Type} {toValue : α → Value} {values : List α}
    (each : ∀ value ∈ values, (toValue value).Integral) :
    (Value.array (values.map toValue)).Integral := by
  refine .array ?_
  simpa using each

theorem Note.integral_toValue (note : Note) : note.toValue.Integral := by
  refine .object ?_
  simp [Value.Integral.string]

theorem Spend.integral_toValue (spend : Spend) : spend.toValue.Integral := by
  refine .object ?_
  simp [Value.Integral.string]

theorem Mint.integral_toValue (mint : Mint) : mint.toValue.Integral := by
  refine .object ?_
  simp [Value.Integral.string]

theorem Burn.integral_toValue (burn : Burn) : burn.toValue.Integral := by
  refine .object ?_
  simp [Value.Integral.string]

theorem Transaction.integral_toValue (transaction : Transaction) :
    transaction.toValue.Integral := by
  have notes : transaction.notesValue.Integral :=
    integral_list fun note _ => note.integral_toValue
  have spends : transaction.spendsValue.Integral :=
    integral_list fun spend _ => spend.integral_toValue
  refine .object ?_
  simp [Value.Integral.string, Value.Integral.integer, notes, spends, integral_list,
    Mint.integral_toValue, Burn.integral_toValue]

theorem Block.integral_toValue (block : Block) : block.toValue.Integral := by
  have work : (Value.optionalString block.work).Integral := by
    cases block.work with
    | none => exact .null
    | some work => exact .string work
  refine .object ?_
  simp [Value.Integral.string, Value.Integral.integer, work, integral_list,
    Transaction.integral_toValue]

/-- The text that a block is written with is read as that block. -/
theorem Block.ofDocument_ofText_text (block : Block) :
    Block.ofDocument (.ofText block.toValue.text) = .ok block := by
  rw [ofText_text block.integral_toValue, ofDocument, Document.read, block.reader_node]
  rfl

end ChainLedger.Report
