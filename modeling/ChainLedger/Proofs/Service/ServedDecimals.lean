import ChainLedger.Service.View
import ChainLedger.Proofs.Decimal.Writing

/-!
# Decimals as they are served

An asset is served with its supply, a description with its value, and a block with its difficulty
and its work. All of these are shown as the one plain text of their number, which is read back as
that number, however the decimal of the row is scaled and whatever sign it gives to zero.
-/

set_option autoImplicit false

namespace ChainLedger.Service

open Decimal (Fits IsPlainTextOf)

/-- A decimal of a row, and the text that a view of the row has for it. -/
inductive Serves : Decimal → String → Prop
  | supply (row : Stored.Asset) (createdTransactionHash : Option String) :
      Serves row.supply (AssetView.of row createdTransactionHash).supply
  | value (kind : Stored.DescriptionKind) (row : Stored.Description)
      (transactionHash : Option String) :
      Serves row.value (DescriptionView.of kind row transactionHash).value
  | difficulty (row : Stored.Block) :
      Serves row.entry.difficulty (BlockView.of row).difficulty
  | work (row : Stored.Block) : Serves row.entry.work (BlockView.of row).work

theorem Serves.text_eq {decimal : Decimal} {text : String} (serves : Serves decimal text) :
    text = decimal.normalText := by
  cases serves <;> rfl

/-- What is read back from a served text is the number of the row, two rows are served alike exactly
if their numbers are the same, and no text of the number is plainer. -/
theorem serves_canonically {decimal : Decimal} {text : String} (serves : Serves decimal text)
    (fits : decimal.Fits) :
    (∃ back, Decimal.read text = .ok back ∧ back.number = decimal.number) ∧
      (∀ other otherText, Serves other otherText → other.Fits →
        (text = otherText ↔ decimal.number = other.number)) ∧
      IsPlainTextOf text.toList decimal.number ∧ text ≠ "-0" := by
  obtain rfl := serves.text_eq
  refine ⟨⟨_, Decimal.read_normalText fits, decimal.number_normalize⟩, ?_,
    decimal.isPlainTextOf_normalText, Decimal.normalText_ne_minusZero fits⟩
  intro other otherText otherServes otherFits
  rw [otherServes.text_eq]
  exact Decimal.normalText_eq_iff fits otherFits

def assetSupplied (supply : Decimal) : Stored.Asset where
  id := 1
  entry := { identifier := "A", name := "a", metadata := "", owner := "" }
  supply
  createdTransactionId := 1
  createdAt := ⟨0⟩
  updatedAt := ⟨0⟩

def descriptionValued (value : Decimal) : Stored.Description where
  id := 1
  kind := .known .mint
  value
  assetId := 1
  transactionId := 1
  createdAt := ⟨0⟩

theorem minusHalf_served_alike :
    (AssetView.of (assetSupplied ⟨true, 500, 3⟩) none).supply = "-0.5" ∧
      (DescriptionView.of .mint (descriptionValued ⟨true, 5, 1⟩) none).value = "-0.5" := by
  have canonical := serves_canonically (.supply (assetSupplied ⟨true, 500, 3⟩) none)
    ⟨by decide, by decide⟩
  have alike := (canonical.2.1 _ _ (.value .mint (descriptionValued ⟨true, 5, 1⟩) none)
    ⟨by decide, by decide⟩).mpr
      (by norm_num [Decimal.number, Decimal.signed, assetSupplied, descriptionValued])
  have text : (AssetView.of (assetSupplied ⟨true, 500, 3⟩) none).supply = "-0.5" := by
    decide +kernel
  exact ⟨text, alike ▸ text⟩

end ChainLedger.Service
