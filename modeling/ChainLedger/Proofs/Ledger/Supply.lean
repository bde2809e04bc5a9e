import Mathlib
import ChainLedger.Store.Tables

/-!
# What descriptions add up to

The supply of an asset is an integer, so it is one decimal and no other: the one of scale zero in
which zero has no sign. The net of descriptions for an asset is what their mints add to its
supply less what their burns take away.
-/

set_option autoImplicit false

namespace ChainLedger

namespace Decimal

theorem signed_neg (decimal : Decimal) : decimal.neg.signed = -decimal.signed := by
  cases sign : decimal.negative <;> simp [neg, signed, sign]

theorem natAbs_signed (decimal : Decimal) : decimal.signed.natAbs = decimal.coefficient := by
  rw [signed]
  split
  · rw [Int.natAbs_neg, Int.natAbs_natCast]
  · exact Int.natAbs_natCast _

theorem signed_eq_zero_of_isZero {decimal : Decimal} (zero : decimal.isZero = true) :
    decimal.signed = 0 := by
  have none : decimal.coefficient = 0 := by simpa [isZero] using zero
  simp [signed, none]

theorem ofSigned_add (number : Int) {delta : Decimal} (integer : delta.scale = 0) :
    (ofSigned number 0).add delta = ofSigned (number + delta.signed) 0 := by
  have scales : max (ofSigned number 0).scale delta.scale = 0 := by simp [ofSigned, integer]
  have atZero : ∀ decimal : Decimal, decimal.scale = 0 → decimal.signedAt 0 = decimal.signed := by
    intro decimal scale
    simp [signedAt, scale, Text.powerOfTen]
  rw [add_eq_ofSigned (by rw [scales]; exact excess_zero _), scales,
    atZero _ rfl, atZero _ integer, signed_ofSigned]

end Decimal

namespace Stored

theorem DescriptionKind.scale_appliedDelta (kind : DescriptionKind) (value : Decimal) :
    (kind.appliedDelta value).scale = value.scale := by
  cases kind <;> rfl

theorem DescriptionKind.scale_reversingDelta (kind : DescriptionKind) (value : Decimal) :
    (kind.reversingDelta value).scale = value.scale := by
  cases kind <;> rfl

theorem DescriptionKind.signed_reversingDelta (kind : DescriptionKind) (value : Decimal) :
    (kind.reversingDelta value).signed = -(kind.appliedDelta value).signed := by
  cases kind with
  | mint => exact Decimal.signed_neg value
  | burn => simp [reversingDelta, appliedDelta, Decimal.signed_neg]

def Description.contribution (row : Description) : Int :=
  match row.kind with
  | .known .mint => row.value.signed
  | .known .burn => -row.value.signed
  | .unknown _ => 0

theorem Description.contribution_of_known {row : Description} {kind : DescriptionKind}
    (known : row.kind = .known kind) :
    row.contribution = (kind.appliedDelta row.value).signed := by
  cases kind <;> simp [contribution, known, DescriptionKind.appliedDelta, Decimal.signed_neg]

def Description.net (rows : List Description) (assetId : Int) : Int :=
  ((rows.filter (·.assetId = assetId)).map (·.contribution)).sum

namespace Description

variable {rows : List Description} {assetId : Int}

@[simp]
theorem net_nil (assetId : Int) : net [] assetId = 0 := rfl

theorem net_cons (row : Description) (rows : List Description) (assetId : Int) :
    net (row :: rows) assetId =
      (if row.assetId = assetId then row.contribution else 0) + net rows assetId := by
  by_cases own : row.assetId = assetId <;> simp [net, own]

theorem net_append (first second : List Description) (assetId : Int) :
    net (first ++ second) assetId = net first assetId + net second assetId := by
  simp [net]

theorem net_filter_add_net_filter_not (selects : Description → Bool) (rows : List Description)
    (assetId : Int) :
    net (rows.filter selects) assetId + net (rows.filter (!selects ·)) assetId =
      net rows assetId := by
  induction rows with
  | nil => rfl
  | cons row rows ih =>
      by_cases selected : selects row
      · simp only [List.filter_cons, selected, if_true, Bool.not_true, Bool.false_eq_true,
          if_false, net_cons]
        omega
      · simp only [List.filter_cons, selected, if_true, Bool.not_false, Bool.false_eq_true,
          if_false, net_cons]
        omega

theorem net_eq_zero (none : ∀ row ∈ rows, row.assetId ≠ assetId) : net rows assetId = 0 := by
  have nothing : rows.filter (·.assetId = assetId) = [] := by
    apply List.filter_eq_nil_iff.mpr
    intro row member
    simpa using none row member
  simp [net, nothing]

end Description
end Stored

namespace Store

def describedSum (store : Store) (kind : Stored.DescriptionKind) (assetId : Int) : Int :=
  ((store.descriptions.rows.filter fun row => row.assetId = assetId ∧ row.kind = .known kind).map
    (·.value.signed)).sum

theorem net_eq_mints_sub_burns (store : Store) (assetId : Int) :
    Stored.Description.net store.descriptions.rows assetId =
      store.describedSum .mint assetId - store.describedSum .burn assetId := by
  simp only [describedSum]
  induction store.descriptions.rows with
  | nil => rfl
  | cons row rows ih =>
      rw [Stored.Description.net_cons, ih, Stored.Description.contribution]
      by_cases own : row.assetId = assetId
      · rcases named : row.kind with (_ | _) | name
        · simp [own, named, add_sub_assoc]
        · simp [own, named]
          omega
        · simp [own, named]
      · simp [own]

end Store
end ChainLedger
