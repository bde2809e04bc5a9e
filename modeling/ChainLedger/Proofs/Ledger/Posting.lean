import ChainLedger.Ledger.Reconcile
import ChainLedger.Proofs.Ledger.Amounts
import ChainLedger.Proofs.Ledger.Books

/-!
# What a report posts

A mint or burn is posted when its value denotes an amount within the ceiling, whatever zeros lead
it. A transaction posts its mints and then its burns, each in the order of the report, and
registers the assets that it mints and that are not known yet. Values that are no digit runs and
burns of unknown assets are its offences; the first one of them is told.
-/

set_option autoImplicit false

namespace ChainLedger.Ledger

structure Posting where
  kind : Stored.DescriptionKind
  value : Decimal
  identifier : String
  deriving DecidableEq, Repr

def Posting.of? (kind : Stored.DescriptionKind) (identifier value : String) : Option Posting :=
  if Text.digitsValue value.toList ≤ amountCeiling then
    some { kind, value := .ofNat (Text.digitsValue value.toList), identifier }
  else none

def Posting.contribution (posting : Posting) : Int :=
  match posting.kind with
  | .mint => posting.value.signed
  | .burn => -posting.value.signed

def mintPosting? (mint : Report.Mint) : Option Posting :=
  Posting.of? .mint mint.id mint.value

def burnPosting? (burn : Report.Burn) : Option Posting :=
  Posting.of? .burn burn.id burn.value

def postings (transaction : Report.Transaction) : List Posting :=
  transaction.mints.filterMap mintPosting? ++ transaction.burns.filterMap burnPosting?

def posted (main : Bool) (transaction : Report.Transaction) : List Posting :=
  if main then postings transaction else []

theorem toList_append_filterMap {Item : Type} (posting? : Item → Option Posting) (item : Item)
    (items : List Item) :
    (posting? item).toList ++ items.filterMap posting? = (item :: items).filterMap posting? := by
  cases posts : posting? item <;> simp [posts]

/-! ## Registrations -/

def mintEntry (mint : Report.Mint) : Stored.AssetEntry :=
  { identifier := mint.id, name := mint.name, metadata := mint.metadata, owner := mint.owner }

/-- The assets that mints register, given the identifiers that are known already. -/
def firstMints (known : List String) : List Report.Mint → List Stored.AssetEntry
  | [] => []
  | mint :: mints =>
    if mint.id ∈ known then firstMints known mints
    else mintEntry mint :: firstMints (known ++ [mint.id]) mints

def registered (known : List String) (main : Bool) (transaction : Report.Transaction) :
    List Stored.AssetEntry :=
  if main then firstMints known transaction.mints else []

theorem firstMints_of_known {known : List String} {mints : List Report.Mint}
    (allKnown : ∀ mint ∈ mints, mint.id ∈ known) : firstMints known mints = [] := by
  induction mints with
  | nil => rfl
  | cons mint mints ih =>
      rw [firstMints, if_pos (allKnown mint (by simp))]
      exact ih fun other member => allKnown other (by simp [member])

theorem mem_known_firstMints (known : List String) (mints : List Report.Mint)
    (identifier : String) :
    identifier ∈ known ++ (firstMints known mints).map (·.identifier) ↔
      identifier ∈ known ∨ ∃ mint ∈ mints, mint.id = identifier := by
  induction mints generalizing known with
  | nil => simp [firstMints]
  | cons mint mints ih =>
      rw [firstMints]
      split
      next isKnown =>
        rw [ih]
        constructor
        · rintro (old | ⟨other, member, same⟩)
          · exact Or.inl old
          · exact Or.inr ⟨other, by simp [member], same⟩
        · rintro (old | ⟨other, member, same⟩)
          · exact Or.inl old
          · rcases List.mem_cons.mp member with rfl | member
            · exact Or.inl (same ▸ isKnown)
            · exact Or.inr ⟨other, member, same⟩
      next isNew =>
        have rest := ih (known ++ [mint.id])
        rw [List.append_assoc, List.singleton_append] at rest
        rw [List.map_cons]
        refine rest.trans ?_
        rw [List.mem_append, List.mem_singleton, or_assoc]
        apply or_congr_right
        simp only [List.mem_cons, or_and_right, exists_or, exists_eq_left]
        rw [eq_comm]

/-! ## Offences -/

def mintOffence? (mint : Report.Mint) : Option Error :=
  if Text.isDigitRun mint.value then none else some (.invalidValue mint.value)

/-- A burn of an unknown asset offends by that first, whatever its value is. -/
def burnOffence? (known : List String) (burn : Report.Burn) : Option Error :=
  if burn.id ∈ known then
    if Text.isDigitRun burn.value then none else some (.invalidValue burn.value)
  else some (.unknownAsset burn.id)

def firstOffence? (known : List String) (transaction : Report.Transaction) : Option Error :=
  (transaction.mints.findSome? mintOffence?).or
    (transaction.burns.findSome? (burnOffence? (known ++ transaction.mints.map (·.id))))

def offence? (known : List String) (main : Bool) (transaction : Report.Transaction) :
    Option Error :=
  if main then firstOffence? known transaction else none

theorem burnOffence?_congr {known known' : List String}
    (same : ∀ identifier, identifier ∈ known ↔ identifier ∈ known') :
    burnOffence? known = burnOffence? known' := by
  funext burn
  simp only [burnOffence?, same]

end ChainLedger.Ledger
