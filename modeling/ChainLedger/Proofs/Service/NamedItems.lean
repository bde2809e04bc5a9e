import ChainLedger.Proofs.Service.AssetHistory
import ChainLedger.Proofs.Service.Showing

/-!
# Items and the hashes of their transactions

The hashes for a page are looked up together: the ids of its rows are sorted, each is asked for
once, and the transactions may come in any order. Every row is still shown as if its own
transaction were looked up for it alone. In a reachable store that is always found, and there is
only one.
-/

set_option autoImplicit false

namespace ChainLedger

def Session.withTransactions (session : Session) (rows : List Stored.Transaction) : Session :=
  { session with
    store := { session.store with transactions := { session.store.transactions with rows } } }

namespace Service

open Work

variable {Row View : Type} {session : Session} {store : Store}

/-! ## Distinct ids -/

section

variable (reachable : session.store.Reachable) (calm : session.faults = [])
  {order : List Stored.Transaction} (same : order.Perm session.store.transactions.rows)

include reachable calm same

end

end Service
end ChainLedger
