import ChainLedger.Service.Paging
import ChainLedger.Store.Tables
import ChainLedger.Text.Pattern

/-!
# Listings

What is served of the store's tables, in the order in which it is served. Blocks come by
descending sequence and then by descending id, the other listings by descending id, and the
transactions of a block by their index in it. Rows that an order leaves tied keep the order of
their insertion.
-/

set_option autoImplicit false

namespace ChainLedger.Store

open ChainLedger.Stored

def descending {Row : Type} (key : Row → Int) (rows : List Row) : List Row :=
  rows.mergeSort fun first second => key second ≤ key first

/-- The block that a listing shows first: the greater sequence, and then the greater id. -/
def precedesInListing (first second : Block) : Bool :=
  second.entry.sequence.toInt < first.entry.sequence.toInt ∨
    (first.entry.sequence = second.entry.sequence ∧ second.id ≤ first.id)

def blockListing (store : Store) (mainOnly : Bool) : List Block :=
  (store.blocks.rows.filter fun row => !mainOnly || row.entry.main).mergeSort precedesInListing

def head? (store : Store) : Option Block :=
  (descending (·.entry.sequence.toInt) (store.blocks.rows.filter (·.entry.main))).head?

/-- The block at a sequence: a main one before all others, and then the newest. -/
def blockBySequence? (store : Store) (sequence : Int32) : Option Block :=
  ((store.blocks.rows.filter (·.entry.sequence = sequence)).mergeSort fun first second =>
    (first.entry.main && !second.entry.main)
      || (first.entry.main == second.entry.main && second.id ≤ first.id)).head?

def transactionListing (store : Store) : List Transaction :=
  descending (·.id) store.transactions.rows

def transactionsOfBlock (store : Store) (blockId : Int) : List Transaction :=
  let links := (store.links.filter (·.blockId = blockId)).mergeSort fun first second =>
    first.index.toInt ≤ second.index.toInt
  links.flatMap fun link => store.transactions.rows.filter (·.id = link.transactionId)

/-- The assets whose name contains a search text; an empty search selects all. -/
def assetListing (store : Store) (search : Option String) : List Asset :=
  descending (·.id) <| store.assets.rows.filter fun row =>
    match search with
    | none => true
    | some text => text.isEmpty || Text.matchesSearch text row.entry.name

def descriptionListing (store : Store) (assetId : Int) : List Description :=
  descending (·.id) (store.descriptions.rows.filter (·.assetId = assetId))

def transactionsByIds (store : Store) (ids : List Int) : List Transaction :=
  store.transactions.rows.filter fun row => ids.contains row.id

end ChainLedger.Store
