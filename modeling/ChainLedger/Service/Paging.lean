/-!
# Pages

Listings are served in pages, counted from 1. Page and limit are words of 64 bits, and so is the
number of rows to skip, which stops at the greatest word instead of wrapping around.
-/

set_option autoImplicit false

namespace ChainLedger.Service

structure Paging where
  page : Nat := 1
  limit : Nat := 20
  deriving DecidableEq, Repr

namespace Paging

def greatestWord : Nat := UInt64.size - 1

def greatestLimit : Nat := 100

def greatestSignedWord : Nat := 9223372036854775807

/-- The greatest page a client may ask for; up to it the rows to skip fit a signed word. -/
def greatestPage : Nat := greatestSignedWord / greatestLimit

def clamp (least greatest number : Nat) : Nat := max least (min number greatest)

theorem clamp_bounds {least greatest : Nat} (ordered : least ≤ greatest) (number : Nat) :
    least ≤ clamp least greatest number ∧ clamp least greatest number ≤ greatest := by
  simp only [clamp]
  omega

def asked (page limit : Option Nat) : Paging :=
  { page := (page.map (clamp 1 greatestPage)).getD 1
    limit := (limit.map (clamp 1 greatestLimit)).getD 20 }

def offset (paging : Paging) : Nat := min ((paging.page - 1) * paging.limit) greatestWord

def totalPages (paging : Paging) (total : Nat) : Nat :=
  let limit := max paging.limit 1
  (total + limit - 1) / limit

def rows {α : Type} (paging : Paging) (listing : List α) : List α :=
  (listing.drop paging.offset).take paging.limit

end Paging

structure Page (α : Type) where
  data : List α
  total : Nat
  paging : Paging

end ChainLedger.Service
