import Mathlib
import ChainLedger.Service.Paging

/-!
# Pages of a listing

The pages of a listing are its consecutive parts. All of them but the last are as long as the
limit, the last one is not empty, and all pages behind it are. The number of rows to skip stops at
the greatest word, which makes no difference to a listing whose rows are counted by a word.
-/

set_option autoImplicit false

namespace ChainLedger.Service

variable {Row : Type}

namespace Paging

def pageOf (paging : Paging) (listing : List Row) : Page Row :=
  { data := paging.rows listing, total := listing.length, paging }

theorem asked_limit_bounds (limit : Option Nat) :
    1 ≤ (asked none limit).limit ∧ (asked none limit).limit ≤ greatestLimit := by
  cases limit with
  | none => decide
  | some limit => exact clamp_bounds (by decide) limit

variable {limit : Nat}

theorem lt_totalPages_iff_max (paging : Paging) {pages total : Nat} :
    pages < paging.totalPages total ↔ pages * max paging.limit 1 < total := by
  have positive : 0 < max paging.limit 1 := Nat.lt_of_lt_of_le Nat.zero_lt_one (le_max_right _ _)
  rw [totalPages, ← Nat.succ_le_iff, Nat.le_div_iff_mul_le positive, Nat.succ_mul]
  omega

theorem lt_totalPages_iff (paging : Paging) (positive : 0 < paging.limit) {pages total : Nat} :
    pages < paging.totalPages total ↔ pages * paging.limit < total := by
  rw [lt_totalPages_iff_max, Nat.max_eq_left positive]

theorem rows_of_counted (paging : Paging) {listing : List Row}
    (counted : listing.length ≤ greatestWord) :
    paging.rows listing = (listing.drop ((paging.page - 1) * paging.limit)).take paging.limit := by
  rw [rows, offset]
  rcases Nat.le_total ((paging.page - 1) * paging.limit) greatestWord with fits | stops
  · rw [Nat.min_eq_left fits]
  · -- both numbers of rows to skip are behind the last row
    rw [Nat.min_eq_right stops, List.drop_of_length_le counted,
      List.drop_of_length_le (counted.trans stops)]

theorem flatMap_rows_eq_take {listing : List Row} (counted : listing.length ≤ greatestWord)
    (count : Nat) :
    (List.range' 1 count).flatMap (fun page => rows { page, limit } listing) =
      listing.take (count * limit) := by
  induction count with
  | zero => rw [Nat.zero_mul, List.take_zero, List.range'_zero, List.flatMap_nil]
  | succ count ih =>
      rw [List.range'_1_concat, List.flatMap_append, ih, List.flatMap_singleton,
        rows_of_counted _ counted, Nat.add_sub_cancel_left, ← List.take_add, Nat.succ_mul]

end Paging

/-- Pages with a limit, counted from 1 up to a last one, cut a listing in parts. -/
structure Cuts (listing : List Row) (limit count : Nat) (pages : Nat → Page Row) : Prop where
  totals : ∀ page, (pages page).total = listing.length
  counts : ∀ page, (pages page).paging.totalPages (pages page).total = count
  whole : (List.range' 1 count).flatMap (fun page => (pages page).data) = listing
  full : ∀ page, 1 ≤ page → page < count → (pages page).data.length = limit
  last : 0 < count → 1 ≤ (pages count).data.length ∧ (pages count).data.length ≤ limit
  beyond : ∀ page, count < page → (pages page).data = []

/-- The pages of a listing that a word can count cut it in parts. -/
theorem cuts_pageOf {listing : List Row} {limit : Nat} (positive : 0 < limit)
    (counted : listing.length ≤ Paging.greatestWord) :
    Cuts listing limit (Paging.totalPages { limit } listing.length)
      fun page => Paging.pageOf { page, limit } listing := by
  have more : ∀ {pages : Nat}, pages < Paging.totalPages { limit } listing.length ↔
      pages * limit < listing.length := Paging.lt_totalPages_iff { limit } positive
  have length : ∀ previous, (Paging.rows { page := previous + 1, limit } listing).length =
      min limit (listing.length - previous * limit) := by
    intro previous
    rw [Paging.rows_of_counted _ counted, List.length_take, List.length_drop,
      Nat.add_sub_cancel_right]
  have covers : listing.length ≤ Paging.totalPages { limit } listing.length * limit :=
    Nat.not_lt.mp (mt more.mpr (Nat.lt_irrefl _))
  refine
    { totals := fun _ => rfl
      counts := fun _ => rfl
      whole := ?_
      full := fun page first before => ?_
      last := fun some => ?_
      beyond := fun page behind => ?_ }
  · change (List.range' 1 _).flatMap (fun page => Paging.rows { page, limit } listing) = _
    rw [Paging.flatMap_rows_eq_take counted, List.take_of_length_le covers]
  · obtain ⟨previous, rfl⟩ := Nat.exists_eq_add_of_le' first
    have room := more.mp before
    rw [Nat.succ_mul] at room
    change (Paging.rows _ listing).length = limit
    rw [length]
    omega
  · obtain ⟨previous, isLast⟩ := Nat.exists_eq_add_of_le' some
    have room : previous * limit < listing.length :=
      more.mp (isLast ▸ Nat.lt_succ_self previous)
    rw [isLast]
    change 1 ≤ (Paging.rows _ listing).length ∧ (Paging.rows _ listing).length ≤ limit
    rw [length]
    omega
  · obtain ⟨previous, rfl⟩ := Nat.exists_eq_add_of_le' (Nat.zero_lt_of_lt behind)
    have done : listing.length ≤ previous * limit :=
      covers.trans (Nat.mul_le_mul_right limit (Nat.le_of_lt_succ behind))
    apply List.length_eq_zero_iff.mp
    change (Paging.rows _ listing).length = 0
    rw [length]
    omega

end ChainLedger.Service
