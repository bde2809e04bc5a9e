import ChainLedger.Http.QueryString
import ChainLedger.Proofs.Service.Pages

/-!
# Pages in words

Page, limit and total are words of 64 bits. For all of them the number of rows to skip is the
product or the greatest word, and the number of pages is rounded up without overflow. The greatest
page and the greatest limit that a query can ask for fit together: no row behind them has a number
beyond the signed words.
-/

set_option autoImplicit false

namespace ChainLedger.Service

/-! ## Arithmetic -/

namespace Word

def minus (first second : UInt64) : UInt64 :=
  if first < second then 0 else first - second

def times? (first second : UInt64) : Option UInt64 :=
  if first.toNat * second.toNat < UInt64.size then some (first * second) else none

def timesAtMost (first second : UInt64) : UInt64 :=
  (times? first second).getD (.ofNat Paging.greatestWord)

/-- The quotient of two words, rounded up. There is none if the divisor is zero or if the quotient
is the greatest word and has to be rounded. -/
def dividedUp? (dividend divisor : UInt64) : Option UInt64 :=
  if divisor = 0 then none
  else if dividend % divisor = 0 then some (dividend / divisor)
  else if (dividend / divisor).toNat + 1 < UInt64.size then some (dividend / divisor + 1)
  else none

theorem toNat_minus (first second : UInt64) :
    (minus first second).toNat = first.toNat - second.toNat := by
  rw [minus]
  split
  next less =>
    rw [Nat.sub_eq_zero_of_le (Nat.le_of_lt (UInt64.lt_iff_toNat_lt.mp less)), UInt64.toNat_zero]
  next notLess =>
    exact UInt64.toNat_sub_of_le _ _ (UInt64.not_lt.mp notLess)

theorem times?_eq_some {first second : UInt64} (fits : first.toNat * second.toNat < UInt64.size) :
    times? first second = some (first * second) := if_pos fits

theorem toNat_timesAtMost (first second : UInt64) :
    (timesAtMost first second).toNat =
      min (first.toNat * second.toNat) Paging.greatestWord := by
  have greatest : Paging.greatestWord + 1 = UInt64.size := rfl
  rw [timesAtMost, times?]
  split
  next fits =>
    rw [Option.getD_some, UInt64.toNat_mul, Nat.mod_eq_of_lt fits, Nat.min_eq_left (by omega)]
  next stops =>
    rw [Option.getD_none, Nat.min_eq_right (by omega)]
    rfl

theorem roundedUp_eq (dividend : Nat) {divisor : Nat} (positive : 0 < divisor) :
    (dividend + divisor - 1) / divisor =
      if dividend % divisor = 0 then dividend / divisor else dividend / divisor + 1 := by
  have parts := Nat.div_add_mod dividend divisor
  have less := Nat.mod_lt dividend positive
  rw [Nat.mul_comm] at parts
  have next : (dividend / divisor + 1) * divisor = dividend / divisor * divisor + divisor :=
    Nat.succ_mul _ _
  split
  next divides => exact Nat.div_eq_of_lt_le (by omega) (by omega)
  next remains =>
    refine Nat.div_eq_of_lt_le (by omega) ?_
    rw [Nat.succ_mul]
    omega

theorem dividedUp?_of_pos (dividend : UInt64) {divisor : UInt64} (positive : 0 < divisor.toNat) :
    ∃ quotient, dividedUp? dividend divisor = some quotient ∧
      quotient.toNat = (dividend.toNat + divisor.toNat - 1) / divisor.toNat := by
  have notZero : divisor ≠ 0 := by
    rintro rfl
    exact Nat.lt_irrefl 0 positive
  have remains : dividend % divisor = 0 ↔ dividend.toNat % divisor.toNat = 0 := by
    rw [← UInt64.toNat_inj, UInt64.toNat_mod, UInt64.toNat_zero]
  rw [dividedUp?, if_neg notZero, roundedUp_eq dividend.toNat positive]
  by_cases divides : dividend.toNat % divisor.toNat = 0
  · rw [if_pos (remains.mpr divides), if_pos divides]
    exact ⟨_, rfl, UInt64.toNat_div _ _⟩
  · rw [if_neg (mt remains.mp divides), if_neg divides]
    have two : 2 ≤ divisor.toNat := by
      by_contra less
      have isOne : divisor.toNat = 1 := by omega
      exact divides (isOne ▸ Nat.mod_one _)
    have half : dividend.toNat / divisor.toNat ≤ dividend.toNat / 2 :=
      Nat.div_le_div_left two (by decide)
    have word : dividend.toNat < UInt64.size := dividend.toNat_lt
    have fits : (dividend / divisor).toNat + 1 < UInt64.size := by
      have more : 2 < UInt64.size := by decide
      rw [UInt64.toNat_div]
      omega
    refine ⟨_, if_pos fits, ?_⟩
    rw [UInt64.toNat_add, UInt64.toNat_one, ← UInt64.toNat_div]
    exact Nat.mod_eq_of_lt fits

end Word

/-! ## Pages -/

structure PageWords where
  page : UInt64
  limit : UInt64

namespace PageWords

def numbers (words : PageWords) : Paging where
  page := words.page.toNat
  limit := words.limit.toNat

def offset (words : PageWords) : UInt64 := Word.timesAtMost (Word.minus words.page 1) words.limit

def totalPages? (words : PageWords) (total : UInt64) : Option UInt64 :=
  Word.dividedUp? total (max words.limit 1)

/-- What is computed in words is what the numbers say. -/
structure Safe (words : PageWords) (total : UInt64) : Prop where
  offset : words.offset.toNat = words.numbers.offset
  atMost : words.offset.toNat = min ((words.page.toNat - 1) * words.limit.toNat) (2 ^ 64 - 1)
  totalPages : ∃ pages, words.totalPages? total = some pages ∧
    pages.toNat = words.numbers.totalPages total.toNat ∧
    IsLeast {count : Nat | total.toNat ≤ count * max words.limit.toNat 1} pages.toNat

end PageWords

/-- A page within the bounds for clients: the rows to skip are a product that is a word, and no row
of the page has a number beyond the signed words. -/
structure Paging.Exact (paging : Paging) : Prop where
  page : 1 ≤ paging.page ∧ paging.page ≤ 92233720368547758
  limit : 1 ≤ paging.limit ∧ paging.limit ≤ 100
  offset : paging.offset = (paging.page - 1) * paging.limit
  signed : paging.offset + paging.limit ≤ 9223372036854775807
  words : ∃ words : PageWords, words.numbers = paging ∧
    Word.times? (Word.minus words.page 1) words.limit = some words.offset

theorem Paging.isLeast_totalPages (paging : Paging) (total : Nat) :
    IsLeast {count : Nat | total ≤ count * max paging.limit 1} (paging.totalPages total) := by
  have more : ∀ {pages : Nat}, pages < paging.totalPages total ↔
      pages * max paging.limit 1 < total := paging.lt_totalPages_iff_max
  exact ⟨Nat.not_lt.mp (mt more.mpr (Nat.lt_irrefl _)),
    fun count enough => Nat.not_lt.mp fun less => Nat.not_lt.mpr enough (more.mp less)⟩

theorem PageWords.safe (words : PageWords) (total : UInt64) : words.Safe total := by
  have offset : words.offset.toNat = words.numbers.offset := by
    rw [PageWords.offset, Word.toNat_timesAtMost, Word.toNat_minus]
    rfl
  have limit : (max words.limit 1).toNat = max words.limit.toNat 1 := UInt64.toNat_max _ _
  obtain ⟨pages, divided, rounded⟩ := Word.dividedUp?_of_pos total
    (limit ▸ Nat.lt_of_lt_of_le Nat.zero_lt_one (le_max_right _ _))
  have same : pages.toNat = words.numbers.totalPages total.toNat := by
    rw [rounded, limit]
    rfl
  exact ⟨offset, offset, pages, divided, same, same ▸ words.numbers.isLeast_totalPages _⟩

theorem PageWords.times?_eq_offset {words : PageWords}
    (fits : (words.page.toNat - 1) * words.limit.toNat < UInt64.size) :
    Word.times? (Word.minus words.page 1) words.limit = some words.offset := by
  have product := Word.times?_eq_some ((Word.toNat_minus words.page 1).symm ▸ fits)
  rw [offset, Word.timesAtMost, product, Option.getD_some]

theorem Paging.exists_words {paging : Paging} (page : paging.page < UInt64.size)
    (limit : paging.limit < UInt64.size) : ∃ words : PageWords, words.numbers = paging := by
  refine ⟨⟨.ofNat paging.page, .ofNat paging.limit⟩, ?_⟩
  rw [PageWords.numbers, UInt64.toNat_ofNat_of_lt' page, UInt64.toNat_ofNat_of_lt' limit]

theorem Paging.exact_of_bounds {paging : Paging}
    (page : 1 ≤ paging.page ∧ paging.page ≤ greatestPage)
    (limit : 1 ≤ paging.limit ∧ paging.limit ≤ greatestLimit) : paging.Exact := by
  have rows : paging.page * paging.limit ≤ greatestSignedWord :=
    (Nat.mul_le_mul page.2 limit.2).trans (Nat.div_mul_le_self _ _)
  have last : (paging.page - 1) * paging.limit + paging.limit = paging.page * paging.limit := by
    rw [← Nat.succ_mul, Nat.succ_eq_add_one, Nat.sub_add_cancel page.1]
  have signed : greatestSignedWord < greatestWord := by decide
  have word : greatestWord < UInt64.size := by decide
  have offset : paging.offset = (paging.page - 1) * paging.limit := by
    rw [Paging.offset, Nat.min_eq_left (by omega)]
  refine ⟨page, limit, offset, by rw [offset, last]; exact rows, ?_⟩
  obtain ⟨words, rfl⟩ := exists_words (page.2.trans_lt (by decide)) (limit.2.trans_lt (by decide))
  refine ⟨words, rfl, PageWords.times?_eq_offset ?_⟩
  change (words.numbers.page - 1) * words.numbers.limit < UInt64.size
  omega

theorem Paging.asked_exact (page limit : Option Nat) : (asked page limit).Exact := by
  refine exact_of_bounds ?_ (asked_limit_bounds limit)
  cases page with
  | none => exact ⟨Nat.le_refl 1, (by decide : 1 ≤ greatestPage)⟩
  | some page => exact clamp_bounds (by decide) page

end ChainLedger.Service

namespace ChainLedger.Http

open Service

theorem Parameters.asked_of_paging {parameters : Parameters} {paging : Paging}
    (reads : parameters.paging = .ok paging) : ∃ page limit, paging = .asked page limit := by
  rw [Parameters.paging] at reads
  cases page : parameters.value? "page" readWord with
  | error unread => rw [page] at reads; cases reads
  | ok page' =>
      cases limit : parameters.value? "limit" readWord with
      | error unread => rw [page, limit] at reads; cases reads
      | ok limit' =>
          rw [page, limit] at reads
          exact ⟨page', limit', (Except.ok.inj reads).symm⟩

/-- The pages that queries ask for are computed exactly, and those of any words safely. -/
theorem paging_exact_and_safe :
    (∀ query paging, (readParameters query).paging = .ok paging → paging.Exact) ∧
      ∀ page limit total, (PageWords.mk page limit).Safe total := by
  refine ⟨fun query paging reads => ?_, fun page limit => PageWords.safe ⟨page, limit⟩⟩
  obtain ⟨page, limit, rfl⟩ := Parameters.asked_of_paging reads
  exact Paging.asked_exact page limit

theorem greatest_query_exact_and_safe :
    (readParameters "page=18446744073709551615&limit=5000").paging =
        .ok { page := 92233720368547758, limit := 100 } ∧
      Paging.Exact { page := 92233720368547758, limit := 100 } ∧
      (PageWords.mk 18446744073709551615 0).Safe 18446744073709551615 := by
  have reads : (readParameters "page=18446744073709551615&limit=5000").paging =
      .ok { page := 92233720368547758, limit := 100 } := by
    cbv
  obtain ⟨exact, safe⟩ := paging_exact_and_safe
  exact ⟨reads, exact _ _ reads, safe _ _ _⟩

end ChainLedger.Http
