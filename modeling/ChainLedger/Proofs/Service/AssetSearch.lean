import ChainLedger.Proofs.Service.Listings
import ChainLedger.Proofs.Text.Matching

/-!
# Searching assets

A search selects the assets whose names fit its pattern, and all pages of it are cut from these.
The signs in a search keep their meaning in the pattern, so what a search selects are the assets
whose names contain it exactly where it holds no sign. An underscore or a percent sign makes it
find more; a backslash can make it miss assets as well.
-/

set_option autoImplicit false

namespace ChainLedger

def Session.withAssets (session : Session) (rows : List Stored.Asset) : Session :=
  { session with
    store := { session.store with assets := { session.store.assets with rows } } }

namespace Service

open Text Work

variable {session : Session} {search : Option String}

/-- All pages of a search are cut from certain assets, the newest first, and tell their number. -/
def PagesOver (session : Session) (search : Option String) (rows : List Stored.Asset) : Prop :=
  ∃ listing : List Stored.Asset, listing.Perm rows ∧
    listing.Pairwise (fun first second => second.id ≤ first.id) ∧
      ∀ paging, (listAssets search paging).Reads session
        (paging.pageOf (listing.map fun row =>
          .of row (Hashes.get? session.store.transactions.rows row.createdTransactionId)))

theorem pagesOver_selected (calm : session.faults = []) (search : Option String) :
    PagesOver session search (session.store.assets.rows.filter fun row =>
      search.all fun text => text.isEmpty || matchesSearch text row.entry.name) :=
  ⟨session.store.assetListing search, session.store.assetListing_perm search,
    Store.pairwise_descending _ _, listAssets_reads calm search⟩

theorem pagesOver_all (calm : session.faults = []) (all : search = none ∨ search = some "") :
    PagesOver session search session.store.assets.rows := by
  have selected := pagesOver_selected calm search
  rw [List.filter_eq_self.mpr] at selected
  · exact selected
  · intro row _
    rcases all with rfl | rfl <;> rfl

theorem pagesOver_fitting (calm : session.faults = []) {text : String} (nonempty : text ≠ "") :
    PagesOver session (some text) (session.store.assets.rows.filter fun row =>
      Fits (searchParts text.toList) row.entry.name.toList) := by
  have selected := pagesOver_selected calm (some text)
  have notEmpty : text.isEmpty = false := by
    rw [← Bool.not_eq_true, String.isEmpty_iff]
    exact nonempty
  simp only [Option.all_some, notEmpty, Bool.false_or] at selected
  rw [List.filter_congr (q := fun row => decide
    (Fits (searchParts text.toList) row.entry.name.toList))] at selected
  · exact selected
  · intro row _
    rw [Bool.eq_iff_iff, decide_eq_true_iff]
    exact matchesSearch_iff text row.entry.name

theorem PagesOver.length_eq {rows others : List Stored.Asset}
    (pages : PagesOver session search rows)
    (otherPages : PagesOver session search others) : rows.length = others.length := by
  obtain ⟨listing, perm, -, reads⟩ := pages
  obtain ⟨otherListing, otherPerm, -, otherReads⟩ := otherPages
  have same := Except.ok.inj (Prod.mk.inj ((reads {}).symm.trans (otherReads {}))).1
  have totals := congrArg Page.total same
  simp only [Paging.pageOf, List.length_map] at totals
  rw [← perm.length_eq, ← otherPerm.length_eq, totals]

def assetNamed (name : List Char) : Stored.Asset where
  id := 1
  entry := { identifier := "A", name := String.ofList name, metadata := "", owner := "" }
  supply := .zero
  createdTransactionId := 1
  createdAt := ⟨0⟩
  updatedAt := ⟨0⟩

theorem isPlain_of_pagesOver (calm : session.faults = []) {text : String} (nonempty : text ≠ "")
    (substring : ∀ rows, PagesOver (session.withAssets rows) (some text)
      (rows.filter fun row => text.toList <:+: row.entry.name.toList)) :
    IsPlain text.toList := by
  by_contra special
  obtain ⟨name, fits, absent⟩ := exists_fits_not_infix special
  have stillCalm : (session.withAssets [assetNamed name]).faults = [] := calm
  have counts := (pagesOver_fitting stillCalm nonempty).length_eq (substring [assetNamed name])
  have named : (assetNamed name).entry.name.toList = name := String.toList_ofList
  simp only [Session.withAssets, List.filter_cons, List.filter_nil, named, fits, absent,
    decide_true, decide_false, if_true, if_false, Bool.false_eq_true, List.length_singleton,
    List.length_nil] at counts
  exact absurd counts Nat.one_ne_zero

/-- Every search runs over the assets whose names fit its pattern, and over all of them if it is
missing or empty. For every set of assets these are the assets whose names contain it exactly if it
is plain. Without a backslash none of those that contain it is missed. -/
theorem substring_search_iff_plain (calm : session.faults = []) :
    (∀ search, search = none ∨ search = some "" →
      PagesOver session search session.store.assets.rows) ∧
    ∀ text, text ≠ "" →
      PagesOver session (some text) (session.store.assets.rows.filter fun row =>
        Fits (searchParts text.toList) row.entry.name.toList) ∧
      ((∀ rows, PagesOver (session.withAssets rows) (some text)
        (rows.filter fun row => text.toList <:+: row.entry.name.toList)) ↔
          IsPlain text.toList) ∧
      ('\\' ∉ text.toList → ∀ row ∈ session.store.assets.rows,
        text.toList <:+: row.entry.name.toList →
          Fits (searchParts text.toList) row.entry.name.toList) := by
  refine ⟨fun search => pagesOver_all calm, fun text nonempty => ⟨pagesOver_fitting calm nonempty,
    ⟨isPlain_of_pagesOver calm nonempty, fun plain rows => ?_⟩,
    fun unescaped row _ => fits_searchParts_of_infix unescaped⟩⟩
  have stillCalm : (session.withAssets rows).faults = [] := calm
  have selected := pagesOver_fitting stillCalm nonempty
  simp only [fits_searchParts_of_isPlain plain] at selected
  exact selected

def underscoredTransaction : Report.Transaction where
  hash := "t"
  fee := 0
  size := 1
  mints := [{ id := "A", name := "a_b", owner := "o", value := "1" },
    { id := "B", name := "axb", owner := "o", value := "1" }]

def underscoredUpload : Report.Upload where
  blocks := [{ Store.sampleBlock with transactions := [underscoredTransaction] }]

def underscoredSession : Session :=
  (Ledger.reconcile true underscoredTransaction (upload underscoredUpload {}).2.session).2

theorem reachable_underscoredSession : underscoredSession.store.Reachable := by
  have empty : ({} : State).session.store.Reachable := .empty ⟨rfl, rfl, rfl, rfl, rfl⟩
  have uploaded := empty.uploaded underscoredUpload OnlyRefusals.nil
  have calm : (upload underscoredUpload {}).2.session.faults = [] := by decide +kernel
  unfold underscoredSession
  exact uploaded.reconciled true underscoredTransaction (calm ▸ OnlyRefusals.nil)

theorem underscore_search_finds_both :
    underscoredSession.store.Reachable ∧ underscoredSession.faults = [] ∧
      (underscoredSession.store.assets.rows.filter fun row =>
        "a_b".toList <:+: row.entry.name.toList).map (·.entry.name) = ["a_b"] ∧
      ∃ rows, PagesOver underscoredSession (some "a_b") rows ∧
        rows.map (·.entry.name) = ["a_b", "axb"] ∧
        ¬∀ rows, PagesOver (underscoredSession.withAssets rows) (some "a_b")
          (rows.filter fun row => "a_b".toList <:+: row.entry.name.toList) := by
  have reachable := reachable_underscoredSession
  have calm : underscoredSession.faults = [] := by decide +kernel
  obtain ⟨-, searches⟩ := substring_search_iff_plain calm
  obtain ⟨found, substring, -⟩ := searches "a_b" (by decide)
  exact ⟨reachable, calm, by decide +kernel, _, found, by decide +kernel,
    mt substring.mp (by decide +kernel)⟩

end Service
end ChainLedger
