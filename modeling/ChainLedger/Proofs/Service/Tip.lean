import ChainLedger.Http.Routes
import ChainLedger.Proofs.Service.Listings
import ChainLedger.Proofs.Service.PageWords

/-!
# The tip of the chain

Three requests show which block is on top: the head, the first row of the listing of main blocks,
and the block at a sequence. Several main blocks may have the greatest sequence. The listing and
the block at that sequence are then the newest of them, whatever the order of the rows is. The head
is any of them, for it is looked up by the sequence alone. The three agree in all orders of the
rows exactly where only one main block has the greatest sequence.
-/

set_option autoImplicit false

namespace ChainLedger

open Stored

namespace Store

variable {store : Store} {rows order : List Block} {row : Block}

def withBlocks (store : Store) (rows : List Block) : Store :=
  { store with blocks := { store.blocks with rows } }

/-- A main block that no main block is above. -/
structure Highest (rows : List Block) (row : Block) : Prop where
  stored : row ∈ rows
  main : row.entry.main = true
  maximal : ∀ other ∈ rows, other.entry.main = true →
    other.entry.sequence.toInt ≤ row.entry.sequence.toInt

/-- The newest of the highest main blocks. -/
structure Tip (rows : List Block) (row : Block) : Prop extends Highest rows row where
  newest : ∀ other, Highest rows other → other.id ≤ row.id

theorem Highest.perm (same : order.Perm rows) (highest : Highest rows row) :
    Highest order row :=
  ⟨same.mem_iff.mpr highest.stored, highest.main,
    fun other member => highest.maximal other (same.mem_iff.mp member)⟩

theorem Tip.perm (same : order.Perm rows) (tip : Tip rows row) : Tip order row :=
  ⟨tip.toHighest.perm same, fun other highest => tip.newest other (highest.perm same.symm)⟩

theorem Tip.unique {other : Block} (ids : (rows.map (·.id)).Nodup) (tip : Tip rows row)
    (otherTip : Tip rows other) : row = other :=
  List.inj_on_of_nodup_map ids tip.stored otherTip.stored <|
    Int.le_antisymm (otherTip.newest row tip.toHighest) (tip.newest other otherTip.toHighest)

theorem eq_or_precedes_of_head? {Row : Type} {precedes : Row → Row → Prop} {listing : List Row}
    {first other : Row} (ordered : listing.Pairwise precedes) (isFirst : listing.head? = some first)
    (member : other ∈ listing) : other = first ∨ precedes first other := by
  obtain ⟨rest, rfl⟩ := List.head?_eq_some_iff.mp isFirst
  exact (List.mem_cons.mp member).imp id (List.rel_of_pairwise_cons ordered)

/-! ## The head -/

theorem head?_eq_none_iff : store.head? = none ↔
    ∀ row ∈ store.blocks.rows, row.entry.main = false := by
  have same := (descending_perm (·.entry.sequence.toInt)
    (store.blocks.rows.filter (·.entry.main))).length_eq
  rw [head?, List.head?_eq_none_iff, ← List.length_eq_zero_iff, same, List.length_eq_zero_iff,
    List.filter_eq_nil_iff]
  simp only [Bool.not_eq_true]

theorem highest_of_head? (isHead : store.head? = some row) : Highest store.blocks.rows row := by
  have mains := descending_perm (·.entry.sequence.toInt)
    (store.blocks.rows.filter (·.entry.main))
  obtain ⟨stored, main⟩ := List.mem_filter.mp (mains.subset (List.mem_of_mem_head? isHead))
  refine ⟨stored, main, fun other otherStored otherMain => ?_⟩
  have listed := mains.symm.subset (List.mem_filter.mpr ⟨otherStored, otherMain⟩)
  rcases eq_or_precedes_of_head? (pairwise_descending _ _) isHead listed with rfl | precedes
  · exact le_rfl
  · exact precedes

theorem head?_descending_cons {Row : Type} {key : Row → Int} {first : Row} {others : List Row}
    (greatest : ∀ other ∈ others, key other ≤ key first) :
    (descending key (first :: others)).head? = some first := by
  have transitive : ∀ row second third, decide (key second ≤ key row) = true →
      decide (key third ≤ key second) = true → decide (key third ≤ key row) = true := by
    simp only [decide_eq_true_eq]
    omega
  have total : ∀ row second, (decide (key second ≤ key row) || decide (key row ≤ key second)) =
      true := by
    simp only [Bool.or_eq_true, decide_eq_true_eq]
    omega
  obtain ⟨earlier, later, sorted, rest, greater⟩ :=
    List.mergeSort_cons transitive total first others
  have none : earlier = [] := by
    refine List.eq_nil_iff_forall_not_mem.mpr fun other member => ?_
    have inOthers : other ∈ others := by
      rw [← List.mem_mergeSort, rest]
      exact List.mem_append_left later member
    have notLe := greater other member
    rw [decide_eq_true (greatest other inOthers)] at notLe
    cases notLe
  rw [descending, sorted, none]
  rfl

/-- Each of the highest main blocks is the head where it comes first. -/
theorem exists_order_of_highest (highest : Highest store.blocks.rows row) :
    ∃ order, order.Perm store.blocks.rows ∧ (store.withBlocks order).head? = some row := by
  obtain ⟨before, after, split⟩ := List.append_of_mem highest.stored
  have same : (row :: (before ++ after)).Perm store.blocks.rows :=
    split ▸ List.perm_middle.symm
  refine ⟨row :: (before ++ after), same, ?_⟩
  have filtered : (row :: (before ++ after)).filter (·.entry.main) =
      row :: (before ++ after).filter (·.entry.main) := List.filter_cons_of_pos highest.main
  change (descending _ (List.filter _ (row :: (before ++ after)))).head? = some row
  rw [filtered]
  refine head?_descending_cons fun other member => ?_
  obtain ⟨stored, main⟩ := List.mem_filter.mp member
  exact highest.maximal other (same.subset (List.mem_cons_of_mem row stored)) main

/-! ## The first main block of the listing -/

theorem tip_of_listing (isFirst : (store.blockListing true).head? = some row) :
    Tip store.blocks.rows row := by
  have mains := store.blockListing_perm true
  have precedes : ∀ other ∈ store.blocks.rows, other.entry.main = true →
      other = row ∨ precedesInListing row other = true := by
    intro other stored main
    have listed := mains.symm.subset (List.mem_filter.mpr ⟨stored, by simpa using main⟩)
    exact eq_or_precedes_of_head? (store.pairwise_blockListing true) isFirst listed
  obtain ⟨stored, main⟩ := List.mem_filter.mp (mains.subset (List.mem_of_mem_head? isFirst))
  refine ⟨⟨stored, by simpa using main, fun other otherStored otherMain => ?_⟩,
    fun other highest => ?_⟩
  · rcases precedes other otherStored otherMain with rfl | before
    · exact le_rfl
    · rcases of_decide_eq_true before with greater | ⟨same, -⟩
      · exact greater.le
      · rw [same]
  · rcases precedes other highest.stored highest.main with rfl | before
    · exact le_rfl
    · rcases of_decide_eq_true before with greater | ⟨-, newer⟩
      · exact absurd (highest.maximal row stored (by simpa using main)) (by omega)
      · exact newer

theorem exists_first_of_main {main : Block} (stored : main ∈ store.blocks.rows)
    (isMain : main.entry.main = true) :
    ∃ row, (store.blockListing true).head? = some row := by
  have listed := (store.blockListing_perm true).symm.subset
    (List.mem_filter.mpr ⟨stored, by simpa using isMain⟩)
  exact ⟨_, List.head?_eq_some_head (List.ne_nil_of_mem listed)⟩

theorem head?_blockListing_of_tip (ids : (store.blocks.rows.map (·.id)).Nodup)
    (tip : Tip store.blocks.rows row) : (store.blockListing true).head? = some row := by
  obtain ⟨first, isFirst⟩ := exists_first_of_main tip.stored tip.main
  rw [tip.unique ids (tip_of_listing isFirst)]
  exact isFirst

/-! ## The block at a sequence -/

/-- A main block before all others, and then the newest. -/
def precedesAtSequence (first second : Block) : Bool :=
  (first.entry.main && !second.entry.main)
    || (first.entry.main == second.entry.main && second.id ≤ first.id)

theorem pairwise_precedesAtSequence (rows : List Block) :
    (rows.mergeSort precedesAtSequence).Pairwise fun first second =>
      precedesAtSequence first second = true := by
  apply List.pairwise_mergeSort
  · intro first second third
    simp only [precedesAtSequence]
    cases first.entry.main <;> cases second.entry.main <;> cases third.entry.main <;>
      simp <;> omega
  · intro first second
    simp only [precedesAtSequence]
    cases first.entry.main <;> cases second.entry.main <;> simp <;> omega

theorem blockBySequence?_of_tip (ids : (store.blocks.rows.map (·.id)).Nodup)
    (tip : Tip store.blocks.rows row) :
    store.blockBySequence? row.entry.sequence = some row := by
  have selected := List.mergeSort_perm
    (store.blocks.rows.filter (·.entry.sequence = row.entry.sequence)) precedesAtSequence
  have listed := selected.symm.subset (List.mem_filter.mpr ⟨tip.stored, decide_eq_true rfl⟩)
  have isFirst := List.head?_eq_some_head (List.ne_nil_of_mem listed)
  generalize List.head _ (List.ne_nil_of_mem listed) = first at isFirst
  obtain ⟨stored, same⟩ := List.mem_filter.mp (selected.subset (List.mem_of_mem_head? isFirst))
  have same := of_decide_eq_true same
  rcases eq_or_precedes_of_head? (pairwise_precedesAtSequence _) isFirst listed with rfl | before
  · exact isFirst
  · -- the first row is main as the tip is, and no older
    rw [precedesAtSequence, tip.main] at before
    have newer : first.entry.main = true ∧ row.id ≤ first.id := by simpa using before
    have highest : Highest store.blocks.rows first :=
      ⟨stored, newer.1, fun other member main => same ▸ tip.maximal other member main⟩
    have sameId : row.id = first.id := Int.le_antisymm newer.2 (tip.newest first highest)
    have isTip : row = first := List.inj_on_of_nodup_map ids tip.stored stored sameId
    rw [← isTip] at isFirst
    exact isFirst

end Store
namespace Service

open Work

variable {session : Session} {row : Block}

theorem head_reads (calm : session.faults = []) (isHead : session.store.head? = some row) :
    head.Reads session (.of row) := by
  refine Reads.bind (read_reads calm .blocks none (·.head?)) ?_
  rw [isHead]
  exact Reads.bind (reads_orFail row _) (reads_pure _)

theorem head_of_none (calm : session.faults = []) (noMain : session.store.head? = none) :
    head session = (.error (.notFound "No main chain block found"), session) := by
  have reads := read_reads calm .blocks none (·.head?)
  rw [noMain] at reads
  rw [head, bind_apply, reads]
  rfl

def BlockView.withTransactions (row : Block) (store : Store) : BlockView :=
  { BlockView.of row with transactions := some ((store.transactionsOfBlock row.id).map .of) }

theorem findBlock_reads_at_sequence (calm : session.faults = []) {sequence : Int32}
    (found : session.store.blockBySequence? sequence = some row) :
    (findBlock none (some sequence)).Reads session (.withTransactions row session.store) := by
  refine Reads.bind (read_reads calm .blocks none (·.blockBySequence? sequence)) ?_
  rw [found]
  refine Reads.bind (reads_orFail row _) ?_
  exact Reads.bind (read_reads calm .transactions [] (·.transactionsOfBlock row.id))
    (reads_pure _)

theorem head?_pageOf {Row : Type} {paging : Paging} (first : paging.page = 1)
    (positive : 1 ≤ paging.limit) (listing : List Row) :
    (paging.pageOf listing).data.head? = listing.head? := by
  have skips : paging.offset = 0 := by
    rw [Paging.offset, first, Nat.sub_self, Nat.zero_mul, Nat.zero_min]
  rw [Paging.pageOf, Paging.rows, skips, List.drop_zero, List.head?_take,
    if_neg (Nat.one_le_iff_ne_zero.mp positive)]

def State.withBlocks (state : State) (rows : List Block) : State :=
  { state with session := { state.session with store := state.session.store.withBlocks rows } }

end Service

namespace Http

open Service Store

variable {state : State} {order : List Block} {row : Block}

/-! ## What is shown of a row -/

theorem hash_eq_of_toValue {view other : BlockView} (same : view.toValue = other.toValue) :
    view.hash = other.hash := by
  simp only [BlockView.toValue, Json.Value.object.injEq, List.cons_append, List.cons.injEq,
    Prod.mk.injEq, Json.Value.string.injEq] at same
  exact same.2.2.1.2

theorem firsts_eq_of_toValue {page other : Page BlockView}
    (same : page.toValue BlockView.toValue = other.toValue BlockView.toValue) :
    page.data.head?.map BlockView.toValue = other.data.head?.map BlockView.toValue := by
  simp only [Page.toValue, Json.Value.object.injEq, List.cons.injEq, Prod.mk.injEq,
    Json.Value.array.injEq] at same
  rw [← List.head?_map, ← List.head?_map, same.1.2]

theorem value_eq_of_json {status : Nat} {value other : Json.Value}
    (same : Response.json status value = .json status other) : value = other :=
  Body.json.inj (congrArg Response.body same)

/-- Stored rows are told apart by what is shown of them. -/
theorem eq_of_toValue {rows : List Block} {other : Block}
    (hashes : (rows.map (·.entry.hash)).Nodup) (stored : row ∈ rows) (otherStored : other ∈ rows)
    (same : (BlockView.of row).toValue = (BlockView.of other).toValue) : row = other :=
  List.inj_on_of_nodup_map hashes stored otherStored (hash_eq_of_toValue same)

theorem serve_of_reads {α : Type} {render : α → Json.Value} {work : Work Service.Error α}
    {value : α} (reads : work.Reads state.session value) :
    serve render state (.ok work) = (.json 200 (render value), state) := by
  rw [serve, reads]
  rfl

/-- The first page of main blocks begins with a row, in whatever order the block rows come. -/
def ListsFirst (state : State) (row : Block) : Prop :=
  ∀ order parameters paging, order.Perm state.session.store.blocks.rows →
    Parameters.paging parameters = .ok paging → paging.page = 1 →
    parameters.value? "main_only" Parameters.readFlag = .ok (some true) →
      ∃ page : Page BlockView, page.data.head? = some (.of row) ∧
        (get .blocks parameters (state.withBlocks order)).1 =
          .json 200 (page.toValue BlockView.toValue)

def FindsAtSequence (state : State) (row : Block) : Prop :=
  ∀ order parameters, order.Perm state.session.store.blocks.rows →
    Parameters.text? parameters "hash" = .ok none →
    parameters.value? "sequence" Text.readSigned32? = .ok (some row.entry.sequence) →
      (get .findBlock parameters (state.withBlocks order)).1 =
        .json 200 (BlockView.withTransactions row state.session.store).toValue

/-- The head, the first row of the first page of main blocks and the block at the sequence of the
head are one, and there is none of them only if no block is main, in whatever order the block rows
come to each request. -/
def LookupsAgree (state : State) : Prop :=
  ∀ order parameters, order.Perm state.session.store.blocks.rows →
    ((get .head parameters (state.withBlocks order)).1.status = 404 ∧
      ∀ row ∈ state.session.store.blocks.rows, row.entry.main = false) ∨
    ∃ row, Highest state.session.store.blocks.rows row ∧
      (get .head parameters (state.withBlocks order)).1 = .json 200 (BlockView.of row).toValue ∧
        ListsFirst state row ∧ FindsAtSequence state row

/-! ## Each of the requests -/

theorem get_head_of_some (calm : state.session.faults = [])
    (isHead : state.session.store.head? = some row) (parameters : Parameters) :
    (get .head parameters state).1 = .json 200 (BlockView.of row).toValue :=
  congrArg Prod.fst (serve_of_reads (head_reads calm isHead))

theorem get_head_of_none (calm : state.session.faults = [])
    (noMain : state.session.store.head? = none) (parameters : Parameters) :
    (get .head parameters state).1.status = 404 := by
  rw [get, serve, head_of_none calm noMain]
  rfl

theorem get_head_notFound_iff (calm : state.session.faults = []) (parameters : Parameters) :
    (get .head parameters state).1.status = 404 ↔
      ∀ row ∈ state.session.store.blocks.rows, row.entry.main = false := by
  rw [← head?_eq_none_iff]
  cases isHead : state.session.store.head? with
  | none => exact iff_of_true (get_head_of_none calm isHead parameters) rfl
  | some row =>
      rw [get_head_of_some calm isHead parameters]
      exact iff_of_false (by decide : (200 : Nat) ≠ 404) (Option.some_ne_none row)

theorem get_head_of_main (calm : state.session.faults = []) {main : Block}
    (stored : main ∈ state.session.store.blocks.rows) (isMain : main.entry.main = true) :
    ∃ row, Highest state.session.store.blocks.rows row ∧ ∀ parameters,
      (get .head parameters state).1 = .json 200 (BlockView.of row).toValue := by
  cases isHead : state.session.store.head? with
  | none => cases isMain.symm.trans (head?_eq_none_iff.mp isHead main stored)
  | some row => exact ⟨row, highest_of_head? isHead, get_head_of_some calm isHead⟩

theorem get_blocks_of_main (calm : state.session.faults = []) {parameters : Parameters}
    {paging : Paging} (asked : parameters.paging = .ok paging)
    (mainOnly : parameters.value? "main_only" Parameters.readFlag = .ok (some true)) :
    (get .blocks parameters state).1 =
      .json 200 ((paging.pageOf ((state.session.store.blockListing true).map .of)).toValue
        BlockView.toValue) := by
  rw [get, asked, mainOnly]
  exact congrArg Prod.fst (serve_of_reads (listBlocks_reads calm true paging))

theorem get_findBlock_at_sequence (calm : state.session.faults = []) {parameters : Parameters}
    {sequence : Int32} (noHash : parameters.text? "hash" = .ok none)
    (asked : parameters.value? "sequence" Text.readSigned32? = .ok (some sequence))
    (found : state.session.store.blockBySequence? sequence = some row) :
    (get .findBlock parameters state).1 =
      .json 200 (BlockView.withTransactions row state.session.store).toValue := by
  rw [get, noHash, asked]
  exact congrArg Prod.fst (serve_of_reads (findBlock_reads_at_sequence calm found))

/-! ## The tip -/

theorem listsFirst_of_tip (calm : state.session.faults = [])
    (ids : (state.session.store.blocks.rows.map (·.id)).Nodup)
    (tip : Tip state.session.store.blocks.rows row) : ListsFirst state row := by
  intro order parameters paging same asked first mainOnly
  have stillCalm : (state.withBlocks order).session.faults = [] := calm
  have isFirst : ((state.withBlocks order).session.store.blockListing true).head? = some row :=
    head?_blockListing_of_tip ((same.map _).nodup_iff.mpr ids) (tip.perm same)
  refine ⟨_, ?_, get_blocks_of_main stillCalm asked mainOnly⟩
  obtain ⟨page, limit, rfl⟩ := Parameters.asked_of_paging asked
  rw [head?_pageOf first (Paging.asked_exact page limit).limit.1, List.head?_map, isFirst,
    Option.map_some]

theorem findsAtSequence_of_tip (calm : state.session.faults = [])
    (ids : (state.session.store.blocks.rows.map (·.id)).Nodup)
    (tip : Tip state.session.store.blocks.rows row) : FindsAtSequence state row := by
  intro order parameters same noHash sequence
  have stillCalm : (state.withBlocks order).session.faults = [] := calm
  have found : (state.withBlocks order).session.store.blockBySequence? row.entry.sequence =
      some row := blockBySequence?_of_tip ((same.map _).nodup_iff.mpr ids) (tip.perm same)
  exact get_findBlock_at_sequence stillCalm noHash sequence found

theorem ListsFirst.unique {other : Block}
    (hashes : (state.session.store.blocks.rows.map (·.entry.hash)).Nodup)
    (stored : row ∈ state.session.store.blocks.rows)
    (otherStored : other ∈ state.session.store.blocks.rows) (first : ListsFirst state row)
    (otherFirst : ListsFirst state other) : row = other := by
  obtain ⟨page, isFirst, shown⟩ :=
    first _ [("main_only", "true")] _ (List.Perm.refl _) rfl rfl rfl
  obtain ⟨otherPage, otherIsFirst, otherShown⟩ :=
    otherFirst _ [("main_only", "true")] _ (List.Perm.refl _) rfl rfl rfl
  have same := firsts_eq_of_toValue (value_eq_of_json (shown.symm.trans otherShown))
  rw [isFirst, otherIsFirst] at same
  exact eq_of_toValue hashes stored otherStored (Option.some.inj same)

section

variable (calm : state.session.faults = [])

include calm

theorem head_notFound_iff_of_perm (same : order.Perm state.session.store.blocks.rows)
    (parameters : Parameters) :
    (get .head parameters (state.withBlocks order)).1.status = 404 ↔
      ∀ row ∈ state.session.store.blocks.rows, row.entry.main = false := by
  have stillCalm : (state.withBlocks order).session.faults = [] := calm
  rw [get_head_notFound_iff stillCalm parameters]
  exact ⟨fun noMain row stored => noMain row (same.mem_iff.mpr stored),
    fun noMain row stored => noMain row (same.mem_iff.mp stored)⟩

theorem head_highest_of_perm (same : order.Perm state.session.store.blocks.rows) {main : Block}
    (stored : main ∈ state.session.store.blocks.rows) (isMain : main.entry.main = true) :
    ∃ row, Highest state.session.store.blocks.rows row ∧ ∀ parameters,
      (get .head parameters (state.withBlocks order)).1 =
        .json 200 (BlockView.of row).toValue := by
  have stillCalm : (state.withBlocks order).session.faults = [] := calm
  obtain ⟨row, highest, shown⟩ := get_head_of_main stillCalm (same.mem_iff.mpr stored) isMain
  exact ⟨row, highest.perm same.symm, shown⟩

theorem exists_order_of_head (highest : Highest state.session.store.blocks.rows row) :
    ∃ order, order.Perm state.session.store.blocks.rows ∧ ∀ parameters,
      (get .head parameters (state.withBlocks order)).1 =
        .json 200 (BlockView.of row).toValue := by
  obtain ⟨order, same, isHead⟩ := exists_order_of_highest highest
  have stillCalm : (state.withBlocks order).session.faults = [] := calm
  exact ⟨order, same, get_head_of_some stillCalm isHead⟩

theorem exists_tip (ids : (state.session.store.blocks.rows.map (·.id)).Nodup) {main : Block}
    (stored : main ∈ state.session.store.blocks.rows) (isMain : main.entry.main = true) :
    ∃ tip, Tip state.session.store.blocks.rows tip ∧ ListsFirst state tip ∧
      FindsAtSequence state tip := by
  obtain ⟨tip, isFirst⟩ := exists_first_of_main stored isMain
  have isTip := tip_of_listing isFirst
  exact ⟨tip, isTip, listsFirst_of_tip calm ids isTip, findsAtSequence_of_tip calm ids isTip⟩

theorem highest_unique_of_agree
    (hashes : (state.session.store.blocks.rows.map (·.entry.hash)).Nodup)
    (agree : LookupsAgree state) {first second : Block}
    (highest : Highest state.session.store.blocks.rows first)
    (alsoHighest : Highest state.session.store.blocks.rows second) : first = second := by
  have listed : ∀ {row : Block}, Highest state.session.store.blocks.rows row →
      ListsFirst state row := by
    intro row highest
    obtain ⟨order, same, shown⟩ := exists_order_of_head calm highest
    rcases agree order [] same with ⟨-, noMain⟩ | ⟨other, otherHighest, otherShown, listed, -⟩
    · cases highest.main.symm.trans (noMain row highest.stored)
    · have isOther := eq_of_toValue hashes highest.stored otherHighest.stored
        (value_eq_of_json ((shown []).symm.trans otherShown))
      rwa [isOther]
  exact (listed highest).unique hashes highest.stored alsoHighest.stored (listed alsoHighest)

theorem agree_of_highest_unique (ids : (state.session.store.blocks.rows.map (·.id)).Nodup)
    (unique : ∀ first second, Highest state.session.store.blocks.rows first →
      Highest state.session.store.blocks.rows second → first = second) :
    LookupsAgree state := by
  intro order parameters same
  by_cases noMain : ∀ row ∈ state.session.store.blocks.rows, row.entry.main = false
  · exact .inl ⟨(head_notFound_iff_of_perm calm same parameters).mpr noMain, noMain⟩
  · push Not at noMain
    obtain ⟨main, stored, isMain⟩ := noMain
    have isMain : main.entry.main = true := by simpa using isMain
    obtain ⟨row, highest, shown⟩ := head_highest_of_perm calm same stored isMain
    obtain ⟨tip, isTip, listed, found⟩ := exists_tip calm ids stored isMain
    have isRow : tip = row := unique tip row isTip.toHighest highest
    exact .inr ⟨tip, isTip.toHighest, isRow ▸ shown parameters, listed, found⟩

end

/-- For a reachable store and whatever order the block rows come in, the head is not found exactly
where no block is main, and otherwise it is one of the highest main blocks. Each of these is the
head in some order. The listing and the block at a sequence always show the newest of them. So the
three agree exactly where no two main blocks are highest. -/
theorem lookups_agree_iff (reachable : state.session.store.Reachable)
    (calm : state.session.faults = []) :
    let rows := state.session.store.blocks.rows
    (∀ order parameters, order.Perm rows →
      ((get .head parameters (state.withBlocks order)).1.status = 404 ↔
        ∀ row ∈ rows, row.entry.main = false)) ∧
    (∀ order, order.Perm rows → ∀ main ∈ rows, main.entry.main = true →
      ∃ row, Highest rows row ∧ ∀ parameters,
        (get .head parameters (state.withBlocks order)).1 = .json 200 (BlockView.of row).toValue) ∧
    (∀ row, Highest rows row → ∃ order, order.Perm rows ∧ ∀ parameters,
      (get .head parameters (state.withBlocks order)).1 = .json 200 (BlockView.of row).toValue) ∧
    (∀ main ∈ rows, main.entry.main = true →
      ∃ tip, Tip rows tip ∧ ListsFirst state tip ∧ FindsAtSequence state tip) ∧
    (LookupsAgree state ↔ ∀ first second, Highest rows first → Highest rows second →
      first = second) := by
  intro rows
  obtain ⟨chained, -⟩ := reachable.sound
  have ids : (rows.map (·.id)).Nodup := chained.blocks.numbered.nodup
  have hashes : (rows.map (·.entry.hash)).Nodup := chained.blocks.unique
  exact ⟨fun order parameters same => head_notFound_iff_of_perm calm same parameters,
    fun order same main => head_highest_of_perm calm same,
    fun row => exists_order_of_head calm,
    fun main => exists_tip calm ids,
    fun agree first second => highest_unique_of_agree calm hashes agree,
    agree_of_highest_unique calm ids⟩

def rivalState : State :=
  (upload { blocks := [sampleBlock, { sampleBlock with hash := "c" }] } {}).2

theorem rivals_disagree :
    rivalState.session.store.Reachable ∧ rivalState.session.faults = [] ∧
      rivalState.session.store.head?.map (·.entry.hash) = some "b" ∧
      (rivalState.session.store.blockListing true).head?.map (·.entry.hash) = some "c" ∧
      (rivalState.session.store.blockBySequence? 1).map (·.entry.hash) = some "c" ∧
      ¬LookupsAgree rivalState := by
  have reachable : rivalState.session.store.Reachable := by
    rw [rivalState]
    refine .uploaded _ ?_ OnlyRefusals.nil
    exact .empty ⟨rfl, rfl, rfl, rfl, rfl⟩
  have calm : rivalState.session.faults = [] := by decide +kernel
  have isHead : rivalState.session.store.head?.map (·.entry.hash) = some "b" := by
    cbv
  have isFirst : (rivalState.session.store.blockListing true).head?.map (·.entry.hash) =
      some "c" := by
    cbv
  obtain ⟨head, shown, headHash⟩ := Option.map_eq_some_iff.mp isHead
  obtain ⟨first, listed, firstHash⟩ := Option.map_eq_some_iff.mp isFirst
  obtain ⟨-, -, -, -, agree⟩ := lookups_agree_iff reachable calm
  refine ⟨reachable, calm, isHead, isFirst, by cbv, fun agreeing => ?_⟩
  have same := agree.mp agreeing head first (highest_of_head? shown)
    (tip_of_listing listed).toHighest
  rw [same, firstHash] at headHash
  exact absurd headHash (by decide)

end Http
end ChainLedger
