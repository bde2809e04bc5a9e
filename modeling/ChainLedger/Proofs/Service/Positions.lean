import ChainLedger.Http.Routes
import ChainLedger.Proofs.Json.Origins
import ChainLedger.Proofs.Service.BlockContents

/-!
# Counts and positions

A block counts its transactions in a word of 32 bits, and links each of them under its place in
such a word. No body that is admitted is long enough for a block that outgrows these words, however
its transactions are spelled, so the count is the number of transactions, and the places are told
as they are.
-/

set_option autoImplicit false

namespace ChainLedger

/-! ## The number of transactions -/

namespace Report

open Json

theorem Block.length_transactions_lt {room : Nat} {node : Node} {block : Block}
    (read : reader room node = .ok block) : block.transactions.length < node.extent := by
  obtain ⟨⟨_, _, _, _, _, _, _, _, _, transactions, _⟩, record, rfl⟩ := exists_ok_of_map_ok read
  obtain ⟨-, -, -, -, -, -, -, -, -, stems, -⟩ := Reader.stems_of_record record
  rcases stems with absent | ⟨child, member, read⟩
  · obtain rfl := Option.some.inj absent
    exact node.extent_pos
  · have each := (Reader.forall₂_of_list read).length_eq
    have few := child.length_children_lt
    have less := Node.extent_lt_of_mem_children member
    change transactions.length < node.extent
    omega

theorem length_transactions_lt {document : Document} {upload : Upload}
    (read : Upload.ofDocument document = .ok upload) {block : Block}
    (member : block ∈ upload.blocks) : block.transactions.length < document.root.extent := by
  obtain ⟨whole, root, done⟩ := exists_ok_of_bind_ok read
  obtain rfl : whole = upload := by
    split at done
    · cases done
    · exact Except.ok.inj done
  obtain ⟨tuple, record, rfl⟩ := exists_ok_of_map_ok root
  obtain ⟨absent | ⟨list, isChild, read⟩, -⟩ := Reader.stems_of_record record
  · cases absent
  · obtain ⟨node, isItem, read⟩ :=
      exists_of_forall₂_of_mem (Reader.forall₂_of_list read) member
    calc block.transactions.length
      _ < node.extent := Block.length_transactions_lt read
      _ < list.extent := Node.extent_lt_of_mem_children isItem
      _ < document.root.extent := Node.extent_lt_of_mem_children isChild

theorem length_transactions_lt_of_admitted {body : List Nat}
    (admitted : body.length ≤ Http.greatestBody) {upload : Upload}
    (read : Upload.ofDocument (.ofSymbols (symbolsOfOctets body)) = .ok upload) {block : Block}
    (member : block ∈ upload.blocks) : block.transactions.length < 2 ^ 31 := by
  have fewer := length_transactions_lt read member
  have extent := extent_ofSymbols_le body
  have greatest : Http.greatestBody = 67108864 := rfl
  omega

end Report

/-! ## Places -/

namespace Service

def putAt (blockId : Int) (transaction : Report.Transaction) (index : Int32) :
    Work StoreError Unit := do
  let row ← putTransaction transaction.toEntry
  Work.statement (.insert .links) () fun session =>
    ((), session.store.putLink { blockId, transactionId := row.id, index })

def putEachAt (blockId : Int) : List (Report.Transaction × Int32) → Work StoreError Unit
  | [] => pure ()
  | (transaction, index) :: rest => do
    putAt blockId transaction index
    putEachAt blockId rest

def indexesFrom (start count : Nat) : List Int32 :=
  (List.range' start count).map Int32.ofNat

theorem putTransactions_eq (blockId : Int) (start : Nat) (transactions : List Report.Transaction) :
    putTransactions blockId start transactions =
      putEachAt blockId (transactions.zip (indexesFrom start transactions.length)) := by
  induction transactions generalizing start with
  | nil => rfl
  | cons transaction rest ih =>
      funext session
      have zipped : (transaction :: rest).zip (indexesFrom start (transaction :: rest).length) =
          (transaction, Int32.ofNat start) :: rest.zip (indexesFrom (start + 1) rest.length) := rfl
      rw [zipped, putTransactions, putEachAt, putAt, ih]
      simp only [Work.bind_apply]
      cases putTransaction transaction.toEntry session with
      | mk result after => cases result <;> rfl

theorem map_toInt_indexesFrom {start count : Nat} (few : start + count ≤ 2 ^ 31) :
    (indexesFrom start count).map (·.toInt) = (List.range' start count).map Int.ofNat := by
  rw [indexesFrom, List.map_map]
  refine List.map_congr_left fun place member => ?_
  exact Int32.toInt_ofNat_of_lt (by have := List.mem_range'_1.mp member; omega)

structure LinksAt (block : Report.Block) (indexes : List Int32) : Prop where
  links : ∀ blockId, putTransactions blockId 0 block.transactions =
    putEachAt blockId (block.transactions.zip indexes)
  places : indexes.map (·.toInt) = (List.range block.transactions.length).map Int.ofNat
  nonnegative : ∀ index ∈ indexes, 0 ≤ index.toInt
  increasing : indexes.Pairwise fun first second => first.toInt < second.toInt

theorem linksAt_of_few {block : Report.Block} (few : block.transactions.length < 2 ^ 31) :
    LinksAt block (indexesFrom 0 block.transactions.length) := by
  have places := map_toInt_indexesFrom ((Nat.zero_add _).trans_le few.le)
  rw [← List.range_eq_range'] at places
  refine ⟨fun blockId => putTransactions_eq blockId 0 _, places, fun index member => ?_, ?_⟩
  · have told := List.mem_map_of_mem (f := (·.toInt)) member
    rw [places] at told
    obtain ⟨place, -, own⟩ := List.mem_map.mp told
    rw [← own]
    exact Int.natCast_nonneg place
  · have ordered : ((List.range block.transactions.length).map Int.ofNat).Pairwise (· < ·) := by
      rw [List.pairwise_map]
      exact List.pairwise_lt_range.imp Int.ofNat_lt.mpr
    rw [← places, List.pairwise_map] at ordered
    exact ordered

theorem places_of_storeBlock {session after : Session} (shown : session.store.Shown)
    (refusals : OnlyRefusals session.faults) {block : Report.Block} {entry : Report.BlockEntry}
    {row : Stored.Block} (stored : storeBlock block entry session = (.ok row, after))
    {before later : List Report.Transaction} {transaction : Report.Transaction}
    (isAt : block.transactions = before ++ transaction :: later)
    (last : transaction.hash ∉ later.map (·.hash)) :
    after.store.Places entry.hash transaction.hash (Int32.ofNat before.length) := by
  obtain ⟨content, shows⟩ := shown
  have shows := (storeBlock_shows shows (block, entry) session.now).of_ok refusals stored
  refine (shows.links _ _ _).mp ?_
  have writes : Prepared.linkWrites entry.hash 0 block.transactions =
      Prepared.linkWrites entry.hash 0 before ++
        ((entry.hash, transaction.hash), some (Int32.ofNat before.length)) ::
          Prepared.linkWrites entry.hash (before.length + 1) later := by
    simp [Prepared.linkWrites, isAt, List.zipIdx_append]
  have unwritten : (entry.hash, transaction.hash) ∉
      (Prepared.linkWrites entry.hash (before.length + 1) later).map (·.1) := by
    rw [Prepared.linkWrites, List.map_map]
    intro written
    obtain ⟨⟨other, place⟩, isLater, same⟩ := List.mem_map.mp written
    exact last (List.mem_map.mpr ⟨other, List.fst_mem_of_mem_zipIdx isLater, (Prod.mk.inj same).2⟩)
  rw [Content.stored_singleton]
  change writeAll _ (Prepared.linkWrites entry.hash 0 block.transactions) _ = _
  rw [writes, writeAll_append, writeAll_cons, writeAll_of_not_mem unwritten, Function.update_self]

/-- Where a body is admitted and reads, each block counts its transactions as many as they are, and
links each under its place. What is stored in the end is the place of the last transaction of a
hash. -/
theorem counts_and_places_exact {body : List Nat} (admitted : body.length ≤ Http.greatestBody)
    {upload : Report.Upload}
    (read : Report.Upload.ofDocument (.ofSymbols (Json.symbolsOfOctets body)) = .ok upload) :
    ∀ block ∈ upload.blocks,
      block.transactions.length < 2 ^ 31 ∧
        (∃ indexes, LinksAt block indexes) ∧
        ∀ entry, block.toEntry = .ok entry →
          entry.transactionsCount.toInt = block.transactions.length ∧
            ∀ session after row, session.store.Shown → OnlyRefusals session.faults →
              storeBlock block entry session = (.ok row, after) →
                ∀ before transaction later, block.transactions = before ++ transaction :: later →
                  transaction.hash ∉ later.map (·.hash) →
                    ∃ index : Int32, index.toInt = before.length ∧
                      after.store.Places block.hash transaction.hash index := by
  intro block member
  have few := Report.length_transactions_lt_of_admitted admitted read member
  refine ⟨few, ⟨_, linksAt_of_few few⟩, fun entry converted => ⟨?_, ?_⟩⟩
  · rw [transactionsCount_of_toEntry converted]
    exact Report.toInt_ofNat_eq_iff.mpr few
  · intro session after row shown refusals stored before transaction later isAt last
    have places := places_of_storeBlock shown refusals stored isAt last
    rw [(toEntry_ok converted).1] at places
    refine ⟨_, Report.toInt_ofNat_eq_iff.mpr ?_, places⟩
    rw [isAt, List.length_append] at few
    omega

def bodyOf (block : Report.Block) : List Nat :=
  (Json.Value.object [("blocks", .array [block.toValue])]).write.map (·.toNat)

def pairedBlock : Report.Block :=
  { Store.sampleBlock with transactions := [Store.sampleTransaction, ⟨"u", 0, 1, [], [], [], []⟩] }

theorem pairedBlock_links_places :
    (bodyOf pairedBlock).length ≤ Http.greatestBody ∧
      Report.Upload.ofDocument (.ofSymbols (Json.symbolsOfOctets (bodyOf pairedBlock))) =
        .ok { blocks := [pairedBlock] } ∧
      ∃ indexes, LinksAt pairedBlock indexes ∧ indexes.map (·.toInt) = [0, 1] := by
  have admitted : (bodyOf pairedBlock).length ≤ Http.greatestBody := by decide +kernel
  have read : Report.Upload.ofDocument
      (.ofSymbols (Json.symbolsOfOctets (bodyOf pairedBlock))) =
        .ok { blocks := [pairedBlock] } := by
    decide +kernel
  obtain ⟨-, ⟨indexes, linksAt⟩, -⟩ :=
    counts_and_places_exact admitted read pairedBlock List.mem_cons_self
  exact ⟨admitted, read, indexes, linksAt, linksAt.places⟩

end Service
end ChainLedger
