import ChainLedger.Proofs.Service.LastReports
import ChainLedger.Proofs.Service.Linking

/-!
# The contents of blocks

Where uploads are sent one after the other and all succeed, a block lists every transaction that
any of its reports has carried, while it counts those of its last report only. The two agree, and
the listing is that of the last report, as long as no report has carried a transaction that the
last one leaves out.
-/

set_option autoImplicit false

namespace ChainLedger

/-! ## Listings of reports -/

namespace Report

variable {reported : List Block} {blockHash hash : String} {last : Block} {listed : List String}

theorem toInt_ofNat_eq_iff {number : Nat} : (Int32.ofNat number).toInt = number ↔ number < 2 ^ 31 :=
  ⟨fun same => by have := (Int32.ofNat number).toInt_lt; omega, Int32.toInt_ofNat_of_lt⟩

theorem placeOf_lastOf (isLast : lastOf reported blockHash = some last)
    (carries : last.carries hash = true) :
    placeOf reported blockHash hash = some (Int32.ofNat (last.hashes.idxOf hash)) := by
  rw [placeOf, lastCarrying, getLast?_filter_of_getLast? isLast carries]
  rfl

/-- A listing shows the transactions that reports of a block have carried, each once and by its
place. -/
structure Lists (reported : List Block) (blockHash : String) (listed : List String) : Prop where
  distinct : listed.Nodup
  carried : ∀ hash, hash ∈ listed ↔
    ∃ block ∈ reported, block.hash = blockHash ∧ block.carries hash = true
  ordered : listed.Pairwise fun first second =>
    ∀ index ∈ placeOf reported blockHash first,
      ∀ later ∈ placeOf reported blockHash second, index.toInt ≤ later.toInt

/-- The last report of a block carries whatever any of its reports has carried. -/
def Covers (reported : List Block) (last : Block) : Prop :=
  ∀ block ∈ reported, block.hash = last.hash → ∀ hash ∈ block.hashes, hash ∈ last.hashes

theorem pairwise_idxOf (distinct : listed.Nodup) :
    listed.Pairwise fun first second => listed.idxOf first ≤ listed.idxOf second := by
  rw [List.pairwise_iff_getElem]
  intro first second isFirst isSecond before
  rw [distinct.idxOf_getElem, distinct.idxOf_getElem]
  exact before.le

theorem Lists.eq_of_covers (lists : Lists reported last.hash listed)
    (isLast : lastOf reported last.hash = some last) (distinct : last.hashes.Nodup)
    (covers : Covers reported last) (few : last.hashes.length ≤ 2 ^ 31) :
    listed = last.hashes := by
  have isReported : last ∈ reported := List.mem_of_mem_filter (List.mem_of_getLast? isLast)
  have same : ∀ hash, hash ∈ listed ↔ hash ∈ last.hashes := by
    intro hash
    rw [lists.carried]
    constructor
    · rintro ⟨block, member, own, carries⟩
      exact covers block member own hash (carries_iff.mp carries)
    · exact fun member => ⟨last, isReported, rfl, carries_iff.mpr member⟩
  have place : ∀ hash ∈ listed, ∃ index ∈ placeOf reported last.hash hash,
      index.toInt = last.hashes.idxOf hash := by
    intro hash member
    have carried := (same hash).mp member
    refine ⟨_, placeOf_lastOf isLast (carries_iff.mpr carried), Int32.toInt_ofNat_of_lt ?_⟩
    exact (List.idxOf_lt_length_iff.mpr carried).trans_le few
  have ordered : listed.Pairwise fun first second =>
      last.hashes.idxOf first ≤ last.hashes.idxOf second := by
    refine lists.ordered.imp_of_mem fun {first second} isFirst isSecond before => ?_
    obtain ⟨index, isIndex, first⟩ := place first isFirst
    obtain ⟨later, isLater, second⟩ := place second isSecond
    have below := before index isIndex later isLater
    omega
  refine List.Perm.eq_of_pairwise ?_ ordered (pairwise_idxOf distinct)
    ((List.perm_ext_iff_of_nodup lists.distinct distinct).mpr same)
  intro first second isFirst _ below above
  exact (List.idxOf_inj ((same first).mp isFirst)).mp (Nat.le_antisymm below above)

theorem Lists.agrees_iff (lists : Lists reported last.hash listed)
    (isLast : lastOf reported last.hash = some last) (distinct : last.hashes.Nodup) :
    listed = last.hashes ∧ (listed.length : Int) = (Int32.ofNat last.transactions.length).toInt ↔
      Covers reported last ∧ last.transactions.length < 2 ^ 31 := by
  have counted : last.hashes.length = last.transactions.length := List.length_map _
  constructor
  · rintro ⟨rfl, count⟩
    rw [counted] at count
    refine ⟨fun block member own hash carried => ?_, toInt_ofNat_eq_iff.mp count.symm⟩
    exact (lists.carried hash).mpr ⟨block, member, own, carries_iff.mpr carried⟩
  · rintro ⟨covers, few⟩
    have same := lists.eq_of_covers isLast distinct covers (counted.trans_le few.le)
    refine ⟨same, ?_⟩
    rw [same, counted, toInt_ofNat_eq_iff.mpr few]

end Report

/-! ## Contents of a store -/

section Contents

variable {store : Store} {content : Content} {stored : List Prepared} {jobs : List Job}

theorem Store.Shows.lists (shows : store.Shows ((content.stored stored).worked jobs))
    (unlinked : content.links = fun _ => none) (valid : ∀ pair ∈ stored, pair.Valid)
    (distinct : ∀ pair ∈ stored, pair.1.hashes.Nodup) {row : Stored.Block}
    (isRow : row ∈ store.blocks.rows) :
    Report.Lists (stored.map (·.1)) row.entry.hash (store.listedHashes row.id) := by
  have places : ∀ hash, ((content.stored stored).worked jobs).links (row.entry.hash, hash) =
      Report.placeOf (stored.map (·.1)) row.entry.hash hash := by
    intro hash
    change writeAll content.links _ _ = _
    rw [unlinked]
    exact Prepared.writeAll_links
      (fun pair member => (Service.toEntry_ok (valid pair member).2).1) distinct _ hash
  refine
    { distinct := shows.nodup_listedHashes row.id
      carried := fun hash => ?_
      ordered := ?_ }
  · rw [shows.mem_listedHashes isRow, places, Report.isSome_placeOf]
  · have ordered := shows.pairwise_listedHashes isRow
    simp only [places] at ordered
    exact ordered

end Contents

namespace Service

open Work

structure ServesContents (session : Session) (row : Stored.Block) : Prop where
  found : ∃ view transactions, (findBlock (some row.entry.hash) none).Reads session view ∧
    view.transactionsCount = row.entry.transactionsCount ∧
      view.transactions = some transactions ∧
        transactions.map (·.hash) = session.store.listedHashes row.id
  listed : ∀ paging, ∃ page, (listTransactions (some row.entry.hash) paging).Reads session page ∧
    page.total = (session.store.listedHashes row.id).length ∧
      page.data.map (·.hash) = paging.rows (session.store.listedHashes row.id)

theorem servesContents_of_calm {session : Session} (calm : session.faults = [])
    {row : Stored.Block} (found : session.store.blockByHash? row.entry.hash = some row)
    (named : row.entry.hash.isEmpty = false) : ServesContents session row := by
  refine ⟨⟨_, _, findBlock_reads calm found none, rfl, rfl, ?_⟩, fun paging =>
    ⟨_, listTransactions_reads_of_block calm named found paging, ?_, ?_⟩⟩
  · rw [List.map_map]
    rfl
  · simp only [Paging.pageOf, Store.listedHashes, List.length_map]
  · simp only [Paging.pageOf, Paging.rows, List.map_take, List.map_drop, List.map_map]
    rfl

theorem transactionsCount_of_toEntry {block : Report.Block} {entry : Report.BlockEntry}
    (converted : block.toEntry = .ok entry) :
    entry.transactionsCount = Int32.ofNat block.transactions.length := by
  obtain ⟨difficulty, work, timestamp, rfl⟩ := toEntry_reads converted
  rfl

theorem isEmpty_of_validate {block : Report.Block} (valid : block.validate = .ok ()) :
    block.hash.isEmpty = false := by
  simp only [Report.Block.validate, andThen_ok_iff, require_ok_iff] at valid
  obtain ⟨named, -⟩ := valid
  rw [← Bool.not_eq_true, String.isEmpty_iff]
  intro unnamed
  rw [unnamed] at named
  exact absurd named (by decide)

/-- Where uploads are sent one after the other and all succeed, whatever the worker does between
their steps, each block lists every transaction that its reports have carried, in the order of
their places in the last reports that carried them, and counts those of its last report. It lists
and counts the same exactly if the last report covers all others. -/
theorem blocks_list_carried_transactions (maxRetries : UInt32) {state : State}
    (empty : state.session.store.Empty) (refusals : OnlyRefusals state.session.faults)
    (requests : List Report.Upload) {turns : List Turn}
    (refusing : ∀ turn ∈ turns, turn.Refusing)
    (distinct : ∀ block ∈ requests.flatMap (·.blocks), block.hashes.Nodup) :
    let reported := requests.flatMap (·.blocks)
    let after := (Traffic.start [requests] state).run maxRetries turns
    let session := after.state.session.calm
    (∀ client ∈ after.clients, client.Succeeded) → ∀ row ∈ session.store.blocks.rows,
      let listed := session.store.listedHashes row.id
      let count := row.entry.transactionsCount
      ServesContents session row ∧ Report.Lists reported row.entry.hash listed ∧
        ∃ last, Report.lastOf reported row.entry.hash = some last ∧
          count = Int32.ofNat last.transactions.length ∧
            (listed = last.hashes ∧ (listed.length : Int) = count.toInt ↔
              Report.Covers reported last ∧ last.transactions.length < 2 ^ 31) := by
  intro reported after session succeeded row isRow listed count
  have told : after.Told _ _ :=
    (Traffic.told_run maxRetries empty.shows refusals [requests] refusing).1
  have valid : ∀ pair ∈ after.stored, pair.Valid := Traffic.valid_of_stored
  obtain ⟨client, alone, reports⟩ := Traffic.Reporting.run maxRetries requests state turns
  obtain ⟨finished, answers⟩ := succeeded client (by simp [after, alone])
  have all := reports answers
  rw [finished.reports, List.append_nil] at all
  change after.stored.map (·.1) = reported at all
  have found : session.store.blockByHash? row.entry.hash = some row :=
    find?_key_of_mem told.shows.sound.chained.blocks.unique isRow
  have members : ∀ block, block ∈ reported ↔ ∃ pair ∈ after.stored, pair.1 = block := by
    intro block
    rw [← all, List.mem_map]
  have distinctStored : ∀ pair ∈ after.stored, pair.1.hashes.Nodup := fun pair member =>
    distinct pair.1 ((members _).mpr ⟨pair, member, rfl⟩)
  have lists := told.shows.lists rfl valid distinctStored isRow
  have entries := (refines_of_shows told.shows valid rfl rfl).blocks row.entry.hash
  rw [all] at lists entries
  obtain ⟨last, isLast, converted⟩ :=
    Option.map_eq_some_iff.mp ((congrArg _ found.symm).trans entries).symm
  have isReported : last ∈ reported := List.mem_of_mem_filter (List.mem_of_getLast? isLast)
  obtain ⟨pair, isStored, rfl⟩ := (members last).mp isReported
  have own : row.entry.hash = pair.1.hash := (toEntry_ok converted).1
  have counted := transactionsCount_of_toEntry converted
  refine ⟨servesContents_of_calm rfl found ?_, lists, pair.1, isLast, counted, ?_⟩
  · rw [own]
    exact isEmpty_of_validate (valid pair isStored).1
  · rw [own] at lists isLast
    have agrees := lists.agrees_iff isLast (distinct pair.1 isReported)
    rw [← counted] at agrees
    exact agrees

/-- A block is connected with one transaction, and then disconnected without any. -/
def emptied : List Report.Upload :=
  [{ blocks := [Store.sampleBlock] },
    { blocks := [{ Store.sampleBlock with operation := .disconnected, transactions := [] }] }]

theorem emptied_lists_carried_transaction :
    let reported := emptied.flatMap (·.blocks)
    let after := (Traffic.start [emptied] {}).run 0 (List.replicate 7 (.client 0) ++ [.worker])
    let session := after.state.session.calm
    (∀ client ∈ after.clients, client.Succeeded) ∧ ∃ row ∈ session.store.blocks.rows,
      row.entry.hash = "b" ∧ session.store.listedHashes row.id = ["t"] ∧
        row.entry.transactionsCount = 0 ∧ ServesContents session row ∧
          ∃ last, Report.lastOf reported "b" = some last ∧ last.hashes = [] ∧
            ¬Report.Covers reported last := by
  intro reported after session
  have refusing : ∀ turn ∈ List.replicate 7 (.client 0) ++ [.worker], Turn.Refusing turn := by
    simp [Turn.Refusing]
  have empty : ({} : State).session.store.Empty := ⟨rfl, rfl, rfl, rfl, rfl⟩
  have distinct : ∀ block ∈ emptied.flatMap (·.blocks), block.hashes.Nodup := by decide
  have succeeded : ∀ client ∈ after.clients, client.Succeeded := by decide +kernel
  obtain ⟨row, isRow, own, listed, count⟩ : ∃ row ∈ session.store.blocks.rows,
      row.entry.hash = "b" ∧ session.store.listedHashes row.id = ["t"] ∧
        row.entry.transactionsCount = 0 := by
    decide +kernel
  obtain ⟨serves, -, last, isLast, -, agrees⟩ :=
    blocks_list_carried_transactions 0 empty OnlyRefusals.nil emptied refusing distinct succeeded
      row isRow
  rw [own] at isLast
  have none : last.hashes = [] := by
    have counted : (Report.lastOf reported "b").map (·.hashes) = some [] := by decide +kernel
    rw [isLast] at counted
    exact Option.some.inj counted
  refine ⟨succeeded, row, isRow, own, listed, count, serves, last, isLast, none, fun covers => ?_⟩
  have few : last.transactions.length < 2 ^ 31 := by
    rw [← List.length_map (·.hash)]
    change last.hashes.length < _
    rw [none]
    decide
  have same := (agrees.mpr ⟨covers, few⟩).1
  rw [listed, none] at same
  cases same

end Service
end ChainLedger
