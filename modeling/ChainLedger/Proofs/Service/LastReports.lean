import ChainLedger.Proofs.Service.Dispatching
import ChainLedger.Proofs.Service.Lasting

/-!
# The last report of each row

Where uploads are sent one after the other and all succeed, the blocks and transactions of the
store are a map of last reports: one row for each hash that has been reported, as it was reported
last. A row stays the same row from its first report on.
-/

set_option autoImplicit false

namespace ChainLedger

def Report.lastTransactionOf (reported : List Report.Block) (hash : String) :
    Option Report.Transaction :=
  ((reported.flatMap (·.transactions)).filter (·.hash = hash)).getLast?

/-- Blocks and transactions are stored once, as they were reported last. -/
structure Store.Refines (store : Store) (reported : List Report.Block) : Prop where
  blockHashes : (store.blocks.rows.map (·.entry.hash)).Nodup
  transactionHashes : (store.transactions.rows.map (·.entry.hash)).Nodup
  blocks : ∀ hash, (store.blockByHash? hash).map (fun row => .ok row.entry) =
    (Report.lastOf reported hash).map Report.Block.toEntry
  transactions : ∀ hash, (store.transactionByHash? hash).map (·.entry) =
    (Report.lastTransactionOf reported hash).map Report.Transaction.toEntry

namespace Service

def Client.reports (client : Client) : List Report.Block :=
  client.blocks.map (·.1) ++ client.requests.flatMap (·.blocks)

theorem Client.Finished.reports {client : Client} (finished : client.Finished) :
    client.reports = [] := by
  rw [Client.reports, Client.blocks, finished.1, finished.2]
  rfl

structure Client.Succeeded (client : Client) : Prop where
  finished : client.Finished
  answers : ∀ answer ∈ client.answers, ∃ views, answer = .ok views

theorem exists_ok_iff {ε α : Type} {result : Except ε α} :
    (∃ value, result = .ok value) ↔ result.toBool = true := by
  cases result <;> simp [Except.toBool]

instance (client : Client) : Decidable client.Succeeded :=
  decidable_of_iff (client.Finished ∧ ∀ answer ∈ client.answers, answer.toBool = true)
    ⟨fun ⟨finished, oks⟩ => ⟨finished, fun answer member => exists_ok_iff.mpr (oks answer member)⟩,
      fun ⟨finished, oks⟩ => ⟨finished, fun answer member => exists_ok_iff.mp (oks answer member)⟩⟩

variable {traffic after : Traffic} {client served : Client} {maxRetries : UInt32}

/-- What a client has reported and is still going to report stays the same, unless an upload
fails. -/
theorem Served.reports (serves : Served traffic client served after) :
    after.stored.map (·.1) ++ served.reports = traffic.stored.map (·.1) ++ client.reports ∨
      ∃ error, served.answers = client.answers ++ [.error error] := by
  cases serves with
  | idle => exact Or.inl rfl
  | rejected => exact Or.inr ⟨_, rfl⟩
  | refused => exact Or.inr ⟨_, rfl⟩
  | unsent => exact Or.inr ⟨_, rfl⟩
  | taken free next ready =>
      left
      simp [Client.reports, Client.blocks, free, next, blocks_of_prepare ready]
  | stored busy queued next kept =>
      left
      simp [Client.reports, Client.blocks, busy, next]
  | sent busy =>
      left
      simp [Client.reports, Client.blocks, busy]
  | answered busy queued ended =>
      left
      simp [Client.reports, Client.blocks, Client.answer, busy, ended]

namespace Traffic

/-- There is one client, and as long as its uploads succeed its reports are those that have been
stored and those that are still to come. -/
structure Reporting (reported : List Report.Block) (traffic : Traffic) (client : Client) :
    Prop where
  alone : traffic.clients = [client]
  reports : (∀ answer ∈ client.answers, ∃ views, answer = .ok views) →
    traffic.stored.map (·.1) ++ client.reports = reported

theorem Reporting.turn {reported : List Report.Block}
    (reporting : traffic.Reporting reported client) (turn : Turn) :
    ∃ client, (traffic.turn maxRetries turn).Reporting reported client := by
  obtain ⟨alone, reports⟩ := reporting
  cases turn with
  | worker =>
      obtain ⟨clients, stored, -⟩ := work_frame maxRetries traffic
      refine ⟨client, clients.trans alone, ?_⟩
      rw [Traffic.turn, stored]
      exact reports
  | wait now => exact ⟨client, alone, reports⟩
  | arm faults => exact ⟨client, alone, reports⟩
  | client index =>
      refine turn_client_alone index alone ⟨client, alone, reports⟩ fun served after serves => ?_
      refine ⟨served, rfl, fun succeed => ?_⟩
      have earlier := reports fun answer member =>
        succeed answer (serves.answers_prefix.subset member)
      rcases serves.reports with kept | ⟨error, answered⟩
      · exact kept.trans earlier
      · obtain ⟨views, isOk⟩ := succeed (.error error) (by simp [answered])
        cases isOk

theorem Reporting.run (maxRetries : UInt32) (requests : List Report.Upload) (state : State)
    (turns : List Turn) : ∃ client, ((start [requests] state).run maxRetries turns).Reporting
      (requests.flatMap (·.blocks)) client := by
  have step : ∀ (traffic : Traffic) (turn : Turn), True →
      (∃ client, traffic.Reporting (requests.flatMap (·.blocks)) client) →
        ∃ client, (traffic.turn maxRetries turn).Reporting (requests.flatMap (·.blocks)) client :=
    fun _ turn _ ⟨_, reporting⟩ => reporting.turn turn
  refine run_keeps step (fun _ _ => trivial) ⟨{ requests }, rfl, fun _ => ?_⟩
  simp [start, Client.reports, Client.blocks]

end Traffic

/-! ## Rows -/

section Rows

variable {store : Store} {content : Content} {stored : List Prepared} {jobs : List Job}

def lastStored (stored : List Prepared) (hash : String) : Option Prepared :=
  (stored.filter (·.1.hash = hash)).getLast?

theorem lastOf_stored (stored : List Prepared) (hash : String) :
    Report.lastOf (stored.map (·.1)) hash = (lastStored stored hash).map (·.1) := by
  rw [Report.lastOf, List.filter_map, List.getLast?_map]
  rfl

theorem valid_of_lastStored (valid : ∀ pair ∈ stored, pair.Valid) {hash : String} {pair : Prepared}
    (isLast : lastStored stored hash = some pair) : pair.Valid :=
  valid pair (List.mem_filter.mp (List.mem_of_getLast? isLast)).1

theorem entry_of_lastStored (shows : store.Shows ((content.stored stored).worked jobs))
    (valid : ∀ pair ∈ stored, pair.Valid) (hash : String) :
    (store.blockByHash? hash).map (·.entry) =
      ((lastStored stored hash).map fun pair => some pair.2).getD (content.blocks hash) := by
  have written : (stored.map Prepared.blockWrite).filter (·.1 = hash) =
      (stored.filter (·.1.hash = hash)).map Prepared.blockWrite := by
    rw [List.filter_map]
    congr 1
    apply List.filter_congr
    intro pair member
    have same := (toEntry_ok (valid pair member).2).1
    simp [Prepared.blockWrite, same]
  have found := shows.blocks hash
  change _ = writeAll content.blocks (stored.map Prepared.blockWrite) hash at found
  rw [found, writeAll_apply, written, List.getLast?_map, Option.map_map]
  rfl

theorem transactionEntry_of_lastStored (shows : store.Shows ((content.stored stored).worked jobs))
    (hash : String) :
    (store.transactionByHash? hash).map (·.entry) =
      ((Report.lastTransactionOf (stored.map (·.1)) hash).map fun transaction =>
        some transaction.toEntry).getD (content.transactions hash) := by
  have found := shows.transactions hash
  change _ = writeAll content.transactions
    (stored.flatMap fun pair => Prepared.transactionWrites pair.1.transactions) hash at found
  have writes : (stored.flatMap fun pair => Prepared.transactionWrites pair.1.transactions) =
      Prepared.transactionWrites ((stored.map (·.1)).flatMap (·.transactions)) := by
    simp only [Prepared.transactionWrites, List.map_flatMap, List.flatMap_map]
  rw [found, writeAll_apply, writes, Prepared.transactionWrites, List.filter_map,
    List.getLast?_map, Option.map_map]
  rfl

theorem refines_of_shows (shows : store.Shows ((content.stored stored).worked jobs))
    (valid : ∀ pair ∈ stored, pair.Valid) (blocks : content.blocks = fun _ => none)
    (transactions : content.transactions = fun _ => none) :
    store.Refines (stored.map (·.1)) := by
  refine ⟨shows.sound.chained.blocks.unique, shows.sound.chained.transactions.unique, ?_, ?_⟩
  · intro hash
    have entries := entry_of_lastStored shows valid hash
    rw [lastOf_stored]
    cases isLast : lastStored stored hash with
    | none =>
        rw [isLast, blocks] at entries
        rw [Option.map_eq_none_iff.mp entries]
        rfl
    | some pair =>
        rw [isLast] at entries
        obtain ⟨row, found, same⟩ := Option.map_eq_some_iff.mp entries
        rw [found, Option.map_some, same, ← (valid_of_lastStored valid isLast).2]
        rfl
  · intro hash
    rw [transactionEntry_of_lastStored shows hash, transactions]
    cases Report.lastTransactionOf (stored.map (·.1)) hash <;> rfl

end Rows

/-- A block is connected, and then disconnected with its transaction in it twice. -/
def retracted : List Report.Upload :=
  [{ blocks := [Store.sampleBlock] },
    { blocks :=
      [{ Store.sampleBlock with
        operation := .disconnected
        transactions := [Store.sampleTransaction, { Store.sampleTransaction with fee := 7 }] }] }]

end Service
end ChainLedger
