import ChainLedger.Proofs.Service.Run
import ChainLedger.Proofs.Store.Refusals

/-!
# Block by block

Blocks are stored one after the other, each in one unit of work, and the transactions of each are
queued once it is stored. On every store a block is stored unless one of its statements is
refused, and then nothing of it is. `Stores` says that a list of blocks has been stored and
queued, and `stores_or_stops` that otherwise there is a first block that has failed.
-/

set_option autoImplicit false

namespace ChainLedger.Service

open Work

/-! ## Steadiness -/

theorem steady_returning {Row : Type} (statement : Statement)
    {effect : Session → Option Row × Store} (error : StoreError)
    (blind : ∀ session : Session, effect session.calm = effect session) :
    (Work.statement statement none effect >>= fun row? => orFail row? error).Steady :=
  (steady_statement _ _ blind).bind fun _ => steady_orFail _ _

theorem steady_putBlock (entry : Report.BlockEntry) : (putBlock entry).Steady := by
  refine (steady_select _ _ _).bind fun row? => ?_
  cases row? with
  | some row => exact steady_returning _ _ fun _ => rfl
  | none => exact steady_returning _ _ fun _ => rfl

theorem steady_putTransaction (entry : Report.TransactionEntry) :
    (putTransaction entry).Steady := by
  refine (steady_select _ _ _).bind fun row? => ?_
  cases row? with
  | some row => exact steady_returning _ _ fun _ => rfl
  | none => exact steady_returning _ _ fun _ => rfl

theorem steady_putTransactions (blockId : Int) (transactions : List Report.Transaction) :
    ∀ index, (putTransactions blockId index transactions).Steady := by
  induction transactions with
  | nil => exact fun _ => steady_pure ()
  | cons transaction rest ih =>
      intro index
      refine (steady_putTransaction _).bind fun row => ?_
      exact (steady_statement _ _ fun _ => rfl).bind fun _ => ih (index + 1)

theorem steady_storeBlock (block : Report.Block) (entry : Report.BlockEntry) :
    (storeBlock block entry).Steady := by
  refine Steady.atomically ?_ id
  refine (steady_putBlock entry).bind fun row => ?_
  exact (steady_putTransactions row.id block.transactions 0).bind fun _ => steady_pure row

/-! ## Storing on any store -/

variable {store : Store} {now : Instant}

/-- On any store a block is answered for with its standing, and with all that was reported where
the blocks are numbered. -/
def Answers (entry : Report.BlockEntry) (before : Store) (row : Stored.Block) (after : Store) :
    Prop :=
  row.entry.main = entry.main ∧
    (before.blocks.Numbered (·.id) → row.entry = entry ∧ after.blocks.Numbered (·.id))

theorem answers_updateBlock {row : Stored.Block} (stored : row ∈ store.blocks.rows)
    {entry : Report.BlockEntry} (same : row.entry.hash = entry.hash) (now : Instant) :
    ∃ answer after, store.updateBlock row.id entry now = (some answer, after) ∧
      Answers entry store answer after := by
  obtain ⟨other, original, sameId, found⟩ :=
    store.blocks.find?_modify stored fun other => (rfl : (other.refresh entry now).id = other.id)
  refine ⟨other.refresh entry now, _, Prod.ext found rfl, rfl, fun numbered => ⟨?_, ?_⟩⟩
  · rw [List.inj_on_of_nodup_map numbered.nodup original stored sameId]
    exact refresh_entry same now
  · exact numbered.modify _ fun _ => rfl

theorem putBlock_answers (store : Store) (entry : Report.BlockEntry) (now : Instant) :
    (putBlock entry).Yields store now (Answers entry store) fun _ => False := by
  rw [putBlock]
  apply Yields.bind fun row? after => row? = store.blockByHash? entry.hash ∧ store = after
  · exact yields_select ⟨rfl, rfl⟩
  rintro row? after ⟨rfl, rfl⟩
  cases found : store.blockByHash? entry.hash with
  | some row =>
      apply returning_yields
      exact fun _ => answers_updateBlock (List.mem_of_find?_eq_some found)
        (by simpa using List.find?_some found) now
  | none =>
      apply returning_yields
      exact fun _ => ⟨_, _, rfl, rfl, fun numbered =>
        ⟨rfl, numbered.add store.blocks_lastId_lt_nextId⟩⟩

theorem putTransaction_answers (store : Store) (entry : Report.TransactionEntry)
    (now : Instant) :
    (putTransaction entry).Yields store now (fun _ after => after.blocks = store.blocks)
      fun _ => False := by
  rw [putTransaction]
  apply Yields.bind fun row? after => row? = store.transactionByHash? entry.hash ∧ store = after
  · exact yields_select ⟨rfl, rfl⟩
  rintro row? after ⟨rfl, rfl⟩
  cases found : store.transactionByHash? entry.hash with
  | some row =>
      apply returning_yields
      intro _
      obtain ⟨other, -, -, answered⟩ := store.transactions.find?_modify
        (List.mem_of_find?_eq_some found)
        fun other => (rfl : (other.refresh entry now).id = other.id)
      exact ⟨_, _, Prod.ext answered rfl, rfl⟩
  | none =>
      apply returning_yields
      exact fun _ => ⟨_, _, rfl, rfl⟩

theorem putTransactions_answers (blockId : Int) (transactions : List Report.Transaction)
    (now : Instant) : ∀ (index : Nat) (store : Store),
      (putTransactions blockId index transactions).Yields store now
        (fun _ after => after.blocks = store.blocks) fun _ => False := by
  induction transactions with
  | nil => exact fun index store => yields_pure rfl
  | cons transaction rest ih =>
      intro index store
      apply Yields.bind _ (putTransaction_answers store transaction.toEntry now)
      intro row middle same
      apply Yields.bind fun _ after => after.blocks = store.blocks
      · exact yields_statement fun _ => same
      · intro _ after same
        rw [← same]
        exact ih (index + 1) after

theorem storeBlock_answers (store : Store) (block : Report.Block) (entry : Report.BlockEntry)
    (now : Instant) :
    (storeBlock block entry).Yields store now (Answers entry store) fun _ => False := by
  apply Yields.atomically
  apply Yields.bind _ (putBlock_answers store entry now)
  rintro row middle ⟨main, numbered⟩
  apply Yields.bind _ (putTransactions_answers row.id block.transactions now 0 middle)
  intro _ after same
  refine yields_pure ⟨main, ?_⟩
  rw [same]
  exact numbered

/-! ## Blocks in order -/

/-- The state without the faults that are armed. -/
def State.calm (state : State) : State := { state with session := state.session.calm }

inductive Stores :
    List (Report.Block × Report.BlockEntry) → State → List Stored.Block → State → Prop
  | nil {state : State} : Stores [] state [] state
  | cons {block : Report.Block} {entry : Report.BlockEntry}
      {rest : List (Report.Block × Report.BlockEntry)} {state after : State} {row : Stored.Block}
      {rows : List Stored.Block} {session : Session} {queue : Queue}
      (kept : storeBlock block entry state.session = (.ok row, session))
      (sent : enqueueAll row.entry.main block.transactions state.queue = (.ok (), queue))
      (others : Stores rest { session, queue } rows after) :
      Stores ((block, entry) :: rest) state (row :: rows) after

variable {prepared : List (Report.Block × Report.BlockEntry)} {state after reached : State}
  {rows : List Stored.Block} {block : Report.Block} {entry : Report.BlockEntry}

theorem Stores.storeBlocks_eq (stores : Stores prepared state rows after) :
    storeBlocks prepared state = (.ok (rows.map .of), after) := by
  induction stores with
  | nil => rfl
  | cons kept sent _ ih =>
      rw [storeBlocks, kept]
      simp only [sent, ih]
      rfl

theorem stores_of_ok {views : List BlockView} :
    ∀ {state : State}, storeBlocks prepared state = (.ok views, after) →
      ∃ rows, Stores prepared state rows after ∧ views = rows.map .of := by
  induction prepared generalizing views with
  | nil =>
      intro state ran
      obtain ⟨same, rfl⟩ := Prod.mk.inj ran
      exact ⟨[], .nil, (Except.ok.inj same).symm⟩
  | cons pair rest ih =>
      intro state ran
      obtain ⟨row, queue, session, kept, sent, others, ended, rfl⟩ := storeBlocks_cons_ok ran
      obtain ⟨rows, stores, rfl⟩ := ih ended
      exact ⟨row :: rows, .cons kept sent stores, rfl⟩

theorem Stores.stop (stores : Stores prepared state rows reached) {error : StoreError}
    {session : Session} (failed : storeBlock block entry reached.session = (.error error, session))
    (rest : List (Report.Block × Report.BlockEntry)) :
    storeBlocks (prepared ++ (block, entry) :: rest) state =
      (.error (.ofStore error), { reached with session }) := by
  induction stores with
  | nil => rw [List.nil_append, storeBlocks, failed]
  | cons kept sent _ ih =>
      rw [List.cons_append, storeBlocks, kept]
      simp only [sent, ih failed]

theorem enqueueAll_of_open (main : Bool) (transactions : List Report.Transaction) :
    ∀ {queue : Queue}, queue.isOpen = true →
      ∃ after, enqueueAll main transactions queue = (.ok (), after) ∧ after.isOpen = true := by
  induction transactions with
  | nil => exact fun isOpen => ⟨_, rfl, isOpen⟩
  | cons transaction rest ih =>
      intro queue isOpen
      have sent : queue.enqueue { main, transaction } = .ok { queue with
          jobs := queue.jobs ++ [{ main, transaction }]
          counters := queue.counters.markEnqueued } := by
        rw [Queue.enqueue, Queue.send, if_pos isOpen]
        rfl
      rw [enqueueAll, sent]
      exact ih isOpen

theorem Stores.isOpen (stores : Stores prepared state rows after)
    (isOpen : state.queue.isOpen = true) : after.queue.isOpen = true := by
  induction stores with
  | nil => exact isOpen
  | cons _ sent _ ih =>
      obtain ⟨queue, same, stillOpen⟩ := enqueueAll_of_open _ _ isOpen
      rw [sent] at same
      obtain rfl := (Prod.mk.inj same).2
      exact ih stillOpen

/-- Blocks can be stored up to the first that fails, where the queue is open. -/
theorem stores_or_stops (prepared : List (Report.Block × Report.BlockEntry)) :
    ∀ state : State, state.queue.isOpen = true →
      (∃ rows after, Stores prepared state rows after) ∨
      ∃ done block entry rest rows reached error session,
        prepared = done ++ (block, entry) :: rest ∧ Stores done state rows reached ∧
          storeBlock block entry reached.session = (.error error, session) := by
  induction prepared with
  | nil => exact fun state _ => Or.inl ⟨[], state, .nil⟩
  | cons pair rest ih =>
      intro state isOpen
      obtain ⟨block, entry⟩ := pair
      rcases kept : storeBlock block entry state.session with ⟨error | row, session⟩
      · exact Or.inr ⟨[], block, entry, rest, [], state, error, session, rfl, .nil, kept⟩
      · obtain ⟨queue, sent, stillOpen⟩ :=
          enqueueAll_of_open row.entry.main block.transactions isOpen
        rcases ih { session, queue } stillOpen with ⟨rows, after, stores⟩ |
          ⟨done, other, otherEntry, rest', rows, reached, error, last, rfl, stores, failed⟩
        · exact Or.inl ⟨row :: rows, after, .cons kept sent stores⟩
        · exact Or.inr ⟨(block, entry) :: done, other, otherEntry, rest', row :: rows, reached,
            error, last, rfl, .cons kept sent stores, failed⟩

/-! ## Refusals -/

/-- A block is stored unless one of its statements is refused, and then nothing of it is. -/
theorem refused_of_storeBlock_error {session last : Session} {error : StoreError}
    (refusals : OnlyRefusals session.faults)
    (failed : storeBlock block entry session = (.error error, last)) :
    session.Refused last ∧ last.calm = session.calm ∧ OnlyRefusals last.faults := by
  obtain ⟨result, reached, ran, settled, ends⟩ := steady_storeBlock block entry session refusals
  rw [failed] at ran
  obtain ⟨rfl, rfl⟩ := Prod.mk.inj ran
  refine ⟨?_, ?_, settled.refusals⟩
  · rcases ends with ⟨-, refused⟩ | ⟨-, calm⟩
    · exact refused
    · have answers := storeBlock_answers session.store block entry session.now [] .nil
      change Ends [] session.now _ _ (storeBlock block entry session.calm) at answers
      rw [calm] at answers
      exact (answers.2.resolve_left fun armed => armed rfl).elim
  · rw [Session.calm, Session.calm, store_of_atomically_error _ _ failed, settled.clock]

theorem stores_of_noFaults {session : Session} (noFaults : session.faults = [])
    (block : Report.Block) (entry : Report.BlockEntry) :
    ∃ row after, storeBlock block entry session = (.ok row, after) := by
  rcases ran : storeBlock block entry session with ⟨error | row, after⟩
  · obtain ⟨refused, -, -⟩ := refused_of_storeBlock_error (noFaults ▸ OnlyRefusals.nil) ran
    rw [Session.Refused, noFaults] at refused
    exact absurd refused (Nat.not_lt_zero _)
  · exact ⟨row, after, rfl⟩

theorem Stores.calm (stores : Stores prepared state rows after)
    (refusals : OnlyRefusals state.session.faults) :
    Stores prepared state.calm rows after.calm ∧ state.session.Spared after.session ∧
      OnlyRefusals after.session.faults := by
  induction stores with
  | nil => exact ⟨.nil, rfl, refusals⟩
  | cons kept sent _ ih =>
      obtain ⟨spared, calm⟩ := (steady_storeBlock _ _).of_ok refusals kept
      obtain ⟨others, sparedOthers, last⟩ := ih ((steady_storeBlock _ _).refusals refusals kept)
      exact ⟨.cons calm sent others, spared.trans sparedOthers, last⟩

theorem Stores.jobs (stores : Stores prepared state rows after)
    (refusals : OnlyRefusals state.session.faults) :
    after.queue.jobs = state.queue.jobs ++
      prepared.flatMap fun pair => pair.1.transactions.map (Job.mk pair.2.main) := by
  induction stores with
  | nil => simp
  | cons kept sent _ ih =>
      have main := ((storeBlock_answers _ _ _ _).of_ok refusals kept).1
      rw [ih ((steady_storeBlock _ _).refusals refusals kept), enqueueAll_ok sent, main]
      simp

theorem Stores.entries (stores : Stores prepared state rows after)
    (refusals : OnlyRefusals state.session.faults)
    (numbered : state.session.store.blocks.Numbered (·.id)) :
    List.Forall₂ (fun pair row => row.entry = pair.2) prepared rows := by
  induction stores with
  | nil => exact .nil
  | cons kept sent _ ih =>
      obtain ⟨same, numbered⟩ := ((storeBlock_answers _ _ _ _).of_ok refusals kept).2 numbered
      exact .cons same (ih ((steady_storeBlock _ _).refusals refusals kept) numbered)

end ChainLedger.Service
