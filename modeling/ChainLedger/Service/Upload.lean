import ChainLedger.Queue.Basic
import ChainLedger.Service.Error
import ChainLedger.Service.View

/-!
# Uploads

An upload is validated and converted as a whole before anything is written. Then its blocks are
taken in order, each in two steps: it is stored with its transactions in one unit of work, and
its transactions are queued for the ledger. An upload that fails keeps the blocks before.
-/

set_option autoImplicit false

namespace ChainLedger.Service

structure State where
  session : Session := {}
  queue : Queue := {}

def putBlock (entry : Report.BlockEntry) : Work StoreError Stored.Block := do
  match ← Work.select .blocks none (·.blockByHash? entry.hash) with
  | some row =>
    let row? ← Work.statement (.update .blocks) none fun session =>
      session.store.updateBlock row.id entry session.now
    Work.orFail row? .lostUpdate
  | none =>
    let row? ← Work.statement (.insert .blocks) none fun session =>
      let (row, store) := session.store.insertBlock entry session.now
      (some row, store)
    Work.orFail row? .lostInsert

def putTransaction (entry : Report.TransactionEntry) : Work StoreError Stored.Transaction := do
  match ← Work.select .transactions none (·.transactionByHash? entry.hash) with
  | some row =>
    let row? ← Work.statement (.update .transactions) none fun session =>
      session.store.updateTransaction row.id entry session.now
    Work.orFail row? .lostUpdate
  | none =>
    let row? ← Work.statement (.insert .transactions) none fun session =>
      let (row, store) := session.store.insertTransaction entry session.now
      (some row, store)
    Work.orFail row? .lostInsert

def putTransactions (blockId : Int) : Nat → List Report.Transaction → Work StoreError Unit
  | _, [] => pure ()
  | index, transaction :: rest => do
    let row ← putTransaction transaction.toEntry
    Work.statement (.insert .links) () fun session =>
      ((), session.store.putLink
        { blockId, transactionId := row.id, index := Int32.ofNat index })
    putTransactions blockId (index + 1) rest

def storeBlock (block : Report.Block) (entry : Report.BlockEntry) :
    Work StoreError Stored.Block :=
  Work.atomically id do
    let row ← putBlock entry
    putTransactions row.id 0 block.transactions
    return row

def enqueueAll (main : Bool) :
    List Report.Transaction → Queue → Except QueueError Unit × Queue
  | [], queue => (.ok (), queue)
  | transaction :: rest, queue =>
    match queue.enqueue { main, transaction } with
    | .ok queue => enqueueAll main rest queue
    | .error error => (.error error, queue)

/-- Stores blocks in order and queues the transactions of each. -/
def storeBlocks :
    List (Report.Block × Report.BlockEntry) → State → Except Error (List BlockView) × State
  | [], state => (.ok [], state)
  | (block, entry) :: rest, state =>
    match storeBlock block entry state.session with
    | (.error error, session) => (.error (.ofStore error), { state with session })
    | (.ok row, session) =>
      match enqueueAll row.entry.main block.transactions state.queue with
      | (.error error, queue) => (.error (.ofQueue error), { session, queue })
      | (.ok (), queue) =>
        match storeBlocks rest { session, queue } with
        | (.ok views, state) => (.ok (.of row :: views), state)
        | (.error error, state) => (.error error, state)

def prepare (upload : Report.Upload) : Except Error (List (Report.Block × Report.BlockEntry)) := do
  (upload.validate).mapError fun violation => Error.invalidRequest violation.message
  upload.blocks.mapM fun block => do
    let entry ← block.toEntry.mapError fun error => Error.invalidRequest error.message
    return (block, entry)

def upload (request : Report.Upload) (state : State) : Except Error (List BlockView) × State :=
  match prepare request with
  | .error error => (.error error, state)
  | .ok prepared => storeBlocks prepared state

end ChainLedger.Service
