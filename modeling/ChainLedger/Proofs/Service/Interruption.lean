import ChainLedger.Proofs.Service.Blockwise
import ChainLedger.Proofs.Service.MainChain
import ChainLedger.Proofs.Service.Preparing

/-!
# Interrupted uploads

A statement that is refused within a block stops the upload there: the blocks before it are stored
and queued as if they had been all of the upload, and nothing of it or of later ones is left. This
holds on every store and for every queue.
-/

set_option autoImplicit false

namespace ChainLedger.Service

variable {prepared : List (Report.Block × Report.BlockEntry)} {state after reached : State}
  {rows : List Stored.Block} {request : Report.Upload} {count : Nat}

/-- What an upload leaves that stops at a block: what an upload of the blocks before leaves that
meets no fault. -/
structure Stopped (request : Report.Upload) (count : Nat) (before after : State) : Prop where
  earlier : 0 < count →
    ∃ views, upload { blocks := request.blocks.take count } before.calm = (.ok views, after.calm)
  none : count = 0 → after.calm = before.calm
  jobs : after.queue.jobs = before.queue.jobs ++ (request.blocks.take count).flatMap (·.jobs)

structure Uploaded (request : Report.Upload) (before : State) (views : List BlockView)
    (after : State) : Prop where
  jobs : after.queue.jobs = before.queue.jobs ++ request.blocks.flatMap (·.jobs)
  views : before.session.store.blocks.Numbered (·.id) →
    List.Forall₂ (fun block view => ∃ row : Stored.Block, block.toEntry = .ok row.entry ∧
      view = .of row) request.blocks views

theorem Stores.stopped (ready : prepare request = .ok prepared)
    (stores : Stores (prepared.take count) state rows reached)
    (refusals : OnlyRefusals state.session.faults) (same : after.calm = reached.calm) :
    Stopped request count state after := by
  obtain ⟨calm, -, -⟩ := stores.calm refusals
  refine ⟨?_, ?_, ?_⟩
  · intro positive
    refine ⟨rows.map .of, ?_⟩
    rw [upload_of_prepare (prepare_take ready positive), same]
    exact calm.storeBlocks_eq
  · rintro rfl
    cases stores
    exact same
  · have queue : after.calm.queue = reached.calm.queue := congrArg State.queue same
    change after.queue = reached.queue at queue
    rw [queue, stores.jobs refusals, jobs_of_prepare ready]

theorem Stores.uploaded (ready : prepare request = .ok prepared)
    (stores : Stores prepared state rows after) (refusals : OnlyRefusals state.session.faults) :
    Uploaded request state (rows.map .of) after := by
  refine ⟨?_, fun numbered => ?_⟩
  · have jobs := jobs_of_prepare ready prepared.length
    rw [List.take_length, (prepare_ok ready).length_eq.symm, List.take_length] at jobs
    rw [stores.jobs refusals, jobs]
  · have entries := stores.entries refusals numbered
    have each := prepare_ok ready
    clear ready stores
    generalize request.blocks = blocks at each ⊢
    induction each generalizing rows with
    | nil =>
        cases entries
        exact .nil
    | cons first _ ih =>
        obtain ⟨rfl, converted⟩ := first
        cases entries with
        | cons same others => exact .cons ⟨_, by rw [same]; exact converted, rfl⟩ (ih others)

def refusedLink : State :=
  { session := { faults := [{ statement := .insert .links, skip := 1, mode := .refused }] } }

end ChainLedger.Service
