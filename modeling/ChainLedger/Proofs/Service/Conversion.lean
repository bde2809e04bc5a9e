import ChainLedger.Proofs.Report.Checks
import ChainLedger.Proofs.Service.Blockwise
import ChainLedger.Proofs.Service.Preparing
import ChainLedger.Proofs.Store.Answers

/-!
# From reported blocks to served ones

A valid block is converted, stored and served without loss: what was reported as digits is stored
as the number that they denote, and served as the same digits without leading zeros. A request
that is not valid is refused before anything is written, and of a valid one no block fails to be
converted.
-/

set_option autoImplicit false

namespace ChainLedger.Service

/-- The entry of a block keeps the numbers that were reported. -/
structure Converts (block : Report.Block) (entry : Report.BlockEntry) : Prop where
  difficulty : entry.difficulty = .ofNat (Text.digitsValue block.difficulty.toList)
  work : entry.work = .ofNat (block.work.elim 0 fun work => Text.digitsValue work.toList)
  timestamp : entry.timestamp = ⟨block.timestamp.toInt⟩

structure ServedAs (block : Report.Block) (view : BlockView) : Prop where
  difficulty : view.difficulty = Text.withoutLeadingZeros block.difficulty
  work : view.work = block.work.elim "0" Text.withoutLeadingZeros
  timestamp : view.timestamp = ⟨block.timestamp.toInt⟩

/-! ## Converting -/

variable {block : Report.Block} {entry : Report.BlockEntry}

theorem read_of_quantity {text : String} (quantity : Report.Quantity text) :
    Decimal.read text = .ok (.ofNat (Text.digitsValue text.toList)) := by
  have fits : Text.digitsValue text.toList < Decimal.coefficientBound :=
    Nat.lt_succ_of_le quantity.fits
  rw [Decimal.read_of_digitRun quantity.digits, if_pos fits]

theorem readWork_of_documented (documented : block.Documented) :
    block.readWork =
      .ok (.ofNat (block.work.elim 0 fun work => Text.digitsValue work.toList)) := by
  rw [Report.Block.readWork]
  cases reported : block.work with
  | none => rfl
  | some text =>
      simp only [read_of_quantity (documented.work text reported)]
      rfl

theorem converts_of_documented (documented : block.Documented) :
    ∃ entry, block.toEntry = .ok entry ∧ Converts block entry := by
  have time : Instant.ofMilliseconds? block.timestamp.toInt = some ⟨block.timestamp.toInt⟩ :=
    if_pos documented.timestamp
  rw [Report.Block.toEntry, read_of_quantity documented.difficulty,
    readWork_of_documented documented, time]
  exact ⟨_, rfl, rfl, rfl, rfl⟩

theorem servedAs_of_converts (documented : block.Documented) (converts : Converts block entry)
    {row : Stored.Block} (agrees : { row.entry with hash := entry.hash } = entry) :
    ServedAs block (.of row) := by
  obtain ⟨difficulty, work, timestamp⟩ := converts
  rw [← agrees] at difficulty work timestamp
  refine ⟨?_, ?_, timestamp⟩
  · refine (congrArg Decimal.normalText difficulty).trans ?_
    exact Decimal.normalText_of_digitRun documented.difficulty.digits
  · refine (congrArg Decimal.normalText work).trans ?_
    cases reported : block.work with
    | none => decide
    | some text => exact Decimal.normalText_of_digitRun (documented.work text reported).digits

/-! ## Storing, wherever statements are refused or lost -/

open Work

theorem returning_ok {Row : Type} {statement : Statement}
    {effect : Session → Option Row × Store} {error : StoreError} {session after : Session}
    {row : Row} (ran : (Work.statement statement none effect >>= fun row? => orFail row? error)
      session = (.ok row, after)) :
    (effect session).1 = some row ∧ after.store = (effect session).2 := by
  obtain ⟨row?, middle, stated, answered⟩ := bind_ok ran
  rcases row? with _ | found
  · cases answered
  obtain ⟨same, rfl⟩ := Prod.mk.inj answered
  obtain rfl := Except.ok.inj same
  rw [Work.statement] at stated
  rcases asked : ArmedFault.ask statement session.faults with ⟨_ | _ | _, rest⟩
  · rw [asked] at stated
    obtain ⟨told, rfl⟩ := Prod.mk.inj stated
    exact ⟨Except.ok.inj told, rfl⟩
  · rw [asked] at stated
    cases stated
  · rw [asked] at stated
    cases (Prod.mk.inj stated).1

theorem putBlock_ok {session after : Session} {row : Stored.Block}
    (ran : putBlock entry session = (.ok row, after)) :
    row ∈ after.store.blocks.rows ∧ { row.entry with hash := entry.hash } = entry := by
  obtain ⟨old?, middle, -, wrote⟩ := bind_ok ran
  cases old? with
  | none =>
      obtain ⟨returned, stored⟩ := returning_ok wrote
      rw [stored]
      obtain rfl := Option.some.inj returned
      exact ⟨List.mem_append_right _ List.mem_cons_self, rfl⟩
  | some old =>
      obtain ⟨returned, stored⟩ := returning_ok wrote
      rw [stored]
      refine ⟨List.mem_of_find?_eq_some returned, ?_⟩
      obtain ⟨original, -, rfl⟩ := List.mem_map.mp (List.mem_of_find?_eq_some returned)
      have same := List.find?_some returned
      split at same
      next own => rw [if_pos own]; rfl
      next other => exact absurd same other

theorem putTransaction_keeps (kept : List Stored.Block) (entry : Report.TransactionEntry) :
    (putTransaction entry).Assures (·.blocks.rows = kept) fun _ => True := by
  refine Assures.bind (fun _ => True) (assures_select trivial fun _ _ => trivial) fun row? _ => ?_
  cases row? with
  | none =>
      refine Assures.bind (fun _ => True) ?_ fun _ _ => assures_orFail fun _ _ => trivial
      exact assures_statement trivial fun _ same => ⟨trivial, same⟩
  | some row =>
      refine Assures.bind (fun _ => True) ?_ fun _ _ => assures_orFail fun _ _ => trivial
      exact assures_statement trivial fun _ same => ⟨trivial, same⟩

theorem putTransactions_keeps (kept : List Stored.Block) (blockId : Int)
    (transactions : List Report.Transaction) : ∀ index,
      (putTransactions blockId index transactions).Assures (·.blocks.rows = kept)
        fun _ => True := by
  induction transactions with
  | nil => exact fun _ => assures_pure trivial
  | cons transaction rest ih =>
      intro index
      refine Assures.bind _ (putTransaction_keeps kept transaction.toEntry) fun row _ => ?_
      refine Assures.bind (fun _ => True) ?_ fun _ _ => ih (index + 1)
      exact assures_statement trivial fun _ same => ⟨trivial, same⟩

/-- A block that is answered for is stored as it was converted; of a row that was there before, the
hash stays. -/
theorem storeBlock_ok {session after : Session} {row : Stored.Block}
    (ran : storeBlock block entry session = (.ok row, after)) :
    row ∈ after.store.blocks.rows ∧ { row.entry with hash := entry.hash } = entry := by
  obtain ⟨opened, worked, -, works, commits⟩ := statements_of_atomically_ok ran
  have committed := boundary_store .commit worked
  rw [commits] at committed
  change after.store = worked.store at committed
  obtain ⟨put, middle, wrote, went⟩ := bind_ok works
  obtain ⟨_, last, linked, answered⟩ := bind_ok went
  obtain ⟨same, rfl⟩ := Prod.mk.inj answered
  obtain rfl := Except.ok.inj same
  obtain ⟨stored, agrees⟩ := putBlock_ok wrote
  have kept := (putTransactions_keeps _ _ _ _ linked rfl).2
  rw [committed, kept]
  exact ⟨stored, agrees⟩

/-! ## Uploads -/

/-- What an upload says of itself when it is not the request that is wrong. -/
def Error.IsFault (error : Error) : Prop :=
  (∃ storeError, error = .ofStore storeError) ∨ ∃ queueError, error = .ofQueue queueError

variable {prepared : List (Report.Block × Report.BlockEntry)} {state : State}

theorem isFault_of_storeBlocks {error : Error}
    (ran : (storeBlocks prepared state).1 = .error error) : error.IsFault := by
  induction prepared generalizing state with
  | nil => cases ran
  | cons pair rest ih =>
      obtain ⟨block, entry⟩ := pair
      rw [storeBlocks] at ran
      split at ran
      next storeError session _ => exact Or.inl ⟨storeError, (Except.error.inj ran).symm⟩
      next row session _ =>
        split at ran
        next queueError queue _ => exact Or.inr ⟨queueError, (Except.error.inj ran).symm⟩
        next queue _ =>
          split at ran
          next => cases ran
          next failed _ ended =>
            obtain rfl := Except.error.inj ran
            exact ih (congrArg Prod.fst ended)

theorem servedAs_of_stores {rows : List Stored.Block} {after : State}
    (stores : Stores prepared state rows after)
    (faithful : ∀ pair ∈ prepared, pair.1.Documented ∧ Converts pair.1 pair.2) :
    List.Forall₂ ServedAs (prepared.map (·.1)) (rows.map .of) := by
  induction stores with
  | nil => exact .nil
  | cons kept _ _ ih =>
      obtain ⟨⟨documented, converts⟩, others⟩ := List.forall_mem_cons.mp faithful
      exact .cons (servedAs_of_converts documented converts (storeBlock_ok kept).2) (ih others)

theorem faithful_of_prepare {request : Report.Upload} (ready : prepare request = .ok prepared) :
    ∀ pair ∈ prepared, pair.1.Documented ∧ Converts pair.1 pair.2 := by
  obtain ⟨valid, each⟩ := prepare_ok_iff.mp ready
  have validBlocks := ((validate_ok_iff request).mp valid).2.2
  intro pair member
  obtain ⟨block, isBlock, rfl, converted⟩ := exists_of_forall₂_of_mem each member
  have documented := Report.documented_of_validate (validBlocks _ isBlock)
  obtain ⟨entry, reads, converts⟩ := converts_of_documented documented
  obtain rfl := Except.ok.inj (converted.symm.trans reads)
  exact ⟨documented, converts⟩

/-- Validation decides which uploads are refused for what they say, and nothing that passes it is
lost on the way. -/
theorem valid_blocks_converted_and_served :
    (∀ text, Ledger.DigitRun text →
      (Report.isDecimal text = false ↔ 2 ^ 96 - 1 < Text.digitsValue text.toList)) ∧
    (∀ block : Report.Block, block.validate = .ok () →
      ∃ entry, block.toEntry = .ok entry ∧ Converts block entry ∧
        (∀ session row after, storeBlock block entry session = (.ok row, after) →
          row ∈ after.store.blocks.rows ∧ { row.entry with hash := entry.hash } = entry) ∧
        ∀ row : Stored.Block, { row.entry with hash := entry.hash } = entry →
          ServedAs block (.of row)) ∧
    ∀ (request : Report.Upload) (state : State),
      (∃ violation, request.validate = .error violation ∧
        upload request state = (.error (.invalidRequest violation.message), state)) ∨
      request.validate = .ok () ∧ ∃ prepared,
        List.Forall₂ (fun block pair => pair.1 = block ∧ block.toEntry = .ok pair.2)
          request.blocks prepared ∧
        upload request state = storeBlocks prepared state ∧
        (∀ error, (upload request state).1 = .error error → error.IsFault) ∧
        ∀ views after, upload request state = (.ok views, after) →
          List.Forall₂ ServedAs request.blocks views := by
  refine ⟨fun text run => ?_, fun block valid => ?_, fun request state => ?_⟩
  · rw [← Bool.not_eq_true, Report.isDecimal_iff_of_digitRun run, Nat.not_le]
  · have documented := Report.documented_of_validate valid
    obtain ⟨entry, converted, converts⟩ := converts_of_documented documented
    exact ⟨entry, converted, converts, fun _ _ _ => storeBlock_ok,
      fun row => servedAs_of_converts documented converts⟩
  · cases validated : request.validate with
    | error violation =>
        refine Or.inl ⟨violation, rfl, ?_⟩
        rw [upload, prepare, validated]
        rfl
    | ok =>
        obtain ⟨prepared, ready⟩ := prepare_of_validate validated
        rw [upload_of_prepare ready]
        refine Or.inr
          ⟨rfl, prepared, prepare_ok ready, rfl, fun _ => isFault_of_storeBlocks, ?_⟩
        intro views after ran
        obtain ⟨rows, stores, rfl⟩ := stores_of_ok ran
        rw [← blocks_of_prepare ready]
        exact servedAs_of_stores stores (faithful_of_prepare ready)

/-- A block whose difficulty is led by zeros, and whose work is the greatest that fits. -/
def paddedBlock : Report.Block :=
  { Store.sampleBlock with
    difficulty := "00100"
    work := some "79228162514264337593543950335" }

theorem paddedBlock_converted_and_served :
    paddedBlock.validate = .ok () ∧
      (∃ entry, paddedBlock.toEntry = .ok entry ∧ entry.difficulty = .ofNat 100 ∧
        entry.work = .ofNat (2 ^ 96 - 1) ∧
        ∃ row after, storeBlock paddedBlock entry {} = (.ok row, after) ∧
          (BlockView.of row).difficulty = "100") ∧
      Report.isDecimal "0079228162514264337593543950336" = false := by
  obtain ⟨range, blocks, -⟩ := valid_blocks_converted_and_served
  have valid : paddedBlock.validate = .ok () := by decide
  obtain ⟨entry, converted, ⟨difficulty, work, -⟩, stores, serves⟩ := blocks paddedBlock valid
  have run : Ledger.DigitRun "0079228162514264337593543950336" :=
    Ledger.isDigitRun_iff.mp (by decide)
  refine ⟨valid, ⟨entry, converted, ?_, ?_, ?_⟩, (range _ run).mpr (by decide)⟩
  · exact difficulty.trans (congrArg Decimal.ofNat (by decide))
  · exact work.trans (congrArg Decimal.ofNat (by decide))
  · rcases (storeBlock_answers {} paddedBlock entry ⟨0⟩).of_calm with
      ⟨row, after, kept, -⟩ | ⟨_, _, _, impossible⟩
    · refine ⟨row, _, kept, ?_⟩
      exact (serves row (stores _ row _ kept).2).difficulty.trans (by decide)
    · exact impossible.elim

end ChainLedger.Service
