import ChainLedger.Proofs.Service.Run

/-!
# Preparing uploads

A valid upload is prepared: each of its blocks converts. Its first blocks make a valid upload
again, and what is prepared sends the jobs that are reported.
-/

set_option autoImplicit false

namespace ChainLedger.Service

theorem require_ok_iff {condition : Bool} {violation : Report.Violation} :
    Report.require condition violation = .ok () ↔ condition = true := by
  cases condition <;> simp [Report.require]

theorem validate_ok_iff (request : Report.Upload) :
    request.validate = .ok () ↔ request.blocks ≠ [] ∧
      request.blocks.length ≤ Report.Upload.capacity ∧
        ∀ block ∈ request.blocks, block.validate = .ok () := by
  rw [Report.Upload.validate, andThen_ok_iff, andThen_ok_iff, require_ok_iff, require_ok_iff,
    forM_ok_iff]
  simp

theorem read_of_isDecimal {text : String} (decimal : Report.isDecimal text = true) :
    ∃ number, Decimal.read text = .ok number := by
  rw [Report.isDecimal] at decimal
  split at decimal
  next number read => exact ⟨number, read⟩
  next => cases decimal

theorem toEntry_of_validate {block : Report.Block} (valid : block.validate = .ok ()) :
    ∃ entry, block.toEntry = .ok entry := by
  simp only [Report.Block.validate, andThen_ok_iff, require_ok_iff] at valid
  obtain ⟨-, -, -, -, difficulty, -, work, time, -⟩ := valid
  obtain ⟨number, readDifficulty⟩ := read_of_isDecimal difficulty
  obtain ⟨instant, readTime⟩ := Option.isSome_iff_exists.mp time
  have readWork : ∃ number, block.readWork = .ok number := by
    rw [Report.Block.readWork]
    cases reported : block.work with
    | none => exact ⟨_, rfl⟩
    | some text =>
        rw [reported, Option.all_some] at work
        obtain ⟨number, read⟩ := read_of_isDecimal work
        exact ⟨number, by simp only [read]; rfl⟩
  obtain ⟨workNumber, readWork⟩ := readWork
  rw [Report.Block.toEntry, readDifficulty, readWork, readTime]
  exact ⟨_, rfl⟩

theorem prepare_ok_iff {request : Report.Upload}
    {prepared : List (Report.Block × Report.BlockEntry)} :
    prepare request = .ok prepared ↔ request.validate = .ok () ∧
      List.Forall₂ (fun block pair => pair.1 = block ∧ block.toEntry = .ok pair.2) request.blocks
        prepared := by
  constructor
  · intro ready
    refine ⟨?_, prepare_ok ready⟩
    obtain ⟨_, valid, -⟩ := exists_ok_of_bind_ok ready
    exact ok_of_mapError_ok valid
  · rintro ⟨valid, each⟩
    rw [prepare, valid]
    refine mapM_ok_iff.mpr (each.imp ?_)
    rintro block ⟨_, entry⟩ ⟨rfl, converted⟩
    rw [converted]
    rfl

theorem prepare_of_validate {request : Report.Upload} (valid : request.validate = .ok ()) :
    ∃ prepared, prepare request = .ok prepared := by
  have each := ((validate_ok_iff request).mp valid).2.2
  simp only [prepare_ok_iff, valid, true_and]
  generalize request.blocks = blocks at each ⊢
  induction blocks with
  | nil => exact ⟨[], .nil⟩
  | cons block blocks ih =>
      obtain ⟨entry, converted⟩ := toEntry_of_validate (each block (by simp))
      obtain ⟨pairs, others⟩ := ih fun other member => each other (by simp [member])
      exact ⟨(block, entry) :: pairs, .cons ⟨rfl, converted⟩ others⟩

theorem prepare_take {request : Report.Upload} {prepared : List (Report.Block × Report.BlockEntry)}
    (ready : prepare request = .ok prepared) {count : Nat} (positive : 0 < count) :
    prepare { blocks := request.blocks.take count } = .ok (prepared.take count) := by
  obtain ⟨valid, each⟩ := prepare_ok_iff.mp ready
  obtain ⟨blocks, few, validBlocks⟩ := (validate_ok_iff request).mp valid
  refine prepare_ok_iff.mpr ⟨(validate_ok_iff _).mpr ⟨?_, ?_, ?_⟩, List.forall₂_take count each⟩
  · simpa [Nat.ne_of_gt positive] using blocks
  · exact (List.length_take_le' _ _).trans few
  · exact fun block member => validBlocks block (List.mem_of_mem_take member)

theorem upload_of_prepare {request : Report.Upload}
    {prepared : List (Report.Block × Report.BlockEntry)} (ready : prepare request = .ok prepared)
    (state : State) : upload request state = storeBlocks prepared state := by
  rw [upload, ready]

theorem blocks_of_prepare {request : Report.Upload}
    {prepared : List (Report.Block × Report.BlockEntry)}
    (ready : prepare request = .ok prepared) : prepared.map (·.1) = request.blocks := by
  have each := prepare_ok ready
  generalize request.blocks = blocks at each ⊢
  clear ready
  induction each with
  | nil => rfl
  | cons first _ ih => rw [List.map_cons, first.1, ih]

theorem jobs_of_prepare {request : Report.Upload}
    {prepared : List (Report.Block × Report.BlockEntry)}
    (ready : prepare request = .ok prepared) (count : Nat) :
    ((prepared.take count).flatMap fun pair =>
        pair.1.transactions.map (Job.mk pair.2.main)) =
      (request.blocks.take count).flatMap (·.jobs) := by
  have each := List.forall₂_take count (prepare_ok ready)
  generalize request.blocks.take count = blocks at each ⊢
  generalize prepared.take count = pairs at each ⊢
  induction each with
  | nil => rfl
  | cons first _ ih =>
      obtain ⟨rfl, converted⟩ := first
      rw [List.flatMap_cons, List.flatMap_cons, ih, Report.Block.jobs, (toEntry_ok converted).2]

end ChainLedger.Service
