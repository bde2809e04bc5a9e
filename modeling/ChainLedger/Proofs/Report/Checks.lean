import ChainLedger.Proofs.Decimal.DigitRuns
import ChainLedger.Proofs.Service.Reachable

/-!
# The checks of an upload

What an upload has to satisfy, as one list: the number of blocks, then for each block its own
fields and its transactions in order, each with its own fields, its mints and its burns. An upload
is valid when all of them hold, and otherwise refused with the message of the first that does not.
-/

set_option autoImplicit false

namespace ChainLedger.Report

open Ledger (DigitRun)

/-! ## What is documented -/

def whiteSpace : List Nat :=
  [0x0009, 0x000A, 0x000B, 0x000C, 0x000D, 0x0020, 0x0085, 0x00A0, 0x1680, 0x2000, 0x2001, 0x2002,
   0x2003, 0x2004, 0x2005, 0x2006, 0x2007, 0x2008, 0x2009, 0x200A, 0x2028, 0x2029, 0x202F, 0x205F,
   0x3000]

def Blank (text : String) : Prop :=
  ∀ character ∈ text.toList, character.toNat ∈ whiteSpace

structure Quantity (text : String) : Prop where
  digits : DigitRun text
  fits : Text.digitsValue text.toList ≤ 2 ^ 96 - 1

/-- Milliseconds from the beginning of the year -262143 to the end of the year 262142. -/
def Representable (milliseconds : Int) : Prop :=
  -8334601228800000 ≤ milliseconds ∧ milliseconds ≤ 8210266876799999

example : (Instant.mk (-8334601228800000)).text = "-262143-01-01T00:00:00Z" ∧
    (Instant.mk 8210266876799999).text = "+262142-12-31T23:59:59.999Z" := by decide

structure Mint.Documented (mint : Mint) : Prop where
  id : ¬Blank mint.id
  value : DigitRun mint.value

structure Burn.Documented (burn : Burn) : Prop where
  id : ¬Blank burn.id
  value : DigitRun burn.value

structure Transaction.Documented (transaction : Transaction) : Prop where
  hash : ¬Blank transaction.hash
  fee : 0 ≤ transaction.fee.toInt
  size : 0 ≤ transaction.size.toInt
  mints : ∀ mint ∈ transaction.mints, mint.Documented
  burns : ∀ burn ∈ transaction.burns, burn.Documented

structure Block.Documented (block : Block) : Prop where
  hash : ¬Blank block.hash
  sequence : 0 ≤ block.sequence.toInt
  size : 0 ≤ block.size.toInt
  difficulty : Quantity block.difficulty
  work : ∀ work ∈ block.work, Quantity work
  timestamp : Representable block.timestamp.toInt
  transactions : ∀ transaction ∈ block.transactions, transaction.Documented

structure Upload.Documented (upload : Upload) : Prop where
  some : 1 ≤ upload.blocks.length
  few : upload.blocks.length ≤ 3000
  blocks : ∀ block ∈ upload.blocks, block.Documented

/-! ## The list of checks -/

/-- A condition on an upload, and what is said where it does not hold. -/
structure Check where
  holds : Prop
  message : String

def Mint.checks (hash : String) (mint : Mint) : List Check :=
  [⟨¬Blank mint.id, "transaction " ++ hash ++ " mints an empty asset id"⟩,
   ⟨DigitRun mint.value,
    "transaction " ++ hash ++ " mints a non-integer value '" ++ mint.value ++ "'"⟩]

def Burn.checks (hash : String) (burn : Burn) : List Check :=
  [⟨¬Blank burn.id, "transaction " ++ hash ++ " burns an empty asset id"⟩,
   ⟨DigitRun burn.value,
    "transaction " ++ hash ++ " burns a non-integer value '" ++ burn.value ++ "'"⟩]

def Transaction.checks (transaction : Transaction) : List Check :=
  [⟨¬Blank transaction.hash, "transaction hash must not be empty"⟩,
   ⟨0 ≤ transaction.fee.toInt, "transaction " ++ transaction.hash ++ " has a negative fee"⟩,
   ⟨0 ≤ transaction.size.toInt, "transaction " ++ transaction.hash ++ " has a negative size"⟩] ++
  (transaction.mints.flatMap (Mint.checks transaction.hash) ++
   transaction.burns.flatMap (Burn.checks transaction.hash))

def Block.workChecks (hash work : String) : List Check :=
  [⟨DigitRun work, "block " ++ hash ++ " has a non-integer work"⟩,
   ⟨Text.digitsValue work.toList ≤ 2 ^ 96 - 1, "block " ++ hash ++ " work is out of range"⟩]

def Block.checks (block : Block) : List Check :=
  [⟨¬Blank block.hash, "block hash must not be empty"⟩,
   ⟨0 ≤ block.sequence.toInt, "block " ++ block.hash ++ " has a negative sequence"⟩,
   ⟨0 ≤ block.size.toInt, "block " ++ block.hash ++ " has a negative size"⟩,
   ⟨DigitRun block.difficulty, "block " ++ block.hash ++ " has a non-integer difficulty"⟩,
   ⟨Text.digitsValue block.difficulty.toList ≤ 2 ^ 96 - 1,
    "block " ++ block.hash ++ " difficulty is out of range"⟩] ++
  (block.work.toList.flatMap (Block.workChecks block.hash) ++
   ⟨Representable block.timestamp.toInt,
    "block " ++ block.hash ++ " has an invalid timestamp"⟩ ::
   block.transactions.flatMap Transaction.checks)

def Upload.checks (upload : Upload) : List Check :=
  [⟨1 ≤ upload.blocks.length, "blocks must not be empty"⟩,
   ⟨upload.blocks.length ≤ 3000, "at most 3000 blocks may be uploaded at once"⟩] ++
  upload.blocks.flatMap Block.checks

def FirstViolated (checks : List Check) (check : Check) : Prop :=
  ∃ before after, checks = before ++ check :: after ∧ (∀ earlier ∈ before, earlier.holds) ∧
    ¬check.holds

/-! ## Running checks -/

/-- An outcome tells of a list of checks: that all hold, or which one does not at first. -/
def Tells (checks : List Check) : Except Violation Unit → Prop
  | .ok () => ∀ check ∈ checks, check.holds
  | .error violation => ∃ check, FirstViolated checks check ∧ violation.message = check.message

section Running

variable {checks others : List Check} {check : Check} {condition : Bool} {violation : Violation}

theorem tells_nil : Tells [] (.ok ()) := fun _ member => nomatch member

theorem Tells.andThen {first second : Except Violation Unit} (tells : Tells checks first)
    (rest : (∀ check ∈ checks, check.holds) → Tells others second) :
    Tells (checks ++ others) (do first; second) := by
  cases first with
  | error violation =>
      obtain ⟨check, ⟨before, after, rfl, hold, violated⟩, told⟩ := tells
      refine ⟨check, ⟨before, after ++ others, ?_, hold, violated⟩, told⟩
      rw [List.append_assoc, List.cons_append]
  | ok =>
      have reached := rest tells
      change Tells (checks ++ others) second
      cases second with
      | error violation =>
          obtain ⟨check, ⟨before, after, rfl, hold, violated⟩, told⟩ := reached
          refine ⟨check, ⟨checks ++ before, after, ?_, ?_, violated⟩, told⟩
          · rw [List.append_assoc]
          · exact List.forall_mem_append.mpr ⟨tells, hold⟩
      | ok => exact List.forall_mem_append.mpr ⟨tells, reached⟩

theorem tells_require (decides : condition = true ↔ check.holds)
    (told : violation.message = check.message) :
    Tells [check] (require condition violation) := by
  rw [require]
  split
  next passes => exact List.forall_mem_singleton.mpr (decides.mp passes)
  next fails => exact ⟨check, ⟨[], [], rfl, tells_nil, fails ∘ decides.mpr⟩, told⟩

theorem Tells.require {rest : Except Violation Unit} (decides : condition = true ↔ check.holds)
    (told : violation.message = check.message) (tells : check.holds → Tells others rest) :
    Tells (check :: others) (do Report.require condition violation; rest) :=
  (tells_require decides told).andThen fun hold => tells (hold check List.mem_cons_self)

theorem Tells.forM {Item : Type} {itemChecks : Item → List Check}
    {step : Item → Except Violation Unit} (tells : ∀ item, Tells (itemChecks item) (step item))
    (items : List Item) : Tells (items.flatMap itemChecks) (items.forM step) := by
  induction items with
  | nil => exact tells_nil
  | cons item items ih => exact (tells item).andThen fun _ => ih

end Running

/-! ## The checks that are run -/

theorem isBlank_iff {character : Char} :
    Text.isBlank character = true ↔ character.toNat ∈ whiteSpace := by
  simp only [Text.isBlank, Text.blankRanges, whiteSpace, List.any_cons, List.any_nil,
    Bool.or_eq_true, Bool.and_eq_true, decide_eq_true_eq, Bool.false_eq_true, or_false,
    List.mem_cons, List.not_mem_nil]
  omega

theorem not_isAllBlank_iff {text : String} : (!Text.isAllBlank text) = true ↔ ¬Blank text := by
  rw [Bool.not_eq_true', ← Bool.not_eq_true, Text.isAllBlank, List.all_eq_true, Blank]
  simp only [isBlank_iff]

theorem told_of_append (subject hash : String) {said whole : String} (same : " " ++ said = whole) :
    subject ++ hash ++ " " ++ said = subject ++ hash ++ whole := by
  rw [String.append_assoc, same]

theorem told_of_append_value (subject hash value last : String) {said whole : String}
    (same : " " ++ said = whole) :
    subject ++ hash ++ " " ++ (said ++ value ++ last) =
      subject ++ hash ++ whole ++ value ++ last := by
  rw [← told_of_append subject hash same, ← String.append_assoc, ← String.append_assoc]

theorem tells_mint (hash : String) (mint : Mint) :
    Tells (mint.checks hash) (mint.validate hash) := by
  refine Tells.require not_isAllBlank_iff (told_of_append _ _ (by decide)) fun _ => ?_
  exact tells_require Ledger.isDigitRun_iff (told_of_append_value _ _ _ _ (by decide))

theorem tells_burn (hash : String) (burn : Burn) :
    Tells (burn.checks hash) (burn.validate hash) := by
  refine Tells.require not_isAllBlank_iff (told_of_append _ _ (by decide)) fun _ => ?_
  exact tells_require Ledger.isDigitRun_iff (told_of_append_value _ _ _ _ (by decide))

theorem tells_transaction (transaction : Transaction) :
    Tells transaction.checks transaction.validate := by
  refine Tells.require not_isAllBlank_iff rfl fun _ => ?_
  refine Tells.require decide_eq_true_iff (told_of_append _ _ (by decide)) fun _ => ?_
  refine Tells.require decide_eq_true_iff (told_of_append _ _ (by decide)) fun _ => ?_
  exact (Tells.forM (tells_mint transaction.hash) _).andThen fun _ =>
    Tells.forM (tells_burn transaction.hash) _

theorem ofMilliseconds?_isSome_iff {milliseconds : Int} :
    (Instant.ofMilliseconds? milliseconds).isSome = true ↔ Representable milliseconds := by
  rw [Instant.ofMilliseconds?]
  split
  next inside => exact iff_of_true rfl inside
  next outside => exact iff_of_false Bool.false_ne_true outside

theorem Tells.work {others : List Check} {rest : Except Violation Unit} (block : Block)
    (tells : Tells others rest) :
    Tells (block.work.toList.flatMap (Block.workChecks block.hash) ++ others) (do
      Report.require (block.work.all Text.isDigitRun) (.block block.hash .nonIntegerWork)
      Report.require (block.work.all isDecimal) (.block block.hash .workOutOfRange)
      rest) := by
  cases block.work with
  | none => exact tells
  | some work =>
      refine Tells.require Ledger.isDigitRun_iff (told_of_append _ _ (by decide)) fun run => ?_
      exact Tells.require (isDecimal_iff_of_digitRun run) (told_of_append _ _ (by decide))
        fun _ => tells

theorem tells_block (block : Block) : Tells block.checks block.validate := by
  refine Tells.require not_isAllBlank_iff rfl fun _ => ?_
  refine Tells.require decide_eq_true_iff (told_of_append _ _ (by decide)) fun _ => ?_
  refine Tells.require decide_eq_true_iff (told_of_append _ _ (by decide)) fun _ => ?_
  refine Tells.require Ledger.isDigitRun_iff (told_of_append _ _ (by decide)) fun run => ?_
  refine Tells.require (isDecimal_iff_of_digitRun run) (told_of_append _ _ (by decide)) fun _ => ?_
  refine Tells.work block ?_
  refine Tells.require ofMilliseconds?_isSome_iff (told_of_append _ _ (by decide)) fun _ => ?_
  exact Tells.forM tells_transaction _

theorem tells_upload (upload : Upload) : Tells upload.checks upload.validate := by
  have told : Violation.tooManyBlocks.message = "at most 3000 blocks may be uploaded at once" := by
    decide
  have some : (!upload.blocks.isEmpty) = true ↔ 1 ≤ upload.blocks.length := by
    cases upload.blocks with
    | nil => decide
    | cons block blocks => simp
  refine Tells.require some rfl fun _ => ?_
  refine Tells.require decide_eq_true_iff told fun _ => ?_
  exact Tells.forM tells_block _

/-! ## Validity -/

theorem forall_mint_checks {hash : String} {mint : Mint} :
    (∀ check ∈ mint.checks hash, check.holds) ↔ mint.Documented := by
  rw [Mint.checks, List.forall_mem_cons, List.forall_mem_singleton]
  exact ⟨fun ⟨id, value⟩ => ⟨id, value⟩, fun ⟨id, value⟩ => ⟨id, value⟩⟩

theorem forall_burn_checks {hash : String} {burn : Burn} :
    (∀ check ∈ burn.checks hash, check.holds) ↔ burn.Documented := by
  rw [Burn.checks, List.forall_mem_cons, List.forall_mem_singleton]
  exact ⟨fun ⟨id, value⟩ => ⟨id, value⟩, fun ⟨id, value⟩ => ⟨id, value⟩⟩

theorem forall_transaction_checks {transaction : Transaction} :
    (∀ check ∈ transaction.checks, check.holds) ↔ transaction.Documented := by
  simp only [Transaction.checks, List.forall_mem_append, List.forall_mem_cons,
    List.forall_mem_flatMap, forall_mint_checks, forall_burn_checks]
  constructor
  · rintro ⟨⟨hash, fee, size, -⟩, mints, burns⟩
    exact ⟨hash, fee, size, mints, burns⟩
  · rintro ⟨hash, fee, size, mints, burns⟩
    exact ⟨⟨hash, fee, size, tells_nil⟩, mints, burns⟩

theorem forall_work_checks {hash work : String} :
    (∀ check ∈ Block.workChecks hash work, check.holds) ↔ Quantity work := by
  rw [Block.workChecks, List.forall_mem_cons, List.forall_mem_singleton]
  exact ⟨fun ⟨digits, fits⟩ => ⟨digits, fits⟩, fun ⟨digits, fits⟩ => ⟨digits, fits⟩⟩

theorem forall_block_checks {block : Block} :
    (∀ check ∈ block.checks, check.holds) ↔ block.Documented := by
  simp only [Block.checks, List.forall_mem_append, List.forall_mem_cons, List.forall_mem_flatMap,
    Option.mem_toList, forall_work_checks, forall_transaction_checks]
  constructor
  · rintro ⟨⟨hash, sequence, size, digits, fits, -⟩, work, timestamp, transactions⟩
    exact ⟨hash, sequence, size, ⟨digits, fits⟩, work, timestamp, transactions⟩
  · rintro ⟨hash, sequence, size, ⟨digits, fits⟩, work, timestamp, transactions⟩
    exact ⟨⟨hash, sequence, size, digits, fits, tells_nil⟩, work, timestamp, transactions⟩

theorem documented_of_validate {block : Block} (valid : block.validate = .ok ()) :
    block.Documented := by
  have tells := tells_block block
  rw [valid] at tells
  exact forall_block_checks.mp tells

theorem forall_upload_checks {upload : Upload} :
    (∀ check ∈ upload.checks, check.holds) ↔ upload.Documented := by
  simp only [Upload.checks, List.forall_mem_append, List.forall_mem_cons, List.forall_mem_flatMap,
    forall_block_checks]
  constructor
  · rintro ⟨⟨some, few, -⟩, blocks⟩
    exact ⟨some, few, blocks⟩
  · rintro ⟨some, few, blocks⟩
    exact ⟨⟨some, few, tells_nil⟩, blocks⟩

theorem FirstViolated.unique {checks : List Check} {first second : Check}
    (isFirst : FirstViolated checks first) (isSecond : FirstViolated checks second) :
    first = second := by
  obtain ⟨before, after, rfl, hold, violated⟩ := isFirst
  obtain ⟨before', after', same, hold', violated'⟩ := isSecond
  induction before generalizing before' with
  | nil =>
      cases before' with
      | nil => exact (List.cons.inj same).1
      | cons check others =>
          obtain ⟨rfl, -⟩ := List.cons.inj same
          exact absurd (hold' _ List.mem_cons_self) violated
  | cons check others ih =>
      cases before' with
      | nil =>
          obtain ⟨rfl, -⟩ := List.cons.inj same
          exact absurd (hold _ List.mem_cons_self) violated'
      | cons check' others' =>
          exact ih (fun earlier member => hold earlier (List.mem_cons_of_mem _ member)) others'
            (List.cons.inj same).2
            fun earlier member => hold' earlier (List.mem_cons_of_mem _ member)

/-- An upload is valid when it is as documented, and otherwise refused with the message of the
first check that it violates. -/
theorem validate_tells_first_violated (upload : Upload) :
    (upload.validate = .ok () ↔ upload.Documented) ∧
    ∀ message,
      (∃ violation, upload.validate = .error violation ∧ violation.message = message) ↔
        ∃ check, FirstViolated upload.checks check ∧ check.message = message := by
  have tells := tells_upload upload
  rw [← forall_upload_checks]
  cases validated : upload.validate with
  | ok =>
      rw [validated] at tells
      refine ⟨iff_of_true rfl tells, fun message => iff_of_false ?_ ?_⟩
      · rintro ⟨violation, failed, -⟩
        cases failed
      · rintro ⟨check, ⟨before, after, same, -, violated⟩, -⟩
        exact violated (tells check (same ▸ List.mem_append_right _ List.mem_cons_self))
  | error violation =>
      rw [validated] at tells
      obtain ⟨first, isFirst, told⟩ := tells
      refine ⟨iff_of_false nofun ?_, fun message => ⟨?_, ?_⟩⟩
      · obtain ⟨before, after, same, -, violated⟩ := isFirst
        exact fun hold => violated (hold first (same ▸ List.mem_append_right _ List.mem_cons_self))
      · rintro ⟨other, failed, rfl⟩
        obtain rfl := Except.error.inj failed
        exact ⟨first, isFirst, told.symm⟩
      · rintro ⟨check, isCheck, rfl⟩
        exact ⟨violation, rfl, told.trans (congrArg Check.message (isFirst.unique isCheck))⟩

def flawedUpload : Upload where
  blocks :=
    [{ Store.sampleBlock with
        transactions := [{ Store.sampleTransaction with
          burns := [{ id := "A", value := "2" }, { id := "A", value := "1e3" }] }] },
     { Store.sampleBlock with hash := " " }]

theorem flawedUpload_told :
    ¬flawedUpload.Documented ∧ ∃ check, FirstViolated flawedUpload.checks check ∧
      check.message = "transaction t burns a non-integer value '1e3'" := by
  obtain ⟨valid, told⟩ := validate_tells_first_violated flawedUpload
  have refused : flawedUpload.validate = .error (.transaction "t" (.burnOfNonInteger "1e3")) := by
    decide
  refine ⟨fun documented => ?_, (told _).mp ⟨_, refused, by decide⟩⟩
  rw [valid.mpr documented] at refused
  cases refused

end ChainLedger.Report
