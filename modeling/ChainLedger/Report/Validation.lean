import ChainLedger.Decimal.Reading
import ChainLedger.Instant
import ChainLedger.Report.Basic

/-!
# Validation of uploads

The checks that an upload has to pass before anything is stored, in the order in which they are
made: the number of blocks, then each block's own fields, then its transactions one by one, each
with its own fields, its mints and its burns. The first check that fails is reported.
-/

set_option autoImplicit false

namespace ChainLedger.Report

inductive BlockFlaw
  | negativeSequence
  | negativeSize
  | nonIntegerDifficulty
  | difficultyOutOfRange
  | nonIntegerWork
  | workOutOfRange
  | invalidTimestamp
  deriving DecidableEq, Repr

inductive TransactionFlaw
  | negativeFee
  | negativeSize
  | mintOfBlankAsset
  | mintOfNonInteger (value : String)
  | burnOfBlankAsset
  | burnOfNonInteger (value : String)
  deriving DecidableEq, Repr

/-- Why an upload is refused. A flaw is told with the hash of the block or transaction that has
it, unless the hash itself is blank. -/
inductive Violation
  | noBlocks
  | tooManyBlocks
  | blankBlockHash
  | block (hash : String) (flaw : BlockFlaw)
  | blankTransactionHash
  | transaction (hash : String) (flaw : TransactionFlaw)
  deriving DecidableEq, Repr

def BlockFlaw.message : BlockFlaw → String
  | negativeSequence => "has a negative sequence"
  | negativeSize => "has a negative size"
  | nonIntegerDifficulty => "has a non-integer difficulty"
  | difficultyOutOfRange => "difficulty is out of range"
  | nonIntegerWork => "has a non-integer work"
  | workOutOfRange => "work is out of range"
  | invalidTimestamp => "has an invalid timestamp"

def TransactionFlaw.message : TransactionFlaw → String
  | negativeFee => "has a negative fee"
  | negativeSize => "has a negative size"
  | mintOfBlankAsset => "mints an empty asset id"
  | mintOfNonInteger value => "mints a non-integer value '" ++ value ++ "'"
  | burnOfBlankAsset => "burns an empty asset id"
  | burnOfNonInteger value => "burns a non-integer value '" ++ value ++ "'"

def Violation.message : Violation → String
  | noBlocks => "blocks must not be empty"
  | tooManyBlocks =>
    "at most " ++ toString Upload.capacity ++ " blocks may be uploaded at once"
  | blankBlockHash => "block hash must not be empty"
  | block hash flaw => "block " ++ hash ++ " " ++ flaw.message
  | blankTransactionHash => "transaction hash must not be empty"
  | transaction hash flaw => "transaction " ++ hash ++ " " ++ flaw.message

def require (condition : Bool) (violation : Violation) : Except Violation Unit :=
  if condition then .ok () else .error violation

def isDecimal (text : String) : Bool :=
  match Decimal.read text with
  | .ok _ => true
  | .error _ => false

def Mint.validate (hash : String) (mint : Mint) : Except Violation Unit := do
  require (!Text.isAllBlank mint.id) (.transaction hash .mintOfBlankAsset)
  require (Text.isDigitRun mint.value) (.transaction hash (.mintOfNonInteger mint.value))

def Burn.validate (hash : String) (burn : Burn) : Except Violation Unit := do
  require (!Text.isAllBlank burn.id) (.transaction hash .burnOfBlankAsset)
  require (Text.isDigitRun burn.value) (.transaction hash (.burnOfNonInteger burn.value))

def Transaction.validate (transaction : Transaction) : Except Violation Unit := do
  require (!Text.isAllBlank transaction.hash) .blankTransactionHash
  require (0 ≤ transaction.fee.toInt) (.transaction transaction.hash .negativeFee)
  require (0 ≤ transaction.size.toInt) (.transaction transaction.hash .negativeSize)
  transaction.mints.forM (Mint.validate transaction.hash)
  transaction.burns.forM (Burn.validate transaction.hash)

def Block.validate (block : Block) : Except Violation Unit := do
  require (!Text.isAllBlank block.hash) .blankBlockHash
  require (0 ≤ block.sequence.toInt) (.block block.hash .negativeSequence)
  require (0 ≤ block.size.toInt) (.block block.hash .negativeSize)
  require (Text.isDigitRun block.difficulty) (.block block.hash .nonIntegerDifficulty)
  require (isDecimal block.difficulty) (.block block.hash .difficultyOutOfRange)
  require (block.work.all Text.isDigitRun) (.block block.hash .nonIntegerWork)
  require (block.work.all isDecimal) (.block block.hash .workOutOfRange)
  require (Instant.ofMilliseconds? block.timestamp.toInt).isSome
    (.block block.hash .invalidTimestamp)
  block.transactions.forM Transaction.validate

def Upload.validate (upload : Upload) : Except Violation Unit := do
  require (!upload.blocks.isEmpty) .noBlocks
  require (upload.blocks.length ≤ capacity) .tooManyBlocks
  upload.blocks.forM Block.validate

end ChainLedger.Report
