import ChainLedger.Proofs.Ledger.Records
import ChainLedger.Service.Upload

/-!
# The content of a store

What a store holds, told by hashes and identifiers instead of ids, and without times. Of blocks,
transactions, links and records the last report counts; of an asset the first mint does. So it
makes no difference to the content when the first of some blocks, or of some jobs, are taken once
more before all of them are.
-/

set_option autoImplicit false

namespace ChainLedger

/-! ## Writes -/

def writeAll {Key Value : Type} [DecidableEq Key] (map : Key → Value)
    (writes : List (Key × Value)) : Key → Value :=
  writes.foldl (fun map write => Function.update map write.1 write.2) map

section Writes

variable {Key Value : Type} [DecidableEq Key]

theorem writeAll_cons (map : Key → Value) (write : Key × Value) (writes : List (Key × Value)) :
    writeAll map (write :: writes) = writeAll (Function.update map write.1 write.2) writes :=
  rfl

theorem writeAll_append (map : Key → Value) (first second : List (Key × Value)) :
    writeAll map (first ++ second) = writeAll (writeAll map first) second :=
  List.foldl_append

theorem writeAll_of_not_mem {key : Key} {writes : List (Key × Value)} :
    ∀ {map : Key → Value}, key ∉ writes.map (·.1) → writeAll map writes key = map key := by
  induction writes with
  | nil => exact fun _ => rfl
  | cons write writes ih =>
      intro map absent
      rw [List.map_cons, List.mem_cons, not_or] at absent
      rw [writeAll_cons, ih absent.2, Function.update_of_ne absent.1]

theorem writeAll_of_mem {key : Key} {writes : List (Key × Value)} :
    ∀ {map other : Key → Value}, key ∈ writes.map (·.1) →
      writeAll map writes key = writeAll other writes key := by
  induction writes with
  | nil =>
      intro map other member
      cases member
  | cons write writes ih =>
      intro map other member
      rw [writeAll_cons, writeAll_cons]
      by_cases later : key ∈ writes.map (·.1)
      · exact ih later
      · rw [List.map_cons, List.mem_cons] at member
        obtain rfl := member.resolve_right later
        rw [writeAll_of_not_mem later, writeAll_of_not_mem later, Function.update_self,
          Function.update_self]

theorem mem_of_writeAll {key : Key} {writes : List (Key × Value)} :
    ∀ map : Key → Value, key ∈ writes.map (·.1) → (key, writeAll map writes key) ∈ writes := by
  induction writes with
  | nil =>
      intro map member
      cases member
  | cons write writes ih =>
      intro map member
      rw [writeAll_cons]
      by_cases later : key ∈ writes.map (·.1)
      · exact List.mem_cons_of_mem _ (ih _ later)
      · rw [List.map_cons, List.mem_cons] at member
        obtain rfl := member.resolve_right later
        rw [writeAll_of_not_mem later, Function.update_self]
        exact List.mem_cons_self

theorem writeAll_again (map : Key → Value) (first second : List (Key × Value)) :
    writeAll (writeAll map first) (first ++ second) = writeAll map (first ++ second) := by
  funext key
  by_cases written : key ∈ (first ++ second).map (·.1)
  · exact writeAll_of_mem written
  · have absent : key ∉ first.map (·.1) := by
      intro member
      exact written (by simpa using Or.inl (by simpa using member))
    rw [writeAll_of_not_mem written, writeAll_of_not_mem written, writeAll_of_not_mem absent]

/-- What is written in the end is the last value of its key. -/
theorem writeAll_apply (map : Key → Value) (writes : List (Key × Value)) (key : Key) :
    writeAll map writes key =
      ((writes.filter (·.1 = key)).getLast?.map (·.2)).getD (map key) := by
  induction writes using List.reverseRecOn with
  | nil => rfl
  | append_singleton writes write ih =>
      rw [writeAll_append, writeAll_cons, List.filter_append]
      by_cases own : write.1 = key
      · obtain rfl := own
        have kept : [write].filter (·.1 = write.1) = [write] := by simp
        rw [kept, List.getLast?_concat]
        exact Function.update_self _ _ _
      · have dropped : [write].filter (·.1 = key) = [] := by simp [own]
        rw [dropped, List.append_nil, ← ih]
        exact Function.update_of_ne (Ne.symm own) _ _

end Writes

/-! ## Content -/

structure Content where
  blocks : String → Option Report.BlockEntry
  transactions : String → Option Report.TransactionEntry
  /-- The index at which a block holds a transaction. -/
  links : String × String → Option Int32
  /-- What the first mint of an identifier says, and the transaction that it is in. -/
  assets : String → Option (Stored.AssetEntry × String)
  records : String → List Ledger.Posting

/-- A block with what is stored for it. -/
abbrev Prepared := Report.Block × Report.BlockEntry

namespace Prepared

def blockWrite (pair : Prepared) : String × Option Report.BlockEntry :=
  (pair.2.hash, some pair.2)

def transactionWrites (transactions : List Report.Transaction) :
    List (String × Option Report.TransactionEntry) :=
  transactions.map fun transaction => (transaction.hash, some transaction.toEntry)

def linkWrites (blockHash : String) (index : Nat) (transactions : List Report.Transaction) :
    List ((String × String) × Option Int32) :=
  (transactions.zipIdx index).map fun pair =>
    ((blockHash, pair.1.hash), some (Int32.ofNat pair.2))

def jobs (pair : Prepared) : List Job := pair.1.transactions.map (Job.mk pair.2.main)

end Prepared

/-- What a job says about an asset, if it registers it. -/
def Job.registers? (identifier : String) (job : Job) : Option (Stored.AssetEntry × String) :=
  if job.main then
    (job.transaction.mints.find? (·.id = identifier)).map fun mint =>
      (Ledger.mintEntry mint, job.transaction.hash)
  else none

namespace Ledger

theorem mem_firstMints {entry : Stored.AssetEntry} {mints : List Report.Mint} :
    ∀ {known : List String}, entry ∈ firstMints known mints ↔ entry.identifier ∉ known ∧
      ∃ mint, mints.find? (·.id = entry.identifier) = some mint ∧ mintEntry mint = entry := by
  induction mints with
  | nil => simp [firstMints]
  | cons mint mints ih =>
      intro known
      rw [firstMints]
      by_cases own : mint.id = entry.identifier
      · have found : (mint :: mints).find? (·.id = entry.identifier) = some mint := by
          simp [own]
        simp only [found]
        split
        next isKnown => simp [ih, ← own, isKnown]
        next isNew => simp [ih, ← own, isNew, eq_comm]
      · have found : (mint :: mints).find? (·.id = entry.identifier) =
            mints.find? (·.id = entry.identifier) := by
          simp [own]
        have distinct : entry ≠ mintEntry mint := fun same => own (by rw [same]; rfl)
        rw [found]
        split
        next => exact ih
        next => simp [ih, distinct, Ne.symm own]

end Ledger

theorem Job.registers?_eq_some {job : Job} {identifier hash : String}
    {entry : Stored.AssetEntry} :
    job.registers? identifier = some (entry, hash) ↔ job.main = true ∧
      job.transaction.hash = hash ∧
        ∃ mint, job.transaction.mints.find? (·.id = identifier) = some mint ∧
          Ledger.mintEntry mint = entry := by
  rw [registers?]
  split
  next main =>
    rw [Option.map_eq_some_iff]
    constructor
    · rintro ⟨mint, found, same⟩
      obtain ⟨rfl, rfl⟩ := Prod.mk.inj same
      exact ⟨main, rfl, mint, found, rfl⟩
    · rintro ⟨-, rfl, mint, found, rfl⟩
      exact ⟨mint, found, rfl⟩
  next main => simp [main]

theorem Job.mem_registered {job : Job} {known : List String} {entry : Stored.AssetEntry} :
    entry ∈ Ledger.registered known job.main job.transaction ↔ entry.identifier ∉ known ∧
      job.registers? entry.identifier = some (entry, job.transaction.hash) := by
  rw [registers?_eq_some, Ledger.registered]
  split
  next main => simp [main, Ledger.mem_firstMints]
  next main => simp [main]

theorem Job.identifier_of_registers? {job : Job} {identifier hash : String}
    {entry : Stored.AssetEntry} (registers : job.registers? identifier = some (entry, hash)) :
    entry.identifier = identifier := by
  obtain ⟨-, -, mint, found, rfl⟩ := registers?_eq_some.mp registers
  have own := List.find?_some found
  exact of_decide_eq_true own

def Job.recordWrite (job : Job) : String × List Ledger.Posting :=
  (job.transaction.hash, Ledger.posted job.main job.transaction)

namespace Content

open Prepared

def filled (content : Content) (blockHash : String) (index : Nat)
    (transactions : List Report.Transaction) : Content :=
  { content with
    transactions := writeAll content.transactions (transactionWrites transactions)
    links := writeAll content.links (linkWrites blockHash index transactions) }

/-- The content once blocks have been stored. -/
def stored (content : Content) (prepared : List Prepared) : Content :=
  { content with
    blocks := writeAll content.blocks (prepared.map blockWrite)
    transactions := writeAll content.transactions
      (prepared.flatMap fun pair => transactionWrites pair.1.transactions)
    links := writeAll content.links
      (prepared.flatMap fun pair => linkWrites pair.2.hash 0 pair.1.transactions) }

/-- The content once jobs have been done. -/
def worked (content : Content) (jobs : List Job) : Content :=
  { content with
    assets := fun identifier =>
      (content.assets identifier).or (jobs.findSome? (·.registers? identifier))
    records := writeAll content.records (jobs.map Job.recordWrite) }

variable (content : Content)

theorem stored_singleton (pair : Prepared) :
    content.stored [pair] =
      Content.filled
        { content with blocks := Function.update content.blocks pair.2.hash (some pair.2) }
        pair.2.hash 0 pair.1.transactions := by
  simp only [stored, List.flatMap_singleton]
  rfl

theorem stored_append (first second : List Prepared) :
    content.stored (first ++ second) = (content.stored first).stored second := by
  simp only [stored, List.map_append, List.flatMap_append, writeAll_append]

theorem stored_again (first second : List Prepared) :
    (content.stored first).stored (first ++ second) = content.stored (first ++ second) := by
  simp only [stored, List.map_append, List.flatMap_append, writeAll_again]

theorem worked_nil : content.worked [] = content := by
  simp only [worked, List.findSome?_nil, Option.or_none]
  rfl

theorem worked_append (first second : List Job) :
    content.worked (first ++ second) = (content.worked first).worked second := by
  simp only [worked, List.map_append, List.findSome?_append, writeAll_append, Option.or_assoc]

theorem worked_again (first second : List Job) :
    (content.worked first).worked (first ++ second) = content.worked (first ++ second) := by
  simp only [worked, List.map_append, writeAll_again, List.findSome?_append]
  congr 1
  funext identifier
  rw [Option.or_assoc]
  cases first.findSome? (·.registers? identifier) <;> rfl

theorem stored_worked (prepared : List Prepared) (jobs : List Job) :
    (content.worked jobs).stored prepared = (content.stored prepared).worked jobs := rfl

end Content
end ChainLedger
