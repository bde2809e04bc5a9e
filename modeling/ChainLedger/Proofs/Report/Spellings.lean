import ChainLedger.Proofs.Json.Building
import ChainLedger.Proofs.Json.Honouring
import ChainLedger.Report.Format

/-!
# Spellings of reports

The values that spell each report, record by record, and what their readers make of them: whatever
spells a block is read as that block, and a value that repeats a name in any of its records is
refused.
-/

set_option autoImplicit false

namespace ChainLedger.Report

open Json

theorem honours_recordOf {Whole : Type} {fields : List Field} {spellings : Spellings fields}
    {make : Tuple fields → Whole} {contents : Whole → Tuple fields}
    (honoured : spellings.Honoured fields) (distinct : (fields.map (·.name)).Nodup)
    (made : ∀ whole, make (contents whole) = whole) :
    (recordOf fields make).Honours ((Spelling.record fields spellings).consisting contents) :=
  (Reader.honours_record honoured distinct).consisting made

theorem spells_list {Whole : Type} {spelling : Spelling Whole} {toValue : Whole → Value}
    (each : ∀ whole, spelling.Spells (toValue whole) whole) (wholes : List Whole) :
    spelling.list.Spells (.array (wholes.map toValue)) wholes := by
  change List.Forall₂ _ (wholes.map toValue) wholes
  rw [List.forall₂_map_left_iff, List.forall₂_same]
  exact fun whole _ => each whole

namespace Note

def spelling : Spelling Note :=
  (Spelling.record fields (.text, ())).consisting fun note => (note.commitment, ())

theorem honours : reader.Honours spelling :=
  honours_recordOf ⟨Reader.honours_text, trivial⟩ (by decide) fun _ => rfl

theorem spells_toValue (note : Note) : spelling.Spells note.toValue note :=
  Spelling.record_of_give <| Spellings.give_cons rfl rfl

end Note

namespace Spend

def spelling : Spelling Spend :=
  (Spelling.record fields (.text, ())).consisting fun spend => (spend.nullifier, ())

theorem honours : reader.Honours spelling :=
  honours_recordOf ⟨Reader.honours_text, trivial⟩ (by decide) fun _ => rfl

theorem spells_toValue (spend : Spend) : spelling.Spells spend.toValue spend :=
  Spelling.record_of_give <| Spellings.give_cons rfl rfl

end Spend

namespace Mint

def spelling : Spelling Mint :=
  (Spelling.record fields (.text, .text, .text, .text, .integerText, ())).consisting fun mint =>
    (mint.id, mint.metadata, mint.name, mint.owner, mint.value, ())

theorem honours : reader.Honours spelling :=
  honours_recordOf
    ⟨Reader.honours_text, Reader.honours_text, Reader.honours_text, Reader.honours_text,
      Reader.honours_integerText, trivial⟩ (by decide) fun _ => rfl

theorem spells_toValue (mint : Mint) : spelling.Spells mint.toValue mint :=
  Spelling.record_of_give <|
    Spellings.give_cons rfl <| Spellings.give_cons rfl <| Spellings.give_cons rfl <|
      Spellings.give_cons rfl <| Spellings.give_cons (.inl rfl) rfl

end Mint

namespace Burn

def spelling : Spelling Burn :=
  (Spelling.record fields (.text, .integerText, ())).consisting fun burn =>
    (burn.id, burn.value, ())

theorem honours : reader.Honours spelling :=
  honours_recordOf ⟨Reader.honours_text, Reader.honours_integerText, trivial⟩ (by decide)
    fun _ => rfl

theorem spells_toValue (burn : Burn) : spelling.Spells burn.toValue burn :=
  Spelling.record_of_give <| Spellings.give_cons rfl <| Spellings.give_cons (.inl rfl) rfl

end Burn

namespace Transaction

def spelling : Spelling Transaction :=
  (Spelling.record fields
    (.text, .int64, .int32, Note.spelling.list, Spend.spelling.list, Mint.spelling.list,
      Burn.spelling.list, ())).consisting fun transaction =>
        (transaction.hash, transaction.fee, transaction.size, transaction.notes,
          transaction.spends, transaction.mints, transaction.burns, ())

theorem honours : reader.Honours spelling :=
  honours_recordOf
    ⟨Reader.honours_text, Reader.honours_int64, Reader.honours_int32,
      Reader.honours_list Note.honours, Reader.honours_list Spend.honours,
      Reader.honours_list Mint.honours, Reader.honours_list Burn.honours, trivial⟩
    (by decide) fun _ => rfl

theorem spells_toValue (transaction : Transaction) :
    spelling.Spells transaction.toValue transaction :=
  Spelling.record_of_give <|
    Spellings.give_cons rfl <| Spellings.give_cons rfl <| Spellings.give_cons rfl <|
      Spellings.give_cons (spells_list Note.spells_toValue _) <|
        Spellings.give_cons (spells_list Spend.spells_toValue _) <|
          Spellings.give_cons (spells_list Mint.spells_toValue _) <|
            Spellings.give_cons (spells_list Burn.spells_toValue _) rfl

end Transaction

namespace Block

def spelling : Spelling Block :=
  (Spelling.record fields
    (.text, .int32, .text, .int64, .integerText, Spelling.integerText.optional, .text, .int32,
      .variant Operation.variants, Transaction.spelling.list, ())).consisting fun block =>
        (block.hash, block.sequence, block.previousBlockHash, block.timestamp, block.difficulty,
          block.work, block.graffiti, block.size, block.operation, block.transactions, ())

theorem honours : reader.Honours spelling :=
  honours_recordOf
    ⟨Reader.honours_text, Reader.honours_int32, Reader.honours_text, Reader.honours_int64,
      Reader.honours_integerText, Reader.honours_optional Reader.honours_integerText,
      Reader.honours_text, Reader.honours_int32, Reader.honours_variant (by decide),
      Reader.honours_list Transaction.honours, trivial⟩
    (by decide) fun _ => rfl

theorem spells_toValue (block : Block) : spelling.Spells block.toValue block := by
  have work : Spelling.integerText.optional.Spells (.optionalString block.work) block.work := by
    cases block.work with
    | none => exact .inl ⟨rfl, rfl⟩
    | some work => exact .inr ⟨nofun, work, rfl, .inl rfl⟩
  have operation : (Spelling.variant Operation.variants).Spells
      (.string block.operation.name) block.operation := by
    refine ⟨block.operation.name, ?_, .inl rfl⟩
    cases block.operation <;> simp [Operation.variants]
  exact Spelling.record_of_give <|
    Spellings.give_cons rfl <| Spellings.give_cons rfl <| Spellings.give_cons rfl <|
      Spellings.give_cons rfl <| Spellings.give_cons (.inl rfl) <|
        Spellings.give_cons work <| Spellings.give_cons rfl <| Spellings.give_cons rfl <|
          Spellings.give_cons operation <|
            Spellings.give_cons (spells_list Transaction.spells_toValue _) rfl

/-- Every value that spells a block is read as that block, and none that repeats a name is read.
The value may be that of any text, as it is that of its own; among the values that spell a block is
the one that it is written with. -/
theorem spellings_agree :
    (∀ value block, spelling.Spells value block → ofDocument ⟨value.node, false⟩ = .ok block) ∧
      (∀ value, spelling.Repeats value →
        ∃ fault, ofDocument ⟨value.node, false⟩ = .error fault) ∧
      (∀ value : Value, value.WellFormed → Document.ofText value.text = ⟨value.node, false⟩) ∧
      ∀ block : Block, spelling.Spells block.toValue block := by
  refine ⟨fun value block spells => ?_, fun value repeats => ?_,
    fun _ wellFormed => ofText_text_of_wellFormed wellFormed, spells_toValue⟩
  · have read := honours.reads spells rootRoom
    rw [ofDocument, Document.read, read]
    rfl
  · cases read : ofDocument ⟨value.node, false⟩ with
    | error fault => exact ⟨fault, rfl⟩
    | ok block =>
        obtain ⟨root, read, -⟩ := exists_ok_of_bind_ok read
        exact absurd read (honours.refuses repeats rootRoom root)

def plainBlock : Block where
  hash := "b"
  sequence := 1
  previousBlockHash := "a"
  timestamp := 0
  difficulty := "18446744073709551615"
  operation := .fork
  transactions :=
    [{ hash := "t"
       fee := 0
       size := 1
       mints := [{ id := "A", name := "a", owner := "o", value := "5" }]
       burns := [{ id := "A", value := "007" }] }]

def oddTransaction : Value :=
  .array
    [.string "t", .integer 0, .integer 1, .array [], .array [],
     .array [.array [.string "A", .string "", .string "a", .string "o", .integer 5]],
     .array [.object [("value", .string "007"), ("id", .string "A")]]]

/-- The block from its last field to its first, between members that no block has. -/
def oddMembers : List (String × Value) :=
  [("comment", .number ⟨true, ['1'], ['5'], some ⟨false, ['9', '9', '9']⟩⟩),
   ("transactions", .array [oddTransaction]),
   ("type", .object [("FORK", .null)]),
   ("work", .null),
   ("difficulty", .integer 18446744073709551615),
   ("timestamp", .integer 0),
   ("previous_block_hash", .string "a"),
   ("sequence", .integer 1),
   ("hash", .string "b"),
   ("comment", .object [("hash", .null), ("hash", .null)])]

theorem spells_oddTransaction :
    Transaction.spelling.list.Spells (.array [oddTransaction]) plainBlock.transactions := by
  have mint : Mint.spelling.Spells
      (.array [.string "A", .string "", .string "a", .string "o", .integer 5])
      { id := "A", name := "a", owner := "o", value := "5" } :=
    ⟨rfl, rfl, rfl, rfl, .inr ⟨5, by decide, rfl, rfl⟩, rfl⟩
  have burn : Burn.spelling.Spells (.object [("value", .string "007"), ("id", .string "A")])
      { id := "A", value := "007" } :=
    ⟨[("id", .string "A"), ("value", .string "007")], [], List.Perm.swap _ _ _,
      Spellings.give_cons rfl <| Spellings.give_cons (.inl rfl) rfl, nofun⟩
  exact .cons ⟨rfl, rfl, rfl, .nil, .nil, .cons mint .nil, .cons burn .nil, rfl⟩ .nil

theorem spells_oddMembers : spelling.Spells (.object oddMembers) plainBlock := by
  let known : List (String × Value) :=
    [("hash", .string "b"),
     ("sequence", .integer 1),
     ("previous_block_hash", .string "a"),
     ("timestamp", .integer 0),
     ("difficulty", .integer 18446744073709551615),
     ("work", .null),
     ("type", .object [("FORK", .null)]),
     ("transactions", .array [oddTransaction])]
  let first : String × Value :=
    ("comment", .number ⟨true, ['1'], ['5'], some ⟨false, ['9', '9', '9']⟩⟩)
  let second : String × Value := ("comment", .object [("hash", .null), ("hash", .null)])
  have perm : oddMembers.Perm (known ++ [first, second]) :=
    (((List.reverse_perm known).append_right [second]).cons first).trans List.perm_middle.symm
  have difficulty : Spelling.integerText.Spells (.integer 18446744073709551615)
      plainBlock.difficulty :=
    .inr ⟨18446744073709551615, by decide, by decide, rfl⟩
  have operation : (Spelling.variant Operation.variants).Spells (.object [("FORK", .null)])
      plainBlock.operation :=
    ⟨"FORK", by simp [Operation.variants, Operation.name, plainBlock], .inr rfl⟩
  refine ⟨known, [first, second], perm, ?_, by decide⟩
  exact
    Spellings.give_cons rfl <| Spellings.give_cons rfl <| Spellings.give_cons rfl <|
      Spellings.give_cons rfl <| Spellings.give_cons difficulty <|
        Spellings.give_cons (.inl ⟨rfl, rfl⟩) <| Spellings.give_omitted rfl <|
          Spellings.give_omitted rfl <| Spellings.give_cons operation <|
            Spellings.give_cons spells_oddTransaction rfl

theorem wellFormed_oddMembers : (Value.object oddMembers).WellFormed := by
  have comment : (Value.number ⟨true, ['1'], ['5'], some ⟨false, ['9', '9', '9']⟩⟩).WellFormed :=
    .number
      { integer := .inr ⟨by simp, '1', rfl, by decide⟩
        fraction := by simp
        exponent := by simp }
  simp [oddMembers, oddTransaction, comment]

def repeatingMembers : List (String × Value) := oddMembers ++ [("hash", .string "c")]

/-- The odd text is read as the plain block, and is refused when it repeats a name. -/
theorem spellings_agree_on_oddMembers :
    ofDocument (.ofText (Value.object oddMembers).text) = .ok plainBlock ∧
      ofDocument ⟨plainBlock.toValue.node, false⟩ = .ok plainBlock ∧
      ∃ fault, ofDocument ⟨(Value.object repeatingMembers).node, false⟩ = .error fault := by
  obtain ⟨reads, refuses, ofText, written⟩ := spellings_agree
  have repeats : spelling.Repeats (.object repeatingMembers) := .inl (by decide)
  refine ⟨?_, reads _ _ (written _), refuses _ repeats⟩
  rw [ofText _ wellFormed_oddMembers]
  exact reads _ _ spells_oddMembers

end Block

end ChainLedger.Report
