import ChainLedger.Proofs.Settings.Addresses
import ChainLedger.Proofs.Sql.Statements

/-!
# The database that is created

Creating a database sends the server two texts, each of which has the name between two marks as it
is given. Read by the server's rules, the first is one selection that asks for the name, and the
second is one statement that creates it, exactly if the name has no such mark in it and, for the
second, is not empty. Any name would be asked for and created if its marks were written doubled.
-/

set_option autoImplicit false

namespace ChainLedger.Settings

open Sql

structure Phrase where
  lead : String
  tokens : List Token
  mark : Char
  isMark : isMark mark = true
  leads : Leads lead.toList tokens
  unquoted : ∀ token ∈ tokens, token.cost mark = 0

namespace Phrase

def text (phrase : Phrase) (name : String) : String :=
  phrase.lead ++ String.singleton phrase.mark ++ name ++ String.singleton phrase.mark

def statement (phrase : Phrase) (name : String) : List Token :=
  phrase.tokens ++ [.quoted phrase.mark name.toList]

def doubledName (phrase : Phrase) (name : String) : String :=
  String.ofList (doubled phrase.mark name.toList)

/-- The names that a quoted token can have for its content. -/
def Admits (phrase : Phrase) (name : String) : Prop := phrase.mark = '"' → name ≠ ""

theorem toList_text (phrase : Phrase) (name : String) :
    (phrase.text name).toList =
      phrase.lead.toList ++ phrase.mark :: name.toList ++ [phrase.mark] := by
  simp [text]

variable {phrase : Phrase} {name : String}

theorem readsAs_doubledName (admits : phrase.Admits name) :
    ReadsAs (phrase.text (phrase.doubledName name)) (phrase.statement name) := by
  rw [ReadsAs, toList_text, doubledName, String.toList_ofList]
  exact statements?_doubled phrase.leads phrase.isMark fun isDouble => by
    simpa using admits isDouble

theorem not_mem_of_denotes (denotes : Denotes (phrase.text name) phrase.mark name.toList) :
    phrase.mark ∉ name.toList :=
  Sql.not_mem_of_denotes phrase.leads phrase.unquoted (phrase.toList_text name) denotes

theorem admits_of_denotes (denotes : Denotes (phrase.text name) phrase.mark name.toList) :
    phrase.Admits name := by
  rintro isDouble rfl
  obtain ⟨statements, read, -⟩ := denotes
  rw [toList_text, isDouble, String.toList_empty, List.append_assoc, List.singleton_append,
    statements?_emptyName phrase.leads] at read
  cases read

theorem readsAs_of_not_mem (absent : phrase.mark ∉ name.toList) (admits : phrase.Admits name) :
    ReadsAs (phrase.text name) (phrase.statement name) := by
  have reads := readsAs_doubledName admits
  rwa [doubledName, doubled_of_not_mem absent, String.ofList_toList] at reads

theorem readsAs_iff_denotes :
    ReadsAs (phrase.text name) (phrase.statement name) ↔
      Denotes (phrase.text name) phrase.mark name.toList := by
  constructor
  · exact fun reads => ⟨_, reads, _, List.mem_singleton_self _, by simp [statement]⟩
  · exact fun denotes =>
      readsAs_of_not_mem (not_mem_of_denotes denotes) (admits_of_denotes denotes)

theorem readsAs_iff :
    ReadsAs (phrase.text name) (phrase.statement name) ↔
      phrase.mark ∉ name.toList ∧ phrase.Admits name := by
  constructor
  · intro reads
    have denotes := readsAs_iff_denotes.mp reads
    exact ⟨not_mem_of_denotes denotes, admits_of_denotes denotes⟩
  · rintro ⟨absent, admits⟩
    exact readsAs_of_not_mem absent admits

end Phrase

def asking : Phrase where
  lead := "SELECT 1 FROM pg_database WHERE datname = "
  tokens :=
    [.word ['S', 'E', 'L', 'E', 'C', 'T'], .word ['1'], .word ['F', 'R', 'O', 'M'],
      .word "pg_database".toList, .word ['W', 'H', 'E', 'R', 'E'], .word "datname".toList,
      .sign '=']
  mark := '\''
  isMark := rfl
  leads := by unfold Leads; decide +kernel
  unquoted := by simp [Token.cost]

def creating : Phrase where
  lead := "CREATE DATABASE "
  tokens := [.word "CREATE".toList, .word "DATABASE".toList]
  mark := '"'
  isMark := rfl
  leads := by unfold Leads; decide +kernel
  unquoted := by simp [Token.cost]

theorem existenceQuery_eq (name : String) : existenceQuery name = asking.text name := by
  have front : "SELECT 1 FROM pg_database WHERE datname = '" =
      asking.lead ++ String.singleton asking.mark := by decide +kernel
  have back : "'" = String.singleton asking.mark := by decide
  exact congrArg₂ (fun front back => front ++ name ++ back) front back

theorem creationStatement_eq (name : String) : creationStatement name = creating.text name := by
  have front : "CREATE DATABASE \"" = creating.lead ++ String.singleton creating.mark := by
    decide +kernel
  have back : "\"" = String.singleton creating.mark := by decide
  exact congrArg₂ (fun front back => front ++ name ++ back) front back

/-- The runs of the client program: the question, and the statement unless the answer is one. -/
theorem calls_create {environment : Environment} {address : DatabaseUrl}
    (read : readAddress environment = .ok address) (given : Option String) (client : Client)
    (passable : arePassable
      [address.maintenance, "-t", "-c", existenceQuery (given.getD address.name)]) :
    (create environment given (some client)).calls =
      let name := given.getD address.name
      let check := [address.maintenance, "-t", "-c", existenceQuery name]
      if Text.trim (client check).output = "1" then [check]
      else [check, [address.maintenance, "-c", creationStatement name]] := by
  simp only [create, read, passable, Bool.not_true, Bool.false_eq_true, if_false]
  split <;> rfl

/-- The database of the given name, or else of the address, is asked for by a text that asks for it
exactly if no single quote is in the name, and created by a text that creates it exactly if no
double quote is in the name and the name is not empty. Where a text does not say what it should, no
token in it is the name. With the quotes written doubled it would be said of every name. -/
theorem create_names_database_iff {environment : Environment} {address : DatabaseUrl}
    (read : readAddress environment = .ok address) (given : Option String) (client : Client) :
    let name := given.getD address.name
    let check := [address.maintenance, "-t", "-c", existenceQuery name]
    let creation := [address.maintenance, "-c", creationStatement name]
    arePassable check →
      (create environment given (some client)).calls =
          (if Text.trim (client check).output = "1" then [check] else [check, creation]) ∧
        (ReadsAs (existenceQuery name) (asking.statement name) ↔ '\'' ∉ name.toList) ∧
        (Denotes (existenceQuery name) '\'' name.toList ↔ '\'' ∉ name.toList) ∧
        ReadsAs (existenceQuery (asking.doubledName name)) (asking.statement name) ∧
        (ReadsAs (creationStatement name) (creating.statement name) ↔
          '"' ∉ name.toList ∧ name ≠ "") ∧
        (Denotes (creationStatement name) '"' name.toList ↔ '"' ∉ name.toList ∧ name ≠ "") ∧
        (name ≠ "" →
          ReadsAs (creationStatement (creating.doubledName name)) (creating.statement name)) := by
  intro name check creation passable
  have admitted : asking.Admits name := fun isDouble => absurd isDouble (by decide)
  have asked : ReadsAs (asking.text name) (asking.statement name) ↔ '\'' ∉ name.toList :=
    Phrase.readsAs_iff.trans (and_iff_left admitted)
  have created : ReadsAs (creating.text name) (creating.statement name) ↔
      '"' ∉ name.toList ∧ name ≠ "" :=
    Phrase.readsAs_iff.trans (and_congr_right fun _ => forall_prop_of_true rfl)
  refine ⟨calls_create read given client passable, ?_⟩
  simp only [existenceQuery_eq, creationStatement_eq]
  refine ⟨asked, ?_, ?_, created, ?_, ?_⟩
  · exact Phrase.readsAs_iff_denotes.symm.trans asked
  · exact Phrase.readsAs_doubledName admitted
  · exact Phrase.readsAs_iff_denotes.symm.trans created
  · exact fun filled => Phrase.readsAs_doubledName fun _ => filled

def quotedAddress : DatabaseUrl :=
  { url := "postgres://u:p@localhost:5432/o'brien"
    host := "localhost"
    port := "5432"
    name := "o'brien"
    user := "u"
    password := "p" }

def quotedEnvironment : Environment := [("DATABASE_URL", quotedAddress.url)]

/-- A name with a single quote is created, but asked for by a text that has it nowhere. For a name
with two double quotes in a row the text that asks is right, and the other one creates a database
of another name. -/
theorem quoted_names_asked_or_created_wrongly :
    readAddress quotedEnvironment = .ok quotedAddress ∧
      (create quotedEnvironment none (some fun _ => {})).calls =
        [[quotedAddress.maintenance, "-t", "-c", existenceQuery "o'brien"],
          [quotedAddress.maintenance, "-c", creationStatement "o'brien"]] ∧
      ¬Denotes (existenceQuery "o'brien") '\'' "o'brien".toList ∧
      ReadsAs (creationStatement "o'brien") (creating.statement "o'brien") ∧
      ReadsAs (existenceQuery "a\"\"b") (asking.statement "a\"\"b") ∧
      ReadsAs (creationStatement "a\"\"b") (creating.statement "a\"b") ∧
      ¬Denotes (creationStatement "a\"\"b") '"' "a\"\"b".toList := by
  have read : readAddress quotedEnvironment = .ok quotedAddress := by decide +kernel
  obtain ⟨calls, -, asked, -, created, -⟩ :=
    create_names_database_iff read none (fun _ => {}) (by decide +kernel)
  obtain ⟨-, twiceAsked, -, -, -, twiceCreated, -⟩ :=
    create_names_database_iff read (some "a\"\"b") (fun _ => {}) (by decide +kernel)
  obtain ⟨-, -, -, -, -, -, onceCreated⟩ :=
    create_names_database_iff read (some "a\"b") (fun _ => {}) (by decide +kernel)
  have twice : creating.doubledName "a\"b" = "a\"\"b" := by decide +kernel
  have once := onceCreated (by decide)
  rw [Option.getD_some, twice] at once
  exact ⟨read, calls, mt asked.mp (by decide), created.mpr (by decide), twiceAsked.mpr (by decide),
    once, mt twiceCreated.mp (by decide)⟩

end ChainLedger.Settings
