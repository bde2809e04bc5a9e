import Mathlib

/-!
# Statements of a text

How the database server reads a text: as statements between semicolons, each of them words, signs
and quoted tokens. Inside a quoted token its mark is written doubled, and a quoted name is not
empty. Comments are skipped. Strings that begin with a letter or with dollar signs are not told
apart from the words and signs that they begin with.

A quoted token takes its content to write, each mark in it once more, and the two marks around it.
So a text in which a content stands between two marks as it is can only denote it if no mark is in
it.
-/

set_option autoImplicit false

namespace ChainLedger.Sql

inductive Token
  | word (characters : List Char)
  | sign (character : Char)
  | quoted (mark : Char) (content : List Char)
  deriving DecidableEq, Repr

/-- Where the reader stands: the characters of an open token are kept last first. A mark in a quoted
token is its end unless the next character doubles it. Comments between slashes nest, and there the
last character counts. -/
inductive Mode
  | between
  | word (held : List Char)
  | dash
  | slash
  | quoted (mark : Char) (held : List Char)
  | closing (mark : Char) (held : List Char)
  | lineComment
  | blockComment (around : Nat) (last : Char)
  | refused
  deriving DecidableEq, Repr

def isBlank (character : Char) : Bool :=
  character ∈ [' ', '\t', '\n', '\r', '\x0b', '\x0c']

def isWordCharacter (character : Char) : Bool :=
  character.isAlphanum || character = '_' || character = '$' || 128 ≤ character.toNat

/-- Strings stand between single quotes and names between double quotes. -/
def isMark (character : Char) : Bool := character = '\'' || character = '"'

namespace Mode

/-- The reader may leave what it reads here; a quoted name is not left empty. -/
def mayEnd : Mode → Bool
  | between | word _ | dash | slash | lineComment => true
  | closing mark held => !(mark = '"' && held.isEmpty)
  | quoted _ _ | blockComment _ _ | refused => false

def token? : Mode → Option Token
  | word held => some (.word held.reverse)
  | dash => some (.sign '-')
  | slash => some (.sign '/')
  | closing mark held => some (.quoted mark held.reverse)
  | between | quoted _ _ | lineComment | blockComment _ _ | refused => none

def next? (character : Char) : Mode → Option Mode
  | between => none
  | word held => if isWordCharacter character then some (word (character :: held)) else none
  | dash => if character = '-' then some lineComment else none
  | slash => if character = '*' then some (blockComment 0 ' ') else none
  | quoted mark held =>
    some (if character = mark then closing mark held else quoted mark (character :: held))
  | closing mark held =>
    if character = mark then some (quoted mark (mark :: held))
    else if (closing mark held).mayEnd then none
    else some refused
  | lineComment =>
    some (if character = '\n' ∨ character = '\r' then between else lineComment)
  | blockComment around last =>
    some <|
      if last = '/' ∧ character = '*' then blockComment (around + 1) ' '
      else if last = '*' ∧ character = '/' then
        match around with
        | 0 => between
        | around + 1 => blockComment around ' '
      else blockComment around character
  | refused => some refused

end Mode

structure Scanner where
  mode : Mode := .between
  tokens : List Token := []
  statements : List (List Token) := []
  deriving DecidableEq, Repr

namespace Scanner

def settle (scanner : Scanner) : Scanner :=
  { scanner with mode := .between, tokens := scanner.mode.token?.toList ++ scanner.tokens }

/-- Ends the open statement. Nothing between two semicolons is no statement. -/
def endStatement (scanner : Scanner) : Scanner :=
  if scanner.tokens.isEmpty then scanner
  else { scanner with tokens := [], statements := scanner.tokens.reverse :: scanner.statements }

def start (scanner : Scanner) (character : Char) : Scanner :=
  if isBlank character then scanner
  else if character = ';' then scanner.endStatement
  else if isMark character then { scanner with mode := .quoted character [] }
  else if isWordCharacter character then { scanner with mode := .word [character] }
  else if character = '-' then { scanner with mode := .dash }
  else if character = '/' then { scanner with mode := .slash }
  else { scanner with tokens := .sign character :: scanner.tokens }

def step (scanner : Scanner) (character : Char) : Scanner :=
  match scanner.mode.next? character with
  | some mode => { scanner with mode }
  | none => scanner.settle.start character

def run (scanner : Scanner) (characters : List Char) : Scanner :=
  characters.foldl step scanner

theorem run_cons (scanner : Scanner) (character : Char) (characters : List Char) :
    scanner.run (character :: characters) = (scanner.step character).run characters := rfl

theorem run_append (scanner : Scanner) (first second : List Char) :
    scanner.run (first ++ second) = (scanner.run first).run second :=
  List.foldl_append

def finish (scanner : Scanner) : Option (List (List Token)) :=
  if scanner.mode.mayEnd then some scanner.settle.endStatement.statements.reverse else none

end Scanner

def statements? (text : List Char) : Option (List (List Token)) := (Scanner.run {} text).finish

/-- A text is one statement. -/
def ReadsAs (text : String) (statement : List Token) : Prop :=
  statements? text.toList = some [statement]

/-- Somewhere in the text a quoted token has the content. -/
def Denotes (text : String) (mark : Char) (content : List Char) : Prop :=
  ∃ statements, statements? text.toList = some statements ∧
    ∃ statement ∈ statements, .quoted mark content ∈ statement

/-! ## Quoting -/

def doubled (mark : Char) (content : List Char) : List Char :=
  content.flatMap fun character => if character = mark then [mark, mark] else [character]

theorem doubled_of_not_mem {mark : Char} {content : List Char} (absent : mark ∉ content) :
    doubled mark content = content := by
  induction content with
  | nil => rfl
  | cons character content ih =>
      obtain ⟨differs, absent⟩ := not_or.mp (mt List.mem_cons.mpr absent)
      rw [doubled, List.flatMap_cons, if_neg (Ne.symm differs)]
      exact congrArg (character :: ·) (ih absent)

def Leads (lead : List Char) (tokens : List Token) : Prop :=
  Scanner.run {} lead = { tokens := tokens.reverse }

namespace Scanner

variable {mark : Char} {tokens : List Token} {statements : List (List Token)}

theorem run_doubled (mark : Char) (held content : List Char) (tokens : List Token)
    (statements : List (List Token)) :
    Scanner.run ⟨.quoted mark held, tokens, statements⟩ (doubled mark content) =
      ⟨.quoted mark (content.reverse ++ held), tokens, statements⟩ := by
  induction content generalizing held with
  | nil => rfl
  | cons character content ih =>
      rw [doubled, List.flatMap_cons, run_append]
      have one : Scanner.run ⟨.quoted mark held, tokens, statements⟩
          (if character = mark then [mark, mark] else [character]) =
            ⟨.quoted mark (character :: held), tokens, statements⟩ := by
        split
        next same => simp [run, step, Mode.next?, same]
        next differs => simp [run, step, Mode.next?, differs]
      rw [one]
      refine (ih (character :: held)).trans ?_
      rw [List.reverse_cons, List.append_assoc, List.singleton_append]

theorem step_between_mark (isMark : Sql.isMark mark = true) :
    Scanner.step ⟨.between, tokens, statements⟩ mark = ⟨.quoted mark [], tokens, statements⟩ := by
  simp only [Sql.isMark, Bool.or_eq_true, decide_eq_true_eq] at isMark
  rcases isMark with rfl | rfl <;> rfl

end Scanner

section Quoting

variable {lead content : List Char} {tokens : List Token} {mark : Char}

/-- What is written doubled between two marks is read as it was. -/
theorem statements?_doubled (leads : Leads lead tokens) (isMark : isMark mark = true)
    (filled : mark = '"' → content ≠ []) :
    statements? (lead ++ mark :: doubled mark content ++ [mark]) =
      some [tokens ++ [.quoted mark content]] := by
  have closes : Scanner.run {} (lead ++ mark :: doubled mark content ++ [mark]) =
      ⟨.closing mark content.reverse, tokens.reverse, []⟩ := by
    rw [Scanner.run_append, Scanner.run_append, leads,
      Scanner.run_cons _ mark (doubled mark content), Scanner.step_between_mark isMark,
      Scanner.run_doubled, List.append_nil]
    simp [Scanner.run, Scanner.step, Mode.next?]
  have ends : (Mode.closing mark content.reverse).mayEnd = true := by
    simpa [Mode.mayEnd, imp_iff_not_or] using filled
  rw [statements?, closes, Scanner.finish, if_pos ends]
  simp [Scanner.settle, Mode.token?, Scanner.endStatement]

theorem statements?_emptyName (leads : Leads lead tokens) :
    statements? (lead ++ ['"', '"']) = none := by
  rw [statements?, Scanner.run_append, leads]
  rfl

end Quoting

/-! ## What quoted tokens take to write -/

def Token.cost (mark : Char) : Token → Nat
  | quoted own content => if own = mark then content.length + content.count mark + 2 else 0
  | word _ | sign _ => 0

def Mode.cost (mark : Char) : Mode → Nat
  | quoted own held => if own = mark then held.length + held.count mark + 1 else 0
  | closing own held => if own = mark then held.length + held.count mark + 2 else 0
  | between | word _ | dash | slash | lineComment | blockComment _ _ | refused => 0

structure Scanner.Within (mark : Char) (characters : Nat) (scanner : Scanner) : Prop where
  mode : scanner.mode.cost mark ≤ characters
  tokens : ∀ token ∈ scanner.tokens, token.cost mark ≤ characters
  statements : ∀ statement ∈ scanner.statements, ∀ token ∈ statement,
    token.cost mark ≤ characters

theorem Mode.cost_token? {mark : Char} {mode : Mode} {token : Token}
    (ends : mode.token? = some token) : token.cost mark = mode.cost mark := by
  cases mode with
  | word | dash | slash | closing =>
      obtain rfl := Option.some.inj ends
      simp [Token.cost, Mode.cost]
  | between | quoted | lineComment | blockComment | refused => cases ends

theorem Mode.cost_next? {mark character : Char} {mode next : Mode}
    (goesOn : mode.next? character = some next) : next.cost mark ≤ mode.cost mark + 1 := by
  cases mode with
  | between => cases goesOn
  | word | dash | slash =>
      rw [Mode.next?, Option.ite_none_right_eq_some] at goesOn
      obtain ⟨-, same⟩ := goesOn
      obtain rfl := Option.some.inj same
      exact Nat.zero_le _
  | quoted own held =>
      obtain rfl := Option.some.inj goesOn
      by_cases isOwn : own = mark
      · split
        next => simp [Mode.cost, isOwn]
        next differs =>
          have other : character ≠ mark := isOwn ▸ differs
          simp [Mode.cost, isOwn, List.count_cons_of_ne other]
          omega
      · split <;> simp [Mode.cost, isOwn]
  | closing own held =>
      rw [Mode.next?] at goesOn
      split at goesOn
      next =>
        obtain rfl := Option.some.inj goesOn
        by_cases isOwn : own = mark
        · simp [Mode.cost, isOwn]
          omega
        · simp [Mode.cost, isOwn]
      next =>
        split at goesOn
        next => cases goesOn
        next =>
          obtain rfl := Option.some.inj goesOn
          exact Nat.zero_le _
  | lineComment =>
      obtain rfl := Option.some.inj goesOn
      split <;> exact Nat.zero_le _
  | blockComment around last =>
      obtain rfl := Option.some.inj goesOn
      split
      · exact Nat.zero_le _
      · split
        · cases around <;> exact Nat.zero_le _
        · exact Nat.zero_le _
  | refused =>
      obtain rfl := Option.some.inj goesOn
      exact Nat.zero_le _

namespace Scanner.Within

variable {mark character : Char} {characters more : Nat} {scanner : Scanner}

theorem mono (within : scanner.Within mark characters) (le : characters ≤ more) :
    scanner.Within mark more where
  mode := within.mode.trans le
  tokens token member := (within.tokens token member).trans le
  statements statement member token isToken :=
    (within.statements statement member token isToken).trans le

theorem settle (within : scanner.Within mark characters) :
    scanner.settle.Within mark characters where
  mode := Nat.zero_le _
  tokens := by
    intro token member
    rcases List.mem_append.mp member with ends | member
    · rw [Mode.cost_token? (Option.mem_toList.mp ends)]
      exact within.mode
    · exact within.tokens token member
  statements := within.statements

theorem endStatement (within : scanner.Within mark characters) :
    scanner.endStatement.Within mark characters := by
  rw [Scanner.endStatement]
  split
  next => exact within
  next =>
    refine ⟨within.mode, nofun, List.forall_mem_cons.mpr ⟨?_, within.statements⟩⟩
    exact fun token member => within.tokens token (List.mem_reverse.mp member)

theorem start (within : scanner.Within mark characters) :
    (scanner.start character).Within mark (characters + 1) := by
  have grown := within.mono (Nat.le_add_right characters 1)
  have opened : ∀ mode : Mode, mode.cost mark ≤ 1 →
      Scanner.Within mark (characters + 1) { scanner with mode } :=
    fun mode cost => ⟨cost.trans (Nat.le_add_left 1 _), grown.tokens, grown.statements⟩
  unfold Scanner.start
  split_ifs
  · exact grown
  · exact grown.endStatement
  · apply opened
    by_cases isOwn : character = mark <;> simp [Mode.cost, isOwn]
  · exact opened _ (Nat.zero_le _)
  · exact opened _ (Nat.zero_le _)
  · exact opened _ (Nat.zero_le _)
  · exact ⟨grown.mode, List.forall_mem_cons.mpr ⟨Nat.zero_le _, grown.tokens⟩, grown.statements⟩

/-- One more character adds at most one to what a token has taken. -/
theorem step (within : scanner.Within mark characters) :
    (scanner.step character).Within mark (characters + 1) := by
  rw [Scanner.step]
  split
  next mode goesOn =>
    have grown := within.mono (Nat.le_add_right characters 1)
    refine ⟨?_, grown.tokens, grown.statements⟩
    exact (Mode.cost_next? goesOn).trans (Nat.add_le_add_right within.mode 1)
  next => exact within.settle.start

theorem run {text : List Char} (within : scanner.Within mark characters) :
    (scanner.run text).Within mark (characters + text.length) := by
  induction text generalizing scanner characters with
  | nil => exact within
  | cons character text ih =>
      rw [Scanner.run_cons, List.length_cons, Nat.add_comm text.length, ← Nat.add_assoc]
      exact ih within.step

theorem finish (within : scanner.Within mark characters) {statements : List (List Token)}
    (finished : scanner.finish = some statements) :
    ∀ statement ∈ statements, ∀ token ∈ statement, token.cost mark ≤ characters := by
  rw [Scanner.finish, Option.ite_none_right_eq_some] at finished
  obtain ⟨-, same⟩ := finished
  obtain rfl := Option.some.inj same
  intro statement member
  exact within.settle.endStatement.statements statement (List.mem_reverse.mp member)

end Scanner.Within

/-- What stands between two marks as it is, is denoted nowhere in the text if a mark is in it. -/
theorem not_mem_of_denotes {lead content : List Char} {tokens : List Token} {mark : Char}
    (leads : Leads lead tokens) (unquoted : ∀ token ∈ tokens, token.cost mark = 0)
    {text : String} (written : text.toList = lead ++ mark :: content ++ [mark])
    (denotes : Denotes text mark content) : mark ∉ content := by
  obtain ⟨statements, read, statement, isStatement, isToken⟩ := denotes
  have within : Scanner.Within mark 0 { tokens := tokens.reverse } :=
    ⟨Nat.le_refl 0, fun token member => (unquoted token (List.mem_reverse.mp member)).le, nofun⟩
  have reached : Scanner.run {} text.toList =
      Scanner.run { tokens := tokens.reverse } (mark :: content ++ [mark]) := by
    rw [written, List.append_assoc, Scanner.run_append, leads]
  rw [statements?, reached] at read
  -- the token takes each of its marks once more than the characters behind the lead have it
  have cost := within.run.finish read statement isStatement _ isToken
  simp only [Token.cost, if_pos, List.length_append, List.length_cons, List.length_nil] at cost
  exact List.count_eq_zero.mp (by omega)

end ChainLedger.Sql
