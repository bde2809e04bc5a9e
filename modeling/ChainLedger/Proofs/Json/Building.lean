import ChainLedger.Proofs.Json.Scanning

/-!
# Building the tree of a written value

The tokens of a value are built into its tree, inside whatever frames are open. Together with what
the reader of symbols finds in the text of a value, a value that is written and read is its own
tree again, with nothing behind it.
-/

set_option autoImplicit false

namespace ChainLedger.Json

namespace Value

theorem exists_head_tokens (value : Value) :
    ∃ first rest, value.tokens = first :: rest ∧ first ≠ .closeArray := by
  cases value <;> simp [tokens]

theorem exists_head_itemTokens (item : Value) (items : List Value) :
    ∃ first rest, itemTokens (item :: items) = first :: rest ∧ first ≠ .closeArray := by
  obtain ⟨first, rest, starts, isValue⟩ := item.exists_head_tokens
  cases items with
  | nil => exact ⟨first, rest, starts, isValue⟩
  | cons next items =>
      refine ⟨first, rest ++ .comma :: itemTokens (next :: items), ?_, isValue⟩
      rw [itemTokens, starts, List.cons_append]
      simp

end Value

namespace Builder

def build (builder : Builder) (tokens : List Token) : Builder :=
  tokens.foldl step builder

theorem build_cons (builder : Builder) (token : Token) (tokens : List Token) :
    builder.build (token :: tokens) = (builder.step token).build tokens := rfl

theorem build_append (builder : Builder) (first second : List Token) :
    builder.build (first ++ second) = (builder.build first).build second :=
  List.foldl_append

theorem step_valueOrClose {token : Token} (isValue : token ≠ .closeArray) (frames : List Frame) :
    step (.valueOrClose frames) token = step (.value frames) token := by
  cases token <;> first | rfl | exact absurd rfl isValue

theorem build_items {items : List Value}
    (each : ∀ item ∈ items, ∀ frames, build (.value frames) item.tokens = place item.node frames)
    (nonempty : items ≠ []) (before : List Node) (frames : List Frame) :
    build (.value (.array before :: frames)) (Value.itemTokens items) =
      .separator (.array ((Value.nodes items).reverse ++ before)) frames := by
  induction items generalizing before with
  | nil => exact absurd rfl nonempty
  | cons item items ih =>
      have first := each item (by simp) (.array before :: frames)
      cases items with
      | nil => exact first
      | cons next items =>
          have rest := ih (fun other member => each other (by simp [member])) (by simp)
            (item.node :: before)
          rw [Value.itemTokens, build_append, first, build_cons]
          · refine rest.trans ?_
            simp [Value.nodes]
          · simp

theorem build_members {members : List (String × Value)}
    (each : ∀ member ∈ members, ∀ frames,
      build (.value frames) member.2.tokens = place member.2.node frames)
    (nonempty : members ≠ []) (before : List (Option String × Node)) (frames : List Frame) :
    ∃ name, build (.key before frames) (Value.memberTokens members) =
      .separator (.object ((Value.memberNodes members).reverse ++ before) name) frames := by
  induction members generalizing before with
  | nil => exact absurd rfl nonempty
  | cons member members ih =>
      obtain ⟨name, value⟩ := member
      have first := each (name, value) (by simp) (.object before (some name) :: frames)
      have named (tokens : List Token) :
          build (.key before frames) (.string (some name) :: .colon :: tokens) =
            build (.value (.object before (some name) :: frames)) tokens := rfl
      cases members with
      | nil =>
          refine ⟨some name, ?_⟩
          rw [Value.memberTokens, named, first]
          rfl
      | cons next members =>
          obtain ⟨last, rest⟩ := ih (fun other member => each other (by simp [member])) (by simp)
            ((some name, value.node) :: before)
          refine ⟨last, ?_⟩
          rw [Value.memberTokens, named, build_append, first, build_cons]
          · refine rest.trans ?_
            simp [Value.memberNodes]
          · simp

theorem build_tokens {value : Value} (wellFormed : value.WellFormed) (frames : List Frame) :
    build (.value frames) value.tokens = place value.node frames := by
  induction wellFormed generalizing frames with
  | null | bool | number | string => rfl
  | @array items _ ih =>
      have opened (tokens : List Token) : build (.value frames) (.openArray :: tokens) =
          build (.valueOrClose (.array [] :: frames)) tokens := rfl
      rw [Value.tokens, opened, Value.node]
      cases items with
      | nil => rfl
      | cons item items =>
          have inside := build_items ih (by simp) [] frames
          obtain ⟨first, rest, starts, isValue⟩ := Value.exists_head_itemTokens item items
          rw [starts] at inside
          rw [starts, List.cons_append, build_cons, step_valueOrClose isValue, ← build_cons,
            ← List.cons_append, build_append, inside]
          simp [build, step]
  | @object members _ ih =>
      have opened (tokens : List Token) : build (.value frames) (.openObject :: tokens) =
          build (.keyOrClose frames) tokens := rfl
      rw [Value.tokens, opened, Value.node]
      cases members with
      | nil => rfl
      | cons member members =>
          obtain ⟨name, inside⟩ := build_members ih (by simp) [] frames
          -- a first key is read in the same way whether or not the object may end in its place
          have keyed : build (.keyOrClose frames) (Value.memberTokens (member :: members)) =
              build (.key [] frames) (Value.memberTokens (member :: members)) := by
            cases members <;> rfl
          rw [build_append, keyed, inside]
          simp [build, step]

end Builder

/-- A value that is written and read is its own tree, with nothing behind it. -/
theorem ofText_text_of_wellFormed {value : Value} (wellFormed : value.WellFormed) :
    Document.ofText value.text = ⟨value.node, false⟩ := by
  have built := Builder.build_tokens wellFormed []
  rw [Document.ofText, Document.ofSymbols, symbolsOfText, Value.text, String.toList_ofList,
    tokensOf_write wellFormed]
  exact congrArg Builder.finish built

theorem ofText_text {value : Value} (integral : value.Integral) :
    Document.ofText value.text = ⟨value.node, false⟩ :=
  ofText_text_of_wellFormed integral.wellFormed

end ChainLedger.Json
