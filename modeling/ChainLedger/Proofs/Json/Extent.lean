import Mathlib
import ChainLedger.Json.Node

/-!
# The extent of a text

Reading a text never makes more of it than it has octets. An octet adds one symbol at most, a
symbol completes one token at most, and a token begins one value at most. Each reader is measured
with what it holds back, and a step adds one to the measure at most.
-/

set_option autoImplicit false

namespace ChainLedger

/-! ## Symbols -/

namespace Text.OctetReader

open Json (symbolsOfPiece)

/-- The symbols that have been read, with an octet of an incomplete character counted as one. -/
def extent (reader : OctetReader) : Nat :=
  (reader.pieces.flatMap symbolsOfPiece).length + (reader.pending.map (·.held)).getD 0

theorem extent_first_le (pieces : List Piece) (octet : Nat) :
    (first ⟨pieces, none⟩ octet).extent ≤ (pieces.flatMap symbolsOfPiece).length + 1 := by
  rw [first]
  split
  · simp [extent, symbolsOfPiece]
  split
  · simp [extent]
  split
  · simp [extent]
  split
  · simp [extent]
  · simp [extent, symbolsOfPiece]

theorem extent_step_le (reader : OctetReader) (octet : Nat) :
    (reader.step octet).extent ≤ reader.extent + 1 := by
  obtain ⟨pieces, pending⟩ := reader
  cases pending with
  | none => exact extent_first_le pieces octet
  | some part =>
      rw [step]
      dsimp only
      split
      · split
        · simp [extent, symbolsOfPiece]
        · simp [extent]
          omega
      · refine (extent_first_le (.stray part.held :: pieces) octet).trans (Nat.le_of_eq ?_)
        rw [List.flatMap_cons, List.length_append, symbolsOfPiece, List.length_replicate, extent,
          Option.map_some, Option.getD_some, Nat.add_comm part.held]

theorem extent_foldl_le (octets : List Nat) (reader : OctetReader) :
    (octets.foldl step reader).extent ≤ reader.extent + octets.length := by
  induction octets generalizing reader with
  | nil => exact Nat.le_refl _
  | cons octet octets ih =>
      have first := reader.extent_step_le octet
      have others := ih (reader.step octet)
      rw [List.foldl_cons, List.length_cons]
      omega

theorem length_finish (reader : OctetReader) :
    (reader.finish.flatMap symbolsOfPiece).length = reader.extent := by
  obtain ⟨pieces, pending⟩ := reader
  cases pending <;> simp [finish, extent, symbolsOfPiece, List.length_flatMap, List.sum_reverse]

end Text.OctetReader

namespace Json

theorem length_symbolsOfOctets_le (octets : List Nat) :
    (symbolsOfOctets octets).length ≤ octets.length := by
  rw [symbolsOfOctets, Text.piecesOf, Text.OctetReader.length_finish]
  exact (Text.OctetReader.extent_foldl_le octets {}).trans (Nat.le_of_eq (Nat.zero_add _))

/-! ## Tokens -/

def Mode.pending : Mode → Nat
  | .between | .stopped => 0
  | .word _ _ | .number _ _ | .quoted _ => 1

theorem Mode.start_le (symbol : Symbol) :
    (start symbol).2.length + (start symbol).1.pending ≤ 1 := by
  unfold start
  split
  any_goals exact Nat.zero_le 1
  any_goals exact Nat.le_refl 1
  split <;> exact Nat.le_refl 1

theorem Mode.ended_le (symbol : Symbol) (token : Token) :
    ((start symbol).2 ++ [token]).length + (start symbol).1.pending ≤ 2 := by
  have starts := start_le symbol
  rw [List.length_append, List.length_singleton]
  omega

theorem Mode.step_le (mode : Mode) (symbol : Symbol) :
    (mode.step symbol).2.length + (mode.step symbol).1.pending ≤ mode.pending + 1 := by
  cases mode with
  | between => exact start_le symbol
  | word expected token =>
      match expected with
      | [] => exact ended_le symbol token
      | [last] =>
          rw [step]
          split <;> exact Nat.le_succ 1
      | expected :: next :: rest =>
          rw [step]
          split <;> exact Nat.le_succ 1
  | number stage numeral =>
      rw [step]
      split
      · exact Nat.le_succ 1
      split
      · exact ended_le symbol _
      · exact Nat.le_succ 1
  | quoted string =>
      rw [step]
      split
      · exact Nat.le_succ 1
      split <;> exact Nat.le_succ 1
  | stopped => exact Nat.zero_le _

theorem Mode.finish_le (mode : Mode) : mode.finish.length ≤ mode.pending := by
  cases mode with
  | between => exact Nat.le_refl _
  | stopped => exact Nat.le_refl _
  | word expected token => cases expected <;> exact Nat.le_refl _
  | number stage numeral => rw [finish]; split <;> exact Nat.le_refl _
  | quoted string => exact Nat.le_refl _

theorem Scanner.run_le (symbols : List Symbol) (scanner : Scanner) :
    (scanner.run symbols).tokens.length + (scanner.run symbols).mode.pending ≤
      scanner.tokens.length + scanner.mode.pending + symbols.length := by
  induction symbols generalizing scanner with
  | nil => exact Nat.le_refl _
  | cons symbol symbols ih =>
      have first := scanner.mode.step_le symbol
      have others := ih (scanner.step symbol)
      simp only [step, List.length_append] at others
      rw [run, List.foldl_cons, List.length_cons]
      change (run _ _).tokens.length + (run _ _).mode.pending ≤ _
      simp only [step]
      omega

theorem length_tokensOf_le (symbols : List Symbol) :
    (tokensOf symbols).length ≤ symbols.length := by
  have found : (Scanner.run {} symbols).tokens.length + (Scanner.run {} symbols).mode.pending ≤
      0 + symbols.length := Scanner.run_le symbols {}
  have last := (Scanner.run {} symbols).mode.finish_le
  rw [tokensOf, List.length_reverse, List.length_append]
  omega

/-! ## Values -/

namespace Node

mutual

def extent : Node → Nat
  | .array items _ => 1 + extentOfItems items
  | .object members _ => 1 + extentOfMembers members
  | _ => 1

def extentOfItems : List Node → Nat
  | [] => 0
  | item :: items => item.extent + extentOfItems items

def extentOfMembers : List (Option String × Node) → Nat
  | [] => 0
  | (_, value) :: members => value.extent + extentOfMembers members

end

theorem extentOfItems_eq (items : List Node) : extentOfItems items = (items.map extent).sum := by
  induction items with
  | nil => rfl
  | cons item items ih => rw [extentOfItems, ih, List.map_cons, List.sum_cons]

theorem extentOfMembers_eq (members : List (Option String × Node)) :
    extentOfMembers members = (members.map (·.2.extent)).sum := by
  induction members with
  | nil => rfl
  | cons member members ih => rw [extentOfMembers, ih, List.map_cons, List.sum_cons]

@[simp]
theorem extent_array (items : List Node) (ending : Ending) :
    (array items ending).extent = 1 + (items.map extent).sum := by
  rw [extent, extentOfItems_eq]

@[simp]
theorem extent_object (members : List (Option String × Node)) (ending : Ending) :
    (object members ending).extent = 1 + (members.map (·.2.extent)).sum := by
  rw [extent, extentOfMembers_eq]

theorem extent_pos (node : Node) : 0 < node.extent := by
  cases node <;> simp [extent]

def children : Node → List Node
  | .array items _ => items
  | .object members _ => members.map (·.2)
  | _ => []

theorem extent_eq (node : Node) : node.extent = 1 + (node.children.map extent).sum := by
  cases node with
  | array items ending => exact extent_array items ending
  | object members ending => rw [extent_object, children, List.map_map]; rfl
  | _ => rfl

theorem extent_lt_of_mem_children {node child : Node} (member : child ∈ node.children) :
    child.extent < node.extent := by
  have least := List.single_le_sum (by simp) _ (List.mem_map_of_mem (f := extent) member)
  rw [extent_eq node]
  omega

theorem length_children_lt (node : Node) : node.children.length < node.extent := by
  have each := List.card_nsmul_le_sum (node.children.map extent) 1 fun extent member => by
    obtain ⟨child, -, rfl⟩ := List.mem_map.mp member
    exact child.extent_pos
  rw [List.length_map, smul_eq_mul, Nat.mul_one] at each
  rw [extent_eq node]
  omega

end Node

def Frame.extent : Frame → Nat
  | .array items => 1 + (items.map Node.extent).sum
  | .object members _ => 1 + (members.map (·.2.extent)).sum

namespace Builder

def extentOfFrames (frames : List Frame) : Nat := (frames.map Frame.extent).sum

def extent : Builder → Nat
  | .value frames | .valueOrClose frames => extentOfFrames frames
  | .separator frame frames => frame.extent + extentOfFrames frames
  | .keyOrClose frames => 1 + extentOfFrames frames
  | .key members frames => 1 + (members.map (·.2.extent)).sum + extentOfFrames frames
  | .colon members name frames => extentOfFrames (.object members name :: frames)
  | .complete root | .overrun root | .failed root => root.extent

@[simp]
theorem extentOfFrames_cons (frame : Frame) (frames : List Frame) :
    extentOfFrames (frame :: frames) = frame.extent + extentOfFrames frames :=
  List.sum_cons

theorem extent_place (node : Node) (frames : List Frame) :
    (place node frames).extent = node.extent + extentOfFrames frames := by
  match frames with
  | [] => rfl
  | .array items :: frames | .object members name :: frames =>
      simp [place, extent, Frame.extent]
      omega

theorem extent_collapse (fault : Fault) (node : Node) (frames : List Frame) :
    (collapse fault node frames).extent = node.extent + extentOfFrames frames := by
  induction frames generalizing node with
  | nil => rfl
  | cons frame frames ih =>
      cases frame <;>
      · simp [collapse, ih, Frame.extent, List.sum_reverse]
        omega

theorem extent_close (ending : Ending) (frame : Frame) :
    (close ending frame).extent = frame.extent := by
  cases frame <;> simp [close, Frame.extent, List.sum_reverse]

theorem extent_breakAt (found : Break) (frames : List Frame) :
    (breakAt found frames).extent = 1 + extentOfFrames frames :=
  extent_collapse _ _ _

theorem extent_keylessAt (members : List (Option String × Node)) (found : Break)
    (frames : List Frame) :
    (keylessAt members found frames).extent =
      1 + (members.map (·.2.extent)).sum + extentOfFrames frames := by
  rw [keylessAt, extent, extent_collapse, Node.extent_object, List.map_reverse, List.sum_reverse]

theorem extent_startValue (frames : List Frame) (token : Token) :
    (startValue frames token).extent = 1 + extentOfFrames frames := by
  cases token with
  | openArray | openObject => rfl
  | null | bool | number | string => exact extent_place _ _
  | brokenScalar | brokenString => exact extent_breakAt _ _
  | closeArray | closeObject | comma | colon => exact extent_breakAt _ _

theorem extent_step_le (builder : Builder) (token : Token) :
    (builder.step token).extent ≤ builder.extent + 1 := by
  have starts (frames : List Frame) :
      (startValue frames token).extent ≤ extentOfFrames frames + 1 := by
    rw [extent_startValue, Nat.add_comm]
  have closing (frame : Frame) (frames : List Frame) :
      (place (close .closed frame) frames).extent ≤ frame.extent + extentOfFrames frames + 1 := by
    rw [extent_place, extent_close]
    exact Nat.le_succ _
  cases builder with
  | value frames => exact starts frames
  | valueOrClose frames =>
      rw [step.eq_def]
      dsimp only
      split
      next items frames => exact closing (.array items) frames
      next => exact starts frames
  | separator frame frames =>
      rw [step.eq_def]
      dsimp only
      split
      next => exact Nat.le_succ _
      next => exact Nat.le_succ _
      next items => exact closing (.array items) frames
      next members name => exact closing (.object members name) frames
      next =>
        refine Nat.le_trans (Nat.le_of_eq (extent_collapse _ _ _)) ?_
        rw [extent_close]
        exact Nat.le_succ _
  | keyOrClose frames =>
      rw [step.eq_def]
      dsimp only
      split
      next =>
        rw [extent_place]
        exact Nat.le_succ _
      next => exact Nat.le_succ _
      next =>
        rw [extent_keylessAt]
        exact Nat.le_succ _
  | key members frames =>
      rw [step.eq_def]
      dsimp only
      split
      next => exact Nat.le_succ _
      next =>
        rw [extent_keylessAt]
        exact Nat.le_succ _
  | colon members name frames =>
      rw [step.eq_def]
      dsimp only
      split
      next => exact Nat.le_succ _
      next =>
        rw [extent_breakAt, Nat.add_comm]
        exact Nat.le_refl _
  | complete root | overrun root | failed root => exact Nat.le_succ _

theorem extent_foldl_le (tokens : List Token) (builder : Builder) :
    (tokens.foldl step builder).extent ≤ builder.extent + tokens.length := by
  induction tokens generalizing builder with
  | nil => exact Nat.le_refl _
  | cons token tokens ih =>
      have first := builder.extent_step_le token
      have others := ih (builder.step token)
      rw [List.foldl_cons, List.length_cons]
      omega

theorem extent_finish_le (builder : Builder) :
    builder.finish.root.extent ≤ builder.extent + 1 := by
  cases builder with
  | value frames =>
      rw [finish, extent_collapse, Nat.add_comm]
      exact Nat.le_refl _
  | valueOrClose frames =>
      cases frames with
      | nil => exact Nat.le_refl _
      | cons frame frames =>
          rw [finish, extent_collapse, extent_close, extent, extentOfFrames_cons]
          exact Nat.le_succ _
  | separator frame frames =>
      rw [finish, extent_collapse, extent_close]
      exact Nat.le_succ _
  | keyOrClose frames =>
      rw [finish, extent_collapse]
      exact Nat.le_succ _
  | key members frames =>
      rw [finish, extent_collapse, Node.extent_object, List.map_reverse, List.sum_reverse]
      exact Nat.le_succ _
  | colon members name frames =>
      rw [finish, extent_collapse, Nat.add_comm]
      exact Nat.le_refl _
  | complete root | overrun root | failed root => exact Nat.le_succ _

end Builder

/-- A text has no more values than octets, but for the one that is due if it has none. -/
theorem extent_ofSymbols_le (octets : List Nat) :
    (Document.ofSymbols (symbolsOfOctets octets)).root.extent ≤ octets.length + 1 := by
  have symbols := length_symbolsOfOctets_le octets
  have tokens := length_tokensOf_le (symbolsOfOctets octets)
  have built := Builder.extent_foldl_le (tokensOf (symbolsOfOctets octets)) (.value [])
  have finished := Builder.extent_finish_le
    ((tokensOf (symbolsOfOctets octets)).foldl Builder.step (.value []))
  have nothing : (Builder.value []).extent = 0 := rfl
  rw [Document.ofSymbols, Document.ofTokens]
  omega

end Json
end ChainLedger
