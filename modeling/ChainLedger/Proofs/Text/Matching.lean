import Mathlib.Data.List.Infix
import ChainLedger.Text.Pattern

/-!
# What patterns match

A text fits a pattern if it is made of one piece for each part. Following the places at which the
part read so far can end tells which texts fit.

A search without the three signs of patterns fits the texts that contain it, and no others. Every
other search fits some text that does not contain it: the shortest one that fits it is no longer
than the search, and differs from it. Without a backslash a search still fits all texts that
contain it, while a backslash can make it miss some.
-/

set_option autoImplicit false

namespace ChainLedger.Text

def PatternPart.Covers : PatternPart → List Char → Prop
  | .anyRun, _ => True
  | .anyOne, piece => piece.length = 1
  | .exactly character, piece => piece = [character]

/-- A text is made of pieces, one for each part. -/
def Fits (parts : List PatternPart) (text : List Char) : Prop :=
  ∃ pieces, List.Forall₂ PatternPart.Covers parts pieces ∧ pieces.flatten = text

variable {part : PatternPart} {parts : List PatternPart} {text : List Char}

theorem fits_nil : Fits [] text ↔ text = [] := by
  constructor
  · rintro ⟨pieces, covered, rfl⟩
    cases covered
    rfl
  · rintro rfl
    exact ⟨[], .nil, rfl⟩

theorem fits_cons : Fits (part :: parts) text ↔
    ∃ piece rest, part.Covers piece ∧ Fits parts rest ∧ piece ++ rest = text := by
  constructor
  · rintro ⟨pieces, covered, rfl⟩
    cases covered with
    | cons covers others => exact ⟨_, _, covers, ⟨_, others, rfl⟩, rfl⟩
  · rintro ⟨piece, rest, covers, ⟨pieces, covered, rfl⟩, rfl⟩
    exact ⟨piece :: pieces, .cons covers covered, rfl⟩

/-! ## Places -/

/-- Each place is an end of all places before it. -/
def Nested (places : List (List Char)) : Prop :=
  places.Pairwise fun longer shorter => shorter <:+ longer

theorem mem_endsOf {rest : List Char} : rest ∈ endsOf text ↔ rest <:+ text := by
  induction text with
  | nil => simp [endsOf]
  | cons character text ih => rw [endsOf, List.mem_cons, ih, List.suffix_cons_iff]

theorem nested_endsOf (text : List Char) : Nested (endsOf text) := by
  induction text with
  | nil => exact List.pairwise_singleton _ _
  | cons character text ih =>
      refine List.Pairwise.cons (fun rest isEnd => ?_) ih
      exact (mem_endsOf.mp isEnd).trans (List.suffix_cons character text)

variable {places : List (List Char)}

theorem Nested.filterMap {next : List Char → Option (List Char)}
    (drops : ∀ place rest, next place = some rest → ∃ character, place = character :: rest)
    (nested : Nested places) : Nested (places.filterMap next) := by
  refine List.Pairwise.filterMap next (fun longer shorter isEnd rest left => ?_) nested
  intro shorterRest shorterLeft
  obtain ⟨character, rfl⟩ := drops _ _ left
  obtain ⟨shorterCharacter, rfl⟩ := drops _ _ shorterLeft
  rcases List.suffix_cons_iff.mp isEnd with same | isEnd
  · rw [(List.cons.inj same).2]
  · exact (List.suffix_cons shorterCharacter shorterRest).trans isEnd

theorem nested_followPart (nested : Nested places) (part : PatternPart) :
    Nested (followPart places part) := by
  cases part with
  | anyRun =>
      cases places with
      | nil => exact List.Pairwise.nil
      | cons longest others => exact nested_endsOf longest
  | anyOne =>
      refine nested.filterMap fun place rest left => ?_
      cases place with
      | nil => cases left
      | cons character place =>
          cases left
          exact ⟨character, rfl⟩
  | exactly wanted =>
      refine nested.filterMap fun place rest left => ?_
      cases place with
      | nil => cases left
      | cons character place =>
          obtain ⟨-, left⟩ := Option.ite_none_right_eq_some.mp left
          cases left
          exact ⟨character, rfl⟩

theorem mem_followPart (nested : Nested places) {rest : List Char} :
    rest ∈ followPart places part ↔
      ∃ place ∈ places, ∃ piece, part.Covers piece ∧ piece ++ rest = place := by
  cases part with
  | anyRun =>
      cases places with
      | nil => simp [followPart]
      | cons longest others =>
          rw [followPart, mem_endsOf]
          constructor
          · rintro ⟨piece, rfl⟩
            exact ⟨_, List.mem_cons_self, piece, trivial, rfl⟩
          · -- all places are ends of the longest
            rintro ⟨place, member, piece, -, rfl⟩
            have isEnd := List.suffix_append piece rest
            rcases List.mem_cons.mp member with rfl | member
            · exact isEnd
            · exact isEnd.trans (List.rel_of_pairwise_cons nested member)
  | anyOne =>
      rw [followPart, List.mem_filterMap]
      refine exists_congr fun place => and_congr_right fun _ => ?_
      cases place with
      | nil => simp [PatternPart.Covers]
      | cons character place => simp [PatternPart.Covers, List.length_eq_one_iff, eq_comm]
  | exactly wanted =>
      rw [followPart, List.mem_filterMap]
      refine exists_congr fun place => and_congr_right fun _ => ?_
      cases place with
      | nil => simp [PatternPart.Covers]
      | cons character place => simp [PatternPart.Covers, eq_comm]

theorem any_isEmpty_followParts (parts : List PatternPart) : ∀ {places : List (List Char)},
    Nested places → ((parts.foldl followPart places).any List.isEmpty = true ↔
      ∃ place ∈ places, Fits parts place) := by
  induction parts with
  | nil =>
      intro places _
      simp only [List.foldl_nil, List.any_eq_true, List.isEmpty_iff, fits_nil]
  | cons part parts ih =>
      intro places nested
      rw [List.foldl_cons, ih (nested_followPart nested part)]
      constructor
      · rintro ⟨rest, followed, fits⟩
        obtain ⟨place, member, piece, covers, split⟩ := (mem_followPart nested).mp followed
        exact ⟨place, member, fits_cons.mpr ⟨piece, rest, covers, fits, split⟩⟩
      · rintro ⟨place, member, fits⟩
        obtain ⟨piece, rest, covers, fits, split⟩ := fits_cons.mp fits
        exact ⟨rest, (mem_followPart nested).mpr ⟨place, member, piece, covers, split⟩, fits⟩

theorem matchesParts_iff : matchesParts parts text = true ↔ Fits parts text := by
  rw [matchesParts, any_isEmpty_followParts parts (List.pairwise_singleton _ _)]
  simp only [List.mem_singleton, exists_eq_left]

instance decidableFits (parts : List PatternPart) (text : List Char) :
    Decidable (Fits parts text) :=
  decidable_of_iff _ matchesParts_iff

/-! ## Searches -/

def searchParts (search : List Char) : List PatternPart :=
  patternParts ('%' :: search ++ ['%'])

theorem matchesSearch_iff (search name : String) :
    matchesSearch search name = true ↔ Fits (searchParts search.toList) name.toList :=
  matchesParts_iff

/-- A search holds none of the signs that stand for something else in a pattern. -/
def IsPlain (search : List Char) : Prop :=
  ∀ character ∈ search, character ≠ '%' ∧ character ≠ '_' ∧ character ≠ '\\'

instance decidableIsPlain (search : List Char) : Decidable (IsPlain search) :=
  List.decidableBAll _ search

variable {search : List Char}

theorem patternParts_cons_of_plain {character : Char}
    (plain : character ≠ '%' ∧ character ≠ '_' ∧ character ≠ '\\') (rest : List Char) :
    patternParts (character :: rest) = .exactly character :: patternParts rest := by
  obtain ⟨noRun, noOne, noEscape⟩ := plain
  rw [patternParts]
  · exact noRun
  · exact noOne
  · exact fun _ _ escape => absurd escape noEscape

theorem fits_exactly_append : Fits (search.map .exactly ++ parts) text ↔
    ∃ rest, Fits parts rest ∧ search ++ rest = text := by
  induction search generalizing text with
  | nil => simp
  | cons character search ih =>
      simp only [List.map_cons, List.cons_append, fits_cons, ih, PatternPart.Covers]
      constructor
      · rintro ⟨_, _, rfl, ⟨rest, fits, rfl⟩, rfl⟩
        exact ⟨rest, fits, rfl⟩
      · rintro ⟨rest, fits, rfl⟩
        exact ⟨_, _, rfl, ⟨rest, fits, rfl⟩, rfl⟩

theorem searchParts_of_isPlain (plain : IsPlain search) :
    searchParts search = .anyRun :: (search.map .exactly ++ [.anyRun]) := by
  rw [searchParts, List.cons_append, patternParts]
  congr 1
  induction search with
  | nil => rfl
  | cons character search ih =>
      obtain ⟨first, others⟩ := List.forall_mem_cons.mp plain
      rw [List.cons_append, patternParts_cons_of_plain first, ih others]
      rfl

theorem fits_anyRun_cons :
    Fits (.anyRun :: parts) text ↔ ∃ rest, Fits parts rest ∧ rest <:+ text := by
  rw [fits_cons]
  constructor
  · rintro ⟨piece, rest, -, fits, rfl⟩
    exact ⟨rest, fits, List.suffix_append piece rest⟩
  · rintro ⟨rest, fits, piece, rfl⟩
    exact ⟨piece, rest, trivial, fits, rfl⟩

theorem fits_anyRun (text : List Char) : Fits [.anyRun] text :=
  fits_anyRun_cons.mpr ⟨[], fits_nil.mpr rfl, List.nil_suffix⟩

theorem fits_searchParts_of_isPlain (plain : IsPlain search) :
    Fits (searchParts search) text ↔ search <:+: text := by
  rw [searchParts_of_isPlain plain, fits_anyRun_cons]
  simp only [fits_exactly_append]
  constructor
  · rintro ⟨_, ⟨rest, -, rfl⟩, isEnd⟩
    exact (List.prefix_append search rest).isInfix.trans isEnd.isInfix
  · rintro ⟨before, rest, rfl⟩
    refine ⟨search ++ rest, ⟨rest, fits_anyRun rest, rfl⟩, before, ?_⟩
    rw [List.append_assoc]

theorem fits_searchParts_of_infix (unescaped : '\\' ∉ search) (contained : search <:+: text) :
    Fits (searchParts search) text := by
  obtain ⟨before, rest, rfl⟩ := contained
  rw [searchParts, List.cons_append, patternParts, fits_anyRun_cons]
  refine ⟨search ++ rest, ?_, before, (List.append_assoc _ _ _).symm⟩
  induction search with
  | nil => exact fits_anyRun rest
  | cons character search ih =>
      obtain ⟨differs, unescaped⟩ := not_or.mp (mt List.mem_cons.mpr unescaped)
      have fits := ih unescaped
      by_cases run : character = '%'
      · subst run
        exact fits_cons.mpr ⟨['%'], _, trivial, fits, rfl⟩
      by_cases one : character = '_'
      · subst one
        exact fits_cons.mpr ⟨['_'], _, rfl, fits, rfl⟩
      · rw [List.cons_append, patternParts_cons_of_plain ⟨run, one, Ne.symm differs⟩]
        exact fits_cons.mpr ⟨[character], _, rfl, fits, rfl⟩

/-! ## The shortest text that fits -/

def PatternPart.least : PatternPart → List Char
  | .anyRun => []
  | .anyOne => ['x']
  | .exactly character => [character]

/-- Nothing for each run, and a letter for each character that may be any. -/
def leastText (parts : List PatternPart) : List Char :=
  parts.flatMap PatternPart.least

theorem PatternPart.covers_least (part : PatternPart) : part.Covers part.least := by
  cases part with
  | anyRun => trivial
  | anyOne => rfl
  | exactly character => rfl

theorem fits_leastText (parts : List PatternPart) : Fits parts (leastText parts) := by
  induction parts with
  | nil => exact fits_nil.mpr rfl
  | cons part parts ih => exact fits_cons.mpr ⟨_, _, part.covers_least, ih, rfl⟩

/-- A character that is none of the signs stands for itself. So does a backslash at the end of a
search, which takes the closing run for its own sign. -/
theorem plain_or_last_escape {character : Char} {search : List Char} (run : character ≠ '%')
    (one : character ≠ '_') (last : ∀ escaped rest, character = '\\' → search ≠ escaped :: rest) :
    (character ≠ '%' ∧ character ≠ '_' ∧ character ≠ '\\') ∨ character = '\\' ∧ search = [] := by
  by_cases escape : character = '\\'
  · cases search with
    | nil => exact .inr ⟨escape, rfl⟩
    | cons escaped rest => exact absurd rfl (last escaped rest escape)
  · exact .inl ⟨run, one, escape⟩

theorem length_leastText_le (search : List Char) :
    (leastText (patternParts (search ++ ['%']))).length ≤ search.length := by
  induction search using patternParts.induct with
  | case1 => decide
  | case2 rest ih => exact Nat.le_succ_of_le ih
  | case3 rest ih => exact Nat.succ_le_succ ih
  | case4 character rest ih => exact Nat.le_succ_of_le (Nat.succ_le_succ ih)
  | case5 character rest run one last ih =>
      rcases plain_or_last_escape run one last with plain | ⟨rfl, rfl⟩
      · rw [List.cons_append, patternParts_cons_of_plain plain]
        exact Nat.succ_le_succ ih
      · decide

theorem isPlain_of_leastText_eq {search : List Char}
    (same : leastText (patternParts (search ++ ['%'])) = search) : IsPlain search := by
  induction search using patternParts.induct with
  | case1 => exact List.forall_mem_nil _
  | case2 rest ih =>
      have short := length_leastText_le rest
      exact absurd (congrArg List.length same) (Nat.ne_of_lt (Nat.lt_succ_of_le short))
  | case3 rest ih => exact absurd (List.cons.inj same).1 (by decide)
  | case4 character rest ih =>
      have short := Nat.succ_le_succ (length_leastText_le rest)
      exact absurd (congrArg List.length same) (Nat.ne_of_lt (Nat.lt_succ_of_le short))
  | case5 character rest run one last ih =>
      rcases plain_or_last_escape run one last with plain | ⟨rfl, rfl⟩
      · rw [List.cons_append, patternParts_cons_of_plain plain] at same
        exact List.forall_mem_cons.mpr ⟨plain, ih (List.cons.inj same).2⟩
      · exact absurd same (by decide)

/-- Some text fits a search that is not plain and does not contain it. -/
theorem exists_fits_not_infix (special : ¬IsPlain search) :
    ∃ text, Fits (searchParts search) text ∧ ¬search <:+: text := by
  refine ⟨leastText (searchParts search), fits_leastText _, fun contained => special ?_⟩
  have least : leastText (searchParts search) = leastText (patternParts (search ++ ['%'])) := rfl
  rw [least] at contained
  exact isPlain_of_leastText_eq
    (contained.eq_of_length_le (length_leastText_le search)).symm

end ChainLedger.Text
