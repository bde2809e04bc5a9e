import Mathlib.Data.List.Infix
import ChainLedger.Text.Split

/-!
# Where texts are cut

A cut at the first occurrence leaves no separator in front, one at the last occurrence leaves none
behind. If the first character of a separator does not come back in it, then no occurrence can lie
across the end of what stands in front, and these conditions tell where the cut is.
-/

set_option autoImplicit false

namespace ChainLedger.Text

variable {text before behind separator more : List Char} {first : Char}

theorem not_infix_of_cutFirst? (filled : separator ≠ [])
    (cut : cutFirst? separator text = some (before, behind)) : ¬ separator <:+: before := by
  induction text generalizing before with
  | nil => simp [cutFirst?, filled] at cut
  | cons character rest ih =>
      rw [cutFirst?] at cut
      split at cut
      next =>
        obtain ⟨rfl, -⟩ := Prod.mk.inj (Option.some.inj cut)
        simpa using filled
      next uncut =>
        obtain ⟨⟨inner, found⟩, cutRest, pairEq⟩ := Option.map_eq_some_iff.mp cut
        obtain ⟨rfl, rfl⟩ := Prod.mk.inj pairEq
        intro isInfix
        rcases List.infix_cons_iff.mp isInfix with isPrefix | isInfix
        · have textEq := eq_append_of_cutFirst? cutRest
          refine uncut (List.isPrefixOf_iff_prefix.mpr (isPrefix.trans ?_))
          rw [textEq, List.append_assoc, ← List.cons_append]
          exact List.prefix_append _ _
        · exact ih cutRest isInfix

theorem prefix_of_prefix_append (once : first ∉ more) {character : Char}
    (isPrefix : first :: more <+: character :: before ++ (first :: more) ++ behind) :
    first :: more <+: character :: before := by
  rw [List.append_assoc] at isPrefix
  rcases List.prefix_or_prefix_of_prefix isPrefix (List.prefix_append _ _) with short | long
  · exact short
  · obtain ⟨tail, split⟩ := long
    obtain ⟨rfl, moreEq⟩ := List.cons.inj split
    cases tail with
    | nil =>
        rw [List.append_nil] at split
        exact split ▸ List.prefix_rfl
    | cons next tail =>
        exfalso
        rw [← split, List.append_assoc, List.prefix_append_right_inj] at isPrefix
        have nextEq : next = character := (List.cons_prefix_cons.mp isPrefix).1
        exact once (by rw [← moreEq, nextEq]; simp)

theorem cutFirst?_append (once : first ∉ more) (absent : ¬ first :: more <:+: before) :
    cutFirst? (first :: more) (before ++ (first :: more) ++ behind) = some (before, behind) := by
  induction before with
  | nil => simp [cutFirst?]
  | cons character before ih =>
      obtain ⟨noPrefix, noInfix⟩ := not_or.mp (mt List.infix_cons_iff.mpr absent)
      have uncut : ¬ first :: more <+: character :: before ++ (first :: more) ++ behind :=
        mt (prefix_of_prefix_append once) noPrefix
      rw [← List.isPrefixOf_iff_prefix] at uncut
      rw [List.cons_append, List.cons_append] at uncut ⊢
      rw [cutFirst?, if_neg uncut, ih noInfix, Option.map_some]

theorem cutFirst?_eq_some_iff (once : first ∉ more) :
    cutFirst? (first :: more) text = some (before, behind) ↔
      text = before ++ (first :: more) ++ behind ∧ ¬ first :: more <:+: before := by
  constructor
  · intro cut
    exact ⟨eq_append_of_cutFirst? cut, not_infix_of_cutFirst? (List.cons_ne_nil _ _) cut⟩
  · rintro ⟨rfl, absent⟩
    exact cutFirst?_append once absent

theorem cutFirst?_singleton_eq_some_iff :
    cutFirst? [first] text = some (before, behind) ↔
      text = before ++ first :: behind ∧ first ∉ before := by
  rw [cutFirst?_eq_some_iff List.not_mem_nil, List.singleton_infix_iff, List.append_assoc,
    List.singleton_append]

theorem cutLast?_eq_none_of_not_mem (absent : first ∉ text) : cutLast? first text = none := by
  induction text with
  | nil => rfl
  | cons character rest ih =>
      obtain ⟨differs, absentRest⟩ := not_or.mp (mt List.mem_cons.mpr absent)
      rw [cutLast?, ih absentRest]
      exact if_neg (Ne.symm differs)

theorem cutLast?_eq_some_iff :
    cutLast? first text = some (before, behind) ↔
      text = before ++ first :: behind ∧ first ∉ behind := by
  refine ⟨eq_append_of_cutLast?, ?_⟩
  rintro ⟨rfl, absent⟩
  induction before with
  | nil => rw [List.nil_append, cutLast?, cutLast?_eq_none_of_not_mem absent]; exact if_pos rfl
  | cons character before ih => rw [List.cons_append, cutLast?, ih]

theorem takeWhile_ne_eq_iff :
    text.takeWhile (· ≠ first) = before ↔
      ∃ behind, text = before ++ behind ∧ first ∉ before ∧
        (behind = [] ∨ behind.head? = some first) := by
  constructor
  · rintro rfl
    refine ⟨text.dropWhile (· ≠ first), List.takeWhile_append_dropWhile.symm, ?_, ?_⟩
    · intro isIn
      have runs := List.all_eq_true.mp List.all_takeWhile first isIn
      exact absurd rfl (of_decide_eq_true runs)
    · have stops := List.head?_dropWhile_not (· ≠ first) text
      cases restEq : text.dropWhile (· ≠ first) with
      | nil => exact .inl rfl
      | cons character rest =>
          rw [restEq] at stops
          exact .inr (by simpa using stops)
  · rintro ⟨behind, rfl, absent, marked⟩
    have runs : ∀ character ∈ before, decide (character ≠ first) = true :=
      fun character isIn => decide_eq_true (ne_of_mem_of_not_mem isIn absent)
    have stops : behind.takeWhile (· ≠ first) = [] := by
      rcases marked with rfl | marked
      · rfl
      · obtain ⟨rest, rfl⟩ := List.head?_eq_some_iff.mp marked
        simp
    rw [List.takeWhile_append_of_pos runs, stops, List.append_nil]

end ChainLedger.Text
