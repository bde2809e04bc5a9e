/-!
# Cutting texts

Cutting a text at the first occurrence of another, or at the last occurrence of a character.
-/

set_option autoImplicit false

namespace ChainLedger.Text

def contains (part : List Char) : List Char → Bool
  | [] => part.isEmpty
  | character :: rest => part.isPrefixOf (character :: rest) || contains part rest

def cutFirst? (separator : List Char) : List Char → Option (List Char × List Char)
  | [] => if separator.isEmpty then some ([], []) else none
  | character :: rest =>
    if separator.isPrefixOf (character :: rest) then
      some ([], (character :: rest).drop separator.length)
    else (cutFirst? separator rest).map fun (before, behind) => (character :: before, behind)

theorem eq_append_of_cutFirst? {separator text before behind : List Char}
    (cut : cutFirst? separator text = some (before, behind)) :
    text = before ++ separator ++ behind := by
  induction text generalizing before with
  | nil =>
    cases separator with
    | nil =>
      simp [cutFirst?] at cut
      obtain ⟨rfl, rfl⟩ := cut
      rfl
    | cons character rest => simp [cutFirst?] at cut
  | cons character rest ih =>
    rw [cutFirst?] at cut
    split at cut
    next isPrefix =>
      obtain ⟨behindEq⟩ := Prod.mk.inj (Option.some.inj cut)
      subst before behind
      obtain ⟨tail, split⟩ := List.isPrefixOf_iff_prefix.mp isPrefix
      simp [← split]
    next =>
      obtain ⟨⟨inner, found⟩, cutRest, pairEq⟩ := Option.map_eq_some_iff.mp cut
      obtain ⟨rfl, rfl⟩ := Prod.mk.inj pairEq
      simp [ih cutRest]

def cutLast? (separator : Char) : List Char → Option (List Char × List Char)
  | [] => none
  | character :: rest =>
    match cutLast? separator rest with
    | some (before, behind) => some (character :: before, behind)
    | none => if character = separator then some ([], rest) else none

theorem not_mem_of_cutLast?_eq_none {separator : Char} {text : List Char}
    (uncut : cutLast? separator text = none) : separator ∉ text := by
  induction text with
  | nil => simp
  | cons character rest ih =>
    rw [cutLast?] at uncut
    split at uncut
    next => cases uncut
    next uncutRest =>
      split at uncut
      next => cases uncut
      next differs => simp [ih uncutRest, Ne.symm differs]

theorem eq_append_of_cutLast? {separator : Char} {text before behind : List Char}
    (cut : cutLast? separator text = some (before, behind)) :
    text = before ++ separator :: behind ∧ separator ∉ behind := by
  induction text generalizing before with
  | nil => simp [cutLast?] at cut
  | cons character rest ih =>
    rw [cutLast?] at cut
    split at cut
    next inner found cutRest =>
      obtain ⟨rfl, rfl⟩ := Prod.mk.inj (Option.some.inj cut)
      obtain ⟨restEq, absent⟩ := ih cutRest
      exact ⟨by rw [restEq, List.cons_append], absent⟩
    next uncutRest =>
      split at cut
      next isSeparator =>
        obtain ⟨rfl, rfl⟩ := Prod.mk.inj (Option.some.inj cut)
        exact ⟨by rw [isSeparator, List.nil_append], not_mem_of_cutLast?_eq_none uncutRest⟩
      next => cases cut

end ChainLedger.Text
