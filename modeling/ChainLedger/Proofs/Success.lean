import Mathlib

/-!
# Computations that succeed

A computation of several steps succeeds if and only if each of its steps does.
-/

set_option autoImplicit false

namespace ChainLedger

variable {Error Other First Second Item Result : Type}

theorem exists_ok_of_bind_ok {first : Except Error First} {next : First → Except Error Second}
    {second : Second} (ran : first >>= next = .ok second) :
    ∃ value, first = .ok value ∧ next value = .ok second := by
  cases first with
  | error error => cases ran
  | ok value => exact ⟨value, rfl, ran⟩

theorem exists_ok_of_map_ok {first : Except Error First} {change : First → Second}
    {second : Second} (ran : change <$> first = .ok second) :
    ∃ value, first = .ok value ∧ change value = second := by
  cases first with
  | error error => cases ran
  | ok value => exact ⟨value, rfl, Except.ok.inj ran⟩

theorem ok_of_mapError_ok {first : Except Error First} {change : Error → Other} {value : First}
    (ran : first.mapError change = .ok value) : first = .ok value := by
  cases first with
  | error error => cases ran
  | ok _ => exact congrArg Except.ok (Except.ok.inj ran)

theorem andThen_ok_iff {first second : Except Error Unit} :
    (do first; second) = .ok () ↔ first = .ok () ∧ second = .ok () := by
  constructor
  · intro ran
    obtain ⟨_, isFirst, isSecond⟩ := exists_ok_of_bind_ok ran
    exact ⟨isFirst, isSecond⟩
  · rintro ⟨rfl, ran⟩
    exact ran

theorem forM_ok_iff {step : Item → Except Error Unit} {items : List Item} :
    items.forM step = .ok () ↔ ∀ item ∈ items, step item = .ok () := by
  induction items with
  | nil => exact ⟨(fun _ _ member => nomatch member), fun _ => rfl⟩
  | cons item items ih => rw [List.forM, andThen_ok_iff, ih, List.forall_mem_cons]

theorem mapM_ok_iff {step : Item → Except Error Result} {items : List Item}
    {results : List Result} :
    items.mapM step = .ok results ↔
      List.Forall₂ (fun item result => step item = .ok result) items results := by
  constructor
  · intro ran
    induction items generalizing results with
    | nil =>
        obtain rfl := Except.ok.inj ran
        exact .nil
    | cons item items ih =>
        rw [List.mapM_cons] at ran
        obtain ⟨result, first, ran⟩ := exists_ok_of_bind_ok ran
        obtain ⟨others, rest, done⟩ := exists_ok_of_bind_ok ran
        obtain rfl := Except.ok.inj done
        exact .cons first (ih rest)
  · intro each
    induction each with
    | nil => rfl
    | cons first _ ih =>
        rw [List.mapM_cons, first, ih]
        rfl

theorem exists_of_forall₂_of_mem {relates : First → Second → Prop} {firsts : List First}
    {seconds : List Second} (each : List.Forall₂ relates firsts seconds) {second : Second}
    (member : second ∈ seconds) : ∃ first ∈ firsts, relates first second := by
  induction each with
  | nil => cases member
  | cons relate _ ih =>
      rcases List.mem_cons.mp member with rfl | member
      · exact ⟨_, List.mem_cons_self, relate⟩
      · obtain ⟨first, isFirst, related⟩ := ih member
        exact ⟨first, List.mem_cons_of_mem _ isFirst, related⟩

end ChainLedger
