import ChainLedger.Proofs.Json.Extent
import ChainLedger.Proofs.Json.Spelling

/-!
# Where contents come from

Whatever is read from an array or object is read from the values directly inside it, in whichever of
its spellings a record is given: a list has as many items as the array has values, and each content
of a record is read from one of the values, or stands for a field that is absent.
-/

set_option autoImplicit false

namespace ChainLedger.Json

/-- A content of a field is read from one of some values, or stands for their absence. -/
def Field.Stems (room : Nat) (values : List Node) (field : Field) (content : field.Content) :
    Prop :=
  field.absent = some content ∨ ∃ node ∈ values, field.read room node = .ok content

/-- All contents of a record stem from some values. -/
def Tuple.Stems (room : Nat) (values : List Node) : (fields : List Field) → Tuple fields → Prop
  | [], () => True
  | field :: fields, (content, rest) =>
    field.Stems room values content ∧ Stems room values fields rest

def Draft.Stems (room : Nat) (values : List Node) : (fields : List Field) → Draft fields → Prop
  | [], () => True
  | field :: fields, (content, rest) =>
    (∀ known ∈ content, ∃ node ∈ values, field.read room node = .ok known) ∧
      Stems room values fields rest

variable {room : Nat} {values : List Node}

namespace Draft

theorem stems_empty : ∀ fields : List Field, Stems room values fields (empty fields)
  | [] => trivial
  | _ :: fields => ⟨nofun, stems_empty fields⟩

theorem Stems.put {name : String} {node : Node} (member : node ∈ values) :
    ∀ {fields : List Field} {draft next : Draft fields}, Stems room values fields draft →
      put room name node fields draft = .ok next → Stems room values fields next
  | [], (), (), _, _ => trivial
  | field :: fields, (content, rest), next, ⟨own, others⟩, taken => by
      simp only [Draft.put] at taken
      split at taken
      · cases content with
        | some known => cases taken
        | none =>
            obtain ⟨content, reads, done⟩ := exists_ok_of_bind_ok taken
            obtain rfl := Except.ok.inj done
            exact ⟨fun known isKnown => ⟨node, member, Option.some.inj isKnown ▸ reads⟩, others⟩
      · obtain ⟨rest', put, done⟩ := exists_ok_of_bind_ok taken
        obtain rfl := Except.ok.inj done
        exact ⟨own, others.put member put⟩

theorem Stems.take {fields : List Field} {members : List (Option String × Node)}
    (inside : ∀ member ∈ members, member.2 ∈ values) :
    ∀ {draft last : Draft fields}, Stems room values fields draft →
      take room fields draft members = .ok last → Stems room values fields last := by
  induction members with
  | nil =>
      intro draft last stems taken
      obtain rfl := Except.ok.inj taken
      exact stems
  | cons member members ih =>
      intro draft last stems taken
      obtain ⟨isInside, others⟩ := List.forall_mem_cons.mp inside
      obtain ⟨name | name, node⟩ := member
      · cases taken
      · rw [take_cons] at taken
        obtain ⟨next, put, taken⟩ := exists_ok_of_bind_ok taken
        exact ih others (stems.put isInside put) taken

theorem Stems.complete : ∀ {fields : List Field} {draft : Draft fields} {tuple : Tuple fields},
    Stems room values fields draft → complete fields draft = .ok tuple →
      Tuple.Stems room values fields tuple
  | [], (), (), _, _ => trivial
  | field :: fields, (content, rest), tuple, ⟨own, others⟩, completed => by
      rw [Draft.complete] at completed
      split at completed
      next => cases completed
      next found =>
        obtain ⟨rest', completes, done⟩ := exists_ok_of_bind_ok completed
        obtain rfl := Except.ok.inj done
        refine ⟨?_, others.complete completes⟩
        cases content with
        | none => exact .inl found
        | some known => exact .inr (own _ found)

end Draft

theorem Tuple.stems_ofItems {ending : Ending} : ∀ {fields : List Field} {items : List Node}
    {tuple : Tuple fields}, (∀ item ∈ items, item ∈ values) →
      ofItems room fields items ending = .ok tuple → Stems room values fields tuple
  | [], _, (), _, _ => trivial
  | field :: fields, [], tuple, _, read => by
      rw [ofItems] at read
      · obtain ⟨-, -, absent⟩ := exists_ok_of_bind_ok read
        exact (Draft.stems_empty _).complete absent
      · simp
  | field :: fields, item :: items, tuple, inside, read => by
      obtain ⟨isInside, others⟩ := List.forall_mem_cons.mp inside
      rw [ofItems] at read
      obtain ⟨content, reads, read⟩ := exists_ok_of_bind_ok read
      obtain ⟨rest, remaining, done⟩ := exists_ok_of_bind_ok read
      obtain rfl := Except.ok.inj done
      exact ⟨.inr ⟨item, isInside, reads⟩, stems_ofItems others remaining⟩

namespace Reader

/-- However a record is spelled, its contents stem from the values directly inside. -/
theorem stems_of_record {fields : List Field} {node : Node} {tuple : Tuple fields}
    (read : record fields room node = .ok tuple) :
    Tuple.Stems (room - 1) node.children fields tuple := by
  cases node with
  | array items ending => exact Tuple.stems_ofItems (fun _ member => member) read
  | object members ending =>
      obtain ⟨draft, taken, read⟩ := exists_ok_of_bind_ok read
      obtain ⟨-, -, completed⟩ := exists_ok_of_bind_ok read
      have inside : ∀ member ∈ members, member.2 ∈ members.map (·.2) :=
        fun _ member => List.mem_map_of_mem member
      exact ((Draft.stems_empty fields).take inside taken).complete completed
  | _ => cases read

theorem forall₂_of_list {Content : Type} {item : Reader Content} {node : Node}
    {contents : List Content} (read : list item room node = .ok contents) :
    List.Forall₂ (fun child content => item (room - 1) child = .ok content) node.children
      contents := by
  cases node with
  | array items ending =>
      obtain ⟨contents', each, read⟩ := exists_ok_of_bind_ok read
      obtain ⟨-, -, done⟩ := exists_ok_of_bind_ok read
      obtain rfl := Except.ok.inj done
      exact mapM_ok_iff.mp each
  | _ => cases read

end Reader
end ChainLedger.Json
