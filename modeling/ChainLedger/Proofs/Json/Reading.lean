import Mathlib
import ChainLedger.Json.Record
import ChainLedger.Json.Value

/-!
# Reading written values

A reader takes the tree of a written value for the value. An object is told field by field:
`Tuple.Said` says that its members give each field of a record one content, or none where the
field has one for its absence, and that its other members can be skipped; the order of the members
has no part in it. Such an object is read as the contents that are said.
-/

set_option autoImplicit false

namespace ChainLedger.Json

/-! ## Members of an object -/

/-- The members of one name say the content of a field. -/
inductive Field.Said (room : Nat) (field : Field) :
    List (Option String × Node) → field.Content → Prop
  | present {node : Node} {content : field.Content}
      (reads : field.read room node = .ok content) :
      Said room field [(some field.name, node)] content
  | absent {content : field.Content} (default : field.absent = some content) :
      Said room field [] content

def Tuple.Said (room : Nat) :
    (fields : List Field) → List (Option String × Node) → Tuple fields → Prop
  | [], members, () => ∀ member ∈ members, member.2.skip = .ok ()
  | field :: fields, members, (content, rest) =>
    field.Said room (members.filter (·.1 = some field.name)) content ∧
      Said room fields (members.filter (·.1 ≠ some field.name)) rest

namespace Draft

def take (room : Nat) (fields : List Field) (draft : Draft fields)
    (members : List (Option String × Node)) : Except Fault (Draft fields) :=
  members.foldlM (fun draft member =>
    match member.1 with
    | none => .error .malformed
    | some name => put room name member.2 fields draft) draft

theorem take_cons {room : Nat} {fields : List Field} (draft : Draft fields) (name : String)
    (node : Node) (members : List (Option String × Node)) :
    take room fields draft ((some name, node) :: members) =
      put room name node fields draft >>= fun next => take room fields next members := rfl

theorem take_skipped {room : Nat} {members : List (Option String × Node)}
    (named : ∀ member ∈ members, member.1.isSome)
    (skipped : ∀ member ∈ members, member.2.skip = .ok ()) :
    take room [] () members = .ok () := by
  induction members with
  | nil => rfl
  | cons member members ih =>
      obtain ⟨name, node⟩ := member
      obtain ⟨name, rfl⟩ := Option.isSome_iff_exists.mp (named (name, node) (by simp))
      have skip : node.skip = .ok () := skipped (some name, node) (by simp)
      rw [take_cons, put, skip]
      exact ih (fun other member => named other (by simp [member]))
        fun other member => skipped other (by simp [member])

theorem take_eq_ok_iff {room : Nat} {field : Field} {fields : List Field}
    {members : List (Option String × Node)} (named : ∀ member ∈ members, member.1.isSome)
    {content last : Option field.Content} {rest final : Draft fields} :
    take room (field :: fields) (content, rest) members = .ok (last, final) ↔
      take room [field] (content, ()) (members.filter (·.1 = some field.name)) =
          .ok (last, ()) ∧
        take room fields rest (members.filter (·.1 ≠ some field.name)) = .ok final := by
  induction members generalizing content rest with
  | nil =>
      change Except.ok (content, rest) = Except.ok (last, final) ↔
        Except.ok (content, ()) = Except.ok (last, ()) ∧ Except.ok rest = Except.ok final
      simp only [Except.ok.injEq, Prod.mk.injEq, and_true]
  | cons member members ih =>
      obtain ⟨name, node⟩ := member
      obtain ⟨name, rfl⟩ := Option.isSome_iff_exists.mp (named (name, node) (by simp))
      have step := @ih fun other member => named other (by simp [member])
      by_cases same : field.name = name
      · subst same
        simp only [List.filter_cons, decide_true, if_true, ne_eq, not_true_eq_false,
          decide_false, Bool.false_eq_true, if_false, take_cons, put]
        cases content with
        | some content => exact iff_of_false nofun fun ⟨own, _⟩ => nomatch own
        | none =>
            cases field.read room node with
            | error fault => exact iff_of_false nofun fun ⟨own, _⟩ => nomatch own
            | ok content => exact step
      · have differs : some name ≠ some field.name := by simpa using Ne.symm same
        simp only [List.filter_cons, differs, decide_false, Bool.false_eq_true, if_false, ne_eq,
          not_false_eq_true, decide_true, if_true, take_cons, put, same]
        cases put room name node fields rest with
        | error fault => exact iff_of_false nofun fun ⟨_, others⟩ => nomatch others
        | ok next => exact step

theorem take_of_said {room : Nat} : ∀ {fields : List Field}
    {members : List (Option String × Node)} {tuple : Tuple fields},
    (∀ member ∈ members, member.1.isSome) → Tuple.Said room fields members tuple →
      ∃ draft, take room fields (empty fields) members = .ok draft ∧
        draft.complete fields = .ok tuple
  | [], members, (), named, said => ⟨(), take_skipped named said, rfl⟩
  | field :: fields, members, (content, rest), named, said => by
      obtain ⟨own, others⟩ := said
      obtain ⟨final, taken, completes⟩ := take_of_said
        (fun other member => named other (List.mem_of_mem_filter member)) others
      generalize isOwn : members.filter (·.1 = some field.name) = named' at own
      cases own with
      | @present node content reads =>
          refine ⟨(some content, final), (take_eq_ok_iff named).mpr ⟨?_, taken⟩, ?_⟩
          · rw [isOwn, take_cons, put, if_pos rfl, reads]
            rfl
          · simp [complete, completes]
      | absent default =>
          refine ⟨(none, final), (take_eq_ok_iff named).mpr ⟨?_, taken⟩, ?_⟩
          · rw [isOwn]
            rfl
          · simp [complete, default, completes]

end Draft

theorem Reader.record_of_said {room : Nat} {fields : List Field}
    {members : List (Option String × Node)} {tuple : Tuple fields}
    (named : ∀ member ∈ members, member.1.isSome)
    (said : Tuple.Said (room - 1) fields members tuple) :
    Reader.record fields room (.object members .closed) = .ok tuple := by
  obtain ⟨draft, taken, completes⟩ := Draft.take_of_said named said
  have reads : Tuple.ofMembers (room - 1) fields members .closed =
      Draft.take (room - 1) fields (Draft.empty fields) members >>= fun draft =>
        draft.complete fields := rfl
  rw [Reader.record, reads, taken]
  exact completes

namespace Reader

/-! ## Contents of fields -/

theorem integer?_ofInt {number : Int} (above : -2 ^ 63 ≤ number) (below : number < 2 ^ 64) :
    (Numeral.ofInt number).integer? = some number := by
  have magnitude : (Numeral.ofInt number).magnitude = number.natAbs :=
    Text.digitsValue_digitsOf number.natAbs
  rw [Numeral.integer?]
  by_cases negative : number < 0
  · have value : -(number.natAbs : Int) = number := by omega
    have least : Int64.minValue.toInt ≤ number := above
    simp only [magnitude, value, least]
    simp [Numeral.ofInt, Numeral.isWhole, negative]
  · have value : (number.natAbs : Int) = number := by omega
    have small : number.natAbs < UInt64.size := by
      change number.natAbs < 2 ^ 64
      omega
    simp only [Numeral.natural?, magnitude, small]
    simp [Numeral.ofInt, Numeral.isWhole, negative]
    omega

theorem integer_node {α : Type} {accept : Int → Option α} {number : Int} {value : α}
    (above : -2 ^ 63 ≤ number) (below : number < 2 ^ 64) (accepts : accept number = some value)
    (room : Nat) : integer accept room (Value.integer number).node = .ok value := by
  simp only [Value.integer, Value.node, integer, integer?_ofInt above below, Option.bind_some,
    accepts]

theorem int32_node (number : Int32) (room : Nat) :
    int32 room (Value.integer number.toInt).node = .ok number := by
  have least := number.le_toInt
  have greatest := number.toInt_lt
  apply integer_node (by omega) (by omega)
  rw [Int32.ofInt_toInt, if_pos]
  exact ⟨least, Int.le_of_lt_add_one greatest⟩

theorem int64_node (number : Int64) (room : Nat) :
    int64 room (Value.integer number.toInt).node = .ok number := by
  have least := number.le_toInt
  have greatest := number.toInt_lt
  apply integer_node least (by omega)
  rw [Int64.ofInt_toInt, if_pos]
  exact ⟨least, Int.le_of_lt_add_one greatest⟩

theorem integerText_node (content : String) (room : Nat) :
    integerText room (Value.string content).node = .ok content := by
  cases room <;> rfl

end Reader
end ChainLedger.Json
