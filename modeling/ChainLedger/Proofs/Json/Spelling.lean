import ChainLedger.Proofs.Json.Reading
import ChainLedger.Proofs.Success

/-!
# Spellings

A content can be spelled by many JSON values. A record is spelled by an object that gives its
fields in any order and among members of any other names, or by the array of its contents; what
stands for the absence of a field may be left out. A `Spelling` says which values spell which
content, and in which values a known name is given twice. A reader honours a spelling if it reads
what is spelled and refuses what repeats a name; the readers of lists and records do so if the
readers of their parts do.
-/

set_option autoImplicit false

namespace ChainLedger.Json

/-- How contents of one kind are spelled. -/
structure Spelling (Content : Type) where
  Spells : Value → Content → Prop
  /-- A record in the value gives one of its names more than once. -/
  Repeats : Value → Prop

@[reducible] def Spellings : List Field → Type
  | [] => Unit
  | field :: fields => Spelling field.Content × Spellings fields

namespace Spellings

/-- Members give the contents of fields, one by one and in their own order. A content that stands
for absence may be left out. -/
def Give : (fields : List Field) → Spellings fields → List (String × Value) → Tuple fields → Prop
  | [], (), members, () => members = []
  | field :: fields, (spelling, spellings), members, (content, rest) =>
    (∃ value others, members = (field.name, value) :: others ∧ spelling.Spells value content ∧
      Give fields spellings others rest) ∨
    field.absent = some content ∧ Give fields spellings members rest

theorem give_cons {field : Field} {fields : List Field} {spelling : Spelling field.Content}
    {spellings : Spellings fields} {value : Value} {content : field.Content}
    {members : List (String × Value)} {rest : Tuple fields}
    (spells : spelling.Spells value content) (given : Give fields spellings members rest) :
    Give (field :: fields) (spelling, spellings) ((field.name, value) :: members)
      (content, rest) :=
  .inl ⟨value, members, rfl, spells, given⟩

theorem give_omitted {field : Field} {fields : List Field} {spelling : Spelling field.Content}
    {spellings : Spellings fields} {content : field.Content} {members : List (String × Value)}
    {rest : Tuple fields} (absent : field.absent = some content)
    (given : Give fields spellings members rest) :
    Give (field :: fields) (spelling, spellings) members (content, rest) :=
  .inr ⟨absent, given⟩

/-- An object spells a record: in any order, and among members of names that are not known. -/
def SpellMembers (fields : List Field) (spellings : Spellings fields)
    (members : List (String × Value)) (tuple : Tuple fields) : Prop :=
  ∃ known unknown, members.Perm (known ++ unknown) ∧ Give fields spellings known tuple ∧
    ∀ member ∈ unknown, member.1 ∉ fields.map (·.name)

/-- An array spells a record: item by item, and at its end what may be left out. -/
def SpellItems : (fields : List Field) → Spellings fields → List Value → Tuple fields → Prop
  | fields, spellings, [], tuple => Give fields spellings [] tuple
  | _ :: fields, (spelling, spellings), item :: items, (content, rest) =>
    spelling.Spells item content ∧ SpellItems fields spellings items rest
  | [], _, _ :: _, _ => False

/-- A known name is given twice, or what is given for it repeats a name. -/
def RepeatMembers : (fields : List Field) → Spellings fields → List (String × Value) → Prop
  | [], (), _ => False
  | field :: fields, (spelling, spellings), members =>
    1 < members.countP (·.1 = field.name) ∨
    (∃ value, (field.name, value) ∈ members ∧ spelling.Repeats value) ∨
    RepeatMembers fields spellings members

def RepeatItems : (fields : List Field) → Spellings fields → List Value → Prop
  | _ :: fields, (spelling, spellings), item :: items =>
    spelling.Repeats item ∨ RepeatItems fields spellings items
  | _, _, _ => False

end Spellings

namespace Spelling

def text : Spelling String where
  Spells value content := value = .string content
  Repeats _ := False

/-- A big integer is spelled by its text, or by an unsigned literal of 64 bits of which it is the
text. -/
def integerText : Spelling String where
  Spells value content :=
    value = .string content ∨
      ∃ number < UInt64.size,
        content = String.ofList (Text.digitsOf number) ∧ value = .integer number
  Repeats _ := False

def int32 : Spelling Int32 where
  Spells value content := value = .integer content.toInt
  Repeats _ := False

def int64 : Spelling Int64 where
  Spells value content := value = .integer content.toInt
  Repeats _ := False

variable {Content : Type}

def optional (spelling : Spelling Content) : Spelling (Option Content) where
  Spells value content :=
    value = .null ∧ content = none ∨
      value ≠ .null ∧ ∃ known, content = some known ∧ spelling.Spells value known
  Repeats value := value ≠ .null ∧ spelling.Repeats value

def list (spelling : Spelling Content) : Spelling (List Content) where
  Spells
    | .array items, contents => List.Forall₂ spelling.Spells items contents
    | _, _ => False
  Repeats
    | .array items => ∃ item ∈ items, spelling.Repeats item
    | _ => False

def variant (variants : List (String × Content)) : Spelling Content where
  Spells value content :=
    ∃ name, (name, content) ∈ variants ∧ (value = .string name ∨ value = .object [(name, .null)])
  Repeats
    | .object members => ∃ name, 1 < members.countP (·.1 = name)
    | _ => False

def record (fields : List Field) (spellings : Spellings fields) : Spelling (Tuple fields) where
  Spells
    | .object members, tuple => spellings.SpellMembers fields members tuple
    | .array items, tuple => spellings.SpellItems fields items tuple
    | _, _ => False
  Repeats
    | .object members => spellings.RepeatMembers fields members
    | .array items => spellings.RepeatItems fields items
    | _ => False

theorem record_of_give {fields : List Field} {spellings : Spellings fields}
    {members : List (String × Value)} {tuple : Tuple fields}
    (given : spellings.Give fields members tuple) :
    (record fields spellings).Spells (.object members) tuple :=
  ⟨members, [], by rw [List.append_nil], given, nofun⟩

def consisting {Whole : Type} (spelling : Spelling Content) (contents : Whole → Content) :
    Spelling Whole where
  Spells value whole := spelling.Spells value (contents whole)
  Repeats := spelling.Repeats

end Spelling

/-- A reader reads what is spelled, with any room, and refuses what repeats a name. -/
structure Reader.Honours {Content : Type} (reader : Reader Content)
    (spelling : Spelling Content) : Prop where
  reads : ∀ {value : Value} {content : Content}, spelling.Spells value content →
    ∀ room, reader room value.node = .ok content
  refuses : ∀ {value : Value}, spelling.Repeats value →
    ∀ room content, reader room value.node ≠ .ok content

def Spellings.Honoured : (fields : List Field) → Spellings fields → Prop
  | [], () => True
  | field :: fields, (spelling, spellings) =>
    field.read.Honours spelling ∧ Honoured fields spellings

/-! ## Members of an object -/

namespace Value

theorem skip_node (value : Value) : value.node.skip = .ok () := by
  cases value <;> rfl

theorem memberNodes_eq_map (members : List (String × Value)) :
    memberNodes members = members.map fun member => (some member.1, member.2.node) := by
  induction members with
  | nil => rfl
  | cons member members ih => rw [memberNodes, ih, List.map_cons]

theorem filter_memberNodes (name : String) (members : List (String × Value)) :
    (memberNodes members).filter (·.1 = some name) =
        memberNodes (members.filter (·.1 = name)) ∧
      (memberNodes members).filter (·.1 ≠ some name) =
        memberNodes (members.filter (·.1 ≠ name)) := by
  simp only [memberNodes_eq_map, List.filter_map, Function.comp_def, ne_eq, Option.some_inj,
    and_self]

theorem length_memberNodes (members : List (String × Value)) :
    (memberNodes members).length = members.length := by
  rw [memberNodes_eq_map, List.length_map]

theorem name_of_mem_memberNodes {name : String} {members : List (String × Value)}
    (named : ∀ member ∈ members, member.1 = name) :
    ∀ member ∈ memberNodes members, member.1 = some name := by
  intro member isMember
  rw [memberNodes_eq_map] at isMember
  obtain ⟨member, given, rfl⟩ := List.mem_map.mp isMember
  exact congrArg some (named member given)

theorem mem_memberNodes {name : String} {value : Value} {members : List (String × Value)}
    (given : (name, value) ∈ members) : (some name, value.node) ∈ memberNodes members := by
  rw [memberNodes_eq_map]
  exact List.mem_map_of_mem given

theorem isSome_of_mem_memberNodes {members : List (String × Value)} :
    ∀ member ∈ memberNodes members, member.1.isSome := by
  intro member isMember
  rw [memberNodes_eq_map] at isMember
  obtain ⟨⟨name, value⟩, -, rfl⟩ := List.mem_map.mp isMember
  rfl

end Value

namespace Draft

variable {room : Nat} {field : Field} {fields : List Field}

theorem own_of_take {members : List (Option String × Node)}
    (own : ∀ member ∈ members, member.1 = some field.name) {last : Option field.Content}
    (taken : take room [field] (none, ()) members = .ok (last, ())) :
    members = [] ∨ ∃ node content,
      members = [(some field.name, node)] ∧ field.read room node = .ok content := by
  cases members with
  | nil => exact .inl rfl
  | cons member members =>
      obtain ⟨name, node⟩ := member
      obtain rfl : name = some field.name := own (name, node) List.mem_cons_self
      rw [take_cons, put, if_pos rfl] at taken
      cases reads : field.read room node with
      | error fault =>
          rw [reads] at taken
          cases taken
      | ok content =>
          rw [reads] at taken
          cases members with
          | nil => exact .inr ⟨node, content, rfl, reads⟩
          | cons second members =>
              obtain ⟨name, other⟩ := second
              obtain rfl : name = some field.name := own (name, other) (by simp)
              change take room [field] (some content, ()) _ = _ at taken
              rw [take_cons, put, if_pos rfl] at taken
              cases taken

end Draft

namespace Spellings

variable {room : Nat}

theorem name_mem_of_give : ∀ {fields : List Field} {spellings : Spellings fields}
    {members : List (String × Value)} {tuple : Tuple fields},
    Give fields spellings members tuple → ∀ member ∈ members, member.1 ∈ fields.map (·.name)
  | [], (), _, (), empty, member, isMember => by
      rw [empty] at isMember
      cases isMember
  | _ :: _, (_, _), _, (_, _), .inl ⟨_, _, same, _, rest⟩, member, isMember => by
      rw [same, List.mem_cons] at isMember
      rw [List.map_cons, List.mem_cons]
      exact isMember.imp (congrArg Prod.fst) (name_mem_of_give rest member)
  | _ :: _, (_, _), _, (_, _), .inr ⟨_, rest⟩, member, isMember =>
      List.mem_cons_of_mem _ (name_mem_of_give rest member isMember)

theorem apart_of_give {fields : List Field} {spellings : Spellings fields}
    {known unknown : List (String × Value)} {tuple : Tuple fields} {name : String}
    (given : Give fields spellings known tuple) (fresh : name ∉ fields.map (·.name))
    (foreign : ∀ member ∈ unknown, member.1 ≠ name) :
    ∀ member ∈ known ++ unknown, member.1 ≠ name := by
  intro member isMember same
  rcases List.mem_append.mp isMember with isKnown | isUnknown
  · exact fresh (same ▸ name_mem_of_give given member isKnown)
  · exact foreign member isUnknown same

theorem filter_of_apart {name : String} {members : List (String × Value)}
    (apart : ∀ member ∈ members, member.1 ≠ name) :
    members.filter (·.1 = name) = [] ∧ members.filter (·.1 ≠ name) = members := by
  rw [List.filter_eq_nil_iff, List.filter_eq_self]
  exact ⟨fun member isMember => by simpa using apart member isMember,
    fun member isMember => by simpa using apart member isMember⟩

theorem said_of_give : ∀ {fields : List Field} {spellings : Spellings fields}
    {members known unknown : List (String × Value)} {tuple : Tuple fields},
    Honoured fields spellings → (fields.map (·.name)).Nodup →
      members.Perm (known ++ unknown) → Give fields spellings known tuple →
        (∀ member ∈ unknown, member.1 ∉ fields.map (·.name)) →
          Tuple.Said room fields (Value.memberNodes members) tuple
  | [], (), members, _, _, (), _, _, _, _, _ => by
      intro member isMember
      rw [Value.memberNodes_eq_map] at isMember
      obtain ⟨⟨name, value⟩, -, rfl⟩ := List.mem_map.mp isMember
      exact value.skip_node
  | field :: fields, (spelling, spellings), members, known, unknown, (content, rest),
      ⟨honours, honoured⟩, distinct, perm, given, foreign => by
      obtain ⟨fresh, distinct⟩ := List.nodup_cons.mp distinct
      have unnamed : ∀ member ∈ unknown, member.1 ≠ field.name ∧
          member.1 ∉ fields.map (·.name) :=
        fun member isMember => not_or.mp (mt List.mem_cons.mpr (foreign member isMember))
      have own := perm.filter (·.1 = field.name)
      have others := perm.filter (·.1 ≠ field.name)
      have rests {left : List (String × Value)} (given : Give fields spellings left rest)
          (order : (members.filter (·.1 ≠ field.name)).Perm (left ++ unknown)) :
          Tuple.Said room fields (Value.memberNodes (members.filter (·.1 ≠ field.name))) rest :=
        said_of_give honoured distinct order given fun member isMember =>
          (unnamed member isMember).2
      rw [Tuple.Said, (Value.filter_memberNodes field.name members).1,
        (Value.filter_memberNodes field.name members).2]
      rcases given with ⟨value, left, rfl, spells, given⟩ | ⟨absent, given⟩
      · obtain ⟨nothing, all⟩ := filter_of_apart
          (apart_of_give given fresh fun member isMember => (unnamed member isMember).1)
        rw [List.cons_append, List.filter_cons_of_pos (by simp), nothing,
          List.perm_singleton] at own
        rw [List.cons_append, List.filter_cons_of_neg (by simp), all] at others
        rw [own]
        exact ⟨.present (honours.reads spells room), rests given others⟩
      · obtain ⟨nothing, all⟩ := filter_of_apart
          (apart_of_give given fresh fun member isMember => (unnamed member isMember).1)
        rw [nothing, List.perm_nil] at own
        rw [all] at others
        rw [own]
        exact ⟨.absent absent, rests given others⟩

/-! ## Repeated names -/

theorem repeatMembers_of_apart {name : String} : ∀ {fields : List Field}
    {spellings : Spellings fields} {members : List (String × Value)},
    name ∉ fields.map (·.name) → RepeatMembers fields spellings members →
      RepeatMembers fields spellings (members.filter (·.1 ≠ name))
  | field :: fields, (spelling, spellings), members, fresh, repeats => by
      obtain ⟨differs, fresh⟩ := not_or.mp (mt List.mem_cons.mpr fresh)
      have kept : ∀ member : String × Value, member.1 = field.name →
          decide (member.1 ≠ name) = true :=
        fun member own => decide_eq_true fun same => differs (same.symm.trans own)
      rcases repeats with twice | ⟨value, given, repeats⟩ | repeats
      · refine .inl (twice.trans_eq ?_)
        rw [List.countP_filter]
        refine List.countP_congr fun member _ => ?_
        rw [Bool.and_eq_true, decide_eq_true_eq]
        exact ⟨fun own => ⟨own, kept member own⟩, And.left⟩
      · exact .inr (.inl ⟨value, List.mem_filter.mpr ⟨given, kept _ rfl⟩, repeats⟩)
      · exact .inr (.inr (repeatMembers_of_apart fresh repeats))

theorem not_repeatMembers_of_take : ∀ {fields : List Field} {spellings : Spellings fields}
    {members : List (String × Value)} {draft : Draft fields},
    Honoured fields spellings → (fields.map (·.name)).Nodup →
      Draft.take room fields (Draft.empty fields) (Value.memberNodes members) = .ok draft →
        ¬ RepeatMembers fields spellings members
  | [], (), _, (), _, _, _, repeats => repeats
  | field :: fields, (spelling, spellings), members, (last, final), ⟨honours, honoured⟩, distinct,
      taken, repeats => by
      obtain ⟨fresh, distinct⟩ := List.nodup_cons.mp distinct
      obtain ⟨own, others⟩ :=
        (Draft.take_eq_ok_iff Value.isSome_of_mem_memberNodes).mp taken
      rw [(Value.filter_memberNodes field.name members).1] at own
      rw [(Value.filter_memberNodes field.name members).2] at others
      have once := Draft.own_of_take (Value.name_of_mem_memberNodes fun member isMember =>
        of_decide_eq_true (List.mem_filter.mp isMember).2) own
      rcases repeats with twice | ⟨value, given, repeats⟩ | repeats
      · rw [List.countP_eq_length_filter, ← Value.length_memberNodes] at twice
        rcases once with nothing | ⟨node, content, single, -⟩
        · simp [nothing] at twice
        · simp [single] at twice
      · have isOwn : (field.name, value) ∈ members.filter (·.1 = field.name) :=
          List.mem_filter.mpr ⟨given, decide_eq_true rfl⟩
        have isNode := Value.mem_memberNodes isOwn
        rcases once with nothing | ⟨node, content, single, reads⟩
        · rw [nothing] at isNode
          cases isNode
        · rw [single, List.mem_singleton] at isNode
          obtain rfl := (Prod.mk.inj isNode).2
          exact honours.refuses repeats room content reads
      · exact not_repeatMembers_of_take honoured distinct others
          (repeatMembers_of_apart fresh repeats)

/-! ## Items of an array -/

theorem complete_of_give : ∀ {fields : List Field} {spellings : Spellings fields}
    {tuple : Tuple fields}, Give fields spellings [] tuple → Tuple.absent fields = .ok tuple
  | [], (), (), _ => rfl
  | field :: fields, (spelling, spellings), (content, rest), given => by
      rcases given with ⟨value, others, empty, -⟩ | ⟨absent, given⟩
      · cases empty
      · have others : Draft.complete fields (Draft.empty fields) = .ok rest :=
          complete_of_give given
        rw [Tuple.absent, Draft.empty, Draft.complete, absent]
        change (Draft.complete fields (Draft.empty fields) >>= _) = _
        rw [others]
        rfl

theorem ofItems_of_spellItems : ∀ {fields : List Field} {spellings : Spellings fields}
    {items : List Value} {tuple : Tuple fields}, Honoured fields spellings →
      SpellItems fields spellings items tuple →
        Tuple.ofItems room fields (Value.nodes items) .closed = .ok tuple
  | [], (), [], (), _, _ => rfl
  | field :: fields, _, [], _, _, given => complete_of_give given
  | field :: fields, (spelling, spellings), item :: items, (content, rest), ⟨honours, honoured⟩,
      ⟨spells, spelled⟩ => by
      rw [Value.nodes, Tuple.ofItems, honours.reads spells room]
      change (Tuple.ofItems room fields (Value.nodes items) .closed >>= _) = _
      rw [ofItems_of_spellItems honoured spelled]
      rfl

theorem not_repeatItems_of_ofItems : ∀ {fields : List Field} {spellings : Spellings fields}
    {items : List Value} {tuple : Tuple fields}, Honoured fields spellings →
      Tuple.ofItems room fields (Value.nodes items) .closed = .ok tuple →
        ¬ RepeatItems fields spellings items
  | [], (), _, _, _, _, repeats => repeats
  | _ :: _, (_, _), [], _, _, _, repeats => repeats
  | field :: fields, (spelling, spellings), item :: items, tuple, ⟨honours, honoured⟩, read,
      repeats => by
      rw [Value.nodes, Tuple.ofItems] at read
      obtain ⟨content, first, read⟩ := exists_ok_of_bind_ok read
      obtain ⟨rest, others, -⟩ := exists_ok_of_bind_ok read
      rcases repeats with repeats | repeats
      · exact honours.refuses repeats room content first
      · exact not_repeatItems_of_ofItems honoured others repeats

end Spellings

end ChainLedger.Json
