import Mathlib
import ChainLedger.Store.Tables

/-!
# Numbering of rows

Ids are given in ascending order, so a table's rows stand in the order of their ids and a row is
found again by its id. The same holds of any other key that no two rows share.
-/

set_option autoImplicit false

namespace ChainLedger

section Keys

variable {Row Key : Type} [DecidableEq Key] {rows : List Row} {key : Row → Key}

theorem find?_key_of_mem (unique : (rows.map key).Nodup) {row : Row} (member : row ∈ rows) :
    rows.find? (fun other => key other = key row) = some row := by
  cases found : rows.find? fun other => key other = key row with
  | none => simpa using List.find?_eq_none.mp found row member
  | some other =>
      have sameKey : key other = key row := by simpa using List.find?_some found
      have same := List.inj_on_of_nodup_map unique (List.mem_of_find?_eq_some found) member sameKey
      rw [same]

theorem find?_key_eq_some (unique : (rows.map key).Nodup) {wanted : Key} {row : Row} :
    rows.find? (fun other => key other = wanted) = some row ↔ row ∈ rows ∧ key row = wanted := by
  constructor
  · intro found
    exact ⟨List.mem_of_find?_eq_some found, by simpa using List.find?_some found⟩
  · rintro ⟨member, rfl⟩
    exact find?_key_of_mem unique member

theorem find?_key_eq_none {wanted : Key} :
    rows.find? (fun other => key other = wanted) = none ↔ wanted ∉ rows.map key := by
  simp [List.find?_eq_none]

end Keys

/-- Rows stand in the order of their ids, and no id is above the greatest that was given. -/
structure Table.Numbered {Row : Type} (table : Table Row) (id : Row → Int) : Prop where
  ascending : table.rows.Pairwise fun first second => id first < id second
  bounded : ∀ row ∈ table.rows, id row ≤ table.lastId

namespace Table.Numbered

variable {Row : Type} {table : Table Row} {id : Row → Int}

theorem of_rows_eq_nil (none : table.rows = []) : table.Numbered id := by
  refine ⟨?_, ?_⟩ <;> simp [none]

theorem nodup (numbered : table.Numbered id) : (table.rows.map id).Nodup := by
  rw [List.Nodup, List.pairwise_map]
  exact numbered.ascending.imp fun less => Int.ne_of_lt less

theorem add (numbered : table.Numbered id) {row : Row} (fresh : table.lastId < id row) :
    (table.add (id row) row).Numbered id := by
  refine ⟨?_, ?_⟩
  · apply List.pairwise_append.mpr
    refine ⟨numbered.ascending, List.pairwise_singleton _ _, ?_⟩
    intro old member new isNew
    rw [List.mem_singleton.mp isNew]
    exact Int.lt_of_le_of_lt (numbered.bounded old member) fresh
  · intro other member
    simp only [Table.add] at member ⊢
    rcases List.mem_append.mp member with member | member
    · exact le_max_of_le_left (numbered.bounded other member)
    · rw [List.mem_singleton.mp member]
      exact le_max_right _ _

theorem modify (numbered : table.Numbered id) (selects : Row → Bool) {change : Row → Row}
    (keeps : ∀ row, id (change row) = id row) : (table.modify selects change).Numbered id := by
  have same : ∀ row, id (if selects row then change row else row) = id row := by
    intro row
    split
    · exact keeps row
    · rfl
  refine ⟨?_, ?_⟩
  · apply List.pairwise_map.mpr
    simpa only [same] using numbered.ascending
  · intro changed member
    obtain ⟨row, original, rfl⟩ := List.mem_map.mp member
    rw [same]
    exact numbered.bounded row original

theorem remove (numbered : table.Numbered id) (selects : Row → Bool) :
    (table.remove selects).Numbered id :=
  ⟨numbered.ascending.filter _, fun row member =>
    numbered.bounded row (List.mem_of_mem_filter member)⟩

end Table.Numbered

theorem Table.find?_modify {Row : Type} (table : Table Row) {id : Row → Int} {row : Row}
    (stored : row ∈ table.rows) {change : Row → Row}
    (keeps : ∀ other, id (change other) = id other) :
    ∃ other ∈ table.rows, id other = id row ∧
      (table.modify (fun other => id other = id row) change).rows.find?
        (fun other => id other = id row) = some (change other) := by
  have kept : change row ∈ (table.modify (fun other => id other = id row) change).rows :=
    List.mem_map.mpr ⟨row, stored, by simp⟩
  cases found : (table.modify (fun other => id other = id row) change).rows.find?
      fun other => id other = id row with
  | none => exact absurd (List.mem_map.mpr ⟨_, kept, keeps row⟩) (find?_key_eq_none.mp found)
  | some answer =>
      obtain ⟨other, original, rfl⟩ := List.mem_map.mp (List.mem_of_find?_eq_some found)
      have sameId := List.find?_some found
      by_cases own : id other = id row
      · exact ⟨other, original, own, by simp [own]⟩
      · simp [own] at sameId

/-- Rows are numbered, and no two of them share a key. -/
structure Table.Keyed {Row : Type} (table : Table Row) (id : Row → Int) (key : Row → String) :
    Prop where
  numbered : table.Numbered id
  unique : (table.rows.map key).Nodup

def Table.keys {Row : Type} (table : Table Row) (id : Row → Int) (key : Row → String) :
    List (Int × String) :=
  table.rows.map fun row => (id row, key row)

theorem Table.mem_keys_of_mem {Row : Type} (table : Table Row) (id : Row → Int)
    (key : Row → String) {row : Row} (member : row ∈ table.rows) :
    (id row, key row) ∈ table.keys id key :=
  List.mem_map.mpr ⟨row, member, rfl⟩

/-- A row has been put in the place of the one with its key, or else behind all others. -/
structure Table.Put {Row : Type} (table : Table Row) (id : Row → Int) (key : Row → String)
    (row : Row) (after : Table Row) : Prop where
  keyed : after.Keyed id key
  rows : ∀ other, other ∈ after.rows ↔ other = row ∨ other ∈ table.rows ∧ key other ≠ key row
  grown : table.keys id key <+: after.keys id key

namespace Table.Keyed

variable {Row : Type} {table : Table Row} {id : Row → Int} {key : Row → String}

theorem of_rows_eq_nil (none : table.rows = []) : table.Keyed id key :=
  ⟨.of_rows_eq_nil none, by simp [none]⟩

theorem eq_of_id (keyed : table.Keyed id key) {first second : Row} (isFirst : first ∈ table.rows)
    (isSecond : second ∈ table.rows) (same : id first = id second) : first = second :=
  List.inj_on_of_nodup_map keyed.numbered.nodup isFirst isSecond same

theorem eq_of_key (keyed : table.Keyed id key) {first second : Row} (isFirst : first ∈ table.rows)
    (isSecond : second ∈ table.rows) (same : key first = key second) : first = second :=
  List.inj_on_of_nodup_map keyed.unique isFirst isSecond same

theorem key_eq_of_id (keyed : table.Keyed id key) {number : Int} {first second : String}
    (isFirst : (number, first) ∈ table.keys id key)
    (isSecond : (number, second) ∈ table.keys id key) : first = second := by
  obtain ⟨row, member, same⟩ := List.mem_map.mp isFirst
  obtain ⟨other, isOther, same'⟩ := List.mem_map.mp isSecond
  obtain ⟨rfl, rfl⟩ := Prod.mk.inj same
  obtain ⟨sameId, rfl⟩ := Prod.mk.inj same'
  rw [keyed.eq_of_id isOther member sameId]

theorem id_eq_of_key (keyed : table.Keyed id key) {number other : Int} {wanted : String}
    (isFirst : (number, wanted) ∈ table.keys id key)
    (isSecond : (other, wanted) ∈ table.keys id key) : number = other := by
  obtain ⟨row, member, same⟩ := List.mem_map.mp isFirst
  obtain ⟨row', member', same'⟩ := List.mem_map.mp isSecond
  obtain ⟨rfl, rfl⟩ := Prod.mk.inj same
  obtain ⟨rfl, sameKey⟩ := Prod.mk.inj same'
  rw [keyed.eq_of_key member' member sameKey]

theorem put_add (keyed : table.Keyed id key) {row : Row} (new : key row ∉ table.rows.map key)
    (fresh : table.lastId < id row) : table.Put id key row (table.add (id row) row) := by
  refine ⟨⟨keyed.numbered.add fresh, ?_⟩, ?_, ?_⟩
  · rw [Table.add, List.map_append, List.nodup_append]
    refine ⟨keyed.unique, List.nodup_singleton _, ?_⟩
    rintro old member other isNew rfl
    rw [List.mem_singleton.mp isNew] at member
    exact new member
  · intro other
    have distinct : other ∈ table.rows → key other ≠ key row :=
      fun member same => new (same ▸ List.mem_map_of_mem member)
    rw [Table.add, List.mem_append, List.mem_singleton]
    tauto
  · rw [Table.keys, Table.keys, Table.add, List.map_append]
    exact List.prefix_append _ _

theorem put_modify (keyed : table.Keyed id key) {row : Row} (stored : row ∈ table.rows)
    (change : Row → Row) (keepsId : ∀ other, id (change other) = id other)
    (keepsKey : ∀ other, key (change other) = key other) :
    table.Put id key (change row) (table.modify (fun other => id other = id row) change) := by
  have keys : (table.modify (fun other => id other = id row) change).keys id key =
      table.keys id key := by
    rw [Table.keys, Table.keys, Table.modify, List.map_map]
    apply List.map_congr_left
    intro other member
    rw [Function.comp_apply]
    split
    · rw [keepsId, keepsKey]
    · rfl
  refine ⟨⟨keyed.numbered.modify _ keepsId, ?_⟩, ?_, ?_⟩
  · have column := congrArg (List.map Prod.snd) keys
    simp only [Table.keys, List.map_map] at column
    change List.map key _ = List.map key _ at column
    rw [column]
    exact keyed.unique
  · intro other
    rw [keepsKey]
    constructor
    · intro member
      obtain ⟨original, isOriginal, rfl⟩ := List.mem_map.mp member
      by_cases own : id original = id row
      · rw [keyed.eq_of_id isOriginal stored own]
        simp
      · refine Or.inr ⟨by simpa [own] using isOriginal, ?_⟩
        intro same
        rw [if_neg (by simpa using own)] at same
        exact own (congrArg id (keyed.eq_of_key isOriginal stored same))
    · rintro (rfl | ⟨member, otherKey⟩)
      · exact List.mem_map.mpr ⟨row, stored, by simp⟩
      · refine List.mem_map.mpr ⟨other, member, ?_⟩
        have otherId : id other ≠ id row :=
          fun same => otherKey (congrArg key (keyed.eq_of_id member stored same))
        simp [otherId]
  · rw [keys]

end Table.Keyed

namespace Table.Put

variable {Row : Type} {table after : Table Row} {id : Row → Int} {key : Row → String} {row : Row}

theorem stored (put : table.Put id key row after) : row ∈ after.rows :=
  (put.rows row).mpr (Or.inl rfl)

theorem mem_keys (put : table.Put id key row after) (wanted : String) :
    wanted ∈ after.rows.map key ↔ wanted ∈ table.rows.map key ∨ wanted = key row := by
  simp only [List.mem_map, put.rows]
  constructor
  · rintro ⟨other, rfl | ⟨member, -⟩, rfl⟩
    · exact Or.inr rfl
    · exact Or.inl ⟨other, member, rfl⟩
  · rintro (⟨other, member, rfl⟩ | rfl)
    · by_cases same : key other = key row
      · exact ⟨row, Or.inl rfl, same.symm⟩
      · exact ⟨other, Or.inr ⟨member, same⟩, rfl⟩
    · exact ⟨row, Or.inl rfl, rfl⟩

theorem find? (put : table.Put id key row after)
    (unique : (table.rows.map key).Nodup) (wanted : String) :
    after.rows.find? (fun other => key other = wanted) =
      if wanted = key row then some row
      else table.rows.find? fun other => key other = wanted := by
  by_cases own : wanted = key row
  · rw [if_pos own]
    exact (find?_key_eq_some put.keyed.unique).mpr ⟨put.stored, own.symm⟩
  · rw [if_neg own]
    cases found : table.rows.find? fun other => key other = wanted with
    | none =>
        apply find?_key_eq_none.mpr
        rw [put.mem_keys, not_or]
        exact ⟨find?_key_eq_none.mp found, own⟩
    | some other =>
        obtain ⟨member, same⟩ := (find?_key_eq_some unique).mp found
        refine (find?_key_eq_some put.keyed.unique).mpr ⟨(put.rows other).mpr (Or.inr ?_), same⟩
        exact ⟨member, fun equal => own (same.symm.trans equal)⟩

end Table.Put

namespace Store

variable (store : Store)

theorem blocks_lastId_lt_nextId : store.blocks.lastId < store.nextId store.blocks.lastId := by
  rw [nextId]
  split <;> omega

theorem transactions_lastId_lt_nextId :
    store.transactions.lastId < store.nextId store.transactions.lastId := by
  rw [nextId]
  split <;> omega

theorem assets_lastId_lt_nextId : store.assets.lastId < store.nextId store.assets.lastId := by
  rw [nextId]
  split <;> omega

theorem descriptions_lastId_lt_nextId :
    store.descriptions.lastId < store.nextId store.descriptions.lastId := by
  rw [nextId]
  split <;> omega

theorem descriptionsOf_eq_filter (numbered : store.descriptions.Numbered (·.id))
    (transactionId : Int) :
    store.descriptionsOf transactionId =
      store.descriptions.rows.filter (·.transactionId = transactionId) := by
  rw [descriptionsOf]
  apply List.mergeSort_of_pairwise
  refine (numbered.ascending.filter _).imp ?_
  intro first second less
  exact decide_eq_true (Int.le_of_lt less)

end Store
end ChainLedger
