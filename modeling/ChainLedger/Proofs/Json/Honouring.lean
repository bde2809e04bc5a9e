import ChainLedger.Proofs.Decimal.Numerals
import ChainLedger.Proofs.Json.Spelling

/-!
# Readers honour spellings

Each reader reads the values that its spelling gives, at any depth, and the readers of records
refuse values that repeat a name. An unsigned literal of 64 bits is far below the greatest double,
so that it can be taken in whole.
-/

set_option autoImplicit false

namespace ChainLedger.Json

/-! ## Unsigned literals -/

namespace Numeral

theorem foldl_integerDigit (digits : List Char) :
    ∀ {value : Nat}, Nat.ofDigitChars 10 digits value < UInt64.size →
      digits.foldl Significand.integerDigit { value } =
        { value := Nat.ofDigitChars 10 digits value } := by
  induction digits with
  | nil => exact fun _ => rfl
  | cons digit digits ih =>
      intro value fits
      rw [Nat.ofDigitChars_cons, Nat.mul_comm] at fits ⊢
      have first : value * 10 + (digit.toNat - '0'.toNat) < UInt64.size :=
        (Text.le_ofDigitChars digits _).trans_lt fits
      rw [List.foldl_cons, Significand.integerDigit, if_neg (by simpa using first), ih fits]

theorem roundBits_le {number : Nat} (positive : 0 < number) : roundBits number ≤ 2 * number := by
  have unit : Nat.pow 2 (number.log2 + 1 - 53) ≤ number :=
    (Nat.pow_le_pow_right (by decide) (by omega)).trans (Nat.log2_self_le positive.ne')
  have quotient : number / Nat.pow 2 (number.log2 + 1 - 53) * Nat.pow 2 (number.log2 + 1 - 53) ≤
      number := Nat.div_mul_le_self _ _
  simp only [roundBits]
  split
  · rw [Nat.succ_mul]
    omega
  · omega

theorem significand_ofInt {number : Nat} (fits : number < UInt64.size) :
    (ofInt number).significand = { value := number } := by
  have value : Nat.ofDigitChars 10 (Text.digitsOf number) 0 = number :=
    Text.digitsValue_digitsOf number
  have taken := foldl_integerDigit (Text.digitsOf number) (value.trans_lt fits)
  rw [value] at taken
  exact congrArg (fun whole : Significand => { whole with full := false }) taken

theorem isTooLarge_ofInt {number : Nat} (fits : number < UInt64.size) :
    (ofInt number).isTooLarge = false := by
  rw [isTooLarge, significand_ofInt fits]
  change overflows number 0 = false
  rcases Nat.eq_zero_or_pos number with rfl | positive
  · rfl
  · have one : roundBits (Text.powerOfTen 0) = 1 := by decide
    have bound : 2 * UInt64.size ≤ overflowBound := by decide +kernel
    have rounded := roundBits_le positive
    have near : ¬ overflowBound ≤ roundBits number * roundBits (Text.powerOfTen 0) := by
      rw [one, Nat.mul_one]
      omega
    simp [overflows, near]

theorem natural?_ofInt {number : Nat} (fits : number < UInt64.size) :
    (ofInt number).natural? = some number := by
  have magnitude : (ofInt number).magnitude = number := Text.digitsValue_digitsOf number
  rw [natural?, magnitude, decide_eq_true fits]
  simp [ofInt, isWhole]

end Numeral

namespace Reader

variable {Content : Type}

theorem honours_text : text.Honours .text where
  reads spells room := by
    obtain rfl := spells
    rfl
  refuses := nofun

theorem honours_int32 : int32.Honours .int32 where
  reads spells room := by
    obtain rfl := spells
    exact int32_node _ room
  refuses := nofun

theorem honours_int64 : int64.Honours .int64 where
  reads spells room := by
    obtain rfl := spells
    exact int64_node _ room
  refuses := nofun

theorem honours_integerText : integerText.Honours .integerText where
  reads spells room := by
    rcases spells with rfl | ⟨number, fits, rfl, rfl⟩
    · exact integerText_node _ room
    · have taken : whole room (.number (.ofInt number)) = .ok () := by
        rw [whole, Numeral.isTooLarge_ofInt fits, if_neg Bool.false_ne_true]
      simp only [Value.integer, Value.node, integerText, taken, Numeral.natural?_ofInt fits]
      rfl
  refuses := nofun

theorem ok_of_mapM_ok {item : Node → Except Fault Content} {items : List Value} :
    ∀ {contents : List Content}, (Value.nodes items).mapM item = .ok contents →
      ∀ value ∈ items, ∃ content, item value.node = .ok content := by
  induction items with
  | nil => exact fun _ _ member => nomatch member
  | cons value items ih =>
      intro contents read
      rw [Value.nodes, List.mapM_cons] at read
      obtain ⟨content, first, read⟩ := exists_ok_of_bind_ok read
      obtain ⟨rest, others, -⟩ := exists_ok_of_bind_ok read
      exact List.forall_mem_cons.mpr ⟨⟨content, first⟩, ih others⟩

theorem honours_list {item : Reader Content} {spelling : Spelling Content}
    (honours : item.Honours spelling) : (list item).Honours spelling.list where
  reads {value contents} spells room := by
    cases value with
    | array items =>
        have read : (Value.nodes items).mapM (item (room - 1)) = .ok contents := by
          induction spells with
          | nil => rfl
          | cons spells _ ih =>
              rw [Value.nodes, List.mapM_cons, honours.reads spells, ih]
              rfl
        change ((Value.nodes items).mapM (item (room - 1)) >>= _) = _
        rw [read]
        rfl
    | _ => cases spells
  refuses {value} repeats room contents read := by
    cases value with
    | array items =>
        obtain ⟨contents, each, -⟩ := exists_ok_of_bind_ok read
        obtain ⟨part, member, repeats⟩ := repeats
        obtain ⟨content, read⟩ := ok_of_mapM_ok each part member
        exact honours.refuses repeats _ content read
    | _ => cases repeats

theorem optional_node_of_ne_null {value : Value} (notNull : value ≠ .null)
    (reader : Reader Content) (room : Nat) :
    optional reader room value.node = some <$> reader room value.node := by
  cases value with
  | null => exact absurd rfl notNull
  | _ => rfl

theorem honours_optional {reader : Reader Content} {spelling : Spelling Content}
    (honours : reader.Honours spelling) : (optional reader).Honours spelling.optional where
  reads spells room := by
    rcases spells with ⟨rfl, rfl⟩ | ⟨notNull, known, rfl, spells⟩
    · rfl
    · rw [optional_node_of_ne_null notNull, honours.reads spells room]
      rfl
  refuses := by
    rintro value ⟨notNull, repeats⟩ room content read
    rw [optional_node_of_ne_null notNull] at read
    obtain ⟨known, read, -⟩ := exists_ok_of_map_ok read
    exact honours.refuses repeats room known read

theorem named?_of_mem {variants : List (String × Content)} {name : String} {content : Content}
    (distinct : (variants.map (·.1)).Nodup) (listed : (name, content) ∈ variants) :
    named? variants name = .ok content := by
  cases found : variants.find? (·.1 = name) with
  | none =>
      have absent := List.find?_eq_none.mp found (name, content) listed
      exact absurd (decide_eq_true rfl) absent
  | some variant =>
      have named := List.find?_some found
      have own : variant.1 = name := of_decide_eq_true named
      have isVariant := List.mem_of_find?_eq_some found
      obtain rfl : variant = (name, content) :=
        List.inj_on_of_nodup_map distinct isVariant listed own
      rw [named?, found]

theorem honours_variant {variants : List (String × Content)}
    (distinct : (variants.map (·.1)).Nodup) : (variant variants).Honours (.variant variants) where
  reads {value content} spells room := by
    obtain ⟨name, listed, spells⟩ := spells
    have found := named?_of_mem distinct listed
    rcases spells with rfl | rfl
    · exact found
    · change (named? variants name >>= _) = _
      rw [found]
      rfl
  refuses {value} repeats room content read := by
    cases value with
    | object members =>
        obtain ⟨name, repeats⟩ := repeats
        match members with
        | [] => cases repeats
        | [_] => exact absurd (repeats.trans_le List.countP_le_length) (Nat.lt_irrefl 1)
        | (first, value) :: (second, other) :: members =>
            obtain ⟨found, -, read⟩ := exists_ok_of_bind_ok read
            cases value <;> cases read
    | _ => cases repeats

theorem honours_record {fields : List Field} {spellings : Spellings fields}
    (honoured : Spellings.Honoured fields spellings) (distinct : (fields.map (·.name)).Nodup) :
    (record fields).Honours (.record fields spellings) where
  reads {value tuple} spells room := by
    cases value with
    | object members =>
        obtain ⟨known, unknown, perm, given, foreign⟩ := spells
        exact record_of_said Value.isSome_of_mem_memberNodes
          (Spellings.said_of_give honoured distinct perm given foreign)
    | array items => exact Spellings.ofItems_of_spellItems honoured spells
    | _ => cases spells
  refuses {value} repeats room tuple read := by
    cases value with
    | object members =>
        obtain ⟨draft, taken, -⟩ := exists_ok_of_bind_ok read
        exact Spellings.not_repeatMembers_of_take honoured distinct taken repeats
    | array items => exact Spellings.not_repeatItems_of_ofItems honoured read repeats
    | _ => cases repeats

theorem Honours.consisting {Whole : Type} {reader : Reader Content} {spelling : Spelling Content}
    (honours : reader.Honours spelling) {make : Content → Whole} {contents : Whole → Content}
    (made : ∀ whole, make (contents whole) = whole) :
    Reader.Honours (fun room node => make <$> reader room node)
      (spelling.consisting contents) where
  reads {value whole} spells room := by
    rw [honours.reads spells room]
    exact congrArg Except.ok (made whole)
  refuses {value} repeats room whole read := by
    obtain ⟨content, read, -⟩ := exists_ok_of_map_ok read
    exact honours.refuses repeats room content read

end Reader
end ChainLedger.Json
