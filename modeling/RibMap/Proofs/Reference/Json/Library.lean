import RibMap.Proofs.Json.Unambiguity
import RibMap.Proofs.Reference.Json.Indented
import RibMap.Proofs.Reference.Json.Shapes

/-! # The library keeps the rules

What the library reads of the parts of a spelled value is determined, because every part has a
spelling of its own; so each rule is one equation for decoding. What it writes spells the encoded
data and, as no text spells two values, nothing else.
-/

namespace RibMap.Json

open scoped Reference

variable {α σ : Type}

/-- Something spells the value. -/
def Spellable (value : Json) : Prop :=
  ∃ text, Spells text value

theorem SpellsItems.spellable {first : Bool} {text : List Char} {items : List Json}
    (spelled : SpellsItems first text items) : ∀ item ∈ items, item.Spellable := by
  induction items generalizing first text with
  | nil => simp
  | cons item items ih =>
    cases spelled with
    | next leads here more => exact List.forall_mem_cons.mpr ⟨⟨_, here⟩, ih more⟩

theorem SpellsMembers.spellable {first : Bool} {text : List Char}
    {members : List (String × Json)} (spelled : SpellsMembers first text members) :
    ∀ member ∈ members, member.2.Spellable := by
  induction members generalizing first text with
  | nil => simp
  | cons member members ih =>
    cases spelled with
    | next leads name before after here more =>
      exact List.forall_mem_cons.mpr ⟨⟨_, here⟩, ih more⟩

theorem IsSpelledBy.spellable {text : String} {value : Json} (spelled : value.IsSpelledBy text) :
    value.Spellable := by
  obtain ⟨before, here, after, -, -, spelled, -⟩ := spelled.exists_toList
  exact ⟨here, spelled⟩

theorem Spellable.items {items : List Json} (spelled : Spellable (.array items)) :
    ∀ item ∈ items, item.Spellable := by
  obtain ⟨text, spelled⟩ := spelled
  cases spelled with
  | array spelled => exact spelled.spellable

theorem Spellable.members {members : List (String × Json)} (spelled : Spellable (.object members)) :
    ∀ member ∈ members, member.2.Spellable := by
  obtain ⟨text, spelled⟩ := spelled
  cases spelled with
  | object spelled => exact spelled.spellable

section Reading

/-- What the library reads of a value is what the value is decoded to. -/
theorem reads_decode {shape : Shape α} (distinct : shape.distinct = true) (value : Json) :
    Reads shape value (shape.decode value) := by
  intro text spelled
  change ((shape.reader.parse text).mapError Error.message).toOption = _
  rw [← Reader.Decodes.toOption_parse (shape.reader_decodes distinct) spelled]
  cases shape.reader.parse text <;> rfl

theorem Reads.eq_decode {shape : Shape α} {value : Json} {datum? : Option α}
    (reads : Reads shape value datum?) (distinct : shape.distinct = true)
    (spelled : value.Spellable) : datum? = shape.decode value := by
  obtain ⟨text, spelled⟩ := spelled
  have whole : value.IsSpelledBy _ := .blanks layout_nil spelled layout_nil
  exact (reads _ whole).symm.trans (reads_decode distinct value _ whole)

/-- A rule holds if it is an equation for decoding every value that has a spelling. -/
theorem reads_of_eq {shape : Shape α} {value : Json} {datum? : Option α}
    (distinct : shape.distinct = true) (same : value.Spellable → datum? = shape.decode value) :
    Reads shape value datum? := by
  intro text spelled
  rw [same spelled.spellable]
  exact reads_decode distinct value text spelled

theorem mapM_congr {decode decode' : Decoder α} {values : List Json}
    (same : ∀ value ∈ values, decode value = decode' value) :
    values.mapM decode = values.mapM decode' := by
  induction values with
  | nil => rfl
  | cons value values ih =>
    obtain ⟨here, later⟩ := List.forall_mem_cons.mp same
    rw [List.mapM_cons, List.mapM_cons, here, ih later]

/-- Only the values of a name have a say in what a field is. -/
theorem Decoder.field_congr {decode decode' : Decoder α} {name : String}
    {members : List (String × Json)}
    (same : ∀ value, (name, value) ∈ members → decode value = decode' value) :
    decode.field name members = decode'.field name members := by
  have given (entry : String × Json) (mem : entry ∈ members.filter (·.1 = name)) :
      decode entry.2 = decode' entry.2 := by
    obtain ⟨key, value⟩ := entry
    obtain ⟨member, own⟩ := List.mem_filter.mp mem
    obtain rfl : key = name := of_decide_eq_true own
    exact same value member
  unfold Decoder.field
  generalize members.filter (·.1 = name) = found at given ⊢
  rcases found with _ | ⟨⟨key, value⟩, _ | _⟩
  · rfl
  · simp only [given (key, value) List.mem_cons_self]
  · rfl

theorem Fields.ReadFromMembers.eq_ofMembers {members : List (String × Json)}
    (spelled : ∀ member ∈ members, member.2.Spellable) {σ : Type} :
    ∀ {fields : Fields σ} {data? : Option σ}, fields.ReadFromMembers members data? →
      fields.distinct = true → data? = fields.ofMembers members
  | .nil, _, readFrom, _ => readFrom
  | .field name default? shape others, _, readFrom, distinct => by
    obtain ⟨decode, others?, reads, readOthers, rfl⟩ := readFrom
    obtain ⟨own, behind⟩ := Bool.and_eq_true_iff.mp distinct
    have here : Decoder.field decode name members = Decoder.field shape.decode name members :=
      Decoder.field_congr fun value mem => (reads value mem).eq_decode own (spelled _ mem)
    rw [ofMembers, here, readOthers.eq_ofMembers spelled behind]

theorem Fields.ReadFromItems.eq_ofItems {σ : Type} :
    ∀ {fields : Fields σ} {items : List Json} {data? : Option σ},
      fields.ReadFromItems items data? → fields.distinct = true →
      (∀ item ∈ items, item.Spellable) → data? = fields.ofItems items
  | .nil, [], _, readFrom, _, _ | .nil, _ :: _, _, readFrom, _, _ => readFrom
  | .field name default? shape others, [], _, readFrom, distinct, spelled => by
    obtain ⟨-, behind⟩ := Bool.and_eq_true_iff.mp distinct
    obtain ⟨others?, readOthers, rfl⟩ := readFrom
    rw [ofItems, readOthers.eq_ofItems behind spelled]
  | .field name default? shape others, item :: items, _, readFrom, distinct, spelled => by
    obtain ⟨own, behind⟩ := Bool.and_eq_true_iff.mp distinct
    obtain ⟨here, later⟩ := List.forall_mem_cons.mp spelled
    obtain ⟨datum?, others?, reads, readOthers, rfl⟩ := readFrom
    rw [ofItems, reads.eq_decode own here, readOthers.eq_ofItems behind later]

theorem Variants.ReadFrom.eq_decode {name : String} {content? : Option Json}
    (spelled : ∀ content ∈ content?, content.Spellable) {σ : Type} :
    ∀ {variants : Variants σ} {datum? : Option σ}, variants.ReadFrom name content? datum? →
      variants.distinct = true → datum? = variants.decode name content?
  | .nil, _, readFrom, _ => readFrom
  | .bare own others, _, readFrom, distinct => by
    rw [ReadFrom] at readFrom
    rw [decode]
    split at readFrom
    · rename_i same
      rw [if_pos same, readFrom]
    · rename_i other
      obtain ⟨other?, readOther, rfl⟩ := readFrom
      rw [if_neg other, readOther.eq_decode spelled distinct]
  | .holding own shape others, _, readFrom, distinct => by
    obtain ⟨here, behind⟩ := Bool.and_eq_true_iff.mp distinct
    rw [ReadFrom] at readFrom
    rw [decode]
    split at readFrom
    · rename_i same
      obtain ⟨decode, reads, rfl⟩ := readFrom
      have content : content?.bind decode = content?.bind shape.decode := by
        cases content? with
        | none => rfl
        | some content => exact (reads content rfl).eq_decode here (spelled content rfl)
      rw [if_pos same, content]
    · rename_i other
      obtain ⟨other?, readOther, rfl⟩ := readFrom
      rw [if_neg other, readOther.eq_decode spelled behind]

end Reading

section Writing

mutual

/-- There are no numbers in what is encoded. -/
theorem Shape.proper_encode {α : Type} :
    ∀ (shape : Shape α) (datum : α), (shape.encode datum).Proper
  | .text, _ => .string
  | .optional _, none => .null
  | .optional content, some datum => content.proper_encode datum
  | .list item, data => .array fun value mem => by
    obtain ⟨datum, -, rfl⟩ := List.mem_map.mp mem
    exact item.proper_encode datum
  | .record _ fields, data => .object (fields.proper_encode data)
  | .choice variants, datum => variants.proper_encode datum

theorem Fields.proper_encode {σ : Type} :
    ∀ (fields : Fields σ) (data : σ) key value, (key, value) ∈ fields.encode data → value.Proper
  | .nil, (), _, _, mem => nomatch mem
  | .field _ _ shape others, (datum, data), key, value, mem => by
    rcases List.mem_cons.mp mem with same | mem
    · cases same
      exact shape.proper_encode datum
    · exact others.proper_encode data key value mem

theorem Variants.proper_encode {σ : Type} :
    ∀ (variants : Variants σ) (datum : σ), (variants.encode datum).Proper
  | .bare _ _, .inl () => .string
  | .bare _ others, .inr datum => others.proper_encode datum
  | .holding _ shape _, .inl datum => .object fun _ _ mem => by
    cases List.mem_singleton.mp mem
    exact shape.proper_encode datum
  | .holding _ _ others, .inr datum => others.proper_encode datum

end

variable {print : Json → String}

/-- Printing the value that stands for a datum. -/
def printing (print : Json → String) : Writer := fun shape datum => .ok (print (shape.encode datum))

theorem Writes.eq_encode (prints : ∀ value : Json, value.Proper → value.IsSpelledBy (print value))
    {shape : Shape α} {datum : α} {value : Json}
    (writes : Writes (printing print) shape datum value) : value = shape.encode datum := by
  obtain ⟨text, written, spelled⟩ := writes
  cases written
  exact spelled.unique (prints _ (shape.proper_encode datum))

theorem Fields.WrittenAs.eq_encode
    (prints : ∀ value : Json, value.Proper → value.IsSpelledBy (print value)) {σ : Type} :
    ∀ {fields : Fields σ} {data : σ} {members : List (String × Json)},
      fields.WrittenAs (printing print) data members → members = fields.encode data
  | .nil, (), _, written => written
  | .field .., (_, _), _, written => by
    obtain ⟨value, rest, here, behind, rfl⟩ := written
    rw [encode, here.eq_encode prints, behind.eq_encode prints]

theorem Variants.WrittenAs.eq_encode
    (prints : ∀ value : Json, value.Proper → value.IsSpelledBy (print value)) {σ : Type} :
    ∀ {variants : Variants σ} {datum : σ} {value : Json},
      variants.WrittenAs (printing print) datum value → value = variants.encode datum
  | .bare .., .inl (), _, written => written
  | .holding .., .inl _, _, written => by
    obtain ⟨content, writes, rfl⟩ := written
    rw [encode, writes.eq_encode prints]
  | .bare _ others, .inr datum, value, written | .holding _ _ others, .inr datum, value, written =>
    have here : others.WrittenAs (printing print) datum value := written
    here.eq_encode prints

/-- What spells the values that are printed keeps the rules. -/
theorem writesByRules_printing
    (prints : ∀ value : Json, value.Proper → value.IsSpelledBy (print value)) :
    WritesByRules (printing print) := by
  have writes {α : Type} (shape : Shape α) (datum : α) :
      Writes (printing print) shape datum (shape.encode datum) :=
    ⟨_, rfl, prints _ (shape.proper_encode datum)⟩
  constructor
  case text => exact fun value => writes .text value
  case nothing => exact fun content => writes (.optional content) none
  case something =>
    intro α content datum value here
    rw [here.eq_encode prints]
    exact writes (.optional content) (some datum)
  case list =>
    intro α item data encode here
    have same : data.map encode = data.map item.encode :=
      List.map_congr_left fun datum mem => (here datum mem).eq_encode prints
    rw [same]
    exact writes (.list item) data
  case record =>
    intro σ name fields data members here
    rw [here.eq_encode prints]
    exact writes (.record name fields) data
  case choice =>
    intro σ variants datum value here
    rw [here.eq_encode prints]
    exact writes (.choice variants) datum

end Writing

end RibMap.Json

namespace RibMap.Reference

open Json

theorem readsByRules : ReadsByRules where
  text value := reads_decode rfl value
  nothing {α content} readable := by
    have distinct : (Shape.optional content).distinct = true := readable.2
    exact reads_decode distinct .null
  something {α content value datum?} readable proper reads := by
    have distinct : (Shape.optional content).distinct = true := readable.2
    refine reads_of_eq distinct fun spelled => ?_
    rw [reads.eq_decode readable.2 spelled]
    cases value with
    | null => exact absurd rfl proper
    | _ => rfl
  list {α item values decode} readable reads := by
    refine reads_of_eq readable.2 fun spelled => ?_
    have same (value : Json) (mem : value ∈ values) : decode value = item.decode value :=
      (reads value mem).eq_decode readable.2 (spelled.items value mem)
    exact mapM_congr same
  noList {α item value} readable other := by
    refine reads_of_eq readable.2 fun _ => ?_
    cases value with
    | array items => exact absurd rfl (other items)
    | _ => rfl
  object readable readFrom :=
    reads_of_eq readable.2 fun spelled =>
      readFrom.eq_ofMembers spelled.members (Bool.and_eq_true_iff.mp readable.2).2
  items readable readFrom :=
    reads_of_eq readable.2 fun spelled =>
      readFrom.eq_ofItems (Bool.and_eq_true_iff.mp readable.2).2 spelled.items
  noRecord {σ name fields value} readable noObject noList := by
    refine reads_of_eq readable.2 fun _ => ?_
    cases value with
    | array items => exact absurd rfl (noList items)
    | object members => exact absurd rfl (noObject members)
    | _ => rfl
  name readable readFrom :=
    reads_of_eq readable.2 fun _ =>
      readFrom.eq_decode (by simp) (Bool.and_eq_true_iff.mp readable.2).2
  member {σ variants name content datum?} readable readFrom := by
    refine reads_of_eq readable.2 fun spelled => ?_
    refine readFrom.eq_decode (fun other same => ?_) (Bool.and_eq_true_iff.mp readable.2).2
    cases same
    exact spelled.members (name, content) List.mem_cons_self
  noVariant {σ variants value} readable noName noMember := by
    refine reads_of_eq readable.2 fun _ => ?_
    cases value with
    | string name => exact absurd rfl (noName name)
    | object members =>
      rcases members with _ | ⟨⟨name, content⟩, _ | _⟩
      · rfl
      · exact absurd rfl (noMember name content)
      · rfl
    | _ => rfl

theorem writesByRules : WritesByRules Library.write :=
  writesByRules_printing fun _ => isSpelledBy_render

theorem indentsByRules : WritesByRules Library.writeIndented :=
  writesByRules_printing fun _ => isSpelledBy_renderIndented

end RibMap.Reference
