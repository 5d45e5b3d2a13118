import RibMap.Proofs.Reference.Json.Decoding
import RibMap.Reference.Json.Library

/-! # Decoding records

A record is an object of named fields or the list of its fields in order. Reading an object goes
from member to member and keeps what is known of every field; decoding looks for every field among
all members. The two agree because no field may be given twice.
-/

namespace RibMap.Json

/-- A member of an object is dealt with as a decoder does that knows the fields read so far. -/
def FieldReader.Decodes (member : FieldReader σ) (decode : σ → String → Decoder σ) : Prop :=
  ∀ {before after text rest : List Char} {fields : σ} {key : String} {value : Json},
    Layout before → Layout after → Spells text value → FollowsValue rest →
    (member.read fields key (before ++ ':' :: (after ++ (text ++ rest)))).toOption =
      (decode fields key value).map (·, rest)

/-- Decode members one after the other. -/
def decodeMembers (decode : σ → String → Decoder σ) (fields : σ) :
    List (String × Json) → Option σ
  | [] => some fields
  | (key, value) :: members =>
    (decode fields key value).bind fun fields => decodeMembers decode fields members

/-- What is in front of a key leads behind its quote. -/
theorem nextKey_of_lead {first : Bool} {lead : List Char} (leads : Lead first lead)
    (rest : List Char) : nextKey first (lead ++ '"' :: rest) = .ok (some rest) := by
  have quote : '"' ∉ [' ', '\n', '\t', '\r'] ∧ '"' ≠ '\x7d' := by decide
  cases leads with
  | first layout =>
    simp only [nextKey, skipLayout_append_cons layout quote.1, quote.2, ↓reduceIte]
  | later layout layout' =>
    have comma : ',' ∉ [' ', '\n', '\t', '\r'] ∧ ',' ≠ '\x7d' := by decide
    simp only [List.append_assoc, List.cons_append, nextKey,
      skipLayout_append_cons layout comma.1, skipLayout_append_cons layout' quote.1, comma.2,
      Bool.false_eq_true, ↓reduceIte]

theorem nextKey_of_layout {blank : List Char} (layout : Layout blank) (first : Bool)
    (rest : List Char) : nextKey first (blank ++ '\x7d' :: rest) = .ok none := by
  simp only [nextKey, skipLayout_append_cons (c := '\x7d') layout (by decide), ↓reduceIte]

/-- Members are read one by one up to the blanks in front of the closing bracket. -/
theorem readMembers_of_spellsMembers {member : FieldReader σ} {decode : σ → String → Decoder σ}
    (agrees : member.Decodes decode) {first : Bool} {text : List Char}
    {members : List (String × Json)} (spelled : SpellsMembers first text members) (fields : σ)
    (rest : List Char) :
    ∃ blank, Layout blank ∧
      (readMembers member fields first (text ++ '\x7d' :: rest)).toOption =
        (decodeMembers decode fields members).map (·, blank ++ '\x7d' :: rest) := by
  induction members generalizing first text fields with
  | nil =>
    cases spelled with
    | done layout =>
      refine ⟨text, layout, ?_⟩
      rw [readMembers, nextKey_of_layout layout]
      rfl
  | cons entry members ih =>
    cases spelled with
    | @next _ lead name before after text left key value _ leads named layout layout' spelled
        more =>
      obtain ⟨body, rfl, read⟩ := read_of_spellsText named
      -- What is read of this member decides which fields are known at the next one.
      have found : (member.read fields key _).toOption = _ :=
        agrees layout layout' spelled (more.followsValue rest)
      simp only [List.append_assoc, List.cons_append]
      rw [readMembers, nextKey_of_lead leads]
      dsimp only
      rw [(read _).1]
      dsimp only
      rcases reading_cases found with ⟨fault, failed, refused⟩ | ⟨fields', done, decoded⟩
      · refine ⟨[], layout_nil, ?_⟩
        rw [failed, decodeMembers, refused]
        rfl
      · obtain ⟨blank, layout, others⟩ := ih more fields'
        refine ⟨blank, layout, ?_⟩
        rw [done, decodeMembers, decoded]
        exact others

theorem RecordShape.reader_decodes {shape : RecordShape α} {ofList : List Json → Option α}
    {ofObject : List (String × Json) → Option α}
    (list : ∀ {text : List Char} {items : List Json} (rest : List Char),
      SpellsItems true text items →
      (closeWith closeList (shape.ofList (text ++ ']' :: rest))).toOption =
        (ofList items).map (·, rest))
    (object : ∀ {text : List Char} {members : List (String × Json)} (rest : List Char),
      SpellsMembers true text members →
      (closeWith closeObject (shape.ofObject (text ++ '\x7d' :: rest))).toOption =
        (ofObject members).map (·, rest)) :
    shape.reader.Decodes (.record ofList ofObject) := by
  intro blank text rest value layout spelled follows
  obtain ⟨c, left, same, start⟩ := spelled.exists_cons
  obtain ⟨-, -, bracket, brace⟩ := start.marks
  simp only [RecordShape.reader, spelled.skipLayout_eq layout]
  cases value with
  | array items =>
    cases spelled with
    | array spelled =>
      simp only [List.cons_append, List.append_assoc, List.nil_append]
      exact list rest spelled
  | object members =>
    cases spelled with
    | object spelled =>
      simp only [List.cons_append, List.append_assoc, List.nil_append]
      exact object rest spelled
  | null | boolean | number | string =>
    have noList : c ≠ '[' := by simp [bracket]
    have noObject : c ≠ '\x7b' := by simp [brace]
    rw [same, List.cons_append]
    split
    · rename_i found
      cases found
      contradiction
    · rename_i found
      cases found
      contradiction
    · rfl

/-- Decode a field for the first time. -/
def Decoder.once (decode : Decoder α) (known : Option α) (value : Json) : Option (Option α) :=
  if known.isSome then none else (decode value).map some

theorem toOption_storeField {reader : Reader α} {decode : Decoder α}
    (agrees : reader.Decodes decode) {before after text rest : List Char} {value : Json}
    (layout : Layout before) (layout' : Layout after) (spelled : Spells text value)
    (follows : FollowsValue rest) (name : String) (known : Option α) (store : Option α → σ) :
    (storeField name known reader (fun value => store (some value))
        (before ++ ':' :: (after ++ (text ++ rest)))).toOption =
      ((decode.once known value).map store).map (·, rest) := by
  cases known with
  | some known => rfl
  | none =>
    rw [storeField, readField, readColon_append layout]
    dsimp only
    rcases reading_cases (agrees layout' spelled follows) with
      ⟨fault, failed, refused⟩ | ⟨found, done, decoded⟩
    · rw [failed, Decoder.once, refused]
      rfl
    · rw [done, Decoder.once, decoded]
      rfl

theorem toOption_ignoreField {before after text rest : List Char} {value : Json}
    (layout : Layout before) (layout' : Layout after) (spelled : Spells text value)
    (follows : FollowsValue rest) (fields : σ) :
    (ignoreField fields (before ++ ':' :: (after ++ (text ++ rest)))).toOption =
      some (fields, rest) := by
  rw [ignoreField, skipField, readColon_append layout]
  dsimp only
  rw [skipValue_of_spells layout' spelled follows]
  rfl

/-- Decode a member if it gives a certain field. -/
def Decoder.step (decode : Decoder α) (name : String) (known : Option α) (key : String) :
    Decoder (Option α) := fun value =>
  if key = name then decode.once known value else some known

/-- A field that is known must not be among the members that are left. -/
theorem decodeMembers_step_some (decode : Decoder α) (name : String) (known : α)
    (members : List (String × Json)) :
    decodeMembers (decode.step name) (some known) members =
      if (members.filter (·.1 = name)).isEmpty then some (some known) else none := by
  induction members with
  | nil => rfl
  | cons entry members ih =>
    obtain ⟨key, value⟩ := entry
    by_cases same : key = name
    · simp [decodeMembers, Decoder.step, Decoder.once, same]
    · rw [List.filter_cons_of_neg (by simpa using same), ← ih]
      simp [decodeMembers, Decoder.step, same]

/-- Going from member to member finds what there is to find among all of them. -/
theorem decodeMembers_step (decode : Decoder α) (name : String) (members : List (String × Json)) :
    decodeMembers (decode.step name) none members = decode.field name members := by
  induction members with
  | nil => rfl
  | cons entry members ih =>
    obtain ⟨key, value⟩ := entry
    by_cases same : key = name
    · subst same
      cases others : members.filter (·.1 = key) <;> cases decoded : decode value <;>
        simp [decodeMembers, Decoder.step, Decoder.once, Decoder.field, decodeMembers_step_some,
          decoded, others]
    · simp [decodeMembers, Decoder.step, Decoder.field, same, ih]

/-- After the last field of a record the list must end. -/
theorem toOption_closeWith_of_items {first : Bool} {text : List Char} {items : List Json}
    (spelled : SpellsItems first text items) (value : α) (rest : List Char) :
    (closeWith closeList (.ok (value, text ++ ']' :: rest))).toOption =
      (if items = [] then some value else none).map (·, rest) := by
  cases spelled with
  | done layout =>
    rw [closeWith, closeList_of_layout layout]
    rfl
  | next leads spelled =>
    obtain ⟨c, left, rfl, start⟩ := spelled.exists_cons
    have comma : ',' ∉ [' ', '\n', '\t', '\r'] ∧ ',' ≠ ']' := by decide
    have noClosing : c ≠ ']' := start.ne (by decide)
    cases leads with
    | first layout =>
      simp only [closeWith, closeList, List.append_assoc, List.cons_append,
        skipLayout_append_cons layout start.not_layout, noClosing, ↓reduceIte]
      split <;> rename_i found <;> split at found <;> try split at found
      all_goals first | rfl | cases found
    | later layout layout' =>
      simp only [closeWith, closeList, List.append_assoc, List.cons_append,
        skipLayout_append_cons layout comma.1, skipLayout_append_cons layout' start.not_layout,
        comma.2, ↓reduceIte]
      rfl

end RibMap.Json
