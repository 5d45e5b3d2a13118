import RibMap.Proofs.Json.Rules
import RibMap.Proofs.Reference.Json.Records

/-! # The readers of shapes

The reader that is made for a shape agrees with decoding data of the shape, if no name occurs twice
in it. For a record this takes two arguments: what is known of the fields on the way through an
object makes for the fields that are looked up in all of it, and every position of a list is read by
the reader of its field.
-/

namespace RibMap.Json

theorem Reader.Decodes.map {α β : Type} {reader : Reader α} {decode : Decoder α}
    (agrees : reader.Decodes decode) (f : α → β) :
    (reader.map f).Decodes fun value => (decode value).map f := by
  intro blank text rest value layout spelled follows
  rcases reading_cases (agrees layout spelled follows) with
    ⟨fault, failed, refused⟩ | ⟨found, done, decoded⟩
  · simp only [Reader.map, failed, refused]
    rfl
  · simp only [Reader.map, done, decoded]
    rfl

section Objects

variable {α known σ : Type} {reader : Reader α} {decode : Decoder α} {others : FieldReader known}
  {decodeOthers : known → String → Decoder known} {name : String}

theorem FieldReader.none_decodes : FieldReader.none.Decodes fun known _ _ => some known :=
  fun layout layout' spelled follows => toOption_ignoreField layout layout' spelled follows ()

/-- Decode a member that is a certain field or belongs to others. -/
def decodeField (decode : Decoder α) (decodeOthers : known → String → Decoder known)
    (name : String) (fields : Option α × known) (key : String) : Decoder (Option α × known) :=
  fun value =>
    if key = name then (decode.once fields.1 value).map (·, fields.2)
    else (decodeOthers fields.2 key value).map (fields.1, ·)

theorem FieldReader.Decodes.field (agrees : others.Decodes decodeOthers)
    (reads : reader.Decodes decode) :
    (FieldReader.field name reader others).Decodes (decodeField decode decodeOthers name) := by
  intro before after text rest fields key value layout layout' spelled follows
  rw [FieldReader.field, decodeField]
  by_cases same : key = name
  · simp only [same, ↓reduceIte]
    exact toOption_storeField reads layout layout' spelled follows name fields.1 (·, fields.2)
  · simp only [same, ↓reduceIte]
    have read : (others.read fields.2 key _).toOption = _ :=
      agrees layout layout' spelled follows
    rcases reading_cases read with ⟨fault, failed, refused⟩ | ⟨found, done, decoded⟩
    · simp only [failed, refused]
      rfl
    · simp only [done, decoded]
      rfl

/-- A field is found among the members whatever becomes of the other fields. -/
theorem decodeMembers_decodeField
    (skips : ∀ fields value, decodeOthers fields name value = some fields) (first : Option α)
    (fields : known) (members : List (String × Json)) :
    decodeMembers (decodeField decode decodeOthers name) (first, fields) members =
      (decodeMembers (decode.step name) first members).bind fun first =>
        (decodeMembers decodeOthers fields members).map (first, ·) := by
  induction members generalizing first fields with
  | nil => rfl
  | cons entry members ih =>
    obtain ⟨key, value⟩ := entry
    simp only [decodeMembers, decodeField, Decoder.step]
    by_cases same : key = name
    · subst same
      cases decode.once first value <;> simp [skips, ih]
    · cases decodeOthers fields key value <;> simp [same, ih]

end Objects

/-- The two forms of a record are read as they are decoded. -/
structure RecordReader.Decodes {known σ : Type} (reader : RecordReader known σ)
    (fields : Fields σ) : Prop where
  object : ∃ decode : known → String → Decoder known, reader.member.Decodes decode ∧
    (∀ key ∉ fields.names, ∀ known value, decode known key value = some known) ∧
    ∀ members, ((decodeMembers decode reader.start members).bind fun known =>
      (reader.finish known).toOption) = fields.ofMembers members
  list : ∀ {position : Nat} {wanted : String} {text : List Char} {items : List Json}
    (rest : List Char), SpellsItems (position = 0) text items →
    (closeWith closeList (reader.list.read position wanted (text ++ ']' :: rest))).toOption =
      (fields.ofItems items).map (·, rest)

theorem RecordReader.none_decodes : RecordReader.none.Decodes .nil where
  object := ⟨_, FieldReader.none_decodes, fun _ _ _ _ => rfl, fun members => by
    have kept : decodeMembers (fun known _ _ => some known) () members = some () := by
      induction members with
      | nil => rfl
      | cons entry members ih => exact ih
    change (decodeMembers (fun known _ _ => some known) () members).bind _ = _
    rw [kept]
    rfl⟩
  list rest spelled := by
    refine (toOption_closeWith_of_items spelled () rest).trans ?_
    rename_i items
    cases items <;> rfl

/-- What is put in front of the values of others changes nothing about where the list ends. -/
theorem toOption_closeWith_pair {α σ : Type} (value : α) (reading : Reading σ) :
    (closeWith closeList (reading.map fun read => ((value, read.1), read.2))).toOption =
      (closeWith closeList reading).toOption.map fun read => ((value, read.1), read.2) := by
  cases reading with
  | error fault => cases fault <;> rfl
  | ok read =>
    simp only [Except.map, closeWith]
    split <;> rfl

section Field

variable {α known σ : Type} {reader : Reader α} {shape : Shape α} {others : RecordReader known σ}
  {fields : Fields σ}

/-- The item of a field is read in its turn, or the default stands for it at the end of the list. -/
theorem RecordReader.Decodes.toOption_closeWith_field (agrees : others.Decodes fields)
    (reads : reader.Decodes shape.decode) {name wanted : String} (default? : Option α)
    {position : Nat} {text : List Char} {items : List Json} (rest : List Char)
    (spelled : SpellsItems (position = 0) text items) :
    (closeWith closeList ((ListReader.field default? reader others.list).read position wanted
      (text ++ ']' :: rest))).toOption =
      ((Fields.field name default? shape fields).ofItems items).map (·, rest) := by
  simp only [ListReader.field]
  cases spelled with
  | done layout =>
    rw [readPosition, nextItem_of_layout layout]
    dsimp only
    cases default? with
    | none => rfl
    | some value =>
      have behind : SpellsItems (position + 1 = 0) text [] := .done layout
      simp only [Option.none_or]
      rw [toOption_closeWith_pair, agrees.list rest behind, Fields.ofItems]
      cases fields.ofItems [] <;> rfl
  | @next _ lead text left item items leads spelled more =>
    rw [List.append_assoc, List.append_assoc, readPosition, nextItem_of_lead leads spelled]
    dsimp only
    rcases reads.cases spelled (more.followsValue rest) with
      ⟨fault, failed, refused⟩ | ⟨value, done, decoded⟩
    · rw [failed, Fields.ofItems, refused]
      cases fault <;> rfl
    · have behind : SpellsItems (position + 1 = 0) left items := by
        rwa [decide_eq_false (Nat.succ_ne_zero position)]
      rw [done, Fields.ofItems, decoded]
      simp only [Option.some_or]
      rw [toOption_closeWith_pair, agrees.list rest behind]
      cases fields.ofItems items <;> rfl

theorem RecordReader.Decodes.field (agrees : others.Decodes fields)
    (reads : reader.Decodes shape.decode) {name : String} (fresh : name ∉ fields.names)
    (default? : Option α) :
    (RecordReader.field name default? shape.missing? reader others).Decodes
      (.field name default? shape fields) where
  object := by
    obtain ⟨decode, member, skips, finishes⟩ := agrees.object
    refine ⟨_, member.field reads, fun key other known value => ?_, fun members => ?_⟩
    · rw [Fields.names, List.mem_cons, not_or] at other
      simp only [decodeField, other.1, ↓reduceIte, skips key other.2, Option.map_some]
    · have start : (RecordReader.field name default? shape.missing? reader others).start =
          (Option.none, others.start) := rfl
      rw [start, decodeMembers_decodeField (skips name fresh), decodeMembers_step, Fields.ofMembers,
        ← finishes]
      cases Decoder.field shape.decode name members with
      | none => rfl
      | some found? =>
        simp only [bind, pure, Option.bind_some]
        cases decodeMembers decode others.start members with
        | none => cases (found?.or default?).or shape.missing? <;> rfl
        | some known =>
          simp only [Option.map_some, Option.bind_some, RecordReader.field]
          cases (found?.or default?).or shape.missing? with
          | none => rfl
          | some value => cases others.finish known <;> simp [Except.map, Except.toOption]
  list rest spelled := agrees.toOption_closeWith_field reads default? rest spelled

end Field

/-- A record is read in either of its forms. -/
theorem RecordReader.Decodes.reader {known σ : Type} {reader : RecordReader known σ}
    {fields : Fields σ} (agrees : reader.Decodes fields) (name : String) :
    (reader.shape name).reader.Decodes (.record fields.ofItems fields.ofMembers) := by
  apply RecordShape.reader_decodes
  · intro text items rest spelled
    exact agrees.list rest spelled
  · intro text members rest spelled
    obtain ⟨decode, member, -, finishes⟩ := agrees.object
    obtain ⟨blank, layout, read⟩ := readMembers_of_spellsMembers member spelled reader.start rest
    refine toOption_closeWith ?_ (closeObject_of_layout layout rest)
    change (reader.readObject _).toOption = _
    rw [← finishes, RecordReader.readObject]
    rcases reading_cases read with ⟨fault, failed, refused⟩ | ⟨known, done, decoded⟩
    · rw [failed, refused]
      rfl
    · rw [done, decoded]
      dsimp only [Option.bind_some]
      cases reader.finish known <;> rfl

section Choices

variable {σ : Type} {variants : ChoiceReader σ} {decode : String → Option Json → Option σ}

/-- What belongs to a variant is read as it is decoded. -/
def VariantReader.Decodes (variant : VariantReader σ) (decode : Option Json → Option σ) : Prop :=
  match variant with
  | .bare value => ∀ content?, decode content? = (decodeNothing content?).map fun _ => value
  | .holding reader => decode none = none ∧ reader.Decodes fun content => decode (some content)

/-- The variant of a name is read as it is decoded, and there is none where none is decoded. -/
def ChoiceReader.Decodes (variants : ChoiceReader σ)
    (decode : String → Option Json → Option σ) : Prop :=
  ∀ name, match variants.find? (·.1 = name) with
    | none => ∀ content?, decode name content? = none
    | some (_, variant) => variant.Decodes (decode name)

namespace ChoiceReader

/-- Of a spelled value only `null` is read as `null`. -/
theorem toOption_readNull {blank text rest : List Char} {content : Json} (layout : Layout blank)
    (spelled : Spells text content) :
    (readNull (blank ++ (text ++ rest))).toOption =
      (decodeNothing (some content)).map fun _ => rest := by
  obtain ⟨c, left, same, start⟩ := spelled.exists_cons
  obtain ⟨null, -⟩ := start.marks
  rw [readNull, spelled.skipLayout_eq layout]
  cases content with
  | null =>
    cases spelled
    rfl
  | boolean | number | string | array | object =>
    have other : c ≠ 'n' := by simp [null]
    rw [same, List.cons_append]
    split
    · rename_i found
      cases found
      contradiction
    · rfl

theorem toOption_readContent {variant : VariantReader σ} {decode : Option Json → Option σ}
    (agrees : variant.Decodes decode) {blank text rest : List Char} {content : Json}
    (layout : Layout blank) (spelled : Spells text content) (follows : FollowsValue rest) :
    (readContent variant (blank ++ (text ++ rest))).toOption =
      (decode (some content)).map (·, rest) := by
  cases variant with
  | bare value =>
    have null : (readNull (blank ++ (text ++ rest))).toOption = _ :=
      toOption_readNull layout spelled
    rw [agrees, readContent]
    cases read : readNull (blank ++ (text ++ rest)) <;> rw [read] at null <;>
      cases nothing : decodeNothing (some content) <;> rw [nothing] at null <;> cases null <;> rfl
  | holding reader => exact agrees.2 layout spelled follows

/-- The name of a variant is read behind blanks. -/
theorem readName_of_spellsText {blank text : List Char} {name : String} (layout : Layout blank)
    (spelled : SpellsText text name) (rest : List Char) :
    (variants.readName (blank ++ (text ++ rest))).toOption =
      (variants.find? (·.1 = name)).map fun (_, variant) => (variant, rest) := by
  obtain ⟨body, rfl, read⟩ := read_of_spellsText spelled
  rw [readName, readTextAs, List.cons_append, skipLayout_append_cons (c := '"') layout (by decide)]
  simp only [(read rest).1]
  cases variants.find? (·.1 = name) <;> rfl

/-- The variant that is read for a name, if there is one. -/
theorem Decodes.cases (agrees : variants.Decodes decode) {blank text : List Char} {name : String}
    (layout : Layout blank) (spelled : SpellsText text name) (rest : List Char) :
    (∃ fault, variants.readName (blank ++ (text ++ rest)) = .error fault ∧
      ∀ content?, decode name content? = none) ∨
    ∃ variant : VariantReader σ, variants.readName (blank ++ (text ++ rest)) = .ok (variant, rest) ∧
      variant.Decodes (decode name) := by
  have read : (variants.readName (blank ++ (text ++ rest))).toOption = _ :=
    readName_of_spellsText layout spelled rest
  have known := agrees name
  cases found : variants.find? (·.1 = name) with
  | none =>
    rw [found] at read known
    cases failed : variants.readName (blank ++ (text ++ rest)) with
    | error fault => exact .inl ⟨fault, rfl, known⟩
    | ok done =>
      rw [failed] at read
      cases read
  | some entry =>
    rw [found] at read known
    cases done : variants.readName (blank ++ (text ++ rest)) with
    | error fault =>
      rw [done] at read
      cases read
    | ok got =>
      rw [done] at read
      cases read
      exact .inr ⟨entry.2, rfl, known⟩

/-- The object form of a choice has exactly one member. -/
theorem toOption_readMember (agrees : variants.Decodes decode) {text : List Char}
    {members : List (String × Json)} (spelled : SpellsMembers true text members)
    (rest : List Char) :
    (variants.readMember (text ++ '\x7d' :: rest)).toOption =
      (Decoder.choice decode (.object members)).map (·, rest) := by
  cases spelled with
  | done layout =>
    rw [readMember, readName, readTextAs, skipLayout_append_cons (c := '\x7d') layout (by decide)]
    rfl
  | @next _ lead name before after text left key value members leads named layout layout' spelled
      more =>
    cases leads with
    | first blank =>
      simp only [List.append_assoc, List.cons_append]
      rw [readMember]
      rcases agrees.cases blank named
          (before ++ ':' :: (after ++ (text ++ (left ++ '\x7d' :: rest))))
        with ⟨fault, failed, refused⟩ | ⟨variant, done, known⟩
      · rw [failed]
        cases members <;> simp [Decoder.choice, refused, Except.toOption]
      · rw [done]
        dsimp only
        rw [readColon_append layout]
        dsimp only
        have content := toOption_readContent known layout' spelled (more.followsValue rest)
        rcases reading_cases content with ⟨fault, failed, refused⟩ | ⟨datum, done, decoded⟩
        · rw [failed]
          cases members <;> simp [Decoder.choice, refused, Except.toOption]
        · rw [done]
          dsimp only
          -- Behind the only member there must be the closing bracket.
          cases more with
          | done layout =>
            rw [skipLayout_append_cons (c := '\x7d') layout (by decide)]
            simp [Decoder.choice, decoded, Except.toOption]
          | next leads =>
            cases leads with
            | later layout =>
              simp only [List.append_assoc, List.cons_append,
                skipLayout_append_cons (c := ',') layout (by decide)]
              rfl

/-- A choice is read in either of its forms. -/
theorem Decodes.reader (agrees : variants.Decodes decode) :
    variants.reader.Decodes (.choice decode) := by
  intro blank text rest value layout spelled follows
  obtain ⟨c, left, same, start⟩ := spelled.exists_cons
  obtain ⟨-, quote, -, brace⟩ := start.marks
  change (variants.read (blank ++ (text ++ rest))).toOption = _
  rw [ChoiceReader.read, spelled.skipLayout_eq layout]
  cases value with
  | string name =>
    cases spelled with
    | string named =>
      have variant := agrees.cases layout_nil named rest
      obtain ⟨body, rfl, -⟩ := read_of_spellsText named
      simp only [List.cons_append, List.nil_append] at variant ⊢
      rcases variant with ⟨fault, failed, refused⟩ | ⟨variant, done, known⟩
      · rw [failed, Decoder.choice, refused]
        rfl
      · rw [done, Decoder.choice]
        cases variant with
        | bare value =>
          rw [known none]
          rfl
        | holding reader =>
          rw [known.1]
          rfl
  | object members =>
    cases spelled with
    | object spelled =>
      simp only [List.cons_append, List.append_assoc, List.nil_append]
      exact toOption_readMember agrees spelled rest
  | null | boolean | number | array =>
    have noText : c ≠ '"' := by simp [quote]
    have noObject : c ≠ '\x7b' := by simp [brace]
    rw [same, List.cons_append]
    split
    · rename_i found
      cases found
    · rename_i found
      cases found
      contradiction
    · rename_i found
      cases found
      contradiction
    · rfl

end ChoiceReader

theorem VariantReader.Decodes.other {α : Type} {variant : VariantReader σ}
    {decode : Option Json → Option σ} (agrees : variant.Decodes decode) :
    (variant.other : VariantReader (α ⊕ σ)).Decodes fun content? => (decode content?).map .inr := by
  cases variant with
  | bare value =>
    intro content?
    dsimp only
    rw [agrees content?, Option.map_map]
    rfl
  | holding reader =>
    refine ⟨?_, Reader.Decodes.map agrees.2 Sum.inr⟩
    dsimp only
    rw [agrees.1]
    rfl

/-- A variant in front of others hides those of the same name. -/
theorem ChoiceReader.Decodes.cons {α : Type} {name : String} {variant : VariantReader (α ⊕ σ)}
    {others : String → Option Json → Option σ} {here : Option Json → Option (α ⊕ σ)}
    (agrees : variants.Decodes others) (own : variant.Decodes here) :
    ChoiceReader.Decodes
      ((name, variant) :: variants.map fun (name, variant) => (name, variant.other))
      fun key content? => if name = key then here content? else (others key content?).map .inr := by
  intro key
  by_cases same : name = key
  · subst same
    simpa using own
  · have behind := agrees key
    have search : ((name, variant) ::
        variants.map fun (name, variant) => (name, variant.other)).find? (·.1 = key) =
          (variants.find? (·.1 = key)).map fun (name, variant) => (name, variant.other) := by
      rw [List.find?_cons_of_neg (by simpa using same), List.find?_map]
      rfl
    simp only [search, same, ↓reduceIte]
    cases found : variants.find? (·.1 = key) with
    | none =>
      rw [found] at behind
      intro content?
      rw [behind content?]
      rfl
    | some entry =>
      rw [found] at behind
      exact VariantReader.Decodes.other behind

end Choices

mutual

/-- The reader of a shape agrees with decoding data of the shape. -/
theorem Shape.reader_decodes {α : Type} :
    ∀ shape : Shape α, shape.distinct = true → shape.reader.Decodes shape.decode
  | .text, _ => textReader_decodes
  | .optional content, distinct => Reader.Decodes.optional (content.reader_decodes distinct)
  | .list item, distinct => Reader.Decodes.list (item.reader_decodes distinct)
  | .record name fields, distinct => by
    obtain ⟨names, distinct⟩ := Bool.and_eq_true_iff.mp distinct
    exact (fields.reader_decodes (of_decide_eq_true names) distinct).reader name
  | .choice variants, distinct => by
    obtain ⟨-, distinct⟩ := Bool.and_eq_true_iff.mp distinct
    exact (variants.readers_decodes distinct).reader

theorem Fields.reader_decodes {σ : Type} :
    ∀ fields : Fields σ, fields.names.Nodup → fields.distinct = true →
      fields.reader.Decodes fields
  | .nil, _, _ => RecordReader.none_decodes
  | .field name default? shape others, names, distinct => by
    obtain ⟨fresh, names⟩ := List.nodup_cons.mp names
    obtain ⟨here, behind⟩ := Bool.and_eq_true_iff.mp distinct
    exact (others.reader_decodes names behind).field (shape.reader_decodes here) fresh default?

theorem Variants.readers_decodes {σ : Type} :
    ∀ variants : Variants σ, variants.distinct = true → variants.readers.Decodes variants.decode
  | .nil, _ => fun _ _ => rfl
  | @Variants.bare σ own others, distinct =>
    have here : (VariantReader.bare (Sum.inl () : Unit ⊕ σ)).Decodes
        fun content? => (decodeNothing content?).map .inl := fun _ => rfl
    (others.readers_decodes distinct).cons here
  | @Variants.holding α σ own shape others, distinct => by
    obtain ⟨here, behind⟩ := Bool.and_eq_true_iff.mp distinct
    have reads : (VariantReader.holding (shape.reader.map Sum.inl : Reader (α ⊕ σ))).Decodes
        fun content? => (content?.bind shape.decode).map .inl :=
      ⟨rfl, Reader.Decodes.map (shape.reader_decodes here) Sum.inl⟩
    exact (others.readers_decodes behind).cons reads

end

end RibMap.Json
